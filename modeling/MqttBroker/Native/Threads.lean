import MqttBroker.Native.ServerThread

/-!
# The threads around the command queue

`Commands::Execute` with its condition variable, `Commands::Notify`, the threads
`Broker::Start` makes and the end of a server thread, one access to the queue or to
the condition variable a step. `com_mutex` is held in `Execute` from the test for an
empty queue to the `pop` or the `wait`, so that each of them is one step; `Notify`
does not lock it. Everything else is a step of `ServerThread` or of the broker.
-/

namespace Mqtt.Native

/-- Where a thread is in `Commands::Execute`. -/
inductive ExecutePc where
  /-- Before `commands.empty()`. -/
  | testing
  /-- In `cond.wait(lock)`. -/
  | waiting
  /-- In `p->Execute()`. -/
  | executing (p : FdWriteCommand)
  | returned
deriving DecidableEq

/-- A thread that calls `Execute`: a sender thread does so again and again, a server
    thread once, before it returns. -/
structure Executor where
  isSender : Bool
  pc : ExecutePc := .testing
deriving DecidableEq

/-- Where the server thread is in `Notify`. -/
inductive NotifyPc where
  | before
  /-- The queue was not empty. -/
  | notEmpty
  | behind
deriving DecidableEq

/-- The server thread in its loop and the other threads of the broker. -/
structure Threads where
  server : ServerThread
  executors : List Executor := []
  notify : NotifyPc := .before
  qos_thread_started : Bool := false
  /-- The main thread is in `Start`, behind the new server thread. -/
  starting : Bool := false

/-- The label of a step. -/
inductive ThreadsEvent where
  /-- A step of the server thread. -/
  | server (e : ServerEvent)
  /-- `Notify`, the test for an empty queue. -/
  | testEmpty
  /-- `cond.notify_all()`. -/
  | notifyAll
  /-- `AddClient`, by the main thread. -/
  | addClient (sock : Fd) (ip : Bytes) (now : Time)
  /-- `Start`, up to the server thread. -/
  | start
  /-- `Start`, `QoSThread` and the sender threads. -/
  | startThreads
  /-- A round of `QoSThread`. -/
  | qos
  /-- `Execute`, with an empty queue. -/
  | wait (id : Nat)
  /-- `cond.wait` comes back without a notification. -/
  | wake (id : Nat)
  /-- `Execute`, up to `lock.unlock()`. -/
  | pop (id : Nat)
  /-- The end of `p->Execute()`. -/
  | executed (id : Nat)
  /-- Hash maps are ordered anew. -/
  | rehash

namespace Executor

/-- `notify_all` reaches a thread in `cond.wait`. -/
def notified (ex : Executor) : Executor :=
  match ex.pc with
  | .waiting => { ex with pc := .testing }
  | _ => ex

/-- The end of `Execute`. -/
def next (ex : Executor) : Executor :=
  { ex with pc := if ex.isSender then .testing else .returned }

end Executor

namespace Threads

/-- No client has been accepted yet. -/
def init (control_sock : Fd) : Threads :=
  { server := { broker := { control_sock }, pc := .returned } }

/-- The server thread is before `broker.Notify()`, or in it. -/
def atNotify (s : Threads) : Bool :=
  match s.server.pc with
  | .close [] => true
  | _ => false

/-- A step of the server thread. With no clients left it goes into `Execute`, and
    the state is `init` by then. -/
def serverStep (s : Threads) (e : ServerEvent) : Option Threads :=
  if s.atNotify ∧ s.notify ≠ .behind then none
  else (s.server.step e).toOption.join.map fun server =>
    let executors := match server.pc with
      | .returned => s.executors ++ [{ isSender := false }]
      | _ => s.executors
    { s with server, executors, notify := .before }

/-- `if (!commands.empty())` in front of the notification. -/
def testEmpty (s : Threads) : Option Threads :=
  if s.atNotify ∧ s.notify = .before then
    some { s with notify := if s.server.broker.commands.isEmpty then .behind else .notEmpty }
  else none

/-- `cond.notify_all()`. -/
def notifyAll (s : Threads) : Option Threads :=
  if s.notify = .notEmpty then
    some { s with executors := s.executors.map Executor.notified, notify := .behind }
  else none

/-- `AddClient`, as a whole. -/
def addClient (s : Threads) (sock : Fd) (ip : Bytes) (now : Time) : Option Threads :=
  if s.starting then none
  else some { s with server :=
    { s.server with broker := (s.server.broker.addClient sock ip now).1 } }

/-- `Start`, up to the new state. -/
def start (s : Threads) : Option Threads :=
  if s.server.broker.state = .init ∧ ¬ s.starting then some { s with
    server := { broker := s.server.broker.setState .started }
    starting := true }
  else none

/-- `Start`, the threads it makes: the first time two senders and the QoS thread. -/
def startThreads (s : Threads) : Option Threads :=
  if s.starting then
    if s.qos_thread_started then some { s with starting := false }
    else some { s with
      executors := s.executors ++ [{ isSender := true }, { isSender := true }]
      qos_thread_started := true
      starting := false }
  else none

/-- A pass of the QoS thread. -/
def qos (s : Threads) : Option Threads :=
  if s.qos_thread_started then
    s.server.broker.qosThread.toOption.map fun broker =>
      { s with server := { s.server with broker } }
  else none

/-- The thread `id` is somewhere else in `Execute`. -/
def setPc (s : Threads) (id : Nat) (ex : Executor) (pc : ExecutePc) : Threads :=
  { s with executors := s.executors.set id { ex with pc } }

/-- `cond.wait` on an empty queue. -/
def wait (s : Threads) (id : Nat) : Option Threads :=
  match s.executors[id]?, s.server.broker.commands with
  | some ex, [] => if ex.pc = .testing then some (s.setPc id ex .waiting) else none
  | _, _ => none

/-- A waiting thread looks at the queue again, told or not. -/
def wake (s : Threads) (id : Nat) : Option Threads :=
  match s.executors[id]? with
  | some ex => if ex.pc = .waiting then some (s.setPc id ex .testing) else none
  | none => none

/-- A thread takes the first command. -/
def pop (s : Threads) (id : Nat) : Option Threads :=
  match s.executors[id]?, s.server.broker.commands with
  | some ex, p :: commands =>
    if ex.pc = .testing then some { s.setPc id ex (.executing p) with
      server := { s.server with broker := { s.server.broker with commands } } }
    else none
  | _, _ => none

/-- A thread is done with its command. -/
def executed (s : Threads) (id : Nat) : Option Threads :=
  match s.executors[id]? with
  | some ex =>
    match ex.pc with
    | .executing _ => some { s with executors := s.executors.set id ex.next }
    | _ => none
  | none => none

/-- One step of a thread, when the event is possible. -/
def step (s : Threads) : ThreadsEvent → Option Threads
  | .server e => s.serverStep e
  | .testEmpty => s.testEmpty
  | .notifyAll => s.notifyAll
  | .addClient sock ip now => s.addClient sock ip now
  | .start => s.start
  | .startThreads => s.startThreads
  | .qos => s.qos
  | .wait id => s.wait id
  | .wake id => s.wake id
  | .pop id => s.pop id
  | .executed id => s.executed id
  | .rehash => none

end Threads

end Mqtt.Native
