import MqttBroker.Native.ServerThread

/-!
# The main thread beside the server thread

`AddClient` and `Start` as the main thread runs them, and `case broker_states::started`
as the server thread does, cut into the steps between which the other thread gets in:
every access to `clients`, to `state` and to the control socket is a step of its own.
Everything else the server thread does is a step of `ServerThread`.
-/

namespace Mqtt.Native

/-- Where the server thread is in `case broker_states::started`. -/
inductive StartedPc where
  | outside
  /-- Behind `GetClientCount`. -/
  | counted (client_num : Nat)
  /-- Behind the loop over `clients`, before `SetState`. -/
  | iterated
deriving DecidableEq

/-- Where the main thread is; the socket is that of the client it adds. -/
inductive MainPc where
  /-- In `WaitForClient`. -/
  | waiting
  /-- In `AddClient`, behind the insertion, before `state` is looked at. -/
  | inserted (sock : Fd)
  /-- Before `SendCommand("ADD", 3)`. -/
  | sendCommand (sock : Fd)
  /-- Behind `AddClient`, before `GetState`. -/
  | getState (sock : Fd)
  /-- In `Start`. -/
  | start (sock : Fd)
  /-- In `Start`, before the server thread is made. -/
  | thread (sock : Fd)
deriving DecidableEq

/-- The client the main thread adds. -/
def MainPc.sock : MainPc → Option Fd
  | .waiting => none
  | .inserted sock | .sendCommand sock | .getState sock | .start sock | .thread sock => some sock

/-- The two threads, with the commands `ADD` that wait at the control socket. -/
structure EventLoop where
  thread : ServerThread
  within : StartedPc := .outside
  main : MainPc := .waiting
  pending : Nat := 0

/-- The label of a step. -/
inductive LoopEvent where
  /-- `AddClient`, the insertion into `clients`. -/
  | insert (sock : Fd) (ip : Bytes) (now : Time)
  /-- `AddClient`, the test for `wait_state`. -/
  | testState
  | sendCommand
  /-- The test for `init` in `main`. -/
  | getState
  /-- `Start`, up to the new state. -/
  | start
  | makeThread
  /-- `GetClientCount` in `started`. -/
  | count
  /-- `SetState(init)` and the end of the thread. -/
  | finish
  /-- The loop over `clients`. -/
  | iterate
  /-- `SetState(wait_state)`. -/
  | setWaitState
  /-- Any other step of the server thread. -/
  | server (e : ServerEvent)

namespace ServerThread

/-- The server thread is before `case broker_states::started`. -/
def atStarted (s : ServerThread) : Bool :=
  match s.pc, s.broker.state with
  | .loop, .started => true
  | _, _ => false

/-- The server thread reads `ADD` from the control socket. -/
def readsAdd (s : ServerThread) : ServerEvent → Bool
  | .socket (.pollin true _) =>
    match s.pc with
    | .scan _ i _ _ => s.vec_fds[i]? = some s.broker.control_sock
    | _ => false
  | _ => false

end ServerThread

namespace EventLoop

/-- No client has been accepted yet. -/
def init (control_sock : Fd) : EventLoop :=
  { thread := { broker := { control_sock }, pc := .returned } }

def setBroker (s : EventLoop) (broker : Broker) : EventLoop :=
  { s with thread := { s.thread with broker } }

/-! ## The main thread -/

/-- `AddClient`, the insertion; a socket that is there already is closed again. -/
def insert (s : EventLoop) (sock : Fd) (ip : Bytes) (now : Time) : Option EventLoop :=
  match s.main with
  | .waiting =>
    let (broker, new) := s.thread.broker.addClient sock ip now
    some { s.setBroker broker with main := if new then .inserted sock else .waiting }
  | _ => none

/-- `AddClient`, the test for `wait_state`; the command `ADD` is sent only there. -/
def testState (s : EventLoop) : Option EventLoop :=
  match s.main with
  | .inserted sock => some { s with
    main := if s.thread.broker.state = .wait_state then .sendCommand sock else .getState sock }
  | _ => none

/-- `SendCommand("ADD", 3)`, which the server thread reads at the control socket. -/
def sendCommand (s : EventLoop) : Option EventLoop :=
  match s.main with
  | .sendCommand sock => some { s with main := .getState sock, pending := s.pending + 1 }
  | _ => none

/-- `if (broker.GetState() == broker_states::init)` behind `AddClient`. -/
def getState (s : EventLoop) : Option EventLoop :=
  match s.main with
  | .getState sock => some { s with
    main := if s.thread.broker.state = .init then .start sock else .waiting }
  | _ => none

/-- `Start`, which does nothing unless the state is still `init`. -/
def start (s : EventLoop) : Option EventLoop :=
  match s.main with
  | .start sock =>
    if s.thread.broker.state = .init then
      some { s.setBroker (s.thread.broker.setState .started) with main := .thread sock }
    else some { s with main := .waiting }
  | _ => none

/-- The end of `Start`: the server thread begins with an empty `vec_fds`. -/
def makeThread (s : EventLoop) : Option EventLoop :=
  match s.main with
  | .thread _ => some { s with thread := { broker := s.thread.broker }, main := .waiting }
  | _ => none

/-! ## The server thread -/

/-- `vec_fds.clear()` and `GetClientCount`. -/
def count (s : EventLoop) : Option EventLoop :=
  if s.within = .outside ∧ s.thread.atStarted then some { s with
    thread := { s.thread with vec_fds := [] }
    within := .counted s.thread.broker.getClientCount }
  else none

/-- Without clients: `SetState(init)` and the end of the thread. -/
def finish (s : EventLoop) : Option EventLoop :=
  if s.within = .counted 0 then some { s with
    thread := { s.thread with broker := s.thread.broker.setState .init, pc := .returned }
    within := .outside }
  else none

/-- The loop over `clients`, and the control socket behind it. -/
def iterate (s : EventLoop) : Option EventLoop :=
  match s.within with
  | .counted (_ + 1) =>
    let vec_fds := s.thread.broker.clients.toList.map Prod.fst ++ [s.thread.broker.control_sock]
    some { s with thread := { s.thread with vec_fds }, within := .iterated }
  | _ => none

/-- `SetState(wait_state)`. -/
def setWaitState (s : EventLoop) : Option EventLoop :=
  if s.within = .iterated then
    some { s.setBroker (s.thread.broker.setState .wait_state) with within := .outside }
  else none

/-- A step outside of `started`; a command that is read waits no longer. -/
def server (s : EventLoop) (e : ServerEvent) : Option EventLoop :=
  if s.within = .outside ∧ ¬ s.thread.atStarted ∧ (s.thread.readsAdd e → 0 < s.pending) then
    (s.thread.step e).toOption.join.map fun thread => { s with
      thread
      pending := if s.thread.readsAdd e then s.pending - 1 else s.pending }
  else none

/-- One step, when the event is possible. -/
def step (s : EventLoop) : LoopEvent → Option EventLoop
  | .insert sock ip now => s.insert sock ip now
  | .testState => s.testState
  | .sendCommand => s.sendCommand
  | .getState => s.getState
  | .start => s.start
  | .makeThread => s.makeThread
  | .count => s.count
  | .finish => s.finish
  | .iterate => s.iterate
  | .setWaitState => s.setWaitState
  | .server e => s.server e

end EventLoop

end Mqtt.Native
