import MqttBroker.ForStd.SleepingQueue
import MqttBroker.Native.Threads
import MqttBroker.Spec.EventLoop
import MqttBroker.Spec.Queued

/-!
# The sender threads

The threads of `Threads` around the command queue. A handler queues its commands
without a notification, and the server thread notifies the sender threads at the end of
its pass, without locking the mutex. No wakeup is lost all the same: between two passes
no thread waits in `Execute` while a command is queued. From there on the threads in
`Execute` empty the queue by themselves, in the order of the commands, and it takes them
a number of steps that is known beforehand.
-/

namespace Mqtt.Spec

open Mqtt.Native Mqtt.Native.Broker

/-- The broker with all its threads, from its start on. -/
def threads : LTS Threads ThreadsEvent where
  Init s := ∃ control_sock, s = .init control_sock
  Step s e t := s.step e = some t ∨ (e = .rehash ∧ ∃ broker, Rehashed s.server.broker broker ∧
    t = { s with server := { s.server with broker } })

theorem step_of_threads {s t : Threads} {e : ThreadsEvent} (h : s.step e = some t) :
    threads.Step s e t := .inl h

/-! ## What a step is -/

/-- What a step of one of the threads is. -/
inductive ThreadsCase (s : Threads) : ThreadsEvent → Threads → Prop
  | server {e : ServerEvent} {server : ServerThread} :
      (s.atNotify = true → s.notify = .behind) → s.server.step e = .ok (some server) →
      server.pc ≠ .returned → ThreadsCase s (.server e) { s with server, notify := .before }
  | ends {e : ServerEvent} {server : ServerThread} :
      (s.atNotify = true → s.notify = .behind) → s.server.step e = .ok (some server) →
      server.pc = .returned → ThreadsCase s (.server e) { s with
        server
        executors := s.executors ++ [{ isSender := false }]
        notify := .before }
  | testEmpty : s.atNotify = true → s.notify = .before → s.server.broker.commands = [] →
      ThreadsCase s .testEmpty { s with notify := .behind }
  | testNotEmpty : s.atNotify = true → s.notify = .before → s.server.broker.commands ≠ [] →
      ThreadsCase s .testEmpty { s with notify := .notEmpty }
  | notifyAll : s.notify = .notEmpty → ThreadsCase s .notifyAll { s with
      executors := s.executors.map Executor.notified
      notify := .behind }
  | addClient {sock : Fd} {ip : Bytes} {now : Time} :
      ThreadsCase s (.addClient sock ip now) { s with server :=
        { s.server with broker := (s.server.broker.addClient sock ip now).1 } }
  | start : s.server.broker.state = .init → s.starting = false → ThreadsCase s .start { s with
      server := { broker := s.server.broker.setState .started }
      starting := true }
  | startThreads : s.starting = true → s.qos_thread_started = false →
      ThreadsCase s .startThreads { s with
        executors := s.executors ++ [{ isSender := true }, { isSender := true }]
        qos_thread_started := true
        starting := false }
  | startNoThreads : s.starting = true → s.qos_thread_started = true →
      ThreadsCase s .startThreads { s with starting := false }
  | qos {broker : Broker} : s.server.broker.qosThread = .ok broker →
      ThreadsCase s .qos { s with server := { s.server with broker } }
  | wait {id : Nat} {ex : Executor} : s.executors[id]? = some ex → ex.pc = .testing →
      s.server.broker.commands = [] → ThreadsCase s (.wait id) (s.setPc id ex .waiting)
  | wake {id : Nat} {ex : Executor} : s.executors[id]? = some ex → ex.pc = .waiting →
      ThreadsCase s (.wake id) (s.setPc id ex .testing)
  | pop {id : Nat} {ex : Executor} {p : FdWriteCommand} {commands : List FdWriteCommand} :
      s.executors[id]? = some ex → ex.pc = .testing → s.server.broker.commands = p :: commands →
      ThreadsCase s (.pop id) { s.setPc id ex (.executing p) with
        server := { s.server with broker := { s.server.broker with commands } } }
  | executed {id : Nat} {ex : Executor} {p : FdWriteCommand} : s.executors[id]? = some ex →
      ex.pc = .executing p →
      ThreadsCase s (.executed id) { s with executors := s.executors.set id ex.next }
  | rehash {broker : Broker} : Rehashed s.server.broker broker →
      ThreadsCase s .rehash { s with server := { s.server with broker } }

/-- A step of the server thread is one of the cases. -/
private theorem case_server {s t : Threads} {e : ServerEvent} (h : s.serverStep e = some t) :
    ThreadsCase s (.server e) t := by
  simp only [Threads.serverStep, Option.ite_none_left_eq_some, not_and, not_not] at h
  obtain ⟨hnotify, h⟩ := h
  obtain ⟨server, hstep, rfl⟩ := Option.map_eq_some_iff.mp h
  have hok : s.server.step e = .ok (some server) :=
    step_of_systemStep_server (s := s.server) (e := e) hstep
  cases hpc : server.pc with
  | returned => exact .ends hnotify hok hpc
  | loop | scan | close => exact .server hnotify hok (by rw [hpc]; nofun)

/-- Each step of the threads is one of the cases. -/
theorem threads_cases {s t : Threads} {e : ThreadsEvent} (h : threads.Step s e t) :
    ThreadsCase s e t := by
  obtain h | ⟨rfl, broker, hb, rfl⟩ := h
  -- one case for each branch of `Threads.step`; the tests of the branch are its premises
  · cases e with
    | server e => exact case_server h
    | testEmpty =>
      simp only [Threads.step, Threads.testEmpty, Option.ite_none_right_eq_some] at h
      obtain ⟨⟨hat, hnotify⟩, ht⟩ := h
      obtain rfl := Option.some.inj ht
      cases hq : s.server.broker.commands with
      | nil => exact .testEmpty hat hnotify hq
      | cons p commands => exact .testNotEmpty hat hnotify (by rw [hq]; nofun)
    | notifyAll =>
      simp only [Threads.step, Threads.notifyAll, Option.ite_none_right_eq_some] at h
      obtain ⟨hnotify, ht⟩ := h
      obtain rfl := Option.some.inj ht
      exact .notifyAll hnotify
    | addClient sock ip now =>
      simp only [Threads.step, Threads.addClient, Option.ite_none_left_eq_some] at h
      obtain ⟨-, ht⟩ := h
      obtain rfl := Option.some.inj ht
      exact .addClient
    | start =>
      simp only [Threads.step, Threads.start, Option.ite_none_right_eq_some,
        Bool.not_eq_true] at h
      obtain ⟨⟨hstate, hstarting⟩, ht⟩ := h
      obtain rfl := Option.some.inj ht
      exact .start hstate hstarting
    | startThreads =>
      simp only [Threads.step, Threads.startThreads, Option.ite_none_right_eq_some] at h
      obtain ⟨hstarting, h⟩ := h
      split at h
      · rename_i hstarted
        obtain rfl := Option.some.inj h
        exact .startNoThreads hstarting hstarted
      · rename_i hstarted
        obtain rfl := Option.some.inj h
        exact .startThreads hstarting (by simpa using hstarted)
    | qos =>
      simp only [Threads.step, Threads.qos, Option.ite_none_right_eq_some] at h
      obtain ⟨broker, hqos, rfl⟩ := Option.map_eq_some_iff.mp h.2
      cases hrun : s.server.broker.qosThread with
      | error fault => simp [hrun, Except.toOption] at hqos
      | ok b =>
        -- the thread is done when the assertions in it hold
        obtain rfl : b = broker := by simpa [hrun, Except.toOption] using hqos
        exact .qos hrun
    -- the steps of `Execute` are those of a thread that is at the place
    | wait id =>
      simp only [Threads.step, Threads.wait] at h
      split at h
      · rename_i ex hex hq
        obtain ⟨hpc, ht⟩ := Option.ite_none_right_eq_some.mp h
        obtain rfl := Option.some.inj ht
        exact .wait hex hpc hq
      · cases h
    | wake id =>
      simp only [Threads.step, Threads.wake] at h
      split at h
      · rename_i ex hex
        obtain ⟨hpc, ht⟩ := Option.ite_none_right_eq_some.mp h
        obtain rfl := Option.some.inj ht
        exact .wake hex hpc
      · cases h
    | pop id =>
      simp only [Threads.step, Threads.pop] at h
      split at h
      · rename_i ex p commands hex hq
        obtain ⟨hpc, ht⟩ := Option.ite_none_right_eq_some.mp h
        obtain rfl := Option.some.inj ht
        exact .pop hex hpc hq
      · cases h
    | executed id =>
      simp only [Threads.step, Threads.executed] at h
      split at h
      · rename_i ex hex
        split at h
        · rename_i p hpc
          obtain rfl := Option.some.inj h
          exact .executed hex hpc
        · cases h
      · cases h
    | rehash => cases h
  · exact .rehash hb

/-! ## The threads refine the system -/

/-- A step of the threads is one of the system or leaves the server as it is. -/
theorem system_of_threadsCase {s t : Threads} {e : ThreadsEvent} (h : ThreadsCase s e t) :
    t.server = s.server ∨ ∃ e', system.Step s.server e' t.server := by
  cases h with
  | server _ hstep | ends _ hstep => exact .inr ⟨_, system_of_server hstep⟩
  | addClient => exact .inr ⟨.addClient _ _ _, .inl rfl⟩
  | start hstate => exact .inr ⟨.start, .inl (by simp [systemStep, hstate])⟩
  | qos hqos => exact .inr ⟨.qos, .inl (by simp [systemStep, hqos, Except.toOption])⟩
  | pop _ _ hq => exact .inr ⟨.execute, .inl (by simp [systemStep, hq])⟩
  | rehash hb => exact .inr ⟨.rehash, .inr ⟨rfl, _, hb, rfl⟩⟩
  | testEmpty | testNotEmpty | notifyAll | startThreads | startNoThreads | wait | wake
    | executed => exact .inl rfl

/-- Each step of the threads keeps the server in a run of the system. -/
theorem system_of_step {s t : Threads} {e : ThreadsEvent} (h : system.Reachable s.server)
    (hstep : threads.Step s e t) : system.Reachable t.server := by
  obtain heq | ⟨e', hstep'⟩ := system_of_threadsCase (threads_cases hstep)
  · rw [heq]
    exact h
  · exact h.step hstep'

/-- With the condition variable the broker does nothing that it does not do without. -/
theorem system_of_threads {s : Threads} (h : threads.Reachable s) :
    system.Reachable s.server := by
  refine h.invariant (P := fun s => system.Reachable s.server) ?_ ?_
  · rintro _ ⟨control_sock, rfl⟩
    exact .init ⟨control_sock, rfl⟩
  · intro s e t hs hstep
    exact system_of_step hs hstep

/-! ## What was queued and taken -/

/-- What has gone through the queue. -/
structure QueueHistory where
  added : List FdWriteCommand := []
  taken : List FdWriteCommand := []
  /-- In a `Notify` that has found commands: how many had been added. -/
  looked : Option Nat := none
  /-- How many commands had been added at the last `Notify`. -/
  notified : Nat := 0

namespace QueueHistory

/-- Commands are queued. -/
def add (g : QueueHistory) (b b' : Broker) : QueueHistory :=
  { g with added := g.added ++ b'.commands.drop b.commands.length }

/-- Nothing is noted where the queue stays. -/
theorem add_same {b b' : Broker} (g : QueueHistory) (h : b'.commands = b.commands) :
    g.add b b' = g := by
  rw [add, h, List.drop_length, List.append_nil]

end QueueHistory

/-- What is queued and taken is noted, and what the test of the queue has seen. -/
def noteQueue (s : Threads) (e : ThreadsEvent) (t : Threads) (g : QueueHistory) : QueueHistory :=
  match e with
  | .pop _ => { g with taken := g.taken ++ s.server.broker.commands.take 1 }
  | .testEmpty =>
    if s.server.broker.commands.isEmpty then { g with notified := g.added.length }
    else { g with looked := some g.added.length }
  | .notifyAll => { g with looked := none, notified := g.looked.getD g.notified }
  | .wait _ | .wake _ | .executed _ => g
  | .server _ | .addClient _ _ _ | .start | .startThreads | .qos | .rehash =>
    g.add s.server.broker t.server.broker

/-- The threads, with what has gone through the queue. -/
def threadsHistory : LTS (Threads × QueueHistory) ThreadsEvent := threads.observe noteQueue {}

/-- A thread in `Execute` is a worker. -/
def worker (ex : Executor) : SleepingQueue.Worker FdWriteCommand :=
  match ex.pc with
  | .testing => .awake
  | .waiting => .asleep
  | .executing p => .busy p
  | .returned => .gone

/-- The command queue with the threads in `Execute`. -/
def queueOf (s : Threads) (g : QueueHistory) : SleepingQueue.State FdWriteCommand where
  queue := s.server.broker.commands
  workers := s.executors.map worker
  looked := g.looked
  put := g.added
  taken := g.taken
  notified := g.notified

/-- `notify_all` is what rouses a worker. -/
theorem worker_notified (ex : Executor) : worker ex.notified = (worker ex).rouse := by
  cases hpc : ex.pc <;> simp [worker, Executor.notified, hpc, SleepingQueue.Worker.rouse]

/-- A thread that moves on is a worker that does. -/
theorem queueOf_setPc (s : Threads) (g : QueueHistory) (id : Nat) (ex : Executor) (pc : ExecutePc) :
    queueOf (s.setPc id ex pc) g =
      { queueOf s g with workers := (queueOf s g).workers.set id (worker { ex with pc }) } := by
  simp only [queueOf, Threads.setPc, List.map_set]

/-- The worker of a thread. -/
theorem workers_queueOf {s : Threads} {g : QueueHistory} {id : Nat} {ex : Executor}
    (h : s.executors[id]? = some ex) : (queueOf s g).workers[id]? = some (worker ex) := by
  rw [queueOf, List.getElem?_map, h, Option.map_some]

/-! ## The queue with its workers -/

/-- Outside of a pass, or at its end behind `Notify`. -/
def BetweenPasses (s : Threads) : Prop :=
  s.server.pc = .loop ∨ s.server.pc = .returned ∨ s.notify = .behind

/-- The command queue is a queue whose workers sleep, and what the server thread does
    with it fits where the thread is. -/
structure QueueInv (s : Threads) (g : QueueHistory) : Prop where
  reachable : (SleepingQueue.system FdWriteCommand).Reachable (queueOf s g)
  at_notify : s.notify ≠ .before → s.atNotify = true
  looked : g.looked = if s.notify = .notEmpty then some g.added.length else none
  /-- Between two passes all commands have been notified. -/
  notified : BetweenPasses s → g.notified = g.added.length

/-- The test of the queue stands behind the last closed connection. -/
theorem atNotify_iff (s : Threads) : s.atNotify = true ↔ s.server.pc = .close [] := by
  unfold Threads.atNotify
  split
  · rename_i hpc
    simp [hpc]
  · rename_i hpc
    simpa using hpc

/-- A step that queues commands, and nothing else. -/
private theorem reachable_put {s t : Threads} {g : QueueHistory}
    (h : (SleepingQueue.system FdWriteCommand).Reachable (queueOf s g))
    (hcommands : s.server.broker.commands <+: t.server.broker.commands)
    (hexecutors : t.executors = s.executors) :
    (SleepingQueue.system FdWriteCommand).Reachable
      (queueOf t (g.add s.server.broker t.server.broker)) := by
  obtain ⟨jobs, hjobs⟩ := hcommands
  have hput := h.step (.put jobs)
  simpa [queueOf, QueueHistory.add, hexecutors, ← hjobs] using hput

/-- Outside of the scan the server thread queues nothing. -/
theorem serverStep_between {s t : ServerThread} {e : ServerEvent} (h : s.step e = .ok (some t))
    (ht : t.pc = .loop ∨ t.pc = .returned) :
    (s.pc = .loop ∨ s.pc = .close []) ∧ t.broker.commands = s.broker.commands := by
  have hpc : s.pc = .loop ∨ s.pc = .close [] := by
    cases serverStep_cases h with
    | idle hpc | finished hpc | started hpc => exact .inl hpc
    | closed hpc => exact .inr hpc
    | @socket _ _ _ _ _ _ _ next =>
      obtain ht | ht := ht <;> cases next <;> cases ht
    | wait | scanEnd | close => obtain ht | ht := ht <;> cases ht
  refine ⟨hpc, serverStep_commands h fun client_num i now fd_to_delete hscan => ?_⟩
  rw [hscan] at hpc
  obtain hpc | hpc := hpc <;> cases hpc

/-- A step of a thread in `Execute`. -/
def InExecute : ThreadsEvent → Prop
  | .wait _ | .pop _ | .executed _ => True
  | _ => False

/-- A step of a thread in `Execute` is a step of its worker. -/
theorem worker_step {s t : Threads} {e : ThreadsEvent} (g : QueueHistory)
    (hstep : threads.Step s e t) (he : InExecute e) : ∃ e', e'.ByWorker ∧
      SleepingQueue.Step (queueOf s g) e' (queueOf t (noteQueue s e t g)) := by
  -- the steps of `Execute` are those of its worker
  cases threads_cases hstep with
  | @wait id ex hex hpc hq =>
    refine ⟨.sleep id, trivial, ?_⟩
    rw [queueOf_setPc]
    exact .sleep ((workers_queueOf hex).trans (by simp [worker, hpc])) hq
  | @pop id ex p commands hex hpc hq =>
    refine ⟨.take id, trivial, ?_⟩
    have htake := SleepingQueue.Step.take (s := queueOf s g) (i := id)
      ((workers_queueOf hex).trans (by simp [worker, hpc])) hq
    simpa only [queueOf, noteQueue, Threads.setPc, List.map_set, hq, List.take_succ_cons,
      List.take_zero, worker] using htake
  | @executed id ex p hex hpc =>
    have hbusy : (queueOf s g).workers[id]? = some (.busy p) :=
      (workers_queueOf hex).trans (by simp [worker, hpc])
    cases hsender : ex.isSender with
    | true =>
      refine ⟨.finish id, trivial, ?_⟩
      simpa [queueOf, noteQueue, worker, Executor.next, hsender, List.map_set] using
        SleepingQueue.Step.finish hbusy
    | false =>
      refine ⟨.quit id, trivial, ?_⟩
      simpa [queueOf, noteQueue, worker, Executor.next, hsender, List.map_set] using
        SleepingQueue.Step.quit hbusy
  | server | ends | testEmpty | testNotEmpty | notifyAll | addClient | start | startThreads
    | startNoThreads | qos | wake | rehash => exact he.elim

/-- Nobody has looked unless the queue was not empty. -/
theorem QueueInv.looked_eq_none {s : Threads} {g : QueueHistory} (h : QueueInv s g)
    (hnotify : s.notify ≠ .notEmpty) : g.looked = none := by
  rw [h.looked, if_neg hnotify]

/-- The server thread goes on: it is not in the middle of `Notify`. -/
private theorem QueueInv.server {s : Threads} {g : QueueHistory} (h : QueueInv s g)
    {e : ServerEvent} {server : ServerThread} (hnotify : s.atNotify = true → s.notify = .behind)
    (hstep : s.server.step e = .ok (some server)) :
    QueueInv { s with server, notify := .before } (g.add s.server.broker server.broker) := by
  have hlooked : g.looked = none := h.looked_eq_none fun hmid => by
    have hbehind := hnotify (h.at_notify (by rw [hmid]; nofun))
    rw [hmid] at hbehind
    cases hbehind
  refine ⟨reachable_put h.reachable (serverStep_grows hstep) rfl, fun hne => absurd rfl hne,
    hlooked, ?_⟩
  intro hbetween
  have hpc : server.pc = .loop ∨ server.pc = .returned := by
    obtain hpc | hpc | hpc := hbetween
    · exact .inl hpc
    · exact .inr hpc
    · cases hpc
  -- nothing has been queued since the `Notify` before
  obtain ⟨hbefore, hcommands⟩ := serverStep_between hstep hpc
  rw [QueueHistory.add_same g hcommands]
  obtain hloop | hclose := hbefore
  · exact h.notified (.inl hloop)
  · exact h.notified (.inr (.inr (hnotify ((atNotify_iff s).mpr hclose))))

/-- Each step of the threads is one of the queue with its workers. -/
theorem QueueInv.step {s t : Threads} {e : ThreadsEvent} {g : QueueHistory} (h : QueueInv s g)
    (hreach : system.Reachable s.server) (hstep : threads.Step s e t) :
    QueueInv t (noteQueue s e t g) := by
  cases threads_cases hstep with
  | server hnotify hserver => exact h.server hnotify hserver
  -- the server thread goes to `Execute`: one more worker
  | ends hnotify hserver =>
    have hserver' := h.server hnotify hserver
    refine ⟨?_, hserver'.at_notify, hserver'.looked, hserver'.notified⟩
    simpa [queueOf, worker, noteQueue] using hserver'.reachable.step .hire
  | testEmpty hat hnotify hq =>
    simp only [noteQueue, hq, List.isEmpty_nil, if_true]
    have hlooked := h.looked_eq_none (by rw [hnotify]; nofun)
    exact ⟨h.reachable.step (.lookEmpty hlooked hq), fun _ => hat, hlooked, fun _ => rfl⟩
  | testNotEmpty hat hnotify hq =>
    have hne : s.server.broker.commands.isEmpty = false := by simpa using hq
    simp only [noteQueue, hne, Bool.false_eq_true, if_false]
    have hlooked := h.looked_eq_none (by rw [hnotify]; nofun)
    refine ⟨h.reachable.step (.look hlooked hq), fun _ => hat, rfl, ?_⟩
    -- in the middle of `Notify` the thread is not between two passes
    rintro (hpc | hpc | hpc)
    · rw [(atNotify_iff s).mp hat] at hpc
      cases hpc
    · rw [(atNotify_iff s).mp hat] at hpc
      cases hpc
    · cases hpc
  | notifyAll hnotify =>
    have hlooked : g.looked = some g.added.length := by rw [h.looked, if_pos hnotify]
    simp only [noteQueue, hlooked, Option.getD_some]
    refine ⟨?_, fun _ => h.at_notify (by rw [hnotify]; nofun), rfl, fun _ => rfl⟩
    have hroused := h.reachable.step (.notify hlooked)
    have hworkers : worker ∘ Executor.notified = SleepingQueue.Worker.rouse ∘ worker :=
      funext worker_notified
    simpa only [queueOf, List.map_map, hworkers] using hroused
  | addClient =>
    rw [noteQueue, QueueHistory.add_same]
    · exact ⟨h.reachable, h.at_notify, h.looked, h.notified⟩
    · rfl
  | start hstate =>
    -- the server thread before has returned
    have hpc := returned_of_init hreach hstate
    have hbefore : s.notify = .before := by
      by_contra hne
      have hclose := (atNotify_iff s).mp (h.at_notify hne)
      rw [hpc] at hclose
      cases hclose
    rw [noteQueue, QueueHistory.add_same]
    · exact ⟨h.reachable, fun hne => absurd hbefore hne, h.looked,
        fun _ => h.notified (.inr (.inl hpc))⟩
    · rfl
  | startThreads =>
    rw [noteQueue, QueueHistory.add_same]
    · refine ⟨?_, h.at_notify, h.looked, h.notified⟩
      simpa [queueOf, worker] using (h.reachable.step .hire).step .hire
    · rfl
  | startNoThreads =>
    rw [noteQueue, QueueHistory.add_same]
    · exact ⟨h.reachable, h.at_notify, h.looked, h.notified⟩
    · rfl
  | qos hqos =>
    obtain rfl := qosThread_eq_of_empty (postponed_events_empty hreach) hqos
    rw [noteQueue, QueueHistory.add_same g rfl]
    exact ⟨h.reachable, h.at_notify, h.looked, h.notified⟩
  | wait hex hpc hq =>
    obtain ⟨e', -, hwork⟩ := worker_step g hstep trivial
    exact ⟨h.reachable.step hwork, h.at_notify, h.looked, h.notified⟩
  | wake hex hpc =>
    refine ⟨?_, h.at_notify, h.looked, h.notified⟩
    rw [queueOf_setPc]
    exact h.reachable.step (.wake ((workers_queueOf hex).trans (by simp [worker, hpc])))
  | pop hex hpc hq =>
    obtain ⟨e', -, hwork⟩ := worker_step g hstep trivial
    exact ⟨h.reachable.step hwork, h.at_notify, h.looked, h.notified⟩
  | executed hex hpc =>
    obtain ⟨e', -, hwork⟩ := worker_step g hstep trivial
    exact ⟨h.reachable.step hwork, h.at_notify, h.looked, h.notified⟩
  -- the tables are rehashed, and the queue is none of them
  | @rehash broker hb =>
    have hcommands : broker.commands = s.server.broker.commands := by rw [hb.others]
    rw [noteQueue, QueueHistory.add_same g hcommands]
    refine ⟨?_, h.at_notify, h.looked, h.notified⟩
    simpa only [queueOf, hcommands] using h.reachable

/-- Every run of the threads is one of the queue with its workers. -/
theorem queueInv_of_reachable {x : Threads × QueueHistory} (h : threadsHistory.Reachable x) :
    system.Reachable x.1.server ∧ QueueInv x.1 x.2 := by
  refine h.observe_invariant (P := fun s g => system.Reachable s.server ∧ QueueInv s g) ?_ ?_
  · rintro _ ⟨control_sock, rfl⟩
    exact ⟨.init ⟨control_sock, rfl⟩, ⟨.init rfl, fun hne => absurd rfl hne, rfl, fun _ => rfl⟩⟩
  · rintro s g e t ⟨hreach, hinv⟩ hstep
    exact ⟨system_of_step hreach hstep, hinv.step hreach hstep⟩

/-! ## No wakeup is lost -/

/-- The commands are taken in the order in which they are queued, and while a thread waits
    in `Execute` none is left that was there at the last `Notify`: between two passes of
    the server thread none at all. -/
theorem no_wakeup_lost {x : Threads × QueueHistory} (h : threadsHistory.Reachable x) :
    x.2.added = x.2.taken ++ x.1.server.broker.commands ∧
    ∀ ex ∈ x.1.executors, ex.pc = .waiting → x.2.notified ≤ x.2.taken.length ∧
      (BetweenPasses x.1 → x.1.server.broker.commands = []) := by
  obtain ⟨-, hinv⟩ := queueInv_of_reachable h
  have hqueue := SleepingQueue.inv_of_reachable hinv.reachable
  refine ⟨hqueue.order, fun ex hex hpc => ?_⟩
  have hasleep : SleepingQueue.Worker.asleep ∈ x.1.executors.map worker :=
    List.mem_map.mpr ⟨ex, hex, by simp [worker, hpc]⟩
  have hle : x.2.notified ≤ x.2.taken.length := hqueue.asleep hasleep
  refine ⟨hle, fun hbetween => ?_⟩
  have hlen : x.2.added.length = x.2.taken.length + x.1.server.broker.commands.length :=
    hqueue.length_put
  rw [hinv.notified hbetween] at hle
  exact List.length_eq_zero_iff.mp (by omega)

/-! ## A pass with a CONNECT -/

/-- A step that can be computed, with what it does to the history. -/
def threadsStep (x : Threads × QueueHistory) (e : ThreadsEvent) :
    Option (Threads × QueueHistory) :=
  (x.1.step e).map fun t => (t, noteQueue x.1 e t x.2)

theorem step_of_threadsStep {x y : Threads × QueueHistory} {e : ThreadsEvent}
    (h : threadsStep x e = some y) : threadsHistory.Step x e y :=
  LTS.observe_step_of_map (f := Threads.step) step_of_threads h

/-- Both sender threads wait, a client connects, and the pass ends with `Notify`. -/
def connectPass : List ThreadsEvent :=
  [.addClient 5 [] 0, .start, .startThreads, .wait 0, .wait 1, .server (.round false 0),
    .server (.round false 0),
    .server (.socket (.pollin false
      (.packet 0x10 [0, 4, 0x4D, 0x51, 0x54, 0x54, 5, 0x02, 0, 60, 0, 0, 1, 0x61] []))),
    .server (.socket .idle), .server .next, .testEmpty, .notifyAll, .server .next]

/-- One of them sends the CONNACK, the other one finds nothing. -/
def connackSent : List ThreadsEvent := [.pop 0, .wait 1, .executed 0, .wait 0]

/-- What of a state the runs below are compared by. -/
def threadsView (x : Threads × QueueHistory) : List ExecutePc × Nat × Nat × Nat × Bool :=
  (x.1.executors.map Executor.pc, x.2.added.length, x.2.taken.length, x.2.notified,
    match x.1.server.pc with
    | .loop => x.1.qos_thread_started
    | _ => false)

/-- The view says when the server thread is between two passes. -/
theorem between_of_threadsView {x : Threads × QueueHistory} {pcs : List ExecutePc}
    {added taken notified : Nat} (h : threadsView x = (pcs, added, taken, notified, true)) :
    BetweenPasses x.1 := by
  have hloop := congrArg (fun view => view.2.2.2.2) h
  simp only [threadsView] at hloop
  split at hloop
  · exact .inl ‹_›
  · cases hloop

/-- A run that is computed is a run with its history. -/
theorem reachable_of_threadsStep {es : List ThreadsEvent} {x : Threads × QueueHistory}
    (control_sock : Fd) (h : es.foldlM threadsStep (.init control_sock, {}) = some x) :
    threadsHistory.Reachable x :=
  ⟨_, es, ⟨⟨control_sock, rfl⟩, rfl⟩, LTS.run_of_foldlM step_of_threadsStep h⟩

/-- Both sender threads wait again, and the CONNACK has been taken. -/
theorem no_wakeup_lost_connack : ∃ x, threadsHistory.Reachable x ∧
    x.1.executors.map Executor.pc = [.waiting, .waiting] ∧ x.2.added.length = 1 ∧
    x.1.server.broker.commands = [] := by
  have hrun : ((connectPass ++ connackSent).foldlM threadsStep (.init 4, {})).map threadsView =
      some ([.waiting, .waiting], 1, 1, 1, true) := by
    decide +kernel
  obtain ⟨x, hx, hview⟩ := Option.map_eq_some_iff.mp hrun
  have hreach := reachable_of_threadsStep 4 hx
  have hpcs : x.1.executors.map Executor.pc = [.waiting, .waiting] := congrArg Prod.fst hview
  obtain ⟨ex, hex, hpc⟩ : ∃ ex ∈ x.1.executors, ex.pc = .waiting :=
    List.mem_map.mp (by rw [hpcs]; exact .head _)
  obtain ⟨-, hwait⟩ := no_wakeup_lost hreach
  exact ⟨x, hreach, hpcs, congrArg (fun view => view.2.1) hview,
    (hwait ex hex hpc).2 (between_of_threadsView hview)⟩

/-! ## The queue is emptied -/

/-- The steps of the threads in `Execute`. -/
def executing : LTS (Threads × QueueHistory) ThreadsEvent :=
  threadsHistory.restrict fun _ e => InExecute e

/-- A sender thread stays in `Execute`. -/
structure SendersInv (s : Threads) : Prop where
  count : (s.executors.filter Executor.isSender).length = if s.qos_thread_started then 2 else 0
  stay : ∀ ex ∈ s.executors, ex.isSender = true → ex.pc ≠ .returned
  running : s.server.pc ≠ .returned → s.qos_thread_started = true ∨ s.starting = true

/-- `notify_all` changes no thread for another. -/
theorem isSender_notified (ex : Executor) : ex.notified.isSender = ex.isSender := by
  unfold Executor.notified
  split <;> rfl

/-- A thread that goes on in `Execute` stays what it is. -/
private theorem senders_set {executors : List Executor} {id : Nat} {ex : Executor}
    (ex' : Executor) (hex : executors[id]? = some ex) (hsender : ex'.isSender = ex.isSender)
    (hpc : ex'.isSender = true → ex'.pc ≠ .returned)
    (hstay : ∀ ex ∈ executors, ex.isSender = true → ex.pc ≠ .returned) :
    ((executors.set id ex').filter Executor.isSender).length =
        (executors.filter Executor.isSender).length ∧
      ∀ ex ∈ executors.set id ex', ex.isSender = true → ex.pc ≠ .returned := by
  constructor
  · -- a thread that is replaced by its like is counted as it was
    simp only [← List.countP_eq_length_filter]
    obtain ⟨hlt, rfl⟩ := List.getElem?_eq_some_iff.mp hex
    rw [List.countP_set hlt, hsender]
    have hpos : executors[id].isSender = true → 0 < executors.countP Executor.isSender :=
      fun h => List.countP_pos_iff.mpr ⟨_, List.getElem_mem hlt, h⟩
    split
    · rename_i hex
      have hlt := hpos hex
      omega
    · omega
  · intro x hx
    obtain hx | rfl := List.mem_or_eq_of_mem_set hx
    · exact hstay x hx
    · exact hpc

/-- Each step keeps the two sender threads. -/
theorem SendersInv.step {s t : Threads} {e : ThreadsEvent} (h : SendersInv s)
    (hreach : system.Reachable s.server) (hstep : threads.Step s e t) : SendersInv t := by
  have hnotReturned : ∀ {server : ServerThread} {e : ServerEvent},
      s.server.step e = .ok (some server) → s.server.pc ≠ .returned := by
    intro server e hserver hpc
    simp [ServerThread.step, hpc] at hserver
  cases threads_cases hstep with
  | server _ hserver _ => exact ⟨h.count, h.stay, fun _ => h.running (hnotReturned hserver)⟩
  | ends _ hserver hpc =>
    refine ⟨by simpa using h.count, fun ex hex hsender => ?_, fun hne => absurd hpc hne⟩
    -- who comes to `Execute` is no sender thread
    obtain hex | rfl := List.mem_append.mp hex |>.imp_right List.mem_singleton.mp
    · exact h.stay ex hex hsender
    · cases hsender
  | testEmpty | testNotEmpty | addClient => exact ⟨h.count, h.stay, h.running⟩
  | notifyAll =>
    refine ⟨?_, ?_, h.running⟩
    · have hcomp : Executor.isSender ∘ Executor.notified = Executor.isSender :=
        funext isSender_notified
      rw [List.filter_map, hcomp, List.length_map]
      exact h.count
    · rw [List.forall_mem_map]
      intro ex hex hsender
      rw [isSender_notified] at hsender
      have hpc := h.stay ex hex hsender
      unfold Executor.notified
      split
      · simp
      · exact hpc
  | start => exact ⟨h.count, h.stay, fun _ => .inr rfl⟩
  | startThreads _ hnot =>
    refine ⟨?_, fun ex hex hsender => ?_, fun _ => .inl rfl⟩
    -- the two threads are the first ones
    · have hnone := h.count
      rw [hnot] at hnone
      simp [List.filter_append, hnone]
    · obtain hex | hex := List.mem_append.mp hex
      · exact h.stay ex hex hsender
      · have hpc : ex.pc = .testing := by
          simp only [List.mem_cons, List.not_mem_nil, or_false, or_self] at hex
          rw [hex]
        simp [hpc]
  | startNoThreads _ hstarted => exact ⟨h.count, h.stay, fun _ => .inl hstarted⟩
  | qos hqos =>
    obtain rfl := qosThread_eq_of_empty (postponed_events_empty hreach) hqos
    exact h
  | @wait id ex hex =>
    -- a sender thread that waits, wakes or pops is still in `Execute`
    obtain ⟨hcount, hstay⟩ := senders_set { ex with pc := .waiting } hex rfl (by simp) h.stay
    exact ⟨hcount.trans h.count, hstay, h.running⟩
  | @wake id ex hex =>
    obtain ⟨hcount, hstay⟩ := senders_set { ex with pc := .testing } hex rfl (by simp) h.stay
    exact ⟨hcount.trans h.count, hstay, h.running⟩
  | @pop id ex p _ hex =>
    obtain ⟨hcount, hstay⟩ :=
      senders_set { ex with pc := .executing p } hex rfl (by simp) h.stay
    exact ⟨hcount.trans h.count, hstay, h.running⟩
  | @executed id ex p hex hpc =>
    -- a sender thread begins `Execute` again
    have hnext : ex.next.isSender = true → ex.next.pc ≠ .returned := by
      intro hsender
      simp only [Executor.next] at hsender ⊢
      simp [hsender]
    obtain ⟨hcount, hstay⟩ := senders_set ex.next hex rfl hnext h.stay
    exact ⟨hcount.trans h.count, hstay, h.running⟩
  | rehash => exact ⟨h.count, h.stay, h.running⟩

/-- In every run the two sender threads are there once they are started. -/
theorem sendersInv_of_reachable {s : Threads} (h : threads.Reachable s) :
    system.Reachable s.server ∧ SendersInv s := by
  refine h.invariant (P := fun s => system.Reachable s.server ∧ SendersInv s) ?_ ?_
  · rintro _ ⟨control_sock, rfl⟩
    exact ⟨.init ⟨control_sock, rfl⟩, rfl, nofun, fun hne => absurd rfl hne⟩
  · rintro s e t ⟨hreach, hinv⟩ hstep
    exact ⟨system_of_step hreach hstep, hinv.step hreach hstep⟩

/-- There are two sender threads from the end of the first `Start` on and none before, and
    none of them ends; no server thread runs without them but during that `Start`; and
    `Start` makes a server thread only when the one before has left its loop. -/
theorem threads_started_once {s : Threads} (h : threads.Reachable s) :
    (s.executors.filter Executor.isSender).length = (if s.qos_thread_started then 2 else 0) ∧
    (∀ ex ∈ s.executors, ex.isSender = true → ex.pc ≠ .returned) ∧
    (s.server.pc ≠ .returned → s.qos_thread_started = true ∨ s.starting = true) ∧
    ∀ t, threads.Step s .start t → s.server.pc = .returned := by
  obtain ⟨hreach, hinv⟩ := sendersInv_of_reachable h
  refine ⟨hinv.count, hinv.stay, hinv.running, fun t hstep => ?_⟩
  cases threads_cases hstep with
  | start hstate => exact returned_of_init hreach hstate

/-- A run with its history is a run. -/
theorem threads_of_history {x : Threads × QueueHistory} (h : threadsHistory.Reachable x) :
    threads.Reachable x.1 := by
  refine h.simulate (f := Prod.fst) ?_ ?_
  · exact fun hinit => hinit.1
  · exact fun hstep => ⟨_, hstep.1⟩

/-- After the first `Start`: both sender threads are there. -/
theorem threads_started_once_first : ∃ s, threads.Reachable s ∧ s.qos_thread_started = true ∧
    (s.executors.filter Executor.isSender).length = 2 := by
  have hrun : ([.addClient 5 [] 0, .start, .startThreads].foldlM Threads.step (.init 4)).map
      Threads.qos_thread_started = some true := by
    decide
  obtain ⟨s, hs, hstarted⟩ := Option.map_eq_some_iff.mp hrun
  have hreach : threads.Reachable s := ⟨_, _, ⟨4, rfl⟩, LTS.run_of_foldlM step_of_threads hs⟩
  have hcount := (threads_started_once hreach).1
  rw [hstarted, if_pos rfl] at hcount
  exact ⟨s, hreach, hstarted, hcount⟩

/-- A run of the threads in `Execute` is a run of their workers. -/
theorem workers_run {x y : Threads × QueueHistory} {es : List ThreadsEvent}
    (h : executing.Run x es y) : ∃ es', es'.length = es.length ∧
      (SleepingQueue.workers FdWriteCommand).Run (queueOf x.1 x.2) es' (queueOf y.1 y.2) := by
  induction h with
  | nil => exact ⟨[], rfl, .nil⟩
  | @snoc es e u v _ hlast ih =>
    obtain ⟨es', hlen, hrun⟩ := ih
    obtain ⟨hin, hstep, hnote⟩ := hlast
    obtain ⟨e', hworker, hwork⟩ := worker_step u.2 hstep hin
    refine ⟨es' ++ [e'], by simp [hlen], hrun.snoc ⟨hworker, ?_⟩⟩
    rw [hnote]
    exact hwork

/-- Where no thread in `Execute` can take a step, no worker can. -/
theorem workers_stuck {x : Threads × QueueHistory} (h : executing.Stuck x) :
    (SleepingQueue.workers FdWriteCommand).Stuck (queueOf x.1 x.2) := by
  obtain ⟨s, g⟩ := x
  -- the thread of a worker
  have hthread : ∀ {i : Nat} {w}, (queueOf s g).workers[i]? = some w →
      ∃ ex, s.executors[i]? = some ex ∧ worker ex = w := by
    intro i w hw
    simpa [queueOf] using hw
  have hno : ∀ e, InExecute e → (s.step e).isSome = true → False := by
    intro e hin hsome
    obtain ⟨t, hstep⟩ := Option.isSome_iff_exists.mp hsome
    exact h e (t, noteQueue s e t g) ⟨hin, .inl hstep, rfl⟩
  rintro e t ⟨he, hstep⟩
  -- a worker that can go on is a thread that can
  cases hstep with
  | @take i job rest hw hq =>
    obtain ⟨ex, hex, hwork⟩ := hthread hw
    have hpc : ex.pc = .testing := by
      cases hpc : ex.pc <;> simp [worker, hpc] at hwork ⊢
    have hq' : s.server.broker.commands = job :: rest := hq
    exact hno (.pop i) trivial
      (by simp only [Threads.step, Threads.pop, hex, hq', hpc, if_true, Option.isSome_some])
  | @sleep i hw hq =>
    obtain ⟨ex, hex, hwork⟩ := hthread hw
    have hpc : ex.pc = .testing := by
      cases hpc : ex.pc <;> simp [worker, hpc] at hwork ⊢
    have hq' : s.server.broker.commands = [] := hq
    exact hno (.wait i) trivial
      (by simp only [Threads.step, Threads.wait, hex, hq', hpc, if_true, Option.isSome_some])
  -- a command is always executed
  | @finish i job hw | @quit i job hw =>
    obtain ⟨ex, hex, hwork⟩ := hthread hw
    have hpc : ex.pc = .executing job := by
      cases hpc : ex.pc <;> simp_all [worker]
    exact hno (.executed i) trivial
      (by simp only [Threads.step, Threads.executed, hex, hpc, Option.isSome_some])
  | put | lookEmpty | look | notify | hire | wake => exact he.elim

/-- Between two passes of the server thread the threads in `Execute`, left alone, come to
    rest after a bounded number of steps; and then, once the sender threads have been
    started, the queue is empty and every command that was ever queued has been taken. -/
theorem queue_drained {x y : Threads × QueueHistory} {es : List ThreadsEvent}
    (h : threadsHistory.Reachable x) (hbetween : BetweenPasses x.1) (hrun : executing.Run x es y) :
    es.length ≤ 2 * (x.1.server.broker.commands.length + x.1.executors.length) ∧
    (y.1.qos_thread_started = true → executing.Stuck y →
      y.1.server.broker.commands = [] ∧ y.2.taken = x.2.added) := by
  obtain ⟨es', hlen, hworkers⟩ := workers_run hrun
  have hbound := SleepingQueue.run_length_le hworkers
  have hmeasure : (queueOf x.1 x.2).measure ≤
      2 * (x.1.server.broker.commands.length + x.1.executors.length) :=
    Nat.le_trans (SleepingQueue.measure_le _) (by simp [queueOf])
  refine ⟨by omega, fun hstarted hstuck => ?_⟩
  have hy : threadsHistory.Reachable y := hrun.preserves (fun hs hst => hs.step hst.2) h
  obtain ⟨hput, hnotified⟩ := SleepingQueue.run_frame hworkers
  have hqueue := SleepingQueue.inv_of_reachable (queueInv_of_reachable hy).2.reachable
  -- a sender thread is still there
  have hsenders := (sendersInv_of_reachable (threads_of_history hy)).2
  have hstay : ∃ w ∈ (queueOf y.1 y.2).workers, w ≠ .gone := by
    have hcount := hsenders.count
    rw [hstarted, if_pos rfl] at hcount
    obtain ⟨ex, hex⟩ := List.exists_mem_of_length_pos (by omega :
      0 < (y.1.executors.filter Executor.isSender).length)
    obtain ⟨hex, hsender⟩ := List.mem_filter.mp hex
    refine ⟨worker ex, List.mem_map_of_mem hex, fun hgone => hsenders.stay ex hex hsender ?_⟩
    cases hpc : ex.pc <;> simp [worker, hpc] at hgone ⊢
  have hrest := hqueue.at_rest (workers_stuck hstuck) hstay
  have hlength := hqueue.length_put
  -- all commands were there when the threads were last notified
  have hall := (queueInv_of_reachable h).2.notified hbetween
  simp only [queueOf] at hput hnotified hrest hlength
  have hempty : y.1.server.broker.commands = [] := List.length_eq_zero_iff.mp (by
    rw [hnotified, hall, ← hput] at hrest
    omega)
  have horder : y.2.added = y.2.taken ++ y.1.server.broker.commands := hqueue.order
  rw [hempty, List.append_nil] at horder
  exact ⟨hempty, horder.symm.trans hput⟩

/-- A step of a thread in `Execute` that can be computed. -/
def executeStep (x : Threads × QueueHistory) (e : ThreadsEvent) : Option (Threads × QueueHistory) :=
  match e with
  | .wait _ | .pop _ | .executed _ => threadsStep x e
  | _ => none

theorem step_of_executeStep {x y : Threads × QueueHistory} {e : ThreadsEvent}
    (h : executeStep x e = some y) : executing.Step x e y := by
  cases e with
  | wait | pop | executed => exact ⟨trivial, step_of_threadsStep h⟩
  | _ => cases h

/-- Between two passes one sender thread takes the CONNACK, and both wait in the end. -/
theorem queue_drained_connack : ∃ x y : Threads × QueueHistory, threadsHistory.Reachable x ∧
    x.2.added.length = 1 ∧ x.2.taken = [] ∧ executing.Run x connackSent y ∧
    connackSent.length ≤ 2 * (x.1.server.broker.commands.length + x.1.executors.length) := by
  have hrun : (connectPass.foldlM threadsStep (.init 4, {})).bind (fun x =>
      (connackSent.foldlM executeStep x).map fun _ => threadsView x) =
        some ([.testing, .testing], 1, 0, 1, true) := by
    decide +kernel
  obtain ⟨x, hx, hrun⟩ := Option.bind_eq_some_iff.mp hrun
  obtain ⟨y, hy, hbefore⟩ := Option.map_eq_some_iff.mp hrun
  have hreach := reachable_of_threadsStep 4 hx
  have hexecute : executing.Run x connackSent y := LTS.run_of_foldlM step_of_executeStep hy
  obtain ⟨hbound, -⟩ := queue_drained hreach (between_of_threadsView hbefore) hexecute
  exact ⟨x, y, hreach, congrArg (fun view => view.2.1) hbefore,
    List.length_eq_zero_iff.mp (congrArg (fun view => view.2.2.1) hbefore), hexecute, hbound⟩

end Mqtt.Spec
