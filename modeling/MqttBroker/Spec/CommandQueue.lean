import Mathlib.Data.Fintype.Basic
import MqttBroker.ForStd.SharedQueue
import MqttBroker.Native.Commands

/-!
# What the sender threads write

The queue of commands is a work queue that the sender threads share, a descriptor
being the address and a connection its owner. Both things that can go wrong with
such a queue do: a descriptor may be given to a new connection while a command
still carries it, and two sender threads may write to one descriptor at a time.

What the main thread and the server thread do to the table of clients is no step of
the work queue: a descriptor changes hands in `accept` and in `close`, not in
`AddClient` and `DelClient`.
-/

namespace Mqtt.Spec

open Mqtt.Native

variable {τ : Type}

/-! ## The queue as a work queue -/

/-- A command as a job for its descriptor. -/
def job (p : QueuedCommand) : SharedQueue.Job Fd Connection UInt8 :=
  ⟨p.command.fd, p.queued_for, p.command.cmd⟩

/-- What a sender thread has in hand. -/
def hand : Sender → Option (SharedQueue.Job Fd Connection UInt8 × Nat)
  | .waiting => none
  | .writing p sent_bytes => some (job p, sent_bytes)

/-- The sender threads as workers. -/
def workQueue (s : Output τ) : SharedQueue.State τ Fd Connection UInt8 where
  queue := s.queued.map job
  workers := hand ∘ s.senders
  owners := s.sockets
  put := s.added.map job
  written := s.writes.map fun w => ⟨job w.command, w.connection, w.data⟩

/-- A command is queued or being written. -/
def Pending (s : Output τ) (p : QueuedCommand) : Prop :=
  p ∈ s.queued ∨ ∃ id sent_bytes, s.senders id = .writing p sent_bytes

/-- A job that is pending is a command that is. -/
theorem pending_of_workQueue {s : Output τ} {j : SharedQueue.Job Fd Connection UInt8}
    (h : SharedQueue.Pending (workQueue s) j) : ∃ p, Pending s p ∧ job p = j := by
  obtain hq | ⟨id, n, hw⟩ := h
  · obtain ⟨p, hp, rfl⟩ := List.mem_map.mp hq
    exact ⟨p, .inl hp, rfl⟩
  · simp only [workQueue, Function.comp_apply] at hw
    cases hs : s.senders id with
    | waiting =>
      rw [hs] at hw
      exact nomatch hw
    | writing p sent_bytes =>
      rw [hs] at hw
      exact ⟨p, .inr ⟨id, sent_bytes, hs⟩, (Prod.mk.inj (Option.some.inj hw)).1⟩

/-- What a sender has in hand. -/
private theorem workers_eq {s : Output τ} {id : τ} {sender : Sender} (h : s.senders id = sender) :
    (workQueue s).workers id = hand sender := congrArg hand h

/-- The event of the work queue a step is. `AddClient` and `DelClient` leave the work
    queue alone. -/
def workEvent (s : Output τ) : OutputEvent τ → Option (SharedQueue.Event τ Fd Connection UInt8)
  | .addCommand fd cmd => some (.put fd (s.client_connection fd) cmd)
  | .close fd => some (.unbind fd)
  | .accept newsock_fd _ => some (.bind newsock_fd s.next_connection)
  | .closeRefused =>
    match s.main with
    | .refused newsock_fd => some (.unbind newsock_fd)
    | _ => none
  | .openControl data_socket => some (.bind data_socket s.next_connection)
  | .closeControl data_socket => some (.unbind data_socket)
  | .delClient | .addClient _ => none
  | .execute id => some (.take id)
  | .write id res => some <|
    match s.senders id with
    | .waiting => .finish id
    | .writing p sent_bytes =>
      if sent_bytes < p.command.cmd.length then
        if res ≤ 0 then .fail id else .write id res.toNat
      else .finish id

/-- A round of `WriteData` opens no descriptor, queues nothing and takes no command. -/
private theorem workEvent_write (s : Output τ) (id : τ) (res : Int) :
    workEvent s (.write id res) = some (.finish id) ∨
    workEvent s (.write id res) = some (.write id res.toNat) ∨
    workEvent s (.write id res) = some (.fail id) ∧ res ≤ 0 ∧
      ∃ p sent_bytes, s.senders id = .writing p sent_bytes ∧
        sent_bytes < p.command.cmd.length := by
  simp only [workEvent]
  split
  · exact .inl rfl
  · rename_i p sent_bytes hsender
    split
    · rename_i hlt
      split
      · rename_i hres
        exact .inr (.inr ⟨rfl, hres, p, sent_bytes, hsender, hlt⟩)
      · exact .inr (.inl rfl)
    · exact .inl rfl

/-! ## What disturbs it -/

/-- The descriptor the operating system gives out in a step. -/
def openedBy : OutputEvent τ → Option Fd
  | .accept newsock_fd _ => some newsock_fd
  | .openControl data_socket => some data_socket
  | _ => none

/-- A descriptor is given out that a command still carries, or a command is added with a
    descriptor that has been given out, but not to the client the broker has for it. -/
def Reused (s : Output τ) (e : OutputEvent τ) : Prop :=
  (∃ fd, openedBy e = some fd ∧ ∃ p, Pending s p ∧ p.command.fd = fd) ∨
  ∃ fd cmd connection, e = .addCommand fd cmd ∧ s.sockets fd = some connection ∧
    s.client_connection fd ≠ some connection

/-- Whether a command is queued or being written is seen in the queue and in the sender
    threads. -/
theorem exists_pending_iff {s : Output τ} {fd : Fd} :
    (∃ p, Pending s p ∧ p.command.fd = fd) ↔ (∃ p ∈ s.queued, p.command.fd = fd) ∨
      ∃ id, ∃ x ∈ hand (s.senders id), x.1.address = fd := by
  constructor
  · rintro ⟨p, hq | ⟨id, sent_bytes, hsender⟩, rfl⟩
    · exact .inl ⟨p, hq, rfl⟩
    · exact .inr ⟨id, (job p, sent_bytes), by rw [hsender]; rfl, rfl⟩
  · rintro (⟨p, hq, rfl⟩ | ⟨id, x, hx, rfl⟩)
    · exact ⟨p, .inl hq, rfl⟩
    · -- what a sender thread has in hand is what it is writing
      cases hsender : s.senders id with
      | waiting =>
        rw [hsender] at hx
        cases hx
      | writing p sent_bytes =>
        rw [hsender] at hx
        obtain rfl := Option.some.inj hx
        exact ⟨p, .inr ⟨id, sent_bytes, hsender⟩, rfl⟩

instance [Fintype τ] (s : Output τ) (e : OutputEvent τ) : Decidable (Reused s e) :=
  match e with
  | .accept fd _ | .openControl fd => decidable_of_iff
      ((∃ p ∈ s.queued, p.command.fd = fd) ∨ ∃ id, ∃ x ∈ hand (s.senders id), x.1.address = fd) <| by
    rw [← exists_pending_iff]
    simp [Reused, openedBy, and_comm, eq_comm]
  | .addCommand fd _ => decidable_of_iff
      (∃ connection ∈ s.sockets fd, s.client_connection fd ≠ some connection) <| by
    simp [Reused, openedBy]
  | .close _ | .delClient | .addClient _ | .closeRefused | .closeControl _ | .execute _
  | .write .. => .isFalse <| by simp [Reused, openedBy]

/-- Only a step that gives a descriptor out binds it. -/
theorem openedBy_of_bind {s : Output τ} {e : OutputEvent τ} {fd : Fd} {connection : Connection}
    (h : workEvent s e = some (.bind fd connection)) : openedBy e = some fd := by
  cases e with
  | accept newsock_fd ip =>
    obtain ⟨rfl, -⟩ := SharedQueue.Event.bind.inj (Option.some.inj h)
    rfl
  | openControl data_socket =>
    obtain ⟨rfl, -⟩ := SharedQueue.Event.bind.inj (Option.some.inj h)
    rfl
  | closeRefused =>
    simp only [workEvent] at h
    split at h <;> cases h
  | write id res =>
    obtain hevent | hevent | ⟨hevent, -⟩ := workEvent_write s id res <;> cases hevent.symm.trans h
  -- no other event binds a descriptor
  | _ => cases h

/-- Only `AddCommand` puts a job, for the client of its descriptor. -/
theorem addCommand_of_put {s : Output τ} {e : OutputEvent τ} {fd : Fd}
    {connection : Option Connection} {cmd : Bytes}
    (h : workEvent s e = some (.put fd connection cmd)) :
    e = .addCommand fd cmd ∧ connection = s.client_connection fd := by
  cases e with
  | addCommand fd' cmd' =>
    obtain ⟨rfl, rfl, rfl⟩ := SharedQueue.Event.put.inj (Option.some.inj h)
    exact ⟨rfl, rfl⟩
  | closeRefused =>
    simp only [workEvent] at h
    split at h <;> cases h
  | write id res =>
    obtain hevent | hevent | ⟨hevent, -⟩ := workEvent_write s id res <;> cases hevent.symm.trans h
  | _ => cases h

/-- A step that reuses no descriptor shares no address of the work queue. -/
theorem unshared_of_not_reused {s : Output τ} {e : OutputEvent τ} (h : ¬ Reused s e)
    {event : SharedQueue.Event τ Fd Connection UInt8} (hevent : workEvent s e = some event) :
    SharedQueue.Unshared (workQueue s) event := by
  constructor
  · rintro fd connection rfl j hj hfd
    obtain ⟨p, hp, rfl⟩ := pending_of_workQueue hj
    exact h (.inl ⟨fd, openedBy_of_bind hevent, p, hp, hfd⟩)
  · rintro fd connection cmd rfl connection' hsocket
    obtain ⟨rfl, rfl⟩ := addCommand_of_put hevent
    by_contra hne
    exact h (.inr ⟨fd, cmd, connection', rfl, hsocket, hne⟩)

/-- The packets added for a descriptor, one behind the other. -/
def packetsFor (fd : Fd) (added : List QueuedCommand) : Bytes :=
  (added.filter fun p => p.command.fd = fd).flatMap fun p => p.command.cmd

/-- The bytes written to a descriptor. -/
def stream (fd : Fd) (writes : List WriteCall) : Bytes :=
  (writes.filter fun w => w.command.command.fd = fd).flatMap WriteCall.data

/-- A sender thread takes a command for the descriptor while another is writing to
    it, or a write to the descriptor fails. -/
def Disturbed (fd : Fd) (s : Output τ) (e : OutputEvent τ) : Prop :=
  (∃ id p rest, e = .execute id ∧ s.queued = p :: rest ∧ p.command.fd = fd ∧
    ∃ id' p' sent_bytes, s.senders id' = .writing p' sent_bytes ∧ p'.command.fd = fd) ∨
  ∃ id res p sent_bytes, e = .write id res ∧ res ≤ 0 ∧ s.senders id = .writing p sent_bytes ∧
    sent_bytes < p.command.cmd.length ∧ p.command.fd = fd

/-- The bytes of the work queue are those that went to the descriptor. -/
theorem bytes_workQueue (fd : Fd) (s : Output τ) :
    SharedQueue.bytes fd (workQueue s).written = stream fd s.writes := by
  simp only [SharedQueue.bytes, workQueue, List.filter_map, List.flatMap_map, stream]
  rfl

/-- The data put for a descriptor are the packets queued for it. -/
theorem dataFor_workQueue (fd : Fd) (s : Output τ) :
    SharedQueue.dataFor fd (workQueue s).put = packetsFor fd s.added := by
  simp only [SharedQueue.dataFor, workQueue, List.filter_map, List.flatMap_map, packetsFor]
  rfl

/-- Only `Execute` takes a job. -/
theorem execute_of_take {s : Output τ} {e : OutputEvent τ} {id : τ}
    (h : workEvent s e = some (.take id)) : e = .execute id := by
  cases e with
  | execute id' =>
    obtain rfl := SharedQueue.Event.take.inj (Option.some.inj h)
    rfl
  | closeRefused =>
    simp only [workEvent] at h
    split at h <;> cases h
  | write id' res =>
    obtain hevent | hevent | ⟨hevent, -⟩ := workEvent_write s id' res <;> cases hevent.symm.trans h
  | _ => cases h

/-- Only a call of `write` that fails gives a job up. -/
theorem write_of_fail {s : Output τ} {e : OutputEvent τ} {id : τ}
    (h : workEvent s e = some (.fail id)) : ∃ res p sent_bytes, e = .write id res ∧ res ≤ 0 ∧
      s.senders id = .writing p sent_bytes ∧ sent_bytes < p.command.cmd.length := by
  cases e with
  | write id' res =>
    -- of the three outcomes of a round only one is a failure
    obtain hevent | hevent | ⟨hevent, hres, p, sent_bytes, hsender, hlt⟩ :=
      workEvent_write s id' res
    · cases hevent.symm.trans h
    · cases hevent.symm.trans h
    · obtain rfl := SharedQueue.Event.fail.inj (Option.some.inj (hevent.symm.trans h))
      exact ⟨res, p, sent_bytes, rfl, hres, hsender, hlt⟩
  | closeRefused =>
    simp only [workEvent] at h
    split at h <;> cases h
  | _ => cases h

/-- A step that does not disturb a descriptor leaves it to one worker. -/
theorem exclusive_of_undisturbed {fd : Fd} {s : Output τ} {e : OutputEvent τ}
    (h : ¬ Disturbed fd s e) {event : SharedQueue.Event τ Fd Connection UInt8}
    (hevent : workEvent s e = some event) : SharedQueue.Exclusive fd (workQueue s) event := by
  -- what a worker has in hand is what its sender writes
  have hhand : ∀ {id j n}, (workQueue s).workers id = some (j, n) →
      ∃ p, s.senders id = .writing p n ∧ job p = j := by
    intro id j n hw
    cases hs : s.senders id with
    | waiting =>
      rw [workers_eq hs] at hw
      exact nomatch hw
    | writing p sent_bytes =>
      rw [workers_eq hs] at hw
      obtain ⟨rfl, rfl⟩ := Prod.mk.inj (Option.some.inj hw)
      exact ⟨p, rfl, rfl⟩
  constructor
  · -- while a command is taken nobody writes to its descriptor
    rintro id j rest rfl hqueue hfd id' j' n hworker hfd'
    obtain rfl := execute_of_take hevent
    obtain ⟨p', hsender, rfl⟩ := hhand hworker
    obtain ⟨p, queued, hqueued, rfl, -⟩ := List.map_eq_cons_iff.mp hqueue
    exact h (.inl ⟨id, p, queued, rfl, hqueued, hfd, id', p', n, hsender, hfd'⟩)
  · -- and a write that fails is none to the descriptor
    rintro id j n rfl hworker hfd
    obtain ⟨res, p, sent_bytes, rfl, hres, hsender, hlt⟩ := write_of_fail hevent
    obtain ⟨p', hsender', rfl⟩ := hhand hworker
    obtain ⟨rfl, rfl⟩ := Sender.writing.inj (hsender.symm.trans hsender')
    exact h (.inr ⟨id, res, p, sent_bytes, rfl, hres, hsender, hlt, hfd⟩)

/-! ## Steps -/

/-- A descriptor is given out only when nobody has it, to a new connection. -/
theorem openFd_eq_some {s t : Output τ} {fd : Fd} (h : s.openFd fd = some t) :
    s.sockets fd = none ∧ t = { s with
      sockets := Function.update s.sockets fd (some s.next_connection)
      next_connection := s.next_connection + 1 } := by
  obtain ⟨⟨-, hnone⟩, h⟩ := Option.ite_none_right_eq_some.mp h
  exact ⟨hnone, (Option.some.inj h).symm⟩

/-- `AddClient` changes the table of clients only. -/
theorem workQueue_addClient {s t : Output τ} {now : Time} (h : s.addClient now = some t) :
    workQueue t = workQueue s := by
  unfold Output.addClient at h
  split at h
  · dsimp only at h
    split at h <;> obtain rfl := Option.some.inj h <;> rfl
  · exact nomatch h

/-- `DelClient` changes the table of clients only. -/
theorem workQueue_delClient {s t : Output τ} (h : s.delClient = some t) :
    workQueue t = workQueue s := by
  unfold Output.delClient at h
  split at h
  · obtain rfl := Option.some.inj h
    rfl
  · exact nomatch h

variable [DecidableEq τ]

/-- The sender threads from the start of the broker on. -/
def output (τ : Type) [DecidableEq τ] : LTS (Output τ) (OutputEvent τ) where
  Init s := ∃ broker h, s = Output.start broker h
  Step s e t := s.step e = some t

/-- A sender changes one worker. -/
private theorem workers_of_senders (s : Output τ) (id : τ) (sender : Sender) :
    hand ∘ Function.update s.senders id sender =
      Function.update (workQueue s).workers id (hand sender) := Function.comp_update ..

/-- A round of `WriteData` is a step of the worker. -/
theorem write_simulates {s t : Output τ} {id : τ} {res : Int} (h : s.write id res = some t) :
    ∃ event, workEvent s (.write id res) = some event ∧
      SharedQueue.Step (workQueue s) event (workQueue t) := by
  unfold Output.write at h
  split at h
  · exact nomatch h  -- the sender has nothing to write
  · rename_i p sent_bytes hsender
    have hworker : (workQueue s).workers id = some (job p, sent_bytes) := workers_eq hsender
    -- a sender that goes back to waiting has nothing in hand
    have hwaiting : workQueue { s with senders := Function.update s.senders id .waiting } =
        { workQueue s with workers := Function.update (workQueue s).workers id none } := by
      rw [workQueue, workers_of_senders]
      rfl
    dsimp only at h
    split at h
    · rename_i hlt
      split at h
      · -- `write` has failed, and the rest is given up
        rename_i hres
        obtain rfl := Option.some.inj h
        refine ⟨.fail id, by simp only [workEvent, hsender, if_pos hlt, if_pos hres], ?_⟩
        rw [hwaiting]
        exact .fail hworker hlt
      · rename_i hres
        split at h
        · exact nomatch h  -- nobody has the socket
        · rename_i connection hsocket
          obtain ⟨hle, h⟩ := Option.ite_none_right_eq_some.mp h
          obtain rfl := Option.some.inj h
          have hwrite : workQueue { s with
              senders := Function.update s.senders id (.writing p (sent_bytes + res.toNat))
              writes := s.writes ++
                [⟨p, connection, (p.command.cmd.drop sent_bytes).take res.toNat⟩] } =
              { workQueue s with
                workers := Function.update (workQueue s).workers id
                  (some (job p, sent_bytes + res.toNat))
                written := (workQueue s).written ++
                  [⟨job p, connection, ((job p).data.drop sent_bytes).take res.toNat⟩] } := by
            rw [workQueue, workers_of_senders, List.map_append]
            rfl
          refine ⟨.write id res.toNat, by simp only [workEvent, hsender, if_pos hlt, if_neg hres], ?_⟩
          rw [hwrite]
          exact .write hworker hsocket (by omega) hle
    · -- all has been written
      rename_i hge
      obtain rfl := Option.some.inj h
      refine ⟨.finish id, by simp only [workEvent, hsender, if_neg hge], ?_⟩
      rw [hwaiting]
      exact .finish hworker (Nat.le_of_not_lt hge)

/-- Each step is a step of the work queue, or leaves it alone. -/
theorem step_simulates {s t : Output τ} {e : OutputEvent τ} (h : s.step e = some t) :
    workQueue t = workQueue s ∨
      ∃ event, workEvent s e = some event ∧ SharedQueue.Step (workQueue s) event (workQueue t) := by
  cases e with
  -- a command is put for the client that the broker has under the descriptor
  | addCommand fd cmd =>
    obtain rfl := Option.some.inj h
    have hqueue : workQueue (s.addCommand fd cmd) = { workQueue s with
        queue := (workQueue s).queue ++ [⟨fd, s.client_connection fd, cmd⟩]
        put := (workQueue s).put ++ [⟨fd, s.client_connection fd, cmd⟩] } := by
      simp only [workQueue, Output.addCommand, List.map_append]
      rfl
    refine .inr ⟨_, rfl, ?_⟩
    rw [hqueue]
    exact .put
  | close fd =>
    simp only [Output.step, Output.close] at h
    split at h
    · obtain rfl := Option.some.inj h
      exact .inr ⟨_, rfl, .unbind⟩
    · exact nomatch h
  | delClient => exact .inl (workQueue_delClient h)
  | accept newsock_fd ip =>
    simp only [Output.step, Output.accept] at h
    split at h
    · -- the descriptor is bound, whether `main` goes on with it or not
      obtain ⟨u, hopen, rfl⟩ := Option.map_eq_some_iff.mp h
      -- the operating system gives out a free descriptor
      obtain ⟨hnone, rfl⟩ := openFd_eq_some hopen
      exact .inr ⟨_, rfl, .bind hnone⟩
    · exact nomatch h
  | addClient now => exact .inl (workQueue_addClient h)
  | closeRefused =>
    simp only [Output.step, Output.closeRefused] at h
    split at h
    · rename_i newsock_fd hmain
      obtain rfl := Option.some.inj h
      exact .inr ⟨.unbind newsock_fd, by rw [workEvent, hmain], .unbind⟩
    · exact nomatch h
  -- a control connection takes a descriptor that a client could have had
  | openControl data_socket =>
    obtain ⟨u, hopen, rfl⟩ := Option.map_eq_some_iff.mp h
    obtain ⟨hnone, rfl⟩ := openFd_eq_some hopen
    exact .inr ⟨_, rfl, .bind hnone⟩
  | closeControl data_socket =>
    obtain ⟨-, h⟩ := Option.ite_none_right_eq_some.mp h
    obtain rfl := Option.some.inj h
    exact .inr ⟨_, rfl, .unbind⟩
  | execute id =>
    simp only [Output.step, Output.execute] at h
    split at h
    · rename_i p queued hsender hqueued
      obtain rfl := Option.some.inj h
      have htake : workQueue { s with
          broker := { s.broker with commands := queued.map QueuedCommand.command }
          senders := Function.update s.senders id (.writing p 0)
          queued := queued
          queued_eq := rfl } = { workQueue s with
            queue := queued.map job
            workers := Function.update (workQueue s).workers id (some (job p, 0)) } := by
        rw [workQueue, workers_of_senders]
        rfl
      refine .inr ⟨_, rfl, ?_⟩
      rw [htake]
      exact .take (workers_eq hsender) (congrArg (List.map job) hqueued)
    · exact nomatch h
  | write id res => exact .inr (write_simulates h)

/-- The broker starts with an empty work queue. -/
theorem workQueue_init {s : Output τ} (h : (output τ).Init s) :
    (SharedQueue.system τ Fd Connection UInt8).Init (workQueue s) := by
  obtain ⟨broker, hcommands, rfl⟩ := h
  exact ⟨rfl, rfl, rfl, rfl⟩

/-- A run whose steps meet a guard is a run of the work queue that meets the guard there. -/
theorem workQueue_reachable {G : Output τ → OutputEvent τ → Prop}
    {H : SharedQueue.State τ Fd Connection UInt8 → SharedQueue.Event τ Fd Connection UInt8 → Prop}
    (hguard : ∀ {s e event}, G s e → workEvent s e = some event → H (workQueue s) event)
    {s : Output τ} (h : ((output τ).restrict G).Reachable s) :
    ((SharedQueue.system τ Fd Connection UInt8).restrict H).Reachable (workQueue s) := by
  refine @LTS.Reachable.simulate_stutter _ _ _ _ _ (LTS.restrict _ _) workQueue workQueue_init ?_
    s h
  rintro s e t ⟨hg, hstep⟩
  obtain hsame | ⟨event, hevent, hwork⟩ := step_simulates hstep
  · exact .inl hsame
  · exact .inr ⟨event, hguard hg hevent, hwork⟩

/-! ## Connections -/

/-- The two sender threads of `Start`. -/
inductive SenderId where
  | one | two
deriving DecidableEq

instance : Fintype SenderId := ⟨{.one, .two}, fun id => by cases id <;> decide⟩

/-- A broker with its two sender threads, before the first connection. -/
def noConnections : Output SenderId := Output.start {} rfl

/-- The packet a connection gets when it is closed for a time out. -/
def timeoutPacket : Bytes := [0xE0, 2, 0x8D, 0]

/-- In every run in which no sender thread takes a command for a descriptor while
    another is writing to it, and no write to it fails, what is written to the
    descriptor is the beginning of the packets added for it, in their order, and all
    of them when none is pending. -/
theorem stream_in_order {fd : Fd} {s : Output τ}
    (h : ((output τ).restrict fun s e => ¬ Disturbed fd s e).Reachable s) :
    stream fd s.writes <+: packetsFor fd s.added ∧
      ((∀ p, Pending s p → p.command.fd ≠ fd) → stream fd s.writes = packetsFor fd s.added) := by
  have hqueue := workQueue_reachable (H := SharedQueue.Exclusive fd)
    (fun hundisturbed hevent => exclusive_of_undisturbed hundisturbed hevent) h
  have horder := SharedQueue.bytes_in_order hqueue
  rw [bytes_workQueue, dataFor_workQueue] at horder
  refine ⟨horder.1, fun hnone => horder.2 fun j hj => ?_⟩
  obtain ⟨p, hp, rfl⟩ := pending_of_workQueue hj
  exact hnone p hp

/-- A run in which half a packet is written, in order so far. -/
theorem stream_in_order_half :
    ∃ s, ((output SenderId).restrict fun s e => ¬ Disturbed 5 s e).Reachable s ∧
      stream 5 s.writes = [0xE0, 2] ∧ packetsFor 5 s.added = timeoutPacket ∧
      stream 5 s.writes <+: packetsFor 5 s.added ∧
        ((∀ p, Pending s p → p.command.fd ≠ 5) → stream 5 s.writes = packetsFor 5 s.added) := by
  have hinit : ((output SenderId).restrict fun s e => ¬ Disturbed 5 s e).Reachable noConnections :=
    .init ⟨{}, rfl, rfl⟩
  have hquiet : ∀ {s : Output SenderId} {e}, (∀ id, e ≠ .execute id) →
      (∀ id res, e ≠ .write id res) → ¬ Disturbed 5 s e := by
    rintro s e hexecute hwrite (⟨id, _, _, rfl, _⟩ | ⟨id, res, _, _, rfl, _⟩)
    · exact hexecute id rfl
    · exact hwrite id res rfl
  -- a client on socket 5, one packet for it, and half of the packet written
  have haccepted := hinit.step (e := .accept 5 [])
    ⟨hquiet nofun nofun, (rfl : Output.step _ _ = some _)⟩
  have hadded := haccepted.step (e := .addClient 0)
    ⟨hquiet nofun nofun, (rfl : Output.step _ _ = some _)⟩
  have hqueued := hadded.step (e := .addCommand 5 timeoutPacket)
    ⟨hquiet nofun nofun, (rfl : Output.step _ _ = some _)⟩
  -- nobody is writing when the command is taken
  have htaken := hqueued.step (e := .execute .one) ⟨(by
    rintro (⟨_, _, _, _, _, _, _, _, _, hsender, _⟩ | ⟨_, _, _, _, hwrite, _⟩)
    · exact nomatch hsender
    · exact nomatch hwrite), (rfl : Output.step _ _ = some _)⟩
  have hwritten := htaken.step (e := .write .one 2) ⟨(by
    rintro (⟨_, _, _, hexecute, _⟩ | ⟨_, _, _, _, hwrite, hres, _⟩)
    · exact nomatch hexecute
    · obtain ⟨-, rfl⟩ := OutputEvent.write.inj hwrite
      exact absurd hres (by decide)), (rfl : Output.step _ _ = some _)⟩
  exact ⟨_, hwritten, rfl, rfl, stream_in_order hwritten⟩

/-- Both sender threads take a packet, and the second one is written first. -/
theorem stream_out_of_order :
    ∃ s, (output SenderId).Reachable s ∧ stream 5 s.writes = [0xD0, 0] ∧
      packetsFor 5 s.added = [0x20, 3, 0, 0, 0, 0xD0, 0] ∧
      ¬ stream 5 s.writes <+: packetsFor 5 s.added := by
  have hrun : ([.accept 5 [], .addClient 0, .addCommand 5 [0x20, 3, 0, 0, 0], .addCommand 5 [0xD0, 0],
      .execute .one, .execute .two, .write .two 2].foldlM Output.step noConnections).map
        (fun s => (stream 5 s.writes, packetsFor 5 s.added)) =
          some ([0xD0, 0], [0x20, 3, 0, 0, 0, 0xD0, 0]) := by
    decide +kernel
  obtain ⟨s, hs, hfinal⟩ := Option.map_eq_some_iff.mp hrun
  obtain ⟨hstream, hpackets⟩ := Prod.mk.inj hfinal
  have hreach : (output SenderId).Reachable s :=
    ⟨noConnections, _, ⟨{}, rfl, rfl⟩, LTS.run_of_foldlM (fun h => h) hs⟩
  refine ⟨s, hreach, hstream, hpackets, ?_⟩
  rw [hstream, hpackets]
  decide

end Mqtt.Spec
