import MqttBroker.Native.EventLoop
import MqttBroker.Spec.ScanPass

/-!
# Clients the server thread knows of

A client is added by two threads: the main thread inserts it and looks at `state`, the
server thread builds `vec_fds` and sets `state`. Between the two halves of either the
other gets in. A client is lost when the main thread looks at `state` after the server
thread has looked at `clients` and before it sets what it has decided.
-/

namespace Mqtt.Spec

open Mqtt.Native Mqtt.Native.Broker

/-- The two threads from the start of the broker on, in any interleaving. -/
def eventLoop : LTS EventLoop LoopEvent where
  Init s := ∃ control_sock, s = .init control_sock
  Step s e t := s.step e = some t

/-- Neither thread is in the middle of adding a client. -/
def AtRest (s : EventLoop) : Prop := s.main = .waiting ∧ s.within = .outside

/-- The socket of a client is polled, or will be: a command `ADD` waits, or the server
    thread is about to build its list anew. -/
def Watched (s : EventLoop) (fd : Fd) : Prop :=
  fd ∈ s.thread.vec_fds ∨ 0 < s.pending ∨
    (s.thread.broker.state = .started ∧ s.thread.pc ≠ .returned)

/-- The main thread looks at `state` for a client the server thread has missed, before
    the server thread sets `state`, and no command `ADD` waits: it is in the middle of
    going to `wait_state` with a list that does not have the client, or of going to
    `init` because it has found no client. -/
def LosesClient (s : EventLoop) (e : LoopEvent) : Prop :=
  s.pending = 0 ∧ ∃ sock ∈ s.thread.broker.clients,
    (e = .testState ∧ s.main = .inserted sock ∧ s.within = .iterated ∧
      sock ∉ s.thread.vec_fds) ∨
    (e = .getState ∧ s.main = .getState sock ∧ s.within = .counted 0)

/-! ## Steps, read off their labels -/

/-- What a step of one of the two threads is. -/
inductive LoopCase (s : EventLoop) : LoopEvent → EventLoop → Prop
  | insert {sock : Fd} {ip : Bytes} {now : Time} {b : Broker} {new : Bool} : s.main = .waiting →
      s.thread.broker.addClient sock ip now = (b, new) → LoopCase s (.insert sock ip now)
        { s.setBroker b with main := if new then .inserted sock else .waiting }
  | testState {sock : Fd} : s.main = .inserted sock → LoopCase s .testState { s with
      main := if s.thread.broker.state = .wait_state then .sendCommand sock else .getState sock }
  | sendCommand {sock : Fd} : s.main = .sendCommand sock →
      LoopCase s .sendCommand { s with main := .getState sock, pending := s.pending + 1 }
  | getState {sock : Fd} : s.main = .getState sock → LoopCase s .getState { s with
      main := if s.thread.broker.state = .init then .start sock else .waiting }
  | start {sock : Fd} : s.main = .start sock → s.thread.broker.state = .init → LoopCase s .start
      { s.setBroker (s.thread.broker.setState .started) with main := .thread sock }
  | hasStarted {sock : Fd} : s.main = .start sock → s.thread.broker.state ≠ .init →
      LoopCase s .start { s with main := .waiting }
  | makeThread {sock : Fd} : s.main = .thread sock → LoopCase s .makeThread
      { s with thread := { broker := s.thread.broker }, main := .waiting }
  | count : s.within = .outside → s.thread.pc = .loop → s.thread.broker.state = .started →
      LoopCase s .count { s with
        thread := { s.thread with vec_fds := [] }
        within := .counted s.thread.broker.getClientCount }
  | finish : s.within = .counted 0 → LoopCase s .finish { s with
      thread := { s.thread with broker := s.thread.broker.setState .init, pc := .returned }
      within := .outside }
  | iterate {n : Nat} : s.within = .counted (n + 1) → LoopCase s .iterate { s with
      thread := { s.thread with
        vec_fds := s.thread.broker.clients.keys ++ [s.thread.broker.control_sock] }
      within := .iterated }
  | setWaitState : s.within = .iterated → LoopCase s .setWaitState
      { s.setBroker (s.thread.broker.setState .wait_state) with within := .outside }
  | server {e : ServerEvent} {thread : ServerThread} : s.within = .outside →
      ¬ (s.thread.pc = .loop ∧ s.thread.broker.state = .started) →
      (s.thread.readsAdd e → 0 < s.pending) → s.thread.step e = .ok (some thread) →
      LoopCase s (.server e) { s with
        thread
        pending := if s.thread.readsAdd e then s.pending - 1 else s.pending }

/-- What `atStarted` checks. -/
theorem atStarted_iff (s : ServerThread) :
    s.atStarted = true ↔ s.pc = .loop ∧ s.broker.state = .started := by
  unfold ServerThread.atStarted
  split
  · rename_i hpc hstate
    simp [hpc, hstate]
  · rename_i hnot
    simp only [Bool.false_eq_true, false_iff, not_and]
    exact hnot

/-- What a step of the two threads does, by its label. -/
theorem eventLoop_cases {s t : EventLoop} {e : LoopEvent} (h : eventLoop.Step s e t) :
    LoopCase s e t := by
  replace h : s.step e = some t := h
  -- the main thread first, then the rounds of the server thread
  cases e with
  | insert sock ip now =>
    simp only [EventLoop.step, EventLoop.insert] at h
    split at h
    · rename_i hmain
      obtain rfl := Option.some.inj h
      exact .insert hmain rfl
    · cases h
  | testState =>
    simp only [EventLoop.step, EventLoop.testState] at h
    split at h
    · rename_i sock hmain
      obtain rfl := Option.some.inj h
      exact .testState hmain
    · cases h
  | sendCommand =>
    simp only [EventLoop.step, EventLoop.sendCommand] at h
    split at h
    · rename_i sock hmain
      obtain rfl := Option.some.inj h
      exact .sendCommand hmain
    · cases h
  | getState =>
    simp only [EventLoop.step, EventLoop.getState] at h
    split at h
    · rename_i sock hmain
      obtain rfl := Option.some.inj h
      exact .getState hmain
    · cases h
  | start =>
    simp only [EventLoop.step, EventLoop.start] at h
    split at h
    · rename_i sock hmain
      split at h
      · -- `Start` makes a thread only in the state `init`
        rename_i hstate
        obtain rfl := Option.some.inj h
        exact .start hmain hstate
      · rename_i hstate
        obtain rfl := Option.some.inj h
        exact .hasStarted hmain hstate
    · cases h
  | makeThread =>
    simp only [EventLoop.step, EventLoop.makeThread] at h
    split at h
    · rename_i sock hmain
      obtain rfl := Option.some.inj h
      exact .makeThread hmain
    · cases h
  | count =>
    simp only [EventLoop.step, EventLoop.count, Option.ite_none_right_eq_some] at h
    obtain ⟨⟨hwithin, hat⟩, ht⟩ := h
    obtain rfl := Option.some.inj ht
    obtain ⟨hpc, hstate⟩ := (atStarted_iff s.thread).mp hat
    exact .count hwithin hpc hstate
  | finish =>
    simp only [EventLoop.step, EventLoop.finish, Option.ite_none_right_eq_some] at h
    obtain ⟨hwithin, ht⟩ := h
    obtain rfl := Option.some.inj ht
    exact .finish hwithin
  | iterate =>
    simp only [EventLoop.step, EventLoop.iterate] at h
    split at h
    · rename_i n hwithin
      obtain rfl := Option.some.inj h
      rw [UnorderedMap.keys_eq_map_toList]
      exact .iterate hwithin
    · cases h
  | setWaitState =>
    simp only [EventLoop.step, EventLoop.setWaitState, Option.ite_none_right_eq_some] at h
    obtain ⟨hwithin, ht⟩ := h
    obtain rfl := Option.some.inj ht
    exact .setWaitState hwithin
  -- any other step is one of `ServerThread`
  | server e =>
    simp only [EventLoop.step, EventLoop.server, Option.ite_none_right_eq_some,
      Option.map_eq_some_iff] at h
    obtain ⟨⟨hwithin, hat, hadd⟩, thread, hthread, ht⟩ := h
    obtain rfl := ht
    rw [atStarted_iff] at hat
    cases hstep : s.thread.step e with
    | error fault => simp [hstep, Except.toOption] at hthread
    | ok r =>
      simp only [hstep, Except.toOption, Option.join_some] at hthread
      exact .server hwithin hat hadd (hstep.trans (by rw [hthread]))

/-- Where the main thread stays out of it, the steps inside of `started` are those of
    `ServerThread::started`. -/
theorem started_uninterrupted {s : EventLoop} (hwithin : s.within = .outside)
    (hat : s.thread.atStarted = true) :
    (if s.thread.broker.getClientCount = 0 then [LoopEvent.count, .finish]
      else [.count, .iterate, .setWaitState]).foldlM EventLoop.step s =
      some { s with thread := s.thread.started } := by
  have hcount : s.count = some { s with
      thread := { s.thread with vec_fds := [] }
      within := .counted s.thread.broker.getClientCount } := by
    simp [EventLoop.count, hwithin, hat]
  -- no client, and the list is that of the control socket alone
  cases hn : s.thread.broker.getClientCount with
  | zero =>
    rw [hn] at hcount
    simp [EventLoop.step, hcount, EventLoop.finish, ServerThread.started, hn, hwithin]
  | succ n =>
    rw [hn] at hcount
    simp [EventLoop.step, hcount, EventLoop.iterate, EventLoop.setWaitState, ServerThread.started,
      EventLoop.setBroker, hn, hwithin]

/-! ## The server thread between two passes -/

/-- A step outside of `started` keeps the list, takes no client in and sets the state to
    `started`, as it does when it reads `ADD`, or not at all. -/
structure PassStep (s : ServerThread) (e : ServerEvent) (t : ServerThread) : Prop where
  running : s.pc ≠ .returned ∧ t.pc ≠ .returned
  vec_fds : t.vec_fds = s.vec_fds
  state : t.broker.state = s.broker.state ∨ t.broker.state = .started
  add : s.readsAdd e = true → t.broker.state = .started
  clients : ∀ fd ∈ t.broker.clients, fd ∈ s.broker.clients

/-- A step of the server thread is one of the system. -/
theorem system_of_server {s t : ServerThread} {e : ServerEvent} (h : s.step e = .ok (some t)) :
    system.Step s (.server e) t := .inl (by simp [systemStep, h, Except.toOption])

/-- Whoever reads `ADD` sets the state to `started`. -/
theorem state_of_readsAdd {s t : ServerThread} {e : ServerEvent} (h : s.step e = .ok (some t))
    (hreads : s.readsAdd e = true) : t.broker.state = .started := by
  unfold ServerThread.readsAdd at hreads
  split at hreads
  · rename_i input
    split at hreads
    · rename_i client_num i now del hpc
      have hfd := of_decide_eq_true hreads
      simp only [ServerThread.step, hpc] at h
      split at h
      · obtain ⟨t', hscan, ht⟩ := Except.bind_eq_ok_iff.mp h
        obtain rfl := Option.some.inj (Except.ok.inj ht)
        -- the scan is at the control socket, and the command is `ADD`
        simp only [ServerThread.scanAt, hfd, scanSocket, if_true] at hscan
        obtain rfl := Except.ok.inj hscan
        rfl
      · simp at h
    · cases hreads
  · cases hreads

/-- Outside of `started` the server thread keeps its list, and adds no client. -/
theorem passStep_of_step {s t : ServerThread} {e : ServerEvent} (h : s.step e = .ok (some t))
    (hat : ¬ (s.pc = .loop ∧ s.broker.state = .started)) (hinit : s.broker.state ≠ .init) :
    PassStep s e t := by
  have hclients : ∀ fd ∈ t.broker.clients, fd ∈ s.broker.clients := by
    intro fd hfd
    obtain ⟨entry, hentry⟩ := Option.isSome_iff_exists.mp (AList.lookup_isSome.mpr hfd)
    obtain hold | ⟨-, -, ip, now, he⟩ := (system_connections (system_of_server h)).lookup hentry
    · exact AList.lookup_isSome.mp (by rw [hold]; rfl)
    · cases he
  -- where a step sets the state it sets it to `started`
  have hstate : ∀ {b : Broker}, b = s.broker ∨ b = s.broker.setState .started →
      b.state = s.broker.state ∨ b.state = .started := by
    rintro b (rfl | rfl)
    · exact .inl rfl
    · exact .inr rfl
  have hadd := state_of_readsAdd h
  cases serverStep_cases h with
  | idle _ hstate => exact absurd hstate hinit
  | finished hpc hstate | started hpc hstate => exact absurd ⟨hpc, hstate⟩ hat
  | wait hpc _ hb => exact ⟨by simp [hpc], rfl, hstate hb, hadd, hclients⟩
  -- the pass goes on behind the socket
  | @socket client_num i now del fd event b next hpc hi hfd hscan =>
    have hafter : afterSocket client_num i now del fd next ≠ .returned := by
      cases next <;> simp [afterSocket]
    exact ⟨⟨by simp [hpc], hafter⟩, rfl, hscan.state.1, hadd, hclients⟩
  | scanEnd hpc _ hb => exact ⟨by simp [hpc], rfl, hstate hb, hadd, hclients⟩
  | close hpc => exact ⟨by simp [hpc], rfl, .inl rfl, hadd, hclients⟩
  | closed hpc => exact ⟨by simp [hpc], rfl, .inl rfl, hadd, hclients⟩

/-! ## Where the threads are -/

/-- What holds of the two threads in every run. -/
structure PhaseInv (s : EventLoop) : Prop where
  within : s.within ≠ .outside → s.thread.pc = .loop ∧ s.thread.broker.state = .started
  counted : ∀ n, s.within = .counted n → s.thread.vec_fds = []
  returned : s.thread.pc = .returned ↔
    s.thread.broker.state = .init ∨ ∃ sock, s.main = .thread sock
  making : ∀ sock, s.main = .thread sock → s.thread.broker.state = .started

/-- Before the first client there is no server thread. -/
theorem phaseInv_init (control_sock : Fd) : PhaseInv (.init control_sock) := by
  constructor <;> simp [EventLoop.init]

/-- A thread that has returned is in no part of `started`. -/
theorem PhaseInv.outside {s : EventLoop} (h : PhaseInv s) (hpc : s.thread.pc = .returned) :
    s.within = .outside := by
  by_contra hwithin
  simp [(h.within hwithin).1] at hpc

/-- `AddClient` adds at most its own client, and does not touch the state. -/
theorem addClient_eq {b b' : Broker} {sock : Fd} {ip : Bytes} {now : Time} {new : Bool}
    (h : b.addClient sock ip now = (b', new)) :
    b'.state = b.state ∧ ∀ fd ∈ b'.clients, fd ∈ b.clients ∨ (fd = sock ∧ new = true) := by
  have hstate : (b.addClient sock ip now).1.state = b.state := rfl
  have hnew : (b.addClient sock ip now).2 = (b.clients.lookup sock).isNone := rfl
  have hclients : (b.addClient sock ip now).1.clients =
      b.clients.insertNew sock (some b.next_ref) := rfl
  rw [h] at hstate hnew hclients
  dsimp only at hstate hnew hclients
  refine ⟨hstate, fun fd hfd => ?_⟩
  -- a socket that is there stays, and at most the new one is added
  by_cases hmem : fd ∈ b.clients
  · exact .inl hmem
  by_cases hsock : fd = sock
  · rw [hsock, ← AList.lookup_eq_none] at hmem
    exact .inr ⟨hsock, by simp [hnew, hmem]⟩
  · rw [hclients, ← AList.lookup_isSome, UnorderedMap.lookup_insertNew_ne hsock,
      AList.lookup_isSome] at hfd
    exact .inl hfd

/-- A step of the server thread is taken when there is one. -/
theorem passStep_of_server {s : EventLoop} {e : ServerEvent} {thread : ServerThread}
    (h : PhaseInv s) (hat : ¬ (s.thread.pc = .loop ∧ s.thread.broker.state = .started))
    (hstep : s.thread.step e = .ok (some thread)) : PassStep s.thread e thread := by
  refine passStep_of_step hstep hat fun hinit => ?_
  have hpc := h.returned.mpr (.inl hinit)
  simp [ServerThread.step, hpc] at hstep

/-- While the server thread runs, nobody is about to make one. -/
theorem PhaseInv.main_ne_thread {s : EventLoop} (h : PhaseInv s) (hpc : s.thread.pc ≠ .returned)
    (sock : Fd) : s.main ≠ .thread sock := by
  intro hthread
  exact hpc (h.returned.mpr (.inr ⟨sock, hthread⟩))

/-- Where the main thread is neither before nor behind making the server thread,
    `returned` says less. -/
theorem PhaseInv.returned_iff {s : EventLoop} (h : PhaseInv s)
    (hmain : ∀ sock, s.main ≠ .thread sock) :
    s.thread.pc = .returned ↔ s.thread.broker.state = .init := by
  rw [h.returned]
  simp [hmain]

/-- The main thread goes from one such place to another. -/
theorem PhaseInv.of_main {s : EventLoop} {pc : MainPc} {pending : Nat} (h : PhaseInv s)
    (hmain : ∀ sock, s.main ≠ .thread sock) (hpc : ∀ sock, pc ≠ .thread sock) :
    PhaseInv { s with main := pc, pending := pending } := by
  refine ⟨h.within, h.counted, ?_, fun sock hthread => absurd hthread (hpc sock)⟩
  rw [h.returned_iff hmain]
  simp [hpc]

/-- Each step keeps the two threads where the state says they are. -/
theorem PhaseInv.step {s t : EventLoop} {e : LoopEvent} (h : PhaseInv s)
    (hstep : eventLoop.Step s e t) : PhaseInv t := by
  cases eventLoop_cases hstep with
  | @insert sock ip now b new hmain hadd =>
    have hb := (addClient_eq hadd).1
    -- a client that is inserted is waiting to be announced, no thread is being made
    have hnot : ∀ sock', (if new then MainPc.inserted sock else .waiting) ≠ .thread sock' := by
      cases new <;> simp
    constructor
    · show s.within ≠ .outside → s.thread.pc = .loop ∧ b.state = .started
      rw [hb]
      exact h.within
    · exact h.counted
    · show s.thread.pc = .returned ↔ b.state = .init ∨ _
      rw [hb, h.returned_iff (by simp [hmain])]
      simp [hnot]
    · intro sock' hthread
      exact absurd hthread (hnot sock')
  | @testState sock hmain =>
    have hnot : ∀ sock', (if s.thread.broker.state = .wait_state then MainPc.sendCommand sock
        else .getState sock) ≠ .thread sock' := by
      intro sock'
      split <;> simp
    exact h.of_main (by simp [hmain]) hnot
  | sendCommand hmain =>
    exact h.of_main (by simp [hmain]) (by simp)
  | @getState sock hmain =>
    have hnot : ∀ sock', (if s.thread.broker.state = .init then MainPc.start sock
        else .waiting) ≠ .thread sock' := by
      intro sock'
      split <;> simp
    exact h.of_main (by simp [hmain]) hnot
  | @start sock hmain hinit =>
    -- `init` is the state of a thread that has returned
    have hpc := (h.returned_iff (by simp [hmain])).mpr hinit
    have hwithin := h.outside hpc
    -- the state is `started` before the thread is made
    refine ⟨fun hne => absurd hwithin hne, h.counted, ?_, fun _ _ => rfl⟩
    simp only [EventLoop.setBroker, hpc, true_iff]
    exact .inr ⟨sock, rfl⟩
  | hasStarted hmain =>
    exact h.of_main (by simp [hmain]) (by simp)
  | @makeThread sock hmain =>
    have hstarted := h.making sock hmain
    refine ⟨fun hne => ⟨rfl, hstarted⟩, fun _ _ => rfl, ?_, fun _ _ => hstarted⟩
    simp [hstarted]
  -- the server thread builds its list in `started`
  | count hwithin hpc hstate =>
    refine ⟨fun _ => ⟨hpc, hstate⟩, fun _ _ => rfl, ?_, h.making⟩
    show s.thread.pc = .returned ↔ _
    exact h.returned
  | finish hwithin =>
    have hin := h.within (by simp [hwithin])
    have hmain := h.main_ne_thread (by simp [hin.1])
    refine ⟨fun hne => absurd rfl hne, fun n hn => by simp at hn, ?_,
      fun sock hthread => absurd hthread (hmain sock)⟩
    simp [setState]
  | iterate hwithin =>
    have hin := h.within (by simp [hwithin])
    refine ⟨fun _ => hin, fun n hn => by simp at hn, ?_, h.making⟩
    exact h.returned
  | setWaitState hwithin =>
    have hin := h.within (by simp [hwithin])
    have hmain := h.main_ne_thread (by simp [hin.1])
    refine ⟨fun hne => absurd rfl hne, fun n hn => by simp at hn, ?_,
      fun sock hthread => absurd hthread (hmain sock)⟩
    simp [EventLoop.setBroker, setState, hin.1, hmain]
  | @server e thread hwithin hat hadd hserver =>
    -- rounds of the thread keep away from `init`, which only its end sets
    have hpass := passStep_of_server h hat hserver
    have hmain := h.main_ne_thread hpass.running.1
    have hne : thread.broker.state ≠ .init := by
      have hinit := mt h.returned.mpr hpass.running.1
      obtain heq | heq := hpass.state
      · rw [heq]
        exact fun hs => hinit (.inl hs)
      · simp [heq]
    refine ⟨fun hne => absurd hwithin hne, fun n hn => ?_, ?_,
      fun sock hthread => absurd hthread (hmain sock)⟩
    · rw [hwithin] at hn
      cases hn
    · simp [hpass.running.2, hne, hmain]

/-! ## Who sees to a client -/

/-- The main thread is on the way to the client's `ADD`, or to the start of the server
    thread. -/
def Attended (s : EventLoop) (fd : Fd) : Prop :=
  s.main = .inserted fd ∨ s.main = .sendCommand fd ∨ s.main = .thread fd ∨
    (s.thread.broker.state = .init ∧ (s.main = .getState fd ∨ s.main = .start fd))

/-- What is known of a client, by where the server thread is. -/
def Covered (s : EventLoop) (fd : Fd) : Prop :=
  match s.within with
  | .outside => Watched s fd ∨ Attended s fd
  -- the server thread is on its way to `init`
  | .counted 0 => 0 < s.pending ∨ s.main = .inserted fd ∨ s.main = .getState fd
  | .counted (_ + 1) => True
  -- the server thread is on its way to `wait_state`
  | .iterated => fd ∈ s.thread.vec_fds ∨ 0 < s.pending ∨ s.main = .inserted fd

/-- Every client is seen to by one of the threads. -/
def AllCovered (s : EventLoop) : Prop := ∀ fd ∈ s.thread.broker.clients, Covered s fd

/-- A command that waits sees to every client. -/
theorem covered_of_pending {s : EventLoop} (h : 0 < s.pending) (fd : Fd) : Covered s fd := by
  unfold Covered
  split
  · exact .inl (.inr (.inl h))
  · exact .inl h
  · trivial
  · exact .inr (.inl h)

/-- A client that has just been inserted is covered, as the main thread has still to look at
    `state`. -/
theorem covered_of_inserted {s : EventLoop} {fd : Fd} (h : s.main = .inserted fd) :
    Covered s fd := by
  unfold Covered
  split
  · exact .inr (.inl h)
  · exact .inr (.inl h)
  · trivial
  · exact .inr (.inr h)

/-- A client the main thread has turned from, or has never turned to, stays covered. -/
theorem Covered.of_main {s t : EventLoop} {fd : Fd} (h : Covered s fd)
    (hattended : ¬ Attended s fd) (hget : s.main ≠ .getState fd) (hwithin : t.within = s.within)
    (hvec : t.thread.vec_fds = s.thread.vec_fds) (hpc : t.thread.pc = s.thread.pc)
    (hstate : t.thread.broker.state = s.thread.broker.state) (hpending : t.pending = s.pending) :
    Covered t fd := by
  have hinserted : s.main ≠ .inserted fd := fun hmain => hattended (.inl hmain)
  unfold Covered at h ⊢
  rw [hwithin, hvec, hpending]
  -- where a new client is looked for depends on the place in the loop
  split at h
  · refine .inl ?_
    unfold Watched
    rw [hvec, hpc, hstate, hpending]
    exact h.resolve_right hattended
  · exact .inl (h.resolve_right (not_or.mpr ⟨hinserted, hget⟩))
  · trivial
  · obtain hmem | hwait | hmain := h
    · exact .inl hmem
    · exact .inr (.inl hwait)
    · exact absurd hmain hinserted

/-- The main thread is at one client at a time. -/
theorem not_attended_of_sock {s : EventLoop} {fd : Fd} (h : s.main.sock ≠ some fd) :
    ¬ Attended s fd ∧ s.main ≠ .getState fd := by
  have hmain : ∀ pc : MainPc, pc.sock = some fd → s.main ≠ pc := by
    rintro pc hpc rfl
    exact h hpc
  refine ⟨?_, hmain _ rfl⟩
  rintro (hinserted | hsend | hthread | ⟨-, hget | hstart⟩)
  · exact hmain _ rfl hinserted
  · exact hmain _ rfl hsend
  · exact hmain _ rfl hthread
  · exact hmain _ rfl hget
  · exact hmain _ rfl hstart

/-- The server thread runs and builds the list anew. -/
theorem PhaseInv.watched {s : EventLoop} (h : PhaseInv s) (hmain : ∀ sock, s.main ≠ .thread sock)
    (hstate : s.thread.broker.state = .started) (fd : Fd) : Watched s fd := by
  refine .inr (.inr ⟨hstate, fun hpc => ?_⟩)
  obtain hinit | ⟨sock, hthread⟩ := h.returned.mp hpc
  · simp [hstate] at hinit
  · exact hmain sock hthread

/-- Behind the test for `wait_state` the client is the server thread's, or still to be
    seen to. -/
theorem covered_testState {s : EventLoop} {sock : Fd} (hphase : PhaseInv s)
    (hclient : sock ∈ s.thread.broker.clients) (hmain : s.main = .inserted sock)
    (hloses : ¬ LosesClient s .testState) : Covered { s with
      main := if s.thread.broker.state = .wait_state then .sendCommand sock
        else .getState sock } sock := by
  -- by where the server thread is: its list may be built from a state with the client or without
  -- it
  cases hwithin : s.within with
  | outside =>
    cases hstate : s.thread.broker.state with
    | init => exact .inr (.inr (.inr (.inr ⟨hstate, .inl (by simp)⟩)))
    | started =>
      exact .inl (hphase.watched (fun sock' => by simp [hmain]) hstate sock)
    | wait_state => exact .inr (.inr (.inl (by simp)))
  | counted n =>
    have hstate := (hphase.within (by simp [hwithin])).2
    cases n with
    | zero => exact .inr (.inr (by simp [hstate]))
    | succ n => trivial
  | iterated =>
    by_cases hmem : sock ∈ s.thread.vec_fds
    · exact .inl hmem
    · refine .inr (.inl (Nat.pos_of_ne_zero fun hpending => ?_))
      exact hloses ⟨hpending, sock, hclient, .inl ⟨rfl, hmain, hwithin, hmem⟩⟩

/-- Behind the test for `init` the client is the server thread's, or there is to be a
    new one. -/
theorem covered_getState {s : EventLoop} {sock : Fd} (h : Covered s sock)
    (hclient : sock ∈ s.thread.broker.clients) (hmain : s.main = .getState sock)
    (hloses : ¬ LosesClient s .getState) : Covered { s with
      main := if s.thread.broker.state = .init then .start sock else .waiting } sock := by
  -- the server thread has counted the client, or it ends and the main thread starts another one
  cases hwithin : s.within with
  | outside =>
    simp only [Covered, hwithin] at h ⊢
    obtain hwatched | hattended := h
    · exact .inl hwatched
    · simp only [Attended, hmain, reduceCtorEq, false_or, or_false, and_true] at hattended
      exact .inr (.inr (.inr (.inr ⟨hattended, .inr (by simp [hattended])⟩)))
  | counted n =>
    cases n with
    | zero =>
      refine .inl (Nat.pos_of_ne_zero fun hpending => ?_)
      exact hloses ⟨hpending, sock, hclient, .inr ⟨rfl, hmain, hwithin⟩⟩
    -- a client was counted
    | succ n => trivial
  | iterated =>
    simp only [Covered, hwithin, hmain, reduceCtorEq, or_false] at h ⊢
    exact h.imp_right .inl

/-- A step of the server thread leaves the clients it polls, and reads no `ADD` in vain. -/
theorem covered_server {s : EventLoop} {e : ServerEvent} {thread : ServerThread} {fd : Fd}
    (h : Covered s fd) (hphase : PhaseInv s) (hwithin : s.within = .outside)
    (hpass : PassStep s.thread e thread) : Covered { s with
      thread
      pending := if s.thread.readsAdd e then s.pending - 1 else s.pending } fd := by
  simp only [Covered, hwithin] at h ⊢
  -- polled, waited for with ADD, to be listed anew, or still with the main thread
  obtain (hmem | hwait | ⟨hstate, -⟩) | hattended := h
  · exact .inl (.inl (hpass.vec_fds ▸ hmem))
  · -- the ADD is read in this step, or it still waits
    by_cases hreads : s.thread.readsAdd e = true
    · exact .inl (.inr (.inr ⟨hpass.add hreads, hpass.running.2⟩))
    · exact .inl (.inr (.inl (by simpa [hreads] using hwait)))
  · refine .inl (.inr (.inr ⟨?_, hpass.running.2⟩))
    exact hpass.state.elim (fun heq => heq.trans hstate) id
  · obtain hmain | hmain | hmain | ⟨hinit, -⟩ := hattended
    · exact .inr (.inl hmain)
    · exact .inr (.inr (.inl hmain))
    · exact .inr (.inr (.inr (.inl hmain)))
    · exact absurd (hphase.returned.mpr (.inl hinit)) hpass.running.1

/-- No step that loses no client leaves one to nobody. -/
theorem AllCovered.step {s t : EventLoop} {e : LoopEvent} (h : AllCovered s) (hphase : PhaseInv s)
    (hloses : ¬ LosesClient s e) (hstep : eventLoop.Step s e t) : AllCovered t := by
  intro fd hfd
  cases eventLoop_cases hstep with
  | @insert sock ip now b new hmain hadd =>
    obtain ⟨hstate, hclients⟩ := addClient_eq hadd
    -- a client that was there before, and the one that has just come
    obtain hold | ⟨rfl, rfl⟩ := hclients fd hfd
    · obtain ⟨hnot, hget⟩ := @not_attended_of_sock s fd (by simp [hmain, MainPc.sock])
      exact (h fd hold).of_main hnot hget rfl rfl rfl hstate rfl
    · exact covered_of_inserted rfl
  | @testState sock hmain =>
    -- the client that is being added, or another one
    by_cases hsock : sock = fd
    · subst hsock
      exact covered_testState hphase hfd hmain hloses
    · obtain ⟨hnot, hget⟩ := @not_attended_of_sock s fd
        (by simp [hmain, MainPc.sock, hsock])
      exact (h fd hfd).of_main hnot hget rfl rfl rfl rfl rfl
  | sendCommand => exact covered_of_pending (Nat.succ_pos _) fd
  | @getState sock hmain =>
    by_cases hsock : sock = fd
    · subst hsock
      exact covered_getState (h sock hfd) hfd hmain hloses
    · obtain ⟨hnot, hget⟩ := @not_attended_of_sock s fd
        (by simp [hmain, MainPc.sock, hsock])
      exact (h fd hfd).of_main hnot hget rfl rfl rfl rfl rfl
  | @start sock hmain hinit =>
    -- no server thread runs, so only what waits and what is being added is covered
    have hwithin := hphase.outside (hphase.returned.mpr (.inl hinit))
    have hcovered := h fd hfd
    simp only [Covered, hwithin, EventLoop.setBroker] at hcovered ⊢
    obtain (hmem | hwait | ⟨hstate, -⟩) | hattended := hcovered
    · exact .inl (.inl hmem)
    · exact .inl (.inr (.inl hwait))
    · simp [hinit] at hstate
    · simp only [Attended, hmain, reduceCtorEq, false_or] at hattended
      obtain rfl := MainPc.start.inj hattended.2
      exact .inr (.inr (.inr (.inl rfl)))
  | @hasStarted sock hmain hinit =>
    refine (h fd hfd).of_main ?_ (by simp [hmain]) rfl rfl rfl rfl rfl
    simp [Attended, hmain, hinit]
  | @makeThread sock hmain =>
    have hwithin := hphase.outside (hphase.returned.mpr (.inr ⟨sock, hmain⟩))
    simp only [Covered, hwithin]
    exact .inl (.inr (.inr ⟨hphase.making sock hmain, by simp⟩))
  | count hwithin hpc hstate =>
    have hmem : fd ∈ s.thread.broker.clients.keys := AList.mem_keys.mp hfd
    rw [← UnorderedMap.keys_eq_map_toList] at hmem
    have hpos : 0 < s.thread.broker.getClientCount := by
      simpa [getClientCount] using List.length_pos_of_mem hmem
    -- the client itself is counted, so the thread does not end
    obtain ⟨n, hn⟩ := Nat.exists_eq_succ_of_ne_zero (Nat.ne_of_gt hpos)
    simp only [Covered, hn]
  -- the thread ends: whoever is not watched is the client that is being added
  | finish hwithin =>
    have hcovered := h fd hfd
    simp only [Covered, hwithin] at hcovered
    obtain hwait | hmain | hmain := hcovered
    · exact .inl (.inr (.inl hwait))
    · exact covered_of_inserted hmain
    · exact .inr (.inr (.inr (.inr ⟨rfl, .inl hmain⟩)))
  | iterate hwithin => exact .inl (List.mem_append_left _ (AList.mem_keys.mp hfd))
  -- the list is in use from now on
  | setWaitState hwithin =>
    have hcovered := h fd hfd
    simp only [Covered, hwithin] at hcovered
    obtain hmem | hwait | hmain := hcovered
    · exact .inl (.inl hmem)
    · exact .inl (.inr (.inl hwait))
    · exact covered_of_inserted hmain
  | @server e thread hwithin hat hadd hserver =>
    have hpass := passStep_of_server hphase hat hserver
    exact covered_server (h fd (hpass.clients fd hfd)) hphase hwithin hpass

/-- In every run the threads are where the state says. -/
theorem phaseInv_of_reachable {s : EventLoop} (h : eventLoop.Reachable s) : PhaseInv s := by
  refine h.invariant ?_ PhaseInv.step
  rintro s ⟨control_sock, rfl⟩
  exact phaseInv_init control_sock

/-- In a run that loses no client every client is polled, announced, or being added. -/
theorem allCovered_of_reachable {s : EventLoop}
    (h : (eventLoop.restrict fun s e => ¬ LosesClient s e).Reachable s) :
    PhaseInv s ∧ AllCovered s := by
  refine h.invariant (P := fun s => PhaseInv s ∧ AllCovered s) ?_ ?_
  · rintro s ⟨control_sock, rfl⟩
    refine ⟨phaseInv_init control_sock, fun fd hfd => ?_⟩
    simp [EventLoop.init] at hfd
  · rintro s e t ⟨hphase, hcovered⟩ ⟨hloses, hstep⟩
    exact ⟨hphase.step hstep, hcovered.step hphase hloses hstep⟩

/-- Between two additions all clients are watched. -/
theorem AllCovered.watched {s : EventLoop} (h : AllCovered s) (hrest : AtRest s) :
    ∀ fd ∈ s.thread.broker.clients, Watched s fd := by
  obtain ⟨hmain, hwithin⟩ := hrest
  intro fd hfd
  have hcovered := h fd hfd
  simp only [Covered, hwithin] at hcovered
  refine hcovered.resolve_right ?_
  simp [Attended, hmain]

/-- Behind such a step both threads come to rest with the client polled by nobody. -/
theorem LosesClient.lost {s t : EventLoop} {e : LoopEvent} (h : LosesClient s e)
    (hphase : PhaseInv s) (hstep : eventLoop.Step s e t) : ∃ es u, eventLoop.Run t es u ∧
      AtRest u ∧ ∃ fd ∈ u.thread.broker.clients, ¬ Watched u fd := by
  obtain ⟨hpending, sock, hclient, ⟨rfl, hmain, hwithin, hmem⟩ | ⟨rfl, hmain, hwithin⟩⟩ := h
  · have hstate := (hphase.within (by simp [hwithin])).2
    replace hstep : s.testState = some t := hstep
    simp only [EventLoop.testState, hmain, Option.some.injEq, hstate, reduceCtorEq,
      if_false] at hstep
    -- the server thread goes on to wait, with the list it has built
    have hget : eventLoop.Step t .getState { s with main := .waiting } := by
      rw [← hstep]
      simp [eventLoop, EventLoop.step, EventLoop.getState, hstate]
    have hwait : eventLoop.Step { s with main := .waiting } .setWaitState
        { s.setBroker (s.thread.broker.setState .wait_state) with
          main := .waiting
          within := .outside } := by
      simp [eventLoop, EventLoop.step, EventLoop.setWaitState, hwithin, EventLoop.setBroker]
    refine ⟨_, _, (LTS.Run.nil.snoc hget).snoc hwait, ⟨rfl, rfl⟩, sock, hclient, ?_⟩
    simp [Watched, EventLoop.setBroker, hmem, hpending, setState]
  · have hstate := (hphase.within (by simp [hwithin])).2
    replace hstep : s.getState = some t := hstep
    simp only [EventLoop.getState, hmain, Option.some.injEq, hstate, reduceCtorEq,
      if_false] at hstep
    -- the server thread ends
    have hfinish : eventLoop.Step t .finish { s with
        thread := { s.thread with broker := s.thread.broker.setState .init, pc := .returned }
        main := .waiting
        within := .outside } := by
      rw [← hstep]
      simp [eventLoop, EventLoop.step, EventLoop.finish, hwithin]
    refine ⟨_, _, LTS.Run.nil.snoc hfinish, ⟨rfl, rfl⟩, sock, hclient, ?_⟩
    simp [Watched, hphase.counted 0 hwithin, hpending, setState]

/-- No client is lost in a run without such a step, and each such step may lose one. -/
theorem clients_watched (s : EventLoop) :
    ((eventLoop.restrict fun s e => ¬ LosesClient s e).Reachable s → AtRest s →
      ∀ fd ∈ s.thread.broker.clients, Watched s fd) ∧
    ∀ e t, eventLoop.Reachable s → LosesClient s e → eventLoop.Step s e t →
      ∃ es u, eventLoop.Run t es u ∧ AtRest u ∧
        ∃ fd ∈ u.thread.broker.clients, ¬ Watched u fd := by
  constructor
  · intro h hrest
    exact (allCovered_of_reachable h).2.watched hrest
  · intro e t h hloses hstep
    exact hloses.lost (phaseInv_of_reachable h) hstep

/-- A first client, up to the list the server thread builds for it. -/
def firstClient : List LoopEvent :=
  [.insert 5 [] 0, .testState, .getState, .start, .makeThread, .count, .iterate]

/-- A second client is inserted before the server thread waits. -/
def secondClient : List LoopEvent := firstClient ++ [.insert 6 [] 0]

/-- The second client is lost. -/
def losesSecond : List LoopEvent := secondClient ++ [.testState, .getState, .setWaitState]

/-- A check that the main thread does not look at `state` inside of `started`. -/
def looksOutside (s : EventLoop) : LoopEvent → Bool
  | .testState | .getState => s.within = .outside
  | _ => true

/-- What `looksOutside` checks. -/
theorem not_losesClient_of_check {s : EventLoop} {e : LoopEvent} (h : looksOutside s e = true) :
    ¬ LosesClient s e := by
  rintro ⟨-, sock, -, ⟨rfl, -, hwithin, -⟩ | ⟨rfl, -, hwithin⟩⟩ <;> simp [looksOutside, hwithin] at h

/-- One client is polled; a second one may be lost. -/
theorem clients_watched_second :
    (∃ s, AtRest s ∧ s.thread.broker.clients.keys = [5] ∧
      ∀ fd ∈ s.thread.broker.clients, Watched s fd) ∧
    ∃ t es u, eventLoop.Run t es u ∧ AtRest u ∧
      ∃ fd ∈ u.thread.broker.clients, ¬ Watched u fd := by
  constructor
  · have hrun : ((firstClient ++ [LoopEvent.setWaitState]).foldlM (fun s e =>
        if looksOutside s e then s.step e else none) (EventLoop.init 4)).map
        (fun s => (s.main, s.within, s.thread.broker.clients.keys)) =
        some (.waiting, .outside, [5]) := by decide +kernel
    obtain ⟨s, hs, hfinal⟩ := Option.map_eq_some_iff.mp hrun
    simp only [Prod.mk.injEq] at hfinal
    have hreach : (eventLoop.restrict fun s e => ¬ LosesClient s e).Reachable s := by
      refine ⟨_, _, ⟨4, rfl⟩, LTS.run_of_foldlM (fun {s e t} hstep => ?_) hs⟩
      obtain ⟨hcheck, hstep⟩ := Option.ite_none_right_eq_some.mp hstep
      exact ⟨not_losesClient_of_check hcheck, hstep⟩
    have hrest : AtRest s := ⟨hfinal.1, hfinal.2.1⟩
    exact ⟨s, hrest, hfinal.2.2, (clients_watched s).1 hreach hrest⟩
  · have hrun : (secondClient.foldlM EventLoop.step (EventLoop.init 4)).map
        (fun s => (s.main, s.within, s.thread.vec_fds, s.thread.broker.clients.keys, s.pending)) =
        some (.inserted 6, .iterated, [5, 4], [6, 5], 0) := by decide +kernel
    obtain ⟨s, hs, hfinal⟩ := Option.map_eq_some_iff.mp hrun
    simp only [Prod.mk.injEq] at hfinal
    obtain ⟨hmain, hwithin, hvec, hkeys, hpending⟩ := hfinal
    have hreach : eventLoop.Reachable s := ⟨_, _, ⟨4, rfl⟩, LTS.run_of_foldlM id hs⟩
    -- the list is built without the second client, and `state` is looked at before it is in use
    have hloses : LosesClient s .testState := by
      refine ⟨hpending, 6, AList.mem_keys.mpr ?_, .inl ⟨rfl, hmain, hwithin, by simp [hvec]⟩⟩
      rw [hkeys]
      simp
    obtain ⟨t, hstep⟩ : ∃ t, s.testState = some t := by simp [EventLoop.testState, hmain]
    exact ⟨t, (clients_watched s).2 .testState t hreach hloses hstep⟩

set_option synthInstance.maxSize 1000 in
/-- The second client is in no list, no command waits, and the broker waits in `poll`. -/
theorem client_lost : ¬ ∀ s, eventLoop.Reachable s → AtRest s →
    ∀ fd ∈ s.thread.broker.clients, Watched s fd := by
  intro h
  have hrun : (losesSecond.foldlM EventLoop.step (EventLoop.init 4)).map
        (fun s => (s.main, s.within, s.thread.vec_fds, s.thread.broker.clients.keys, s.pending,
          s.thread.broker.state)) =
      some (.waiting, .outside, [5, 4], [6, 5], 0, .wait_state) := by decide +kernel
  obtain ⟨s, hs, hfinal⟩ := Option.map_eq_some_iff.mp hrun
  simp only [Prod.mk.injEq] at hfinal
  obtain ⟨hmain, hwithin, hvec, hkeys, hpending, hstate⟩ := hfinal
  have hclient : (6 : Fd) ∈ s.thread.broker.clients := AList.mem_keys.mpr (by simp [hkeys])
  have hwatched := h s ⟨_, _, ⟨4, rfl⟩, LTS.run_of_foldlM id hs⟩ ⟨hmain, hwithin⟩ 6 hclient
  simp [Watched, hvec, hpending, hstate] at hwatched

end Mqtt.Spec
