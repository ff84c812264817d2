import MqttBroker.Spec.ClientIds

/-!
# A pass of the server thread beside the other threads

Between `poll` and the removal of connections other threads add clients, and a
CONNECT takes connections over. However they interleave, a socket is scanned once in
a pass: `vec_fds` has no repetitions, and only sockets behind the scan are marked for
removal.
-/

namespace Mqtt.Spec

open Mqtt.Native Mqtt.Native.Broker

/-- The sockets marked for removal. -/
def toDelete (s : ServerThread) : List Fd :=
  match s.pc with
  | .scan _ _ _ fd_to_delete | .close fd_to_delete => fd_to_delete
  | _ => []

/-- The descriptor of a new socket is not that of the control socket, which is open. -/
def NewDescriptor (s : ServerThread) (e : SystemEvent) : Prop :=
  ∀ sock ip now, e = .addClient sock ip now → sock ≠ s.broker.control_sock

instance (s : ServerThread) (e : SystemEvent) : Decidable (NewDescriptor s e) :=
  match e with
  | .addClient sock _ _ => decidable_of_iff (sock ≠ s.broker.control_sock)
    ⟨fun h _ _ _ he => (SystemEvent.addClient.inj he).1 ▸ h, fun h => h sock _ _ rfl⟩
  | .server _ | .start | .qos | .execute | .rehash => isTrue fun _ _ _ he => by cases he

/-- Every socket is scanned once in a pass. -/
structure ScansOnce (s : ServerThread) : Prop where
  control : s.broker.clients.lookup s.broker.control_sock = none
  nodup : s.vec_fds.Nodup
  behind : ∀ {client_num i now fd_to_delete}, s.pc = .scan client_num i now fd_to_delete →
    ∀ fd ∈ fd_to_delete, fd ∈ s.vec_fds.take i
  init : s.broker.state = .init → s.pc = .returned

/-- Before the first step no pass has begun. -/
theorem scansOnce_of_init {s : ServerThread} (h : system.Init s) : ScansOnce s := by
  obtain ⟨control_sock, rfl⟩ := h
  refine ⟨rfl, List.nodup_nil, fun hpc => ?_, fun _ => rfl⟩
  cases hpc

/-! ## The state and the control socket -/

/-- The scan sets the state to `started` or not at all. -/
theorem ScanCase.state {b b' : Broker} {fd : Fd} {now : Time} {event : SocketEvent}
    {next : ScanNext} (h : ScanCase b fd now event b' next) :
    (b'.state = b.state ∨ b'.state = .started) ∧ b'.control_sock = b.control_sock := by
  -- neither a handler nor a will changes the state of the broker or its control socket
  have hpacket : ∀ {b₁ b₂ : Broker} {fh : FixedHeader} {data random : Bytes} {err : MqttErr},
      b₁.handlePacket fh data fd random = .ok (b₂, err) →
      b₂.state = b₁.state ∧ b₂.control_sock = b₁.control_sock := by
    intro b₁ b₂ fh data random err h
    have hstep := (handlePacket_step b₁ fh data fd random).of_eq_ok h
    exact ⟨hstep.state, hstep.control_sock⟩
  have hwill : ∀ {b₁ b₂ : Broker} {pClient : ClientRef}, b₁.sendWill pClient = .ok b₂ →
      b₂.state = b₁.state ∧ b₂.control_sock = b₁.control_sock := by
    intro b₁ b₂ pClient h
    have hdoes := (does_sendWill b₁ pClient fd).of_eq_ok h
    exact ⟨hdoes.state_eq, hdoes.control_sock_eq⟩
  cases h with
  | add => exact ⟨.inr rfl, rfl⟩
  | control | short | alive => exact ⟨.inl rfl, rfl⟩
  | headerError _ _ h => exact (hwill h).imp_left .inl
  | hangup _ h => exact (hwill h).imp_left .inl
  | timeout _ _ h => exact (hwill h).imp_left .inl
  | handled _ _ h => exact (hpacket h).imp_left .inl
  | refused _ _ h _ herror =>
    obtain ⟨hstate, hcontrol⟩ := hpacket h
    obtain rfl | ⟨data, rfl⟩ := handleError_eq_ok herror
    · exact ⟨.inl hstate, hcontrol⟩
    · exact ⟨.inl hstate, hcontrol⟩

/-- The server thread leaves the control socket alone. -/
theorem ServerCase.control_sock {s t : ServerThread} {e : ServerEvent} (h : ServerCase s e t) :
    t.broker.control_sock = s.broker.control_sock := by
  cases h with
  | wait _ _ hb | scanEnd _ _ hb => obtain rfl | rfl := hb <;> rfl
  | socket _ _ _ hscan => exact hscan.state.2
  | _ => rfl

/-- The control socket is set once. -/
theorem system_control_sock {s t : ServerThread} {e : SystemEvent} (h : system.Step s e t) :
    t.broker.control_sock = s.broker.control_sock := by
  cases system_cases h with
  | server hcase => exact hcase.control_sock
  | qos hdoes => exact hdoes.control_sock_eq
  | rehash hb => rw [hb.others]
  | _ => rfl

/-! ## One step -/

/-- No step but that of the main thread binds a socket. -/
theorem lookup_eq_none_of_step {s t : ServerThread} {e : SystemEvent} {fd : Fd}
    (hstep : system.Step s e t) (hadd : ∀ ip now, e ≠ .addClient fd ip now)
    (h : s.broker.clients.lookup fd = none) : t.broker.clients.lookup fd = none := by
  cases hfd : t.broker.clients.lookup fd with
  | none => rfl
  | some entry =>
    obtain hold | ⟨-, -, ip, now, he⟩ := (system_connections hstep).lookup hfd
    · rw [h] at hold
      cases hold
    · exact absurd he (hadd ip now)

/-- A step inside of a pass keeps to the sockets the pass has begun with. -/
private theorem scansOnce_server {s t : ServerThread} {e : ServerEvent} (h : ScansOnce s)
    (hcontrol : t.broker.clients.lookup t.broker.control_sock = none)
    (hcase : ServerCase s e t) : ScansOnce t := by
  have hstate : ∀ {b : Broker}, b = s.broker ∨ b = s.broker.setState .started →
      s.broker.state ≠ .init → b.state ≠ .init := by
    rintro b (rfl | rfl) hne
    · exact hne
    · simp [setState]
  -- the thread is not past its end
  have hrunning : s.pc ≠ .returned → s.broker.state ≠ .init := fun hpc hinit => hpc (h.init hinit)
  cases hcase with
  | idle hpc hinit => exact h
  | finished =>
    refine ⟨hcontrol, List.nodup_nil, fun hpc => ?_, fun _ => rfl⟩
    simp at hpc
  -- a list is built: the connections, and the control socket, which is none of them
  | started hpc =>
    refine ⟨hcontrol, ?_, fun hscan => ?_, fun hinit => ?_⟩
    · rw [List.nodup_append]
      refine ⟨s.broker.clients.nodupKeys, List.nodup_singleton _, ?_⟩
      rintro fd hkey _ hc rfl
      rw [List.mem_singleton] at hc
      have hmem := AList.lookup_isSome.mpr (AList.mem_keys.mpr hkey)
      rw [hc, h.control] at hmem
      simp at hmem
    · rw [hpc] at hscan
      simp at hscan
    · simp [setState] at hinit
  -- a scan starts with no socket to close
  | wait hpc hwait hb =>
    refine ⟨hcontrol, h.nodup, fun hscan fd hmem => ?_, fun hinit => ?_⟩
    · obtain ⟨-, -, -, rfl⟩ := ServerPc.scan.inj hscan
      simp at hmem
    · exact absurd hinit (hstate hb (by rw [hwait]; decide))
  | @socket client_num i now fd_to_delete fd event b next hpc hi hfd hscan =>
    have hbefore : ∀ fd' ∈ fd_to_delete, fd' ∈ s.vec_fds.take (i + 1) := fun fd' hmem =>
      (List.take_sublist_take_left (Nat.le_succ i)).subset (h.behind hpc fd' hmem)
    have hat : fd ∈ s.vec_fds.take (i + 1) := by
      rw [List.take_add_one, hfd]
      simp
    refine ⟨hcontrol, h.nodup, ?_, fun hinit => ?_⟩
    · intro client_num' i' now' del hpc' fd' hmem
      cases next with
      | keep =>
        obtain ⟨-, rfl, -, rfl⟩ := ServerPc.scan.inj hpc'
        exact hbefore fd' hmem
      -- the socket that is looked at now joins those to close
      | delete =>
        obtain ⟨-, rfl, -, rfl⟩ := ServerPc.scan.inj hpc'
        obtain hmem | hmem := List.mem_append.mp hmem
        · exact hbefore fd' hmem
        · rw [List.mem_singleton.mp hmem]
          exact hat
      | stop =>
        obtain ⟨-, rfl, -, rfl⟩ := ServerPc.scan.inj hpc'
        exact (List.take_sublist_take_left hi).subset (hbefore fd' hmem)
    · have hne := hrunning (by rw [hpc]; simp)
      obtain heq | heq := hscan.state.1
      · exact absurd (heq.symm.trans hinit) hne
      · exact absurd (heq.symm.trans hinit) (by decide)
  | scanEnd hpc hi hb =>
    refine ⟨hcontrol, h.nodup, fun hscan => ?_, fun hinit => ?_⟩
    · simp at hscan
    · exact absurd hinit (hstate hb (hrunning (by rw [hpc]; simp)))
  | close hpc hclient =>
    refine ⟨hcontrol, h.nodup, fun hscan => ?_, fun hinit => ?_⟩
    · simp at hscan
    · exact absurd hinit (hrunning (by rw [hpc]; simp))
  | closed hpc =>
    refine ⟨hcontrol, h.nodup, fun hscan => ?_, fun hinit => ?_⟩
    · simp at hscan
    · exact absurd hinit (hrunning (by rw [hpc]; simp))

/-- Each step keeps the list free of repetitions, if a new connection has a descriptor of its
    own. -/
theorem ScansOnce.step {s t : ServerThread} {e : SystemEvent} (h : ScansOnce s)
    (hnew : NewDescriptor s e) (hstep : system.Step s e t) : ScansOnce t := by
  -- no client has the descriptor of the control socket
  have hcontrol : t.broker.clients.lookup t.broker.control_sock = none := by
    rw [system_control_sock hstep]
    refine lookup_eq_none_of_step hstep ?_ h.control
    rintro ip now rfl
    exact hnew _ ip now rfl rfl
  cases system_cases hstep with
  | server hcase => exact scansOnce_server h hcontrol hcase
  | addClient => exact ⟨hcontrol, h.nodup, h.behind, h.init⟩
  | start =>
    -- a new server thread starts without a list
    refine ⟨hcontrol, List.nodup_nil, fun hpc => ?_, fun hinit => ?_⟩
    · simp at hpc
    · simp [setState] at hinit
  | qos hdoes =>
    refine ⟨hcontrol, h.nodup, h.behind, fun hinit => ?_⟩
    exact h.init (hdoes.state_eq.symm.trans hinit)
  | execute => exact ⟨hcontrol, h.nodup, h.behind, h.init⟩
  | rehash hb =>
    refine ⟨hcontrol, h.nodup, h.behind, fun hinit => ?_⟩
    rw [hb.others] at hinit
    exact h.init hinit

/-- The socket the scan is at has not been marked before. -/
theorem ScansOnce.notMem {s : ServerThread} (h : ScansOnce s) {fd : Fd}
    (hat : socketAt s = some fd) : fd ∉ toDelete s := by
  intro hmem
  cases hpc : s.pc with
  | scan client_num i now fd_to_delete =>
    simp only [socketAt, hpc] at hat
    simp only [toDelete, hpc] at hmem
    split at hat
    · exact notMem_take h.nodup hat (h.behind hpc fd hmem)
    · cases hat
  | loop | close | returned => simp [socketAt, hpc] at hat

end Mqtt.Spec
