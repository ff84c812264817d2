import MqttBroker.Spec.ScanPass

/-!
# The will of a client

The server thread calls `NotifyClients(pClient->will_topic)` in three places: behind a
failed read of a fixed header, behind a hangup, behind a timeout. A socket comes into
`fd_to_delete` in two more, and a takeover does without it. What was called for a
client is a history variable of the system.
-/

namespace Mqtt.Spec

open Mqtt.Native Mqtt.Native.Broker

/-! ## What is noted -/

/-- What is noted of a client. -/
structure WillHistory where
  /-- Its last CONNECT that was accepted carried a will. -/
  will : Bool := false
  /-- A DISCONNECT with reason code 0, or without one, was read. -/
  left : Bool := false
  /-- So often `NotifyClients(will_topic)` was called for it. -/
  sent : Nat := 0
deriving DecidableEq

/-- The Will Flag of a CONNECT. -/
def carriesWill (data : Bytes) : Bool :=
  match ConnectVH.readFromBuf data with
  | .ok (con_vh, _) => con_vh.conn_flags &&& 0x4 != 0
  | .error _ => false

/-- A DISCONNECT with reason code 0, or without one. -/
def isNormalDisconnect (first : UInt8) (data : Bytes) : Bool :=
  (FixedHeader.mk first data.length).getType = PackType.DISCONNECT.code && data.headD 0 = 0

/-- The calls of `NotifyClients` with a topic between two brokers, but those of PUBREL. -/
def notified (b b' : Broker) (topic : MqttTopic) : Nat :=
  (b'.calls.drop b.calls.length).count (.notifyClients none topic)

/-- What is noted of the client of a socket that is scanned. A CONNECT is accepted if the
    socket is not marked for removal. The topic that PUBLISH notifies of is that of the
    packet, and no will. -/
def WillHistory.scanned (r : WillHistory) (s t : ServerThread) (ref : ClientRef) :
    SocketEvent → WillHistory
  | .pollin _ (.packet first data _) =>
    let type := (FixedHeader.mk first data.length).getType
    { will := if type = PackType.CONNECT.code ∧ toDelete t = toDelete s then carriesWill data
        else r.will
      left := r.left || isNormalDisconnect first data
      sent := if type = PackType.PUBLISH.code then r.sent
        else r.sent + notified s.broker t.broker (s.broker.heap ref).will_topic }
  | _ => { r with sent := r.sent + notified s.broker t.broker (s.broker.heap ref).will_topic }

/-- The socket the scan is at, with its client. -/
def scannedClient (s : ServerThread) : Option (Fd × ClientRef) := do
  let fd ← socketAt s
  let pClient ← s.broker.clients.lookup fd
  return (fd, ← pClient)

/-- What a step notes. -/
def noteWill (s : ServerThread) (e : SystemEvent) (t : ServerThread)
    (history : ClientRef → WillHistory) : ClientRef → WillHistory :=
  match e, scannedClient s with
  | .server (.socket event), some (_, ref) =>
    Function.update history ref ((history ref).scanned s t ref event)
  | _, _ => history

/-- The system with what is noted of its clients. -/
def willSystem : LTS (ServerThread × (ClientRef → WillHistory)) SystemEvent :=
  system.observe noteWill fun _ => {}

/-- For every client with a will that is removed `NotifyClients(will_topic)` has been
    called exactly once; it has not been called if the client has left with DISCONNECT. -/
def WillsSent (x : ServerThread × (ClientRef → WillHistory)) : Prop :=
  ∀ ref, (∀ fd, x.1.broker.clients.lookup fd ≠ some (some ref)) → (x.2 ref).will →
    (x.2 ref).sent = if (x.2 ref).left then 0 else 1

/-! ## How a client is removed without its will -/

/-- A CONNECT of a client takes over the connection of a socket. -/
def ClosesConnection (b : Broker) (pClient : ClientRef) (data : Bytes) (check_fd : Fd) : Prop :=
  ∃ con_vh id offset, ReadsId b pClient data con_vh (some id) offset ∧
    con_vh.conn_flags &&& 0x2 ≠ 0 ∧ b.getClientFd id = .ok check_fd ∧ check_fd ≠ -1

/-- No client with a will is removed for a short read, for an error of a handler other
    than a DISCONNECT with reason code 0, or for a takeover. -/
structure EndsWithWill (x : ServerThread × (ClientRef → WillHistory)) (e : SystemEvent) : Prop where
  short : ∀ fd ref add, scannedClient x.1 = some (fd, ref) →
    e = .server (.socket (.pollin add .short)) → (x.2 ref).will = false
  refused : ∀ fd ref add first data random now b' err, scannedClient x.1 = some (fd, ref) →
    e = .server (.socket (.pollin add (.packet first data random))) → (x.2 ref).will →
    (touch x.1.broker ref now).handlePacket ⟨first, data.length⟩ data fd random = .ok (b', err) →
    err ≠ .ok → isNormalDisconnect first data
  /-- The connection that is taken over has no will, or is already marked for removal. -/
  takeover : ∀ fd ref add first data random check_fd victim,
    scannedClient x.1 = some (fd, ref) →
    e = .server (.socket (.pollin add (.packet first data random))) →
    (FixedHeader.mk first data.length).getType = PackType.CONNECT.code →
    ClosesConnection x.1.broker ref data check_fd →
    x.1.broker.clients.lookup check_fd = some (some victim) → (x.2 victim).will →
    check_fd ∈ toDelete x.1
  /-- A CONNECT that takes its own connection over carries no will. -/
  itself : ∀ fd ref add first data random, scannedClient x.1 = some (fd, ref) →
    e = .server (.socket (.pollin add (.packet first data random))) →
    (FixedHeader.mk first data.length).getType = PackType.CONNECT.code →
    ClosesConnection x.1.broker ref data fd → carriesWill data = false

/-! ## The calls of a step -/

/-- Operations record one call after the other. -/
theorem Does.calls_eq {A : Op → Prop} {b b' : Broker} (h : Does A b b') :
    ∃ calls, b'.calls = b.calls ++ calls ∧ ∀ call ∈ calls, A (.record call) := by
  induction h with
  | refl => exact ⟨[], by simp⟩
  | @snoc b₁ op hdoes hop _ ih =>
    obtain ⟨calls, heq, hcalls⟩ := ih
    have hsame : (op.apply b₁).calls = b₁.calls → ∃ calls, (op.apply b₁).calls = b.calls ++ calls ∧
        ∀ call ∈ calls, A (.record call) := fun h => ⟨calls, h.trans heq, hcalls⟩
    -- only a call is recorded
    cases op with
    | record call =>
      refine ⟨calls ++ [call], ?_, ?_⟩
      · rw [Op.apply, Broker.record, heq, List.append_assoc]
      · intro call' hmem
        obtain hmem | hmem := List.mem_append.mp hmem
        · exact hcalls call' hmem
        · rw [List.mem_singleton.mp hmem]
          exact hop
    | delQosEvent client_id packet_id =>
      obtain ⟨_, hdel⟩ := delQosEvent_eq b₁ client_id packet_id
      exact hsame (by rw [Op.apply, hdel])
    | _ => exact hsame rfl

/-- The calls of `NotifyClients` with a topic are counted. -/
theorem notified_of_calls {b b' : Broker} {calls : List Call}
    (h : b'.calls = b.calls ++ calls) (topic : MqttTopic) :
    notified b b' topic = calls.count (.notifyClients none topic) := by
  rw [notified, h, List.drop_left]

/-- A will is notified of behind the Will Flag, and its packets are handed out. -/
theorem sendWill_calls {b b' : Broker} {pClient : ClientRef} (h : b.sendWill pClient = .ok b') :
    (b' = b ∧ ¬ (b.heap pClient).isWillFlag) ∨ ((b.heap pClient).isWillFlag ∧ ∃ calls,
      b'.calls = b.calls ++ .notifyClients none (b.heap pClient).will_topic :: calls ∧
      ∀ call ∈ calls, Sends (.record call)) := by
  unfold sendWill at h
  split at h
  · -- `NotifyClients` is called once, and then for each subscriber
    rename_i hflag
    rw [notifyWill] at h
    obtain ⟨⟨b₂, topic⟩, hnotify, hresult⟩ := Except.bind_eq_ok_iff.mp h
    obtain rfl := Except.ok.inj hresult
    obtain ⟨calls, heq, hsends⟩ := ((does_notifySubscribers _ (-1) _ _).of_eq_ok hnotify).calls_eq
    refine .inr ⟨hflag, calls, ?_, hsends⟩
    show b₂.calls = _
    rw [heq, record, List.append_assoc]
    rfl
  · rename_i hflag
    obtain rfl := Except.ok.inj h
    exact .inl ⟨rfl, hflag⟩

/-- With the Will Flag the will topic is notified of once. -/
theorem notified_sendWill {b b₁ b' : Broker} {pClient : ClientRef} (hcalls : b₁.calls = b.calls)
    (htopic : (b₁.heap pClient).will_topic = (b.heap pClient).will_topic)
    (hflag : (b₁.heap pClient).isWillFlag) (h : b₁.sendWill pClient = .ok b') :
    notified b b' (b.heap pClient).will_topic = 1 := by
  obtain ⟨-, hnot⟩ | ⟨-, calls, happend, hsends⟩ := sendWill_calls h
  · exact absurd hflag hnot
  · -- what follows are the packets that are handed out
    have hnone : calls.count (.notifyClients none (b.heap pClient).will_topic) = 0 := by
      rw [List.count_eq_zero]
      exact fun hmem => hsends _ hmem
    rw [hcalls, htopic] at happend
    rw [notified_of_calls happend, List.count_cons_self, hnone]

/-- Only the handler of PUBLISH notifies clients of a topic that is not held. -/
theorem Serves.ne_notify {fh : FixedHeader} {fd : Fd} {pClient : ClientRef} {client_id : Bytes}
    {topic : MqttTopic} (htype : fh.getType ≠ PackType.PUBLISH.code) :
    ¬ Serves fh fd pClient client_id (.record (.notifyClients none topic)) := by
  intro h
  cases h with
  | stores hpublish => exact htype hpublish
  | answers h | unsubscribes h | subscribes h | freesTopic h => exact h

/-- Edits of one client make no calls. -/
theorem Edits.calls {pClient : ClientRef} {b b' : Broker} (h : Edits pClient b b') :
    b'.calls = b.calls := by rw [h.eq_heap]

/-- `handleMqttConnect` makes no calls. -/
theorem ConnectEffect.calls {b b' : Broker} {pClient : ClientRef} {data random : Bytes}
    {err : MqttErr} (h : ConnectEffect b pClient data random b' err) : b'.calls = b.calls := by
  cases h with
  | refused _ hedits => exact hedits.calls
  | identified _ hedits _ hidentified hedits' =>
    rw [hedits'.calls, ← hedits.calls]
    cases hidentified <;> rfl

/-- No packet but PUBLISH notifies of a topic, except for PUBREL. -/
theorem notified_packet {b b' : Broker} {fh : FixedHeader} {data random : Bytes} {fd : Fd}
    {pClient : ClientRef} {err : MqttErr} (htype : fh.getType ≠ PackType.PUBLISH.code)
    (hclient : b.clients.lookup fd = some (some pClient))
    (h : b.handlePacket fh data fd random = .ok (b', err)) (topic : MqttTopic) :
    notified b b' topic = 0 := by
  have hnone : ∀ {A : Op → Prop} {b₁ : Broker}, b₁.calls = b.calls → Does A b₁ b' →
      ¬ A (.record (.notifyClients none topic)) → notified b b' topic = 0 := by
    intro A b₁ hcalls hdoes hnot
    obtain ⟨calls, heq, hall⟩ := hdoes.calls_eq
    rw [hcalls] at heq
    rw [notified_of_calls heq, List.count_eq_zero]
    exact fun hmem => hnot (hall _ hmem)
  -- neither a CONNECT nor what other handlers do calls `NotifyClients` with the will
  by_cases hconnect : fh.getType = PackType.CONNECT.code
  · have hhandle : b.connectHandler data fd random = .ok (b', err) :=
      (handlePacket_connect _ _ _ _ hconnect).symm.trans h
    obtain ⟨b₁, heffect, hdoes⟩ := connectHandler_effect hclient hhandle
    exact hnone heffect.calls hdoes (by simp)
  · obtain rfl | ⟨ref, -, hdoes⟩ := (handlePacket_does b fh data fd random hconnect).of_eq_ok h
    · simp [notified]
    · exact hnone rfl hdoes (Serves.ne_notify htype)

/-! ## The connections of a step -/

/-- Noting the time of a packet does not change what a CONNECT closes. -/
theorem ClosesConnection.of_touch {b : Broker} {pClient : ClientRef} {now : Time} {data : Bytes}
    {check_fd : Fd} (h : ClosesConnection (touch b pClient now) pClient data check_fd) :
    ClosesConnection b pClient data check_fd := by
  obtain ⟨con_vh, id, offset, hreads, hclean, hcheck, hne⟩ := h
  have htouch := does_touch b pClient now
  refine ⟨con_vh, id, offset, hreads.of_does htouch, hclean, ?_, hne⟩
  rwa [getClientFd_congr htouch.clients_eq htouch.client_id_eq] at hcheck

/-- A CONNECT leaves every connection that it does not take over. -/
theorem ConnectEffect.stays {b b' : Broker} {pClient : ClientRef} {data random : Bytes}
    {err : MqttErr} (h : ConnectEffect b pClient data random b' err) {fd : Fd}
    (hnot : ¬ ClosesConnection b pClient data fd) :
    b'.clients.lookup fd = b.clients.lookup fd := by
  cases h with
  | refused _ hedits => rw [hedits.clients]
  | @identified con_vh id offset b₂ b₃ _ _ hreads hedits hflags hidentified hedits' =>
    rw [hedits'.clients, ← hedits.clients]
    cases hidentified with
    | unused | generated => rfl
    | @takenOver id check_fd hcheck hne hclean =>
      -- only the connection that is taken over is erased
      refine AList.lookup_erase_ne ?_
      rintro rfl
      rw [getClientFd_congr hedits.clients hedits.client_id] at hcheck
      refine hnot ⟨con_vh, id, offset, hreads, ?_, hcheck, hne⟩
      simpa [Client.isCleanFlag, hflags] using hclean

/-- `handleMqttConnect` sets the flags of its own client alone. -/
theorem ConnectEffect.flags {b b' : Broker} {pClient : ClientRef} {data random : Bytes}
    {err : MqttErr} (h : ConnectEffect b pClient data random b' err) {ref : ClientRef}
    (href : ref ≠ pClient) : (b'.heap ref).flags = (b.heap ref).flags := by
  cases h with
  | refused _ hedits => rw [hedits.heap_ne href]
  | identified _ hedits _ hidentified hedits' =>
    rw [hedits'.heap_ne href, ← hedits.heap_ne href]
    cases hidentified <;> exact congrArg Client.flags (heap_setClient_ne href)

/-- The flags of an accepted CONNECT are those of its client. -/
theorem ConnectEffect.carriesWill {b b' : Broker} {pClient : ClientRef} {data random : Bytes}
    (h : ConnectEffect b pClient data random b' .ok) :
    carriesWill data = (b'.heap pClient).isWillFlag := by
  cases h with
  | refused hne => exact absurd rfl hne
  | identified hreads _ _ _ _ hflags =>
    obtain ⟨offset, created, id_len, hread, -⟩ := hreads
    rw [Spec.carriesWill, hread, Client.isWillFlag, hflags]

/-- A CONNECT at a socket, on the broker and the clients. -/
structure ConnectAt (b : Broker) (pClient : ClientRef) (data : Bytes) (b' : Broker)
    (err : MqttErr) : Prop where
  lookup : ∀ {fd entry}, b'.clients.lookup fd = some entry → b.clients.lookup fd = some entry
  stays : ∀ {fd}, ¬ ClosesConnection b pClient data fd →
    b'.clients.lookup fd = b.clients.lookup fd
  flags : ∀ {ref}, ref ≠ pClient → (b'.heap ref).flags = (b.heap ref).flags
  will : err = .ok → carriesWill data = (b'.heap pClient).isWillFlag

/-- What a CONNECT of a connected client does to the connections and flags. -/
theorem connectAt {b b' : Broker} {fd : Fd} {pClient : ClientRef} {now : Time}
    {fh : FixedHeader} {data random : Bytes} {err : MqttErr}
    (htype : fh.getType = PackType.CONNECT.code)
    (hclient : b.clients.lookup fd = some (some pClient))
    (h : (touch b pClient now).handlePacket fh data fd random = .ok (b', err)) :
    ConnectAt b pClient data b' err := by
  have hhandle : (touch b pClient now).connectHandler data fd random = .ok (b', err) :=
    (handlePacket_connect _ _ _ _ htype).symm.trans h
  have htouch := does_touch b pClient now
  have hclient' : (touch b pClient now).clients.lookup fd = some (some pClient) := hclient
  obtain ⟨b₁, heffect, hdoes⟩ := connectHandler_effect hclient' hhandle
  constructor
  · -- no connection is new, the others stay, other clients keep their flags, and its own are set
    intro fd' entry hfd
    rw [hdoes.clients_eq] at hfd
    exact heffect.lookup hfd
  · intro fd' hnot
    rw [hdoes.clients_eq, heffect.stays fun hcloses => hnot hcloses.of_touch]
    rfl
  · intro ref href
    rw [hdoes.flags_eq, heffect.flags href, htouch.flags_eq]
  · rintro rfl
    rw [heffect.carriesWill, Client.isWillFlag, Client.isWillFlag, hdoes.flags_eq]

/-! ## The invariant -/

/-- A client is connected, and its socket is not marked for removal. -/
def Active (s : ServerThread) (fd : Fd) (ref : ClientRef) : Prop :=
  s.broker.clients.lookup fd = some (some ref) ∧ fd ∉ toDelete s

/-- Nobody is connected in the beginning. -/
theorem not_active_of_init {s : ServerThread} {fd : Fd} {ref : ClientRef} (h : system.Init s) :
    ¬ Active s fd ref := by
  obtain ⟨control_sock, rfl⟩ := h
  simp [Active]

/-- Nothing was called for a client, and its flags say whether it has a will. -/
structure Untold (c : Client) (r : WillHistory) : Prop where
  sent : r.sent = 0
  left : r.left = false
  will : r.will → c.isWillFlag

/-- The will of a client was called for once, or not at all behind a DISCONNECT. -/
def Told (r : WillHistory) : Prop := r.will → r.sent = if r.left then 0 else 1

/-- Whose socket is to be removed has been told of, whose socket is not has not. -/
structure WillInv (x : ServerThread × (ClientRef → WillHistory)) : Prop where
  scans : ScansOnce x.1
  own : OwnClients x.1.broker
  fresh : ∀ ref, x.1.broker.next_ref ≤ ref → x.2 ref = {}
  active : ∀ fd ref, Active x.1 fd ref → Untold (x.1.broker.heap ref) (x.2 ref)
  ended : ∀ ref, (∀ fd, ¬ Active x.1 fd ref) → Told (x.2 ref)

variable {s t : ServerThread} {history history' : ClientRef → WillHistory}

/-- A step concerns one client: the others are as active as before, unless they are new
    or have no will, and nothing is noted of them. -/
structure Concerns (s t : ServerThread) (history history' : ClientRef → WillHistory)
    (concerned : ClientRef → Prop) : Prop where
  noted : ∀ {ref}, ¬ concerned ref → history' ref = history ref
  after : ∀ {fd ref}, ¬ concerned ref → Active t fd ref → s.broker.next_ref ≤ ref ∨
    (Active s fd ref ∧ (t.broker.heap ref).flags = (s.broker.heap ref).flags)
  before : ∀ {fd ref}, ¬ concerned ref → Active s fd ref → (history ref).will → Active t fd ref

/-- The invariant is kept by a step that concerns some clients, when it is kept for these. -/
theorem WillInv.step (concerned : ClientRef → Prop) (h : WillInv (s, history))
    (hscans : ScansOnce t) (hown : OwnClients t.broker)
    (hnext : s.broker.next_ref ≤ t.broker.next_ref)
    (hconcerns : Concerns s t history history' concerned)
    (hlt : ∀ ref, concerned ref → ref < s.broker.next_ref)
    (hactive : ∀ fd ref, concerned ref → Active t fd ref →
      Untold (t.broker.heap ref) (history' ref))
    (hended : ∀ ref, concerned ref → (∀ fd, ¬ Active t fd ref) → Told (history' ref)) :
    WillInv (t, history') := by
  refine ⟨hscans, hown, fun ref href => ?_, fun fd ref hfd => ?_, fun ref hnone => ?_⟩
  · have hnot : ¬ concerned ref := fun hc =>
      absurd (hlt ref hc) (Nat.not_lt.mpr (Nat.le_trans hnext href))
    exact (hconcerns.noted hnot).trans (h.fresh ref (Nat.le_trans hnext href))
  · -- a client that is not concerned has its history
    by_cases hc : concerned ref
    · exact hactive fd ref hc hfd
    · show Untold (t.broker.heap ref) (history' ref)
      rw [hconcerns.noted hc]
      -- a new client has no history, and an old one the same flags
      obtain hnew | ⟨hold, hflags⟩ := hconcerns.after hc hfd
      · have hfresh : history ref = {} := h.fresh ref hnew
        rw [hfresh]
        exact ⟨rfl, rfl, by simp⟩
      · have huntold : Untold (s.broker.heap ref) (history ref) := h.active fd ref hold
        refine ⟨huntold.sent, huntold.left, fun hwill => ?_⟩
        rw [Client.isWillFlag, hflags]
        exact huntold.will hwill
  · by_cases hc : concerned ref
    · exact hended ref hc hnone
    · intro hwill
      rw [show (t, history').2 ref = history ref from hconcerns.noted hc] at hwill ⊢
      exact h.ended ref (fun fd hfd => hnone fd (hconcerns.before hc hfd hwill)) hwill

/-! ## Steps beside the scan -/

/-- What every step of the system keeps. -/
structure Kept (s t : ServerThread) : Prop where
  scans : ScansOnce t
  own : OwnClients t.broker
  next_ref : s.broker.next_ref ≤ t.broker.next_ref

/-- A step whose new descriptors are free keeps what the invariant rests on. -/
theorem WillInv.kept {e : SystemEvent} (h : WillInv (s, history)) (hnew : NewDescriptor s e)
    (hstep : system.Step s e t) : Kept s t :=
  have hconn := system_connections hstep
  ⟨h.scans.step hnew hstep, h.own.step hconn, hconn.next_ref⟩

/-- A step that concerns no client. -/
theorem WillInv.unnoted (h : WillInv (s, history)) (hkept : Kept s t)
    (hafter : ∀ {fd ref}, Active t fd ref → s.broker.next_ref ≤ ref ∨
      (Active s fd ref ∧ (t.broker.heap ref).flags = (s.broker.heap ref).flags))
    (hbefore : ∀ {fd ref}, Active s fd ref → Active t fd ref) : WillInv (t, history) := by
  refine h.step (fun _ => False) hkept.scans hkept.own hkept.next_ref
    ⟨fun _ => rfl, fun _ => hafter, fun _ hfd _ => hbefore hfd⟩ ?_ ?_ ?_
  · exact fun _ hc => hc.elim
  · exact fun _ _ hc => hc.elim
  · exact fun _ hc => hc.elim

/-- A step that leaves connections and flags alone, and marks no socket. -/
theorem WillInv.same (h : WillInv (s, history)) (hkept : Kept s t)
    (hlookup : ∀ fd, t.broker.clients.lookup fd = s.broker.clients.lookup fd)
    (hflags : ∀ ref, (t.broker.heap ref).flags = (s.broker.heap ref).flags)
    (hdel : toDelete t = toDelete s) : WillInv (t, history) := by
  have hactive : ∀ {fd ref}, Active t fd ref ↔ Active s fd ref := by
    intro fd ref
    rw [Active, Active, hlookup, hdel]
  exact h.unnoted hkept (fun hfd => .inr ⟨hactive.mp hfd, hflags _⟩) hactive.mpr

/-- A closed connection was marked, and its will sent. -/
theorem WillInv.close {it : Fd} {rest : List Fd} (h : WillInv (s, history))
    (hpc : s.pc = .close (it :: rest))
    (hkept : Kept s { s with broker := s.broker.closeConnection it, pc := .close rest }) :
    WillInv ({ s with broker := s.broker.closeConnection it, pc := .close rest }, history) := by
  have hdel : toDelete s = it :: rest := by rw [toDelete, hpc]
  refine h.unnoted hkept (fun hfd => .inr ⟨?_, rfl⟩) fun hfd => ?_
  · obtain ⟨hne, hlookup⟩ := lookup_closeConnection hfd.1
    refine ⟨hlookup, ?_⟩
    rw [hdel, List.mem_cons, not_or]
    exact ⟨hne, hfd.2⟩
  · have hnot := hfd.2
    rw [hdel, List.mem_cons, not_or] at hnot
    exact ⟨(AList.lookup_erase_ne hnot.1).trans hfd.1, hnot.2⟩

/-- A new client is not told of yet. -/
theorem WillInv.addClient (h : WillInv (s, history)) (sock : Fd) (ip : Bytes) (now : Time)
    (hkept : Kept s { s with broker := (s.broker.addClient sock ip now).1 }) :
    WillInv ({ s with broker := (s.broker.addClient sock ip now).1 }, history) := by
  refine h.unnoted hkept (fun {fd ref} hfd => ?_) fun {fd ref} hfd => ⟨?_, hfd.2⟩
  · by_cases href : s.broker.next_ref ≤ ref
    · exact .inl href
    · have hne : ref ≠ s.broker.next_ref := fun heq => href (Nat.le_of_eq heq.symm)
      have hold := hfd.1
      refine .inr ⟨⟨?_, hfd.2⟩, congrArg Client.flags (heap_setClient_ne hne)⟩
      -- a socket that is in use keeps its client
      by_cases hsock : fd = sock
      · subst hsock
        simp only [Broker.addClient, setClient, UnorderedMap.lookup_insertNew_self] at hold
        cases hentry : s.broker.clients.lookup fd with
        | none =>
          rw [hentry] at hold
          simp only [Option.getD_none, Option.some.injEq] at hold
          exact absurd hold.symm hne
        | some entry =>
          rw [hentry] at hold
          exact hold
      · simp only [Broker.addClient, setClient, UnorderedMap.lookup_insertNew_ne hsock] at hold
        exact hold
  · simp only [Broker.addClient, setClient]
    by_cases hsock : fd = sock
    · rw [← hsock, UnorderedMap.lookup_insertNew_self, hfd.1]
      rfl
    · rw [UnorderedMap.lookup_insertNew_ne hsock]
      exact hfd.1

/-! ## Steps of the scan -/

/-- A step at the socket of a client, on the connections and the flags. -/
structure ScansClient (s t : ServerThread) (history history' : ClientRef → WillHistory)
    (fd : Fd) (pClient : ClientRef) : Prop where
  active : Active s fd pClient
  noted : ∀ {ref}, ref ≠ pClient → history' ref = history ref
  lookup : ∀ {fd' entry}, t.broker.clients.lookup fd' = some entry →
    s.broker.clients.lookup fd' = some entry
  stays : ∀ {fd' ref}, Active s fd' ref → ref ≠ pClient → (history ref).will →
    t.broker.clients.lookup fd' = some (some ref)
  flags : ∀ {ref}, ref ≠ pClient → (t.broker.heap ref).flags = (s.broker.heap ref).flags

section

variable {fd : Fd} {pClient : ClientRef}

/-- The client that is looked at has one socket. -/
theorem ScansClient.eq_fd (h : ScansClient s t history history' fd pClient)
    (hown : OwnClients s.broker) {fd' : Fd}
    (hlookup : t.broker.clients.lookup fd' = some (some pClient)) : fd' = fd :=
  hown.inj (h.lookup hlookup) h.active.1

/-- The socket is marked for removal. -/
theorem WillInv.marked (h : WillInv (s, history)) (hkept : Kept s t)
    (hscan : ScansClient s t history history' fd pClient)
    (hdel : toDelete t = toDelete s ++ [fd]) (htold : Told (history' pClient)) :
    WillInv (t, history') := by
  refine h.step (· = pClient) hkept.scans hkept.own hkept.next_ref
    ⟨hscan.noted, fun {fd' ref} hne hfd => ?_, fun {fd' ref} hne hfd hwill => ?_⟩ ?_ ?_ ?_
  · refine .inr ⟨⟨hscan.lookup hfd.1, fun hmem => hfd.2 ?_⟩, hscan.flags hne⟩
    rw [hdel]
    exact List.mem_append_left _ hmem
  · refine ⟨hscan.stays hfd hne hwill, ?_⟩
    rw [hdel, List.mem_append, List.mem_singleton, not_or]
    refine ⟨hfd.2, ?_⟩
    rintro rfl
    have hsame := hfd.1.symm.trans hscan.active.1
    simp only [Option.some.injEq] at hsame
    exact hne hsame
  · rintro ref rfl
    exact h.own.lt hscan.active.1
  · rintro fd' ref rfl hfd
    -- its socket is the one that is marked
    rw [hscan.eq_fd h.own hfd.1] at hfd
    refine absurd ?_ hfd.2
    rw [hdel]
    exact List.mem_append_right _ (List.mem_singleton.mpr rfl)
  · rintro ref rfl _
    exact htold

/-- The socket is not marked for removal. -/
theorem WillInv.unmarked (h : WillInv (s, history)) (hkept : Kept s t)
    (hscan : ScansClient s t history history' fd pClient) (hdel : toDelete t = toDelete s)
    (huntold : t.broker.clients.lookup fd = some (some pClient) →
      Untold (t.broker.heap pClient) (history' pClient))
    (htold : t.broker.clients.lookup fd ≠ some (some pClient) → Told (history' pClient)) :
    WillInv (t, history') := by
  refine h.step (· = pClient) hkept.scans hkept.own hkept.next_ref
    ⟨hscan.noted, fun {fd' ref} hne hfd => ?_, fun {fd' ref} hne hfd hwill => ?_⟩ ?_ ?_ ?_
  · refine .inr ⟨⟨hscan.lookup hfd.1, ?_⟩, hscan.flags hne⟩
    rw [← hdel]
    exact hfd.2
  · refine ⟨hscan.stays hfd hne hwill, ?_⟩
    rw [hdel]
    exact hfd.2
  · rintro ref rfl
    exact h.own.lt hscan.active.1
  · rintro fd' ref rfl hfd
    exact huntold (hscan.eq_fd h.own hfd.1 ▸ hfd.1)
  · -- a client that is gone without a mark was taken over
    rintro ref rfl hnone
    refine htold fun hlookup => hnone fd ⟨hlookup, ?_⟩
    rw [hdel]
    exact hscan.active.2

/-- The client of the socket that is looked at. -/
theorem scannedClient_eq (hat : socketAt s = some fd)
    (hclient : s.broker.clients.lookup fd = some (some pClient)) :
    scannedClient s = some (fd, pClient) := by
  rw [scannedClient, hat, Option.bind_eq_bind, Option.bind_some, hclient]
  rfl

/-- What is noted at a socket is noted for its client, -/
theorem noteWill_socket (hat : scannedClient s = some (fd, pClient)) (event : SocketEvent) :
    noteWill s (.server (.socket event)) t history =
      Function.update history pClient ((history pClient).scanned s t pClient event) := by
  simp only [noteWill, hat]

/-- and read back there. -/
theorem noteWill_self (hat : scannedClient s = some (fd, pClient)) (event : SocketEvent) :
    noteWill s (.server (.socket event)) t history pClient =
      (history pClient).scanned s t pClient event := by
  rw [noteWill_socket hat, Function.update_self]

/-- Operations leave connections and flags alone. -/
theorem scansClient_of_does {A : Op → Prop} (hat : scannedClient s = some (fd, pClient))
    (hactive : Active s fd pClient) (event : SocketEvent) (hdoes : Does A s.broker t.broker) :
    ScansClient s t history (noteWill s (.server (.socket event)) t history) fd pClient := by
  constructor
  · exact hactive
  · intro ref href
    rw [noteWill_socket hat, Function.update_of_ne href]
  · intro fd' entry hfd
    rwa [hdoes.clients_eq] at hfd
  · intro fd' ref hfd _ _
    rw [hdoes.clients_eq]
    exact hfd.1
  · exact fun _ => hdoes.flags_eq _

/-- A CONNECT on the socket concerns its client, and one it takes over. -/
theorem scansClient_of_connect {add : Bool} {first : UInt8} {data random : Bytes} {err : MqttErr}
    {b' : Broker} (hat : scannedClient s = some (fd, pClient)) (hactive : Active s fd pClient)
    (hcond : EndsWithWill (s, history)
      (.server (.socket (.pollin add (.packet first data random)))))
    (htype : (FixedHeader.mk first data.length).getType = PackType.CONNECT.code)
    (hconnect : ConnectAt s.broker pClient data b' err) (hclients : t.broker.clients = b'.clients)
    (hheap : t.broker.heap = b'.heap) :
    ScansClient s t history
      (noteWill s (.server (.socket (.pollin add (.packet first data random)))) t history)
      fd pClient := by
  constructor
  · exact hactive
  · intro ref href
    rw [noteWill_socket hat, Function.update_of_ne href]
  · intro fd' entry hfd
    rw [hclients] at hfd
    exact hconnect.lookup hfd
  · intro fd' ref hfd _ hwill
    rw [hclients, hconnect.stays]
    · exact hfd.1
    · -- by the condition a client that is taken over has no will to send
      intro hcloses
      exact hfd.2 (hcond.takeover fd pClient add first data random fd' ref hat rfl htype hcloses
        hfd.1 hwill)
  · intro ref href
    rw [hheap]
    exact hconnect.flags href

/-- The will is sent, and the socket marked for removal. -/
theorem told_of_sendWill {b : Broker} {event : SocketEvent}
    (huntold : Untold (s.broker.heap pClient) (history pClient))
    (hcalls : b.calls = s.broker.calls)
    (htopic : (b.heap pClient).will_topic = (s.broker.heap pClient).will_topic)
    (hflags : (b.heap pClient).flags = (s.broker.heap pClient).flags)
    (hsend : b.sendWill pClient = .ok t.broker)
    (hevent : ∀ add first data random, event ≠ .pollin add (.packet first data random)) :
    Told ((history pClient).scanned s t pClient event) := by
  have hscanned : (history pClient).scanned s t pClient event = { history pClient with
      sent := (history pClient).sent +
        notified s.broker t.broker (s.broker.heap pClient).will_topic } := by
    unfold WillHistory.scanned
    -- the end of a connection is no packet, so that nothing else is noted
    split
    · exact absurd rfl (hevent _ _ _ _)
    · rfl
  intro hwill
  rw [hscanned] at hwill ⊢
  have hflag : (b.heap pClient).isWillFlag := by
    rw [Client.isWillFlag, hflags]
    exact huntold.will hwill
  show (history pClient).sent + notified s.broker t.broker (s.broker.heap pClient).will_topic =
    if (history pClient).left then 0 else 1
  rw [huntold.sent, huntold.left, notified_sendWill hcalls htopic hflag hsend]
  rfl

/-- DISCONNECT is always an error, and changes nothing. -/
theorem handlePacket_disconnect {b b' : Broker} {fh : FixedHeader} {data random : Bytes}
    {err : MqttErr} (htype : fh.getType = PackType.DISCONNECT.code)
    (h : b.handlePacket fh data fd random = .ok (b', err)) : b' = b ∧ err = .disconnect := by
  have hhandle : b.disconnectHandler fh data fd = .ok (b', err) := by
    simp only [handlePacket, htype] at h
    exact h
  unfold disconnectHandler at hhandle
  obtain ⟨⟨b₁, ref⟩, hat, hrest⟩ := Except.bind_eq_ok_iff.mp hhandle
  obtain ⟨rfl, -⟩ := derefAt_eq_ok hat
  dsimp only at hrest
  -- a body is read but not looked at
  split at hrest
  · obtain ⟨_, -, hresult⟩ := Except.bind_eq_ok_iff.mp hrest
    obtain ⟨rfl, rfl⟩ := Prod.mk.inj (Except.ok.inj hresult)
    exact ⟨rfl, rfl⟩
  · obtain ⟨rfl, rfl⟩ := Prod.mk.inj (Except.ok.inj hrest)
    exact ⟨rfl, rfl⟩

/-- A normal DISCONNECT is a DISCONNECT. -/
theorem type_of_isNormalDisconnect {first : UInt8} {data : Bytes}
    (h : isNormalDisconnect first data = true) :
    (FixedHeader.mk first data.length).getType = PackType.DISCONNECT.code := by
  simp only [isNormalDisconnect, Bool.and_eq_true, decide_eq_true_eq] at h
  exact h.1

variable {add : Bool} {first : UInt8} {data random : Bytes} {now : Time} {b' : Broker}

/-- A packet that is no PUBLISH notifies of no will. -/
theorem notified_touch {err : MqttErr}
    (htype : (FixedHeader.mk first data.length).getType ≠ PackType.PUBLISH.code)
    (hclient : s.broker.clients.lookup fd = some (some pClient))
    (hpacket : (touch s.broker pClient now).handlePacket ⟨first, data.length⟩ data fd random =
      .ok (b', err)) (topic : MqttTopic) : notified s.broker b' topic = 0 := by
  have hclient' : (touch s.broker pClient now).clients.lookup fd = some (some pClient) := hclient
  exact notified_packet htype hclient' hpacket topic

/-- A packet is handled without an error. -/
theorem scanned_of_handled (huntold : Untold (s.broker.heap pClient) (history pClient))
    (hclient : s.broker.clients.lookup fd = some (some pClient))
    (hpacket : (touch s.broker pClient now).handlePacket ⟨first, data.length⟩ data fd random =
      .ok (t.broker, .ok)) :
    ((history pClient).scanned s t pClient (.pollin add (.packet first data random))).sent = 0 ∧
    ((history pClient).scanned s t pClient (.pollin add (.packet first data random))).left =
      false := by
  constructor
  · simp only [WillHistory.scanned]
    split
    · exact huntold.sent
    · rename_i htype
      rw [huntold.sent, notified_touch htype hclient hpacket]
  · simp only [WillHistory.scanned, huntold.left, Bool.false_or]
    -- a normal DISCONNECT is not handled with ok
    cases hnormal : isNormalDisconnect first data with
    | false => rfl
    | true =>
      have herr := (handlePacket_disconnect (type_of_isNormalDisconnect hnormal) hpacket).2
      cases herr

/-- A packet that is no CONNECT is handled by operations of the broker. -/
theorem does_handled {err : MqttErr}
    (htype : (FixedHeader.mk first data.length).getType ≠ PackType.CONNECT.code)
    (hpacket : (touch s.broker pClient now).handlePacket ⟨first, data.length⟩ data fd random =
      .ok (b', err)) : Does (fun _ => True) s.broker b' := by
  have htouch := (does_touch s.broker pClient now).mono (B := fun _ => True) fun _ _ => trivial
  obtain rfl | ⟨ref, -, hdoes⟩ := (handlePacket_does _ _ data fd random htype).of_eq_ok hpacket
  · exact htouch
  · exact htouch.trans (hdoes.mono fun _ _ => trivial)

/-- A handled packet keeps the invariant. -/
theorem WillInv.handled (h : WillInv (s, history)) (hkept : Kept s t)
    (hat : scannedClient s = some (fd, pClient)) (hactive : Active s fd pClient)
    (hcond : EndsWithWill (s, history)
      (.server (.socket (.pollin add (.packet first data random)))))
    (hdel : toDelete t = toDelete s)
    (hpacket : (touch s.broker pClient now).handlePacket ⟨first, data.length⟩ data fd random =
      .ok (t.broker, .ok)) :
    WillInv (t, noteWill s (.server (.socket (.pollin add (.packet first data random)))) t
      history) := by
  have huntold : Untold (s.broker.heap pClient) (history pClient) := h.active fd pClient hactive
  obtain ⟨hsent, hleft⟩ := @scanned_of_handled s t history fd pClient add first data random now
    huntold hactive.1 hpacket
  by_cases htype : (FixedHeader.mk first data.length).getType = PackType.CONNECT.code
  · have hconnect := connectAt htype hactive.1 hpacket
    have hwill : ((history pClient).scanned s t pClient
        (.pollin add (.packet first data random))).will = carriesWill data := by
      simp only [WillHistory.scanned]
      rw [if_pos ⟨htype, hdel⟩]
    refine h.unmarked hkept (scansClient_of_connect hat hactive hcond htype hconnect rfl rfl) hdel
      (fun _ => ?_) fun hgone => ?_
    · rw [noteWill_self hat]
      refine ⟨hsent, hleft, fun hcarries => ?_⟩
      rw [← hconnect.will rfl, ← hwill]
      exact hcarries
    · -- the CONNECT has taken its own connection over
      have hcloses : ClosesConnection s.broker pClient data fd := by
        by_contra hnot
        exact hgone ((hconnect.stays hnot).trans hactive.1)
      intro hcarries
      rw [noteWill_self hat, hwill,
        hcond.itself fd pClient add first data random hat rfl htype hcloses] at hcarries
      simp at hcarries
  · -- any other packet leaves all connections and flags as they are
    have hdoes := does_handled htype hpacket
    have hwill : ((history pClient).scanned s t pClient
        (.pollin add (.packet first data random))).will = (history pClient).will := by
      simp only [WillHistory.scanned]
      rw [if_neg fun h => htype h.1]
    refine h.unmarked hkept (scansClient_of_does hat hactive _ hdoes) hdel (fun _ => ?_)
      fun hgone => ?_
    · rw [noteWill_self hat]
      refine ⟨hsent, hleft, fun hcarries => ?_⟩
      rw [hwill] at hcarries
      rw [Client.isWillFlag, hdoes.flags_eq]
      exact huntold.will hcarries
    · rw [hdoes.clients_eq] at hgone
      exact absurd hactive.1 hgone

/-- With a will the only packet that is refused is a DISCONNECT. -/
theorem told_of_refused {b₁ : Broker} {err : MqttErr}
    (huntold : Untold (s.broker.heap pClient) (history pClient))
    (hat : scannedClient s = some (fd, pClient))
    (hcond : EndsWithWill (s, history)
      (.server (.socket (.pollin add (.packet first data random)))))
    (hdel : toDelete t = toDelete s ++ [fd])
    (hpacket : (touch s.broker pClient now).handlePacket ⟨first, data.length⟩ data fd random =
      .ok (b₁, err)) (herr : err ≠ .ok) (herror : b₁.handleError err fd = .ok t.broker) :
    Told ((history pClient).scanned s t pClient (.pollin add (.packet first data random))) := by
  intro hwill
  have hmarked : toDelete t ≠ toDelete s := by
    rw [hdel]
    simp
  have hwill' : (history pClient).will := by
    simp only [WillHistory.scanned] at hwill
    rwa [if_neg fun h => hmarked h.2] at hwill
  -- a client with a will is refused only by its own normal DISCONNECT
  have hnormal := hcond.refused fd pClient add first data random now b₁ err hat rfl hwill'
    hpacket herr
  have htype := type_of_isNormalDisconnect hnormal
  obtain ⟨rfl, rfl⟩ := handlePacket_disconnect htype hpacket
  have hbroker : t.broker = touch s.broker pClient now := (Except.ok.inj herror).symm
  have hnone : notified s.broker t.broker (s.broker.heap pClient).will_topic = 0 := by
    rw [hbroker, notified]
    simp [setClient]
  simp only [WillHistory.scanned, hnormal, Bool.or_true, if_true, hnone, huntold.sent]
  split <;> rfl

/-- A refused packet keeps the invariant. -/
theorem WillInv.refused {b₁ : Broker} {err : MqttErr} (h : WillInv (s, history)) (hkept : Kept s t)
    (hat : scannedClient s = some (fd, pClient)) (hactive : Active s fd pClient)
    (hcond : EndsWithWill (s, history)
      (.server (.socket (.pollin add (.packet first data random)))))
    (hdel : toDelete t = toDelete s ++ [fd])
    (hpacket : (touch s.broker pClient now).handlePacket ⟨first, data.length⟩ data fd random =
      .ok (b₁, err)) (herr : err ≠ .ok) (herror : b₁.handleError err fd = .ok t.broker) :
    WillInv (t, noteWill s (.server (.socket (.pollin add (.packet first data random)))) t
      history) := by
  have htold := told_of_refused (h.active fd pClient hactive) hat hcond hdel hpacket herr herror
  rw [← noteWill_self hat] at htold
  -- an error is answered at most
  have hanswer : Does (fun _ => True) b₁ t.broker := by
    obtain heq | ⟨answer, heq⟩ := handleError_eq_ok herror
    · rw [heq]
      exact .refl
    · rw [heq]
      exact .record _ trivial
  by_cases htype : (FixedHeader.mk first data.length).getType = PackType.CONNECT.code
  · have hconnect := connectAt htype hactive.1 hpacket
    refine h.marked hkept (scansClient_of_connect hat hactive hcond htype hconnect
      hanswer.clients_eq ?_) hdel htold
    obtain heq | ⟨answer, heq⟩ := handleError_eq_ok herror
    · rw [heq]
    · rw [heq]
      rfl
  · have hdoes := (does_handled htype hpacket).trans hanswer
    exact h.marked hkept (scansClient_of_does hat hactive _ hdoes) hdel htold

end

/-- What the scan does at a socket keeps the invariant. -/
theorem WillInv.scan {fd : Fd} {now : Time} {event : SocketEvent} {next : ScanNext} {b : Broker}
    (h : WillInv (s, history)) (hkept : Kept s t) (hat : socketAt s = some fd)
    (hcond : EndsWithWill (s, history) (.server (.socket event)))
    (hdel : toDelete t = toDelete s ++ if next = .delete then [fd] else [])
    (hbroker : t.broker = b) (hscan : ScanCase s.broker fd now event b next) :
    WillInv (t, noteWill s (.server (.socket event)) t history) := by
  have hnotMem : fd ∉ toDelete s := h.scans.notMem hat
  -- the control socket has no client
  have hcontrol : fd = s.broker.control_sock → noteWill s (.server (.socket event)) t history =
      history := by
    rintro rfl
    have hnone : scannedClient s = none := by
      rw [scannedClient, hat, Option.bind_eq_bind, Option.bind_some, h.scans.control]
      rfl
    simp only [noteWill, hnone]
  -- a socket that is closed with its will has been told of
  have hsend : ∀ {A : Op → Prop} {pClient : ClientRef} {b : Broker},
      s.broker.clients.lookup fd = some (some pClient) → Does A s.broker b →
      b.calls = s.broker.calls →
      (b.heap pClient).will_topic = (s.broker.heap pClient).will_topic →
      b.sendWill pClient = .ok t.broker →
      (∀ add first data random, event ≠ .pollin add (.packet first data random)) →
      toDelete t = toDelete s ++ [fd] →
      WillInv (t, noteWill s (.server (.socket event)) t history) := by
    intro A pClient b hclient hdoes hcalls htopic hwill hevent hmarked
    have hscanned := scannedClient_eq hat hclient
    have htold := told_of_sendWill (h.active fd pClient ⟨hclient, hnotMem⟩) hcalls htopic
      (hdoes.flags_eq pClient) hwill hevent
    rw [← noteWill_self hscanned] at htold
    have hall := (hdoes.mono (B := fun _ => True) fun _ _ => trivial).trans
      (((does_sendWill b pClient fd).of_eq_ok hwill).mono fun _ _ => trivial)
    exact h.marked hkept (scansClient_of_does hscanned ⟨hclient, hnotMem⟩ event hall) hmarked htold
  have hsame : ∀ {pClient : ClientRef}, s.broker.clients.lookup fd = some (some pClient) →
      scannedClient s = some (fd, pClient) ∧ Active s fd pClient :=
    fun hclient => ⟨scannedClient_eq hat hclient, hclient, hnotMem⟩
  cases hscan with
  | add hfd =>
    rw [hcontrol hfd]
    refine h.same hkept (fun fd' => ?_) (fun ref => ?_) (by simpa using hdel)
    · rw [hbroker]
      rfl
    · rw [hbroker]
      rfl
  | control hfd =>
    rw [hcontrol hfd]
    refine h.same hkept (fun fd' => ?_) (fun ref => ?_) (by simpa using hdel)
    · rw [hbroker]
    · rw [hbroker]
  | headerError _ hclient hwill =>
    refine hsend hclient (does_touch ..) rfl ?_ (hwill.trans (by rw [hbroker])) (by simp) hdel
    rw [heap_setClient_self]
  | hangup hclient hwill =>
    exact hsend hclient (A := fun _ => True) .refl rfl rfl (hwill.trans (by rw [hbroker]))
      (by simp) hdel
  | timeout _ hclient hwill =>
    exact hsend hclient (A := fun _ => True) (.addCommand _ _ trivial) rfl rfl
      (hwill.trans (by rw [hbroker])) (by simp) hdel
  -- the one way to close a connection without a look at its will
  | @short add pClient _ hclient =>
    obtain ⟨hscanned, hactive⟩ := hsame hclient
    have hdoes := hbroker ▸ does_touch s.broker pClient now
    refine h.marked hkept (scansClient_of_does hscanned hactive _ hdoes) hdel fun hwill => ?_
    rw [noteWill_self hscanned] at hwill
    have hnone := hcond.short fd pClient add hscanned rfl
    exact absurd (hnone.symm.trans hwill) (by simp)
  | @alive pClient _ hclient =>
    obtain ⟨hscanned, -⟩ := hsame hclient
    have hnothing : (history pClient).scanned s t pClient .idle = history pClient := by
      simp only [WillHistory.scanned, hbroker, notified, List.drop_length, List.count_nil,
        Nat.add_zero]
    rw [noteWill_socket hscanned, hnothing, Function.update_eq_self]
    refine h.same hkept (fun fd' => ?_) (fun ref => ?_) (by simpa using hdel)
    · rw [hbroker]
    · rw [hbroker]
  | handled _ hclient hpacket =>
    obtain ⟨hscanned, hactive⟩ := hsame hclient
    rw [← hbroker] at hpacket
    exact h.handled hkept hscanned hactive hcond (by simpa using hdel) hpacket
  | refused _ hclient hpacket herr herror =>
    obtain ⟨hscanned, hactive⟩ := hsame hclient
    rw [← hbroker] at herror
    exact h.refused hkept hscanned hactive hcond hdel hpacket herr herror

/-- A step of the server thread keeps the invariant. -/
private theorem willInv_server {e : ServerEvent} (h : WillInv (s, history)) (hkept : Kept s t)
    (hcond : EndsWithWill (s, history) (.server e)) (hcase : ServerCase s e t) :
    WillInv (t, noteWill s (.server e) t history) := by
  have hloop : s.pc = .loop → toDelete s = [] := fun hpc => by rw [toDelete, hpc]
  have hstate : ∀ {b : Broker}, b = s.broker ∨ b = s.broker.setState .started →
      (∀ fd, b.clients.lookup fd = s.broker.clients.lookup fd) ∧
        ∀ ref, (b.heap ref).flags = (s.broker.heap ref).flags := by
    rintro b (rfl | rfl)
    · exact ⟨fun _ => rfl, fun _ => rfl⟩
    · exact ⟨fun _ => rfl, fun _ => rfl⟩
  cases hcase with
  | idle => exact h
  | finished hpc => exact h.same hkept (fun _ => rfl) (fun _ => rfl) (hloop hpc).symm
  | started hpc => exact h.same hkept (fun _ => rfl) (fun _ => rfl) (by simp only [toDelete])
  | wait hpc _ hb => exact h.same hkept (hstate hb).1 (hstate hb).2 (hloop hpc).symm
  -- the sockets are the only place where histories grow
  | @socket client_num i now fd_to_delete fd event b next hpc hi hfd hscan =>
    have hat : socketAt s = some fd := by simp only [socketAt, hpc, if_pos hi, hfd]
    have hdel : toDelete s = fd_to_delete := by rw [toDelete, hpc]
    refine h.scan hkept hat hcond ?_ rfl hscan
    rw [hdel]
    cases next <;> simp [toDelete, afterSocket]
  | scanEnd hpc _ hb =>
    exact h.same hkept (hstate hb).1 (hstate hb).2 (by simp only [toDelete, hpc])
  | close hpc => exact h.close hpc hkept
  | closed hpc => exact h.same hkept (fun _ => rfl) (fun _ => rfl) (by simp only [toDelete, hpc])

/-- Each step of the system keeps the invariant. -/
theorem WillInv.system_step {e : SystemEvent} (h : WillInv (s, history))
    (hnew : NewDescriptor s e) (hcond : EndsWithWill (s, history) e) (hstep : system.Step s e t) :
    WillInv (t, noteWill s e t history) := by
  have hkept := h.kept hnew hstep
  -- histories grow in the scan alone
  cases system_cases hstep with
  | server hcase => exact willInv_server h hkept hcond hcase
  | addClient => exact h.addClient _ _ _ hkept
  | start hinit =>
    have hpc : s.pc = .returned := h.scans.init hinit
    exact h.same hkept (fun _ => rfl) (fun _ => rfl) (by simp only [toDelete, hpc])
  | qos hdoes =>
    exact h.same hkept (fun fd => by rw [hdoes.clients_eq]) hdoes.flags_eq rfl
  | execute => exact h.same hkept (fun _ => rfl) (fun _ => rfl) rfl
  | rehash hb =>
    refine h.same hkept (fun fd => ?_) (fun ref => ?_) rfl
    · exact (UnorderedMap.lookup_eq_of_reordered hb.clients fd).symm
    · rw [hb.others]

/-- In every run in which no client with a will is removed for a short read, for an error
    of a handler other than a DISCONNECT with reason code 0, or for a takeover, every
    client with a will that is removed has been told of exactly once, unless it has left
    with DISCONNECT. -/
theorem wills_sent {x : ServerThread × (ClientRef → WillHistory)}
    (h : (willSystem.restrict fun x e => NewDescriptor x.1 e ∧ EndsWithWill x e).Reachable x) :
    WillsSent x := by
  have hinv : WillInv x := by
    refine h.observe_restrict_invariant (P := fun s history => WillInv (s, history)) ?_ ?_
    · intro s hs
      refine ⟨scansOnce_of_init hs, ownClients_of_reachable (.init hs), fun _ _ => rfl,
        fun fd ref hfd => absurd hfd (not_active_of_init hs), fun ref _ hwill => ?_⟩
      simp at hwill
    · rintro s history e t hs ⟨hnew, hcond⟩ hstep
      exact hs.system_step hnew hcond hstep
  exact fun ref hgone => hinv.ended ref fun fd hfd => hgone fd hfd.1

/-! ## Runs -/

/-- A step of the system, with what it notes. -/
def willStep (x : ServerThread × (ClientRef → WillHistory)) (e : SystemEvent) :
    Option (ServerThread × (ClientRef → WillHistory)) :=
  (systemStep x.1 e).map fun t => (t, noteWill x.1 e t x.2)

theorem step_of_willStep {x y : ServerThread × (ClientRef → WillHistory)} {e : SystemEvent}
    (h : willStep x e = some y) : willSystem.Step x e y :=
  LTS.observe_step_of_map step_of_systemStep h

/-- The system before `Start`, with no history. -/
def willStart : ServerThread × (ClientRef → WillHistory) :=
  ({ broker := { control_sock := 4 }, pc := .returned }, fun _ => {})

/-- A run with its wills may begin in `willStart`. -/
theorem init_willStart : willSystem.Init willStart := ⟨⟨4, rfl⟩, rfl⟩

/-- A CONNECT with some flags, the id `a`, and the will `x` under the topic `w`. -/
def connectWill (flags : UInt8) : Bytes :=
  [0, 4, 0x4D, 0x51, 0x54, 0x54, 5, flags, 0, 60, 0, 0, 1, 0x61, 0, 0, 1, 0x77, 0, 1, 0x78]

/-- Of the clients on the sockets 6 and 5 the second connects with a will. -/
def connectedWithWill (flags : UInt8) : List SystemEvent :=
  [.addClient 5 [] 0, .addClient 6 [] 0, .start, .server (.round false 0),
    .server (.round false 0), .server (.socket .idle),
    .server (.socket (.pollin false (.packet 0x10 (connectWill flags) []))),
    .server (.socket .idle), .server .next, .server .next, .server (.round false 0)]

/-- A pass in which something happens at socket 5, which is then closed. -/
def passAt (event : SocketEvent) : List SystemEvent :=
  [.server (.socket .idle), .server (.socket event), .server (.socket .idle), .server .next,
    .server .next]

/-- The client on socket 5 is removed: for a DISCONNECT with reason code 4, for a body
    that is cut short, for a CONNECT with another protocol version, and because the client
    on socket 6 sends a CONNECT with its id and Clean Start. -/
def endsWithoutWill : List (List SystemEvent) :=
  [passAt (.pollin false (.packet 0xE0 [4] [])), passAt (.pollin false .short),
    passAt (.pollin false (.packet 0x10
      [0, 4, 0x4D, 0x51, 0x54, 0x54, 4, 0, 0, 60, 0, 0, 1, 0x61] [])),
    [.server (.socket (.pollin false (.packet 0x10
      [0, 4, 0x4D, 0x51, 0x54, 0x54, 5, 2, 0, 60, 0, 0, 1, 0x61] [])))]]

/-- A check that a client is gone, and of what was noted of it. -/
def isGone (ref : ClientRef) (r : WillHistory) (x : ServerThread × (ClientRef → WillHistory)) :
    Bool := x.1.broker.clients.toList.all (fun it => it.2 ≠ some ref) && x.2 ref = r

/-- The check says that a client is gone with this history. -/
theorem gone_of_check {ref : ClientRef} {r : WillHistory}
    {x : ServerThread × (ClientRef → WillHistory)} (h : isGone ref r x = true) :
    (∀ fd, x.1.broker.clients.lookup fd ≠ some (some ref)) ∧ x.2 ref = r := by
  simp only [isGone, Bool.and_eq_true, List.all_eq_true, decide_eq_true_eq] at h
  refine ⟨fun fd hfd => ?_, h.2⟩
  exact h.1 _ (UnorderedMap.mem_toList_iff.mpr hfd) rfl

/-- In four ways the client is removed and nobody has been told of its will. -/
theorem gone_without_will {es : List SystemEvent} (hes : es ∈ endsWithoutWill) :
    ∃ x, willSystem.Reachable x ∧ (∀ fd, x.1.broker.clients.lookup fd ≠ some (some 0)) ∧
      x.2 0 = { will := true, left := false, sent := 0 } ∧ ¬ WillsSent x := by
  have hrun : ∀ es ∈ endsWithoutWill, ((connectedWithWill 0x06 ++ es).foldlM willStep
      willStart).map (isGone 0 { will := true }) = some true := by
    decide +kernel
  obtain ⟨x, hx, hcheck⟩ := Option.map_eq_some_iff.mp (hrun es hes)
  obtain ⟨hgone, hnoted⟩ := gone_of_check hcheck
  refine ⟨x, ⟨willStart, _, init_willStart, LTS.run_of_foldlM step_of_willStep hx⟩, hgone, hnoted,
    fun hsent => ?_⟩
  have hzero := hsent 0 hgone (by rw [hnoted])
  rw [hnoted] at hzero
  simp at hzero

/-- The DISCONNECT with reason code 4 is one of them. -/
theorem will_not_sent : ∃ x, willSystem.Reachable x ∧
    (∀ fd, x.1.broker.clients.lookup fd ≠ some (some 0)) ∧
    x.2 0 = { will := true, left := false, sent := 0 } ∧ ¬ WillsSent x :=
  gone_without_will (List.mem_cons_self :
    passAt (.pollin false (.packet 0xE0 [4] [])) ∈ endsWithoutWill)

/-- A check that a step removes no client without its will: no packet of a client with a
    will is read, and no CONNECT with Clean Start. -/
def keepsWill (x : ServerThread × (ClientRef → WillHistory)) : SystemEvent → Bool
  | .addClient sock _ _ => sock ≠ x.1.broker.control_sock
  | .server (.socket (.pollin _ .short)) => false
  | .server (.socket (.pollin _ (.packet _ data _))) =>
    (scannedClient x.1).all (fun it => !(x.2 it.2).will) &&
      match ConnectVH.readFromBuf data with
      | .ok (con_vh, _) => con_vh.conn_flags &&& 0x2 = 0
      | .error _ => true
  | _ => true

/-- The check says that the condition holds of a step. -/
private theorem endsWithWill_of_check {x : ServerThread × (ClientRef → WillHistory)}
    {e : SystemEvent} (h : keepsWill x e = true) : NewDescriptor x.1 e ∧ EndsWithWill x e := by
  have hpacket : ∀ {add first data random}, e = .server (.socket (.pollin add
      (.packet first data random))) → ∀ {fd ref}, scannedClient x.1 = some (fd, ref) →
      (x.2 ref).will = false ∧ ∀ check_fd, ¬ ClosesConnection x.1.broker ref data check_fd := by
    rintro add first data random rfl fd ref hat
    simp only [keepsWill, hat, Option.all_some, Bool.and_eq_true, Bool.not_eq_true'] at h
    refine ⟨h.1, ?_⟩
    rintro check_fd ⟨con_vh, id, offset, ⟨offset₁, created, id_len, hread, -⟩, hclean, -⟩
    rw [hread] at h
    simp only [decide_eq_true_eq] at h
    exact hclean h.2
  refine ⟨?_, ?_, ?_, ?_, ?_⟩
  · -- one part of the condition for each kind of step
    rintro sock ip now rfl
    simpa [keepsWill] using h
  · rintro fd ref add - rfl
    simp [keepsWill] at h
  · intro fd ref add first data random now b' err hat he hwill
    rw [(hpacket he hat).1] at hwill
    simp at hwill
  · intro fd ref add first data random check_fd victim hat he _ hcloses
    exact absurd hcloses ((hpacket he hat).2 _)
  · intro fd ref add first data random hat he _ hcloses
    exact absurd hcloses ((hpacket he hat).2 _)

/-- The client on socket 5 hangs up, and its will is sent. -/
theorem wills_sent_hangup : ∃ x,
    (willSystem.restrict fun x e => NewDescriptor x.1 e ∧ EndsWithWill x e).Reachable x ∧
    (∀ fd, x.1.broker.clients.lookup fd ≠ some (some 0)) ∧
    x.2 0 = { will := true, left := false, sent := 1 } ∧ WillsSent x := by
  have hrun : ((connectedWithWill 0x04 ++ passAt .hangup).foldlM
      (fun x e => if keepsWill x e then willStep x e else none) willStart).map
        (isGone 0 { will := true, sent := 1 }) = some true := by
    decide +kernel
  obtain ⟨x, hx, hcheck⟩ := Option.map_eq_some_iff.mp hrun
  obtain ⟨hgone, hnoted⟩ := gone_of_check hcheck
  have hreach : (willSystem.restrict fun x e =>
      NewDescriptor x.1 e ∧ EndsWithWill x e).Reachable x := by
    refine ⟨willStart, _, init_willStart, LTS.run_of_foldlM (fun {x e y} hstep => ?_) hx⟩
    obtain ⟨hcheck, hstep⟩ := Option.ite_none_right_eq_some.mp hstep
    exact ⟨endsWithWill_of_check hcheck, step_of_willStep hstep⟩
  exact ⟨x, hreach, hgone, hnoted, wills_sent hreach⟩

end Mqtt.Spec
