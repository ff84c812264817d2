import MqttBroker.Spec.HandlerFrame

/-!
# What a packet does

The CONNECT handler, which alone can change the connections, and the dispatch.
`PacketStep` says for every packet what becomes of the connections, the QoS 2
handshakes and the postponed packets.
-/

namespace Mqtt.Spec

open Mqtt.Native Mqtt.Native.Broker

/-! ## CONNECT -/

/-- Every entry of `clients` has a client. -/
def AllConnected (b : Broker) : Prop := ∀ fd, b.clients.lookup fd ≠ some none

/-- A step of the CONNECT handler; `closes` says when it may close a connection. -/
structure ConnectStep (closes : Prop) (b b' : Broker) : Prop where
  state : b'.state = b.state
  control_sock : b'.control_sock = b.control_sock
  inbound : SameInbound b b'
  empty : StaysEmpty b b'
  clients : ¬ closes → b'.clients = b.clients

namespace ConnectStep

variable {closes : Prop}

theorem trans {b b' b'' : Broker} (h : ConnectStep closes b b') (h' : ConnectStep closes b' b'') :
    ConnectStep closes b b'' where
  state := h'.state.trans h.state
  control_sock := h'.control_sock.trans h.control_sock
  inbound := h.inbound.trans h'.inbound
  empty := h'.empty ∘ h.empty
  clients hc := (h'.clients hc).trans (h.clients hc)

theorem refl (b : Broker) : ConnectStep closes b b := ⟨rfl, rfl, .refl b, id, fun _ => rfl⟩

/-- A CONNECT writes to its client. -/
theorem setClient (b : Broker) (ref : ClientRef) (c : Client) :
    ConnectStep closes b (b.setClient ref c) where
  state := rfl
  control_sock := rfl
  inbound := ⟨rfl, rfl⟩
  empty := id
  clients _ := rfl

/-- A CONNECT is answered. -/
theorem addCommand (b : Broker) (fd : Fd) (cmd : Bytes) :
    ConnectStep closes b (b.addCommand fd cmd) where
  state := rfl
  control_sock := rfl
  inbound := ⟨rfl, rfl⟩
  empty := id
  clients _ := rfl

end ConnectStep

/-- A fault that no null client explains while every entry has a client. -/
def FaultIn (b : Broker) (e : Fault) : Prop := e = .nullClient → ¬ AllConnected b

/-- Faults other than a null client say nothing about `clients`. -/
theorem faultIn_of_ne {b : Broker} (e : Fault) (h : e ≠ .nullClient) : FaultIn b e :=
  fun he => absurd he h

/-- A client has the id. -/
def InUse (b : Broker) (id : Bytes) : Prop :=
  ∃ fd ref, b.clients.lookup fd = some (some ref) ∧ (b.heap ref).client_id = id

/-- `GetClientFd` finds a socket only for an id that is in use. -/
theorem sat_getClientFd (b : Broker) (id : Bytes) :
    (b.getClientFd id).Sat (fun check_fd => check_fd = -1 ∨ InUse b id) (FaultIn b) := by
  have hloop : ∀ its : List (Fd × Option ClientRef),
      (∀ it ∈ its, b.clients.lookup it.1 = some it.2) →
      (b.findClientFd id its).Sat (fun check_fd => check_fd = -1 ∨ InUse b id) (FaultIn b) := by
    intro its
    -- Induction on the clients that are left; a null client among them is the fault
    induction its with
    | nil => exact fun _ => .inl rfl
    | cons it rest ih =>
      intro hits
      rw [findClientFd]
      have hit := hits it (.head _)
      cases hr : it.2 with
      | none =>
        rw [hr] at hit
        exact fun _ hall => hall it.1 hit
      | some ref =>
        rw [hr] at hit
        simp only [deref, Except.ok_bind]
        split
        · rename_i hid
          exact .inr ⟨it.1, ref, hit, hid⟩
        · exact ih fun it' hit' => hits it' (.tail _ hit')
  exact hloop _ fun it hit => UnorderedMap.mem_toList_iff.mp hit

/-- `HandleMqttConnect` finds the id it reads in use and may close its connection. -/
def ClosesOlder (b : Broker) (pClient : ClientRef) (id : Option Bytes) : Prop :=
  (b.heap pClient).isCleanFlag ∧ ∃ id', id = some id' ∧ InUse b id'

/-- Handling the client id closes at most the connection of an older client with that id. -/
theorem handleConnectId_step (b : Broker) (pClient : ClientRef) (id : Option Bytes)
    (random : Bytes) :
    (b.handleConnectId pClient id random).Sat
      (fun r => ConnectStep (ClosesOlder b pClient id) b r.1) (FaultIn b) := by
  unfold handleConnectId
  cases id with
  | none => exact .setClient ..
  | some id =>
    apply (sat_getClientFd b id).bind
    intro check_fd hfd
    dsimp only
    split
    · -- the id is in use: the older connection is closed under Clean Start, else the CONNECT
      -- refused
      rename_i hne
      split
      · rename_i hclean
        have hcloses : ClosesOlder b pClient (some id) :=
          ⟨hclean, id, rfl, hfd.resolve_left hne⟩
        exact ⟨rfl, rfl, ⟨rfl, rfl⟩, fun h => h, fun hnot => absurd hcloses hnot⟩
      · exact .refl b
    · exact .setClient ..

/-- Handling the will writes to the client only. -/
theorem handleConnectWill_step (closes : Prop) (b b₀ : Broker) (pClient : ClientRef) (buf : Bytes)
    (offset : Nat) :
    (b.handleConnectWill pClient buf offset).Sat (fun r => ConnectStep closes b r.1)
      (FaultIn b₀) := by
  unfold handleConnectWill
  split
  · -- reading follows no pointer; the client is set before and behind it
    apply NeverNull.sat_bind (by simp) faultIn_of_ne
    intro created _
    dsimp only
    split
    · exact .setClient ..
    · apply NeverNull.sat_bind (by simp) faultIn_of_ne
      rintro ⟨will_topic_name, offset⟩ _
      apply NeverNull.sat_bind (by simp) faultIn_of_ne
      intro data_len _
      apply NeverNull.sat_bind (by simp) faultIn_of_ne
      intro pMessage _
      exact (ConnectStep.setClient ..).trans (.setClient ..)
  · exact .refl b

/-- Handling name and password writes to the client only. -/
theorem handleConnectLogin_step (closes : Prop) (b b₀ : Broker) (pClient : ClientRef)
    (buf : Bytes) (offset : Nat) :
    (b.handleConnectLogin pClient buf offset).Sat (fun r => ConnectStep closes b r.1)
      (FaultIn b₀) := by
  unfold handleConnectLogin
  split
  · -- the name is set only when it is not empty
    apply NeverNull.sat_bind (by simp) faultIn_of_ne
    rintro ⟨user_name, user_name_len⟩ _
    dsimp only
    split
    · exact .refl b
    · split
      · apply NeverNull.sat_bind (by simp) faultIn_of_ne
        rintro ⟨pwd, pwd_len⟩ _
        dsimp only
        split
        · exact .setClient ..
        · exact (ConnectStep.setClient ..).trans (.setClient ..)
      · exact .setClient ..
  · exact .refl b

/-- The CONNECT of a client takes over a connection: its version and its properties
    are accepted, it asks for a clean start, and its id is in use. -/
def TakesOver (b : Broker) (pClient : ClientRef) (data : Bytes) : Prop :=
  ∃ con_vh offset created id id_len,
    ConnectVH.readFromBuf data = .ok (con_vh, offset) ∧ con_vh.version = 5 ∧
    con_vh.conn_flags &&& 0x2 ≠ 0 ∧
    (b.heap pClient).conn_properties.create (data.drop offset) = .ok created ∧
    created.err = .ok ∧
    createMqttStringEntity (data.drop (offset + created.size)) = .ok (some id, id_len) ∧
    InUse b id

/-- An id in use behind a quiet step was in use before. -/
theorem InUse.of_quiet {b b' : Broker} {id : Bytes} (h : Quiet b b') (hid : InUse b' id) :
    InUse b id := by
  obtain ⟨fd, ref, hlookup, hid⟩ := hid
  exact ⟨fd, ref, h.server.clients ▸ hlookup, h.client_id ref ▸ hid⟩

/-- A null client behind a step that leaves `clients` alone was there before. -/
theorem FaultIn.of_server {b b' : Broker} {e : Fault} (h : SameServer b b') (he : FaultIn b' e) :
    FaultIn b e := by
  rwa [FaultIn, AllConnected, h.clients] at he

/-- A quiet step closes no connection. -/
theorem Quiet.connectStep {closes : Prop} {b b' : Broker} (h : Quiet b b') :
    ConnectStep closes b b' :=
  ⟨h.server.state, h.server.control_sock, h.inbound, h.empty, fun _ => h.server.clients⟩

/-- `HandleMqttConnect` closes a connection only to take it over. -/
theorem handleMqttConnect_step (b : Broker) (pClient : ClientRef) (buf random : Bytes) :
    (b.handleMqttConnect pClient buf random).Sat
      (fun r => ConnectStep (TakesOver b pClient buf) b r.1) (FaultIn b) := by
  unfold handleMqttConnect
  apply NeverNull.sat_bind (by simp) faultIn_of_ne
  rintro ⟨con_vh, offset⟩ hread
  dsimp only
  split
  · exact .refl b  -- another version
  · rename_i hversion
    apply NeverNull.sat_bind (by simp) faultIn_of_ne
    intro created hcreated
    rw [heap_setClient_self] at hcreated
    -- the header writes the flags and the keep alive time to the client
    generalize hb₂ : Broker.setClient _ pClient _ = b₂
    have hq₂ : Quiet b b₂ := by
      rw [← hb₂]
      refine (Quiet.setClient ?_).trans (.setClient ?_)
      · rfl
      · rfl
    have hflags : (b₂.heap pClient).flags = con_vh.conn_flags := by
      rw [← hb₂]
      simp
    split
    · exact hq₂.connectStep  -- the connection properties are refused
    · rename_i herr
      apply NeverNull.sat_bind (by simp) faultIn_of_ne
      rintro ⟨id, id_len⟩ hid
      -- an older connection is closed for the id that was read, which is what `TakesOver` says
      have hcloses : ClosesOlder b₂ pClient id → TakesOver b pClient buf := by
        rintro ⟨hclean, id', rfl, huse⟩
        refine ⟨con_vh, offset, created, id', id_len, hread, not_not.mp hversion, ?_, hcreated,
          not_not.mp herr, hid, huse.of_quiet hq₂⟩
        simpa [Client.isCleanFlag, hflags] using hclean
      apply ((handleConnectId_step b₂ pClient id random).mono (fun _ h => h)
        fun e he => he.of_server hq₂.server).bind
      rintro ⟨b₃, err⟩ hb₃
      have hstep : ConnectStep (TakesOver b pClient buf) b b₃ := hq₂.connectStep.trans
        ⟨hb₃.state, hb₃.control_sock, hb₃.inbound, hb₃.empty,
          fun hnot => hb₃.clients fun hc => hnot (hcloses hc)⟩
      dsimp only
      split
      · exact hstep  -- the client id is refused
      · apply (handleConnectWill_step _ b₃ b pClient buf _).bind
        rintro ⟨b₄, err, offset⟩ hb₄
        dsimp only
        split
        · exact hstep.trans hb₄  -- the will is refused
        · exact (handleConnectLogin_step _ b₄ b pClient buf offset).mono
            (fun _ hr => (hstep.trans hb₄).trans hr) fun _ he => he

/-- The CONNECT on a socket takes over a connection. -/
def TakesOverAt (b : Broker) (fd : Fd) (data : Bytes) : Prop :=
  ∃ pClient, b.clients.lookup fd = some (some pClient) ∧ TakesOver b pClient data

/-- A CONNECT changes the connections only where it takes one over, or where the
    socket has no client. -/
theorem connectHandler_step (b : Broker) (data : Bytes) (fd : Fd) (random : Bytes) :
    (b.connectHandler data fd random).Sat
      (fun r => ConnectStep (¬ Connected b fd ∨ TakesOverAt b fd data) b r.1) (FaultIn b) := by
  unfold connectHandler
  rcases hat : b.clientAt fd with ⟨b₀, pClient⟩
  obtain ⟨rfl, hjoin⟩ := Prod.mk.inj hat
  cases pClient with
  -- without a client `operator[]` inserts a null pointer
  | none =>
    refine ⟨rfl, rfl, ⟨rfl, rfl⟩, fun h => h, fun hnot => absurd (.inl ?_) hnot⟩
    rintro ⟨ref, href⟩
    rw [href] at hjoin
    exact nomatch hjoin
  | some pClient =>
    have hclient : b.clients.lookup fd = some (some pClient) := Option.join_eq_some_iff.mp hjoin
    -- with one it inserts nothing
    have hmem : fd ∈ b.clients := AList.lookup_isSome.mp (by rw [hclient]; rfl)
    have hat' : { b with clients := b.clients.insertNew fd none } = b := by
      rw [UnorderedMap.insertNew, if_pos hmem]
    dsimp only
    rw [hat']
    have hstep : ∀ {b'}, ConnectStep (TakesOver b pClient data) b b' →
        ConnectStep (¬ Connected b fd ∨ TakesOverAt b fd data) b b' := fun h =>
      ⟨h.state, h.control_sock, h.inbound, h.empty, fun hnot => h.clients fun ht =>
        hnot (.inr ⟨pClient, hclient, ht⟩)⟩
    apply (handleMqttConnect_step b pClient data random).bind
    rintro ⟨b₁, handle_stat⟩ hb₁
    dsimp only
    split
    · exact hstep hb₁
    · apply NeverNull.sat_bind (by simp) faultIn_of_ne
      intro answer _
      exact (hstep hb₁).trans (.addCommand ..)

/-! ## Any packet -/

/-- A QoS 2 PUBLISH that is stored for the client of a socket. -/
def Publishes (b : Broker) (fh : FixedHeader) (data : Bytes) (fd : Fd) (client_id : Bytes)
    (topic : MqttTopic) : Prop :=
  fh.getType = PackType.PUBLISH.code ∧ fh.qoS = 2 ∧ ∃ pClient vh message,
    handleMqttPublish fh data = .ok (vh, message) ∧ b.clients.lookup fd = some (some pClient) ∧
    client_id = (b.heap pClient).client_id ∧
    topic = MqttTopic.new fh.qoS vh.packet_id vh.topic_name (some message)

/-- What handling a packet does to the broker. -/
structure PacketStep (fh : FixedHeader) (data : Bytes) (fd : Fd) (b b' : Broker) : Prop where
  state : b'.state = b.state
  control_sock : b'.control_sock = b.control_sock
  empty : StaysEmpty b b'
  inbound : SameInbound b b' ∨
    (∃ client_id topic, Publishes b fh data fd client_id topic ∧ Receives b b' client_id topic) ∨
    ∃ client_id packet_id, Releases b b' client_id packet_id
  clients : Connected b fd → ¬ (fh.getType = PackType.CONNECT.code ∧ TakesOverAt b fd data) →
    b'.clients = b.clients

/-- A quiet step is one that a packet may make. -/
theorem Quiet.packetStep {fh : FixedHeader} {data : Bytes} {fd : Fd} {b b' : Broker}
    (h : Quiet b b') : PacketStep fh data fd b b' :=
  ⟨h.server.state, h.server.control_sock, h.empty, .inl h.inbound, fun _ _ => h.server.clients⟩

/-- A fault that no null client explains while the socket and every entry have one. -/
def FaultOn (b : Broker) (fd : Fd) (e : Fault) : Prop :=
  e = .nullClient → Connected b fd → ¬ AllConnected b

/-- Faults other than a null client say nothing about connections. -/
theorem faultOn_of_ne {b : Broker} {fd : Fd} (e : Fault) (h : e ≠ .nullClient) : FaultOn b fd e :=
  fun he => absurd he h

/-- A handler that fails at its socket fails on a packet from there. -/
theorem FaultAt.faultOn {b : Broker} {fd : Fd} {e : Fault} (h : FaultAt b fd e) :
    FaultOn b fd e := fun he hc => absurd hc (h he)

/-- The handler a packet goes to. -/
inductive PacketCase (b : Broker) (fh : FixedHeader) (data : Bytes) (fd : Fd) (random : Bytes) :
    Exec (Broker × MqttErr) → Prop
  | publish : fh.getType = PackType.PUBLISH.code →
      PacketCase b fh data fd random (b.publishHandler fh data fd)
  | puback : fh.getType = PackType.PUBACK.code →
      PacketCase b fh data fd random (b.pubackHandler data fd)
  | pubrel : fh.getType = PackType.PUBREL.code →
      PacketCase b fh data fd random (b.pubrelHandler data fd)
  | pubrec : fh.getType = PackType.PUBREC.code →
      PacketCase b fh data fd random (b.pubrecHandler data fd)
  | pubcomp : fh.getType = PackType.PUBCOMP.code →
      PacketCase b fh data fd random (b.pubcompHandler data fd)
  | ping : fh.getType = PackType.PINGREQ.code → PacketCase b fh data fd random (b.pingHandler fd)
  | subscribe : fh.getType = PackType.SUBSCRIBE.code →
      PacketCase b fh data fd random (b.subscribeHandler fh data fd)
  | disconnect : fh.getType = PackType.DISCONNECT.code →
      PacketCase b fh data fd random (b.disconnectHandler fh data fd)
  | unsubscribe : fh.getType = PackType.UNSUBSCRIBE.code →
      PacketCase b fh data fd random (b.unsubscribeHandler fh data fd)
  | connect : fh.getType = PackType.CONNECT.code →
      PacketCase b fh data fd random (b.connectHandler data fd random)
  | unknown : PacketCase b fh data fd random (.ok (b, .handleError))

/-- A packet is handled by the handler of its type, or by none. -/
theorem handlePacket_cases (b : Broker) (fh : FixedHeader) (data : Bytes) (fd : Fd)
    (random : Bytes) : PacketCase b fh data fd random (b.handlePacket fh data fd random) := by
  unfold handlePacket
  dsimp only
  -- one handler for each type, in the order of the dispatch
  by_cases hpublish : fh.getType = PackType.PUBLISH.code
  · rw [if_pos hpublish]
    exact .publish hpublish
  rw [if_neg hpublish]
  by_cases hpuback : fh.getType = PackType.PUBACK.code
  · rw [if_pos hpuback]
    exact .puback hpuback
  rw [if_neg hpuback]
  by_cases hpubrel : fh.getType = PackType.PUBREL.code
  · rw [if_pos hpubrel]
    exact .pubrel hpubrel
  rw [if_neg hpubrel]
  by_cases hpubrec : fh.getType = PackType.PUBREC.code
  · rw [if_pos hpubrec]
    exact .pubrec hpubrec
  rw [if_neg hpubrec]
  by_cases hpubcomp : fh.getType = PackType.PUBCOMP.code
  · rw [if_pos hpubcomp]
    exact .pubcomp hpubcomp
  rw [if_neg hpubcomp]
  by_cases hping : fh.getType = PackType.PINGREQ.code
  · rw [if_pos hping]
    exact .ping hping
  rw [if_neg hping]
  by_cases hsubscribe : fh.getType = PackType.SUBSCRIBE.code
  · rw [if_pos hsubscribe]
    exact .subscribe hsubscribe
  rw [if_neg hsubscribe]
  by_cases hdisconnect : fh.getType = PackType.DISCONNECT.code
  · rw [if_pos hdisconnect]
    exact .disconnect hdisconnect
  rw [if_neg hdisconnect]
  by_cases hunsubscribe : fh.getType = PackType.UNSUBSCRIBE.code
  · rw [if_pos hunsubscribe]
    exact .unsubscribe hunsubscribe
  rw [if_neg hunsubscribe]
  by_cases hconnect : fh.getType = PackType.CONNECT.code
  · rw [if_pos hconnect]
    exact .connect hconnect
  rw [if_neg hconnect]
  exact .unknown

/-- What any packet may do to the broker, and which fault it may have. -/
theorem handlePacket_step (b : Broker) (fh : FixedHeader) (data : Bytes) (fd : Fd)
    (random : Bytes) :
    (b.handlePacket fh data fd random).Sat (fun r => PacketStep fh data fd b r.1)
      (FaultOn b fd) := by
  -- most handlers are quiet: nothing is stored and no client comes or goes
  have hquiet : ∀ {A : ClientRef → Bytes → Op → Prop} {x : Exec (Broker × MqttErr)},
      x.Sat (fun r => DoesAt A fd b r.1) (FaultAt b fd) →
      (∀ pClient client_id op, A pClient client_id op → IsQuiet op) →
      x.Sat (fun r => PacketStep fh data fd b r.1) (FaultOn b fd) := fun hx hA =>
    hx.mono (fun _ h => (h.quiet hA).packetStep) fun _ he => he.faultOn
  have hcase := handlePacket_cases b fh data fd random
  generalize b.handlePacket fh data fd random = x at hcase ⊢
  cases hcase with
  | publish htype =>
    -- only a PUBLISH with QoS 2 stores a message
    refine (publishHandler_step b fh data fd).mono (fun r h => ?_) fun _ he => he.faultOn
    obtain ⟨h, -⟩ := h
    refine ⟨h.server.state, h.server.control_sock, h.empty, ?_, fun _ _ => h.server.clients⟩
    apply h.inbound.imp_right
    rintro ⟨pClient, vh, message, hqos, hread, hclient, hrec⟩
    exact .inl ⟨_, _, ⟨htype, hqos, pClient, vh, message, hread, hclient, rfl, rfl⟩, hrec⟩
  | puback => exact hquiet (does_pubackHandler b data fd) fun _ _ _ => isQuiet_of_answers
  | pubrel =>
    refine (pubrelHandler_step b data fd).mono (fun r h => ?_) fun _ he => he.faultOn
    obtain ⟨h, -⟩ := h
    obtain ⟨pClient, packet_id, -, -, hrel⟩ := h.inbound
    exact ⟨h.server.state, h.server.control_sock, h.empty, .inr (.inr ⟨_, _, hrel⟩),
      fun _ _ => h.server.clients⟩
  | pubrec => exact hquiet (does_pubrecHandler b data fd) fun _ _ _ => isQuiet_of_answers
  | pubcomp => exact hquiet (does_pubcompHandler b data fd) fun _ _ _ => isQuiet_of_answers
  | ping => exact hquiet (does_pingHandler b fd) fun _ _ _ => isQuiet_of_answers
  | subscribe =>
    exact hquiet (does_subscribeHandler b fh data fd) fun _ _ _ => isQuiet_of_subscribes
  | disconnect =>
    exact hquiet (does_disconnectHandler b fh data fd) fun _ _ _ => isQuiet_of_answers
  | unsubscribe =>
    exact hquiet (does_unsubscribeHandler b fh data fd) fun _ _ _ => isQuiet_of_unsubscribes
  | connect htype =>
    -- only a CONNECT closes a connection, and only to take it over
    refine (connectHandler_step b data fd random).mono (fun r h => ?_) fun _ he h _ => he h
    refine ⟨h.state, h.control_sock, h.empty, .inl h.inbound, fun hc hnot => h.clients ?_⟩
    rintro (hc' | ht)
    · exact hc' hc
    · exact hnot ⟨htype, ht⟩
  | unknown => exact (Quiet.refl b).packetStep

/-- Any packet but CONNECT is served by operations for its client. -/
theorem handlePacket_does (b : Broker) (fh : FixedHeader) (data : Bytes) (fd : Fd) (random : Bytes)
    (htype : fh.getType ≠ PackType.CONNECT.code) :
    (b.handlePacket fh data fd random).Sat (fun r => r.1 = b ∨ DoesAt (Serves fh fd) fd b r.1)
      (FaultAt b fd) := by
  have hserves : ∀ {A : ClientRef → Bytes → Op → Prop} {x : Exec (Broker × MqttErr)},
      x.Sat (fun r => DoesAt A fd b r.1) (FaultAt b fd) →
      (∀ pClient client_id op, A pClient client_id op → Serves fh fd pClient client_id op) →
      x.Sat (fun r => r.1 = b ∨ DoesAt (Serves fh fd) fd b r.1) (FaultAt b fd) := by
    intro A x hx hA
    refine hx.mono (fun r h => .inr ?_) fun _ he => he
    obtain ⟨pClient, hclient, hdoes⟩ := h
    exact ⟨pClient, hclient, hdoes.mono (hA _ _)⟩
  have hcase := handlePacket_cases b fh data fd random
  generalize b.handlePacket fh data fd random = x at hcase ⊢
  -- one case for each handler; a CONNECT is left out
  cases hcase with
  | publish htype =>
    exact hserves ((publishHandler_step b fh data fd).mono (fun _ h => h.2) fun _ he => he)
      fun _ _ _ => .stores htype
  | puback => exact hserves (does_pubackHandler b data fd) fun _ _ _ => .answers
  | pubrel =>
    exact hserves ((pubrelHandler_step b data fd).mono (fun _ h => h.2) fun _ he => he)
      fun _ _ _ => .freesTopic
  | pubrec => exact hserves (does_pubrecHandler b data fd) fun _ _ _ => .answers
  | pubcomp => exact hserves (does_pubcompHandler b data fd) fun _ _ _ => .answers
  | ping => exact hserves (does_pingHandler b fd) fun _ _ _ => .answers
  | subscribe => exact hserves (does_subscribeHandler b fh data fd) fun _ _ _ => .subscribes
  | disconnect => exact hserves (does_disconnectHandler b fh data fd) fun _ _ _ => .answers
  | unsubscribe => exact hserves (does_unsubscribeHandler b fh data fd) fun _ _ _ => .unsubscribes
  | connect hconnect => exact absurd hconnect htype
  | unknown => exact .inl rfl

/-- Answering an error is quiet. -/
theorem quiet_handleError (b : Broker) (error : MqttErr) (fd : Fd) {Q : Fault → Prop}
    (hQ : ∀ e, e ≠ .nullClient → Q e) : (b.handleError error fd).Sat (Quiet b) Q := by
  have hconnack : ∀ code, (b.writeConnack fd code).Sat (Quiet b) Q := by
    intro code
    unfold writeConnack
    apply NeverNull.sat_bind (by simp) hQ
    exact fun data _ => quiet_apply (.record (.wrote fd data)) rfl trivial
  unfold handleError
  split
  · exact hconnack _
  · exact hconnack _
  · exact .refl b

end Mqtt.Spec
