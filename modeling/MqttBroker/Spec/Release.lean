import MqttBroker.Spec.Inbound
import MqttBroker.Spec.MessageFlow
import MqttBroker.Spec.Will

/-!
# What QoS 2 messages wait for

A message that comes with QoS 2 is stored until its PUBREL; with RETAIN it is retained as
well, at once. What clients have sent, and when it may be handed out, is a history
variable of the system; the retained messages are the one way around the PUBREL.
-/

namespace Mqtt.Spec

open Mqtt.Native Mqtt.Native.Broker

/-! ## What is noted -/

/-- What clients have sent. -/
structure Messages where
  /-- May be handed out: it came with another QoS than 2 or as a will, or a PUBREL for it
      was handled. -/
  free : List Message := []
  /-- Came with QoS 2, under a client id and a packet id. -/
  held : List ((Bytes × UInt16) × Message) := []

/-- A packet of the client `client_id`; behind a CONNECT its client has the topic `will`. -/
def Messages.handled (g : Messages) (client_id : Bytes) (will : MqttTopic) (fh : FixedHeader)
    (data : Bytes) : Messages :=
  if fh.getType = PackType.PUBLISH.code then
    match handleMqttPublish fh data with
    | .ok (vh, message) =>
      let m := (vh.topic_name, message)
      if fh.qoS = 2 then { g with held := g.held ++ [((client_id, vh.packet_id), m)] }
      else { g with free := g.free ++ [m] }
    | .error _ => g
  else if fh.getType = PackType.PUBREL.code then
    match PubackVH.readFromBuf data with
    | .ok packet_id => { g with
      free := g.free ++ (g.held.filter fun h => h.1 = (client_id, packet_id)).map Prod.snd }
    | .error _ => g
  else if fh.getType = PackType.CONNECT.code then
    match will.data with
    | some message => { g with free := g.free ++ [(will.name, message)] }
    | none => g
  else g

/-- The packet that is handled in a step, with its socket and its client. -/
def packetAt (s : ServerThread) (e : SystemEvent) :
    Option (Fd × ClientRef × FixedHeader × Bytes) :=
  match e, scannedClient s with
  | .server (.socket (.pollin _ (.packet first data _))), some (fd, ref) =>
    if fd = s.broker.control_sock then none else some (fd, ref, ⟨first, data.length⟩, data)
  | _, _ => none

/-- The packet that a step handles is noted. -/
def noteMessages (s : ServerThread) (e : SystemEvent) (t : ServerThread) (g : Messages) :
    Messages :=
  match packetAt s e with
  | some (_, ref, fh, data) =>
    g.handled (s.broker.heap ref).client_id (t.broker.heap ref).will_topic fh data
  | none => g

/-- The system with what its clients have sent. -/
def messageSystem : LTS (ServerThread × Messages) SystemEvent := system.observe noteMessages {}

/-- A message that came with QoS 2 waits for its PUBREL. -/
def Awaits (g : Messages) (m : Message) : Prop := m ∉ g.free ∧ ∃ key, (key, m) ∈ g.held

/-- A SUBSCRIBE matches a retained message that waits for its PUBREL. -/
def SendsUnreleased (x : ServerThread × Messages) (e : SystemEvent) : Prop :=
  ∃ fd ref fh data tpcs m, packetAt x.1 e = some (fd, ref, fh, data) ∧
    fh.getType = PackType.SUBSCRIBE.code ∧ Subscribing fh data tpcs ∧
    MatchesRetained x.1.broker.storage tpcs m ∧ Awaits x.2 m

/-- Nothing that was noted is forgotten. -/
theorem Messages.handled_mono (g : Messages) (client_id : Bytes) (will : MqttTopic)
    (fh : FixedHeader) (data : Bytes) : g.free ⊆ (g.handled client_id will fh data).free ∧
      g.held ⊆ (g.handled client_id will fh data).held := by
  unfold Messages.handled
  split
  · split
    · dsimp only
      split <;> simp
    · simp
  · split
    · split <;> simp
    · split
      · split <;> simp
      · simp

/-! ## What a step does to messages -/

/-- A client keeps the will it has. -/
def SameWill (b b' : Broker) (ref : ClientRef) : Prop :=
  ∀ m, IsMessage (b'.heap ref).will_topic m → IsMessage (b.heap ref).will_topic m

/-- Nothing that is stored changes. -/
structure SameMessages (b b' : Broker) : Prop where
  stored : stored b' = stored b
  topics : b'.storage.topics = b.storage.topics
  will : ∀ ref, SameWill b b' ref

/-- What a step does to messages. -/
inductive MessageCase (s : ServerThread) (e : SystemEvent) (t : ServerThread) : Prop
  /-- At most a will is sent. -/
  | none : packetAt s e = none → SameMessages s.broker t.broker →
      Delivers (fun m => ∃ ref, IsMessage (s.broker.heap ref).will_topic m) s.broker t.broker →
      MessageCase s e t
  | connect {fd : Fd} {ref : ClientRef} {fh : FixedHeader} {data : Bytes} :
      packetAt s e = some (fd, ref, fh, data) → fh.getType = PackType.CONNECT.code →
      stored t.broker = stored s.broker → t.broker.storage.topics = s.broker.storage.topics →
      (∀ ref' ≠ ref, SameWill s.broker t.broker ref') → handedOut t.broker = handedOut s.broker →
      MessageCase s e t
  | packet {fd : Fd} {ref : ClientRef} {fh : FixedHeader} {data random : Bytes} {now : Time}
      {b' : Broker} {err : MqttErr} : packetAt s e = some (fd, ref, fh, data) →
      fh.getType ≠ PackType.CONNECT.code → s.broker.clients.lookup fd = some (some ref) →
      (touch s.broker ref now).handlePacket fh data fd random = .ok (b', err) →
      SameMessages b' t.broker → handedOut t.broker = handedOut b' → MessageCase s e t

/-- What is stored stands in the storage and in the clients. -/
theorem SameMessages.of_eq {b b' : Broker} (hstorage : b'.storage = b.storage)
    (hheap : b'.heap = b.heap) : SameMessages b b' := by
  refine ⟨?_, congrArg TopicStorage.topics hstorage, fun ref m hm => ?_⟩
  · funext client_id
    exact congrArg (·.qosGroup client_id) hstorage
  · rwa [hheap] at hm

theorem SameMessages.refl (b : Broker) : SameMessages b b := .of_eq rfl rfl

/-- Noting the time of a packet stores nothing. -/
theorem sameMessages_touch (b : Broker) (ref : ClientRef) (now : Time) :
    SameMessages b (touch b ref now) := by
  refine ⟨rfl, rfl, fun ref' m h => ?_⟩
  have hwill := @heap_setClient_congr _ Client.will_topic b ref
    { b.heap ref with time_last_packet := now } rfl ref'
  rwa [touch, hwill] at h

/-- A packet that the server thread reads from a connection. -/
theorem packetAt_eq {s : ServerThread} {add : Bool} {first : UInt8} {data random : Bytes} {fd : Fd}
    {ref : ClientRef} (hat : socketAt s = some fd)
    (hclient : s.broker.clients.lookup fd = some (some ref)) (hfd : fd ≠ s.broker.control_sock) :
    packetAt s (.server (.socket (.pollin add (.packet first data random)))) =
      some (fd, ref, ⟨first, data.length⟩, data) := by
  simp only [packetAt, scannedClient_eq hat hclient, if_neg hfd]

/-- The client that is looked at is the one of the socket. -/
theorem scannedClient_eq_some {s : ServerThread} {fd : Fd} {ref : ClientRef}
    (h : scannedClient s = some (fd, ref)) :
    socketAt s = some fd ∧ s.broker.clients.lookup fd = some (some ref) := by
  simp only [scannedClient, Option.bind_eq_bind, Option.bind_eq_some_iff] at h
  obtain ⟨fd', hat, entry, hclient, ref', rfl, h⟩ := h
  obtain ⟨rfl, rfl⟩ := Prod.mk.inj (Option.some.inj h)
  exact ⟨hat, hclient⟩

/-- No packet is read from the control socket. -/
theorem packetAt_control {s : ServerThread} {e : SystemEvent} {fd : Fd}
    (hat : socketAt s = some fd) (hfd : fd = s.broker.control_sock) : packetAt s e = none := by
  unfold packetAt
  split
  · rename_i fd' ref hscanned
    obtain rfl := Option.some.inj (hat.symm.trans (scannedClient_eq_some hscanned).1)
    exact if_pos hfd
  · rfl

/-- A relation that holds across what steps do outside of packets. -/
structure Outside (R : Broker → Broker → Prop) : Prop where
  refl (b : Broker) : R b b
  trans {b b' b'' : Broker} : R b b' → R b' b'' → R b b''
  touch (b : Broker) (pClient : ClientRef) (current_time : Time) :
    R b (touch b pClient current_time)
  addCommand (b : Broker) (fd : Fd) (cmd : Bytes) : R b (b.addCommand fd cmd)
  sendWill {b b' : Broker} {pClient : ClientRef} : b.sendWill pClient = .ok b' → R b b'
  setState (b : Broker) (state : BrokerState) : R b (b.setState state)
  close (b : Broker) (it : Fd) : R b (b.closeConnection it)
  addClient (b : Broker) (sock : Fd) (ip : Bytes) (now : Time) : R b (b.addClient sock ip now).1
  execute (b : Broker) (commands : List FdWriteCommand) : R b { b with commands }
  rehash {b b' : Broker} : Rehashed b b' → R b b'

/-- What a step does: it handles a packet, whose error may be written, or does anything else. -/
inductive StepCase (R : Broker → Broker → Prop) (s : ServerThread) (e : SystemEvent)
    (t : ServerThread) : Prop
  | outside : packetAt s e = none → R s.broker t.broker → StepCase R s e t
  | packet {fd : Fd} {ref : ClientRef} {fh : FixedHeader} {data random : Bytes} {now : Time}
      {b' : Broker} {err : MqttErr} : packetAt s e = some (fd, ref, fh, data) →
      s.broker.clients.lookup fd = some (some ref) →
      (touch s.broker ref now).handlePacket fh data fd random = .ok (b', err) →
      t.broker = b' ∨ (∃ written, t.broker = b'.record (.wrote fd written)) → StepCase R s e t

namespace Outside

variable {R : Broker → Broker → Prop} {s t : ServerThread}

/-- A step of the server thread handles a packet or does something else. -/
private theorem server (hR : Outside R) {e : ServerEvent} (h : ServerCase s e t) :
    StepCase R s (.server e) t := by
  cases h with
  | idle | closed => exact .outside rfl (hR.refl _)
  | finished | started => exact .outside rfl (hR.setState ..)
  | wait _ _ hb | scanEnd _ _ hb =>
    obtain rfl | rfl := hb
    · exact .outside rfl (hR.refl _)
    · exact .outside rfl (hR.setState ..)
  | close => exact .outside rfl (hR.close ..)
  -- a packet is handled only behind a socket of the scan
  | @socket client_num i now del fd event b next hpc hi hfd hscan =>
    have hat : socketAt s = some fd := by simp only [socketAt, hpc, if_pos hi, hfd]
    cases hscan with
    | add hcontrol => exact .outside (packetAt_control hat hcontrol) (hR.setState ..)
    | control hcontrol => exact .outside (packetAt_control hat hcontrol) (hR.refl _)
    | alive => exact .outside rfl (hR.refl _)
    | short => exact .outside rfl (hR.touch ..)
    | headerError _ _ hsend => exact .outside rfl (hR.trans (hR.touch ..) (hR.sendWill hsend))
    | hangup _ hsend => exact .outside rfl (hR.sendWill hsend)
    | timeout _ _ hsend => exact .outside rfl (hR.trans (hR.addCommand ..) (hR.sendWill hsend))
    | handled hne hclient hpacket =>
      exact .packet (packetAt_eq hat hclient hne) hclient hpacket (.inl rfl)
    | refused hne hclient hpacket _ herror =>
      exact .packet (packetAt_eq hat hclient hne) hclient hpacket (handleError_eq_ok herror)

/-- Every step handles a packet, or nothing but what is outside of packets happens. -/
theorem system (hR : Outside R) {e : SystemEvent} (h : system.Step s e t) : StepCase R s e t := by
  cases system_cases h with
  | server hcase => exact hR.server hcase
  | addClient => exact .outside rfl (hR.addClient ..)
  | start => exact .outside rfl (hR.setState ..)
  | qos hdoes =>
    refine .outside rfl (hdoes.rel hR.refl hR.trans ?_)
    rintro b op ⟨fd, cmd, rfl⟩ -
    exact hR.addCommand b fd cmd
  | execute => exact .outside rfl (hR.execute ..)
  | rehash hb => exact .outside rfl (hR.rehash hb)

end Outside

theorem SameMessages.trans {b b' b'' : Broker} (h : SameMessages b b')
    (h' : SameMessages b' b'') : SameMessages b b'' :=
  ⟨h'.stored.trans h.stored, h'.topics.trans h.topics,
    fun ref m hm => h.will ref m (h'.will ref m hm)⟩

/-- The will of a client is sent; nothing that is stored changes. -/
theorem sendWill_messages {b b' : Broker} {pClient : ClientRef} (h : b.sendWill pClient = .ok b') :
    SameMessages b b' ∧ Delivers (IsMessage (b.heap pClient).will_topic) b b' := by
  obtain ⟨hforwards, hwill⟩ := sendWill_forwards h
  have hdoes := (does_sendWill b pClient (-1)).of_eq_ok h
  refine ⟨⟨(hdoes.quiet fun _ => isQuiet_of_sendsWill).inbound.stored, ?_, fun ref m hm => ?_⟩,
    hforwards.delivers⟩
  · refine @Does.same _ _ _ .topics hdoes fun op hop => ?_
    cases op with
    | storeTopicValue => exact hop.elim
    | _ => simp [Op.Writes]
  · obtain ⟨hname, hdata⟩ := hwill ref
    exact ⟨hname.symm.trans hm.1, hdata.symm.trans hm.2⟩

/-- Edits of one client store nothing. -/
theorem Edits.storage {pClient : ClientRef} {b b' : Broker} (h : Edits pClient b b') :
    b'.storage = b.storage := by rw [h.eq_heap]

/-- `handleMqttConnect` stores nothing. -/
theorem ConnectEffect.storage {b b' : Broker} {pClient : ClientRef} {data random : Bytes}
    {err : MqttErr} (h : ConnectEffect b pClient data random b' err) : b'.storage = b.storage := by
  cases h with
  | refused _ hedits => exact hedits.storage
  | identified _ hedits _ hidentified hedits' =>
    rw [hedits'.storage, ← hedits.storage]
    cases hidentified <;> rfl

/-- `handleMqttConnect` changes its own client alone. -/
theorem ConnectEffect.heap_ne {b b' : Broker} {pClient : ClientRef} {data random : Bytes}
    {err : MqttErr} (h : ConnectEffect b pClient data random b' err) {ref : ClientRef}
    (href : ref ≠ pClient) : b'.heap ref = b.heap ref := by
  cases h with
  | refused _ hedits => exact hedits.heap_ne href
  | identified _ hedits _ hidentified hedits' =>
    rw [hedits'.heap_ne href, ← hedits.heap_ne href]
    cases hidentified <;> exact heap_setClient_ne href

/-- A CONNECT changes the will of its client, and nothing else that is stored. -/
theorem connect_messages {b b' : Broker} {data random : Bytes} {fd : Fd} {ref : ClientRef}
    {err : MqttErr} (hclient : b.clients.lookup fd = some (some ref))
    (h : b.connectHandler data fd random = .ok (b', err)) :
    stored b' = stored b ∧ b'.storage.topics = b.storage.topics ∧
      (∀ ref' ≠ ref, SameWill b b' ref') ∧ handedOut b' = handedOut b := by
  obtain ⟨b₁, heffect, hdoes⟩ := connectHandler_effect hclient h
  obtain ⟨hstorage, hheap, hcalls⟩ := eq_of_addCommands (hdoes.mono fun op hop => by
    obtain ⟨answer, rfl⟩ := hop
    exact ⟨fd, answer, rfl⟩)
  rw [heffect.storage] at hstorage
  refine ⟨?_, congrArg TopicStorage.topics hstorage, fun ref' href m hm => ?_, ?_⟩
  · funext client_id
    rw [stored, stored, hstorage]
  · rwa [hheap, heffect.heap_ne href] at hm
  · rw [handedOut, handedOut, hcalls, heffect.calls]

/-- Outside of packets nothing that is stored changes, and at most wills are sent. -/
theorem outside_messages : Outside fun b b' => SameMessages b b' ∧
    Delivers (fun m => ∃ ref, IsMessage (b.heap ref).will_topic m) b b' where
  refl b := ⟨.refl b, .of_eq rfl⟩
  trans {b b' b''} h h' := by
    -- a will that is sent in the second part was there in the first
    refine ⟨h.1.trans h'.1, h.2.trans (h'.2.mono ?_)⟩
    rintro m ⟨ref, hm⟩
    exact ⟨ref, h.1.will ref m hm⟩
  touch b ref now := ⟨sameMessages_touch b ref now, .of_eq rfl⟩
  addCommand b fd cmd := ⟨.of_eq rfl rfl, .of_eq rfl⟩
  sendWill h := by
    -- a will is sent and stays in its client
    obtain ⟨hsame, hdelivers⟩ := sendWill_messages h
    exact ⟨hsame, hdelivers.mono fun m hm => ⟨_, hm⟩⟩
  setState b state := ⟨.of_eq rfl rfl, .of_eq rfl⟩
  close b it := ⟨.of_eq rfl rfl, .of_eq rfl⟩
  addClient b sock ip now := by
    refine ⟨⟨rfl, rfl, fun ref m hm => ?_⟩, .of_eq rfl⟩
    simp only [Broker.addClient] at hm
    by_cases href : ref = b.next_ref
    · -- a new client has no will
      rw [href, heap_setClient_self] at hm
      cases hm.2
    · rwa [heap_setClient_ne href] at hm
  execute b commands := ⟨.of_eq rfl rfl, .of_eq rfl⟩
  rehash {b b'} hb := by
    refine ⟨⟨?_, ?_, fun ref m hm => ?_⟩, .of_eq ?_⟩
    · funext client_id
      simp only [stored, TopicStorage.qosGroup,
        UnorderedMap.lookup_eq_of_reordered hb.qos_2_topics]
    · rw [hb.others]
    · rwa [hb.others] at hm
    · rw [hb.others]
      rfl

/-- Every step is one of the cases. -/
theorem system_messages {s t : ServerThread} {e : SystemEvent} (h : system.Step s e t) :
    MessageCase s e t := by
  cases outside_messages.system h with
  | outside hat hnone => exact .none hat hnone.1 hnone.2
  | @packet fd ref fh data random now b' err hat hclient hpacket hafter =>
    have hsame : SameMessages b' t.broker ∧ handedOut t.broker = handedOut b' := by
      obtain heq | ⟨written, heq⟩ := hafter
      · rw [heq]
        exact ⟨.refl b', rfl⟩
      · rw [heq]
        exact ⟨.of_eq rfl rfl, @handedOut_silent _ (.record (.wrote fd written)) rfl⟩
    -- a CONNECT is apart, as it sets the will of its client
    obtain ⟨hsame, hout⟩ := hsame
    by_cases htype : fh.getType = PackType.CONNECT.code
    · have hconnect : (touch s.broker ref now).connectHandler data fd random = .ok (b', err) :=
        (handlePacket_connect _ _ _ _ htype).symm.trans hpacket
      have htouch := sameMessages_touch s.broker ref now
      have hclient' : (touch s.broker ref now).clients.lookup fd = some (some ref) := hclient
      obtain ⟨hstored, htopics, hwill, hcalls⟩ := connect_messages hclient' hconnect
      refine .connect hat htype (hsame.stored.trans hstored) (hsame.topics.trans htopics)
        (fun ref' href m hm => ?_) (hout.trans hcalls)
      exact htouch.will ref' m (hwill ref' href m (hsame.will ref' m hm))
    · exact .packet hat htype hclient hpacket hsame hout

/-! ## The invariant -/

/-- Whatever may be sent has been noted. -/
structure MessageInv (b : Broker) (g : Messages) : Prop where
  stored : ∀ client_id topic m, topic ∈ stored b client_id → IsMessage topic m →
    ((client_id, topic.id), m) ∈ g.held
  will : ∀ ref m, IsMessage (b.heap ref).will_topic m → m ∈ g.free
  retained : ∀ topic ∈ b.storage.topics.toList, ∀ m, IsMessage topic m →
    m ∈ g.free ∨ ∃ key, (key, m) ∈ g.held

/-- The invariant speaks of what is stored. -/
theorem MessageInv.same {b b' : Broker} {g : Messages} (h : MessageInv b g)
    (hsame : SameMessages b b') : MessageInv b' g := by
  constructor
  · intro client_id topic m hmem
    rw [hsame.stored] at hmem
    exact h.stored client_id topic m hmem
  · intro ref m hm
    exact h.will ref m (hsame.will ref m hm)
  · intro topic hmem
    rw [hsame.topics] at hmem
    exact h.retained topic hmem

theorem MessageInv.mono {b : Broker} {g g' : Messages} (h : MessageInv b g)
    (hmono : g.free ⊆ g'.free ∧ g.held ⊆ g'.held) : MessageInv b g' := by
  obtain ⟨hfree, hheld⟩ := hmono
  constructor
  · intro client_id topic m hmem hm
    exact hheld (h.stored client_id topic m hmem hm)
  · intro ref m hm
    exact hfree (h.will ref m hm)
  · intro topic hmem m hm
    obtain hin | ⟨key, hin⟩ := h.retained topic hmem m hm
    · exact .inl (hfree hin)
    · exact .inr ⟨key, hheld hin⟩

section handled

variable {g : Messages} {client_id : Bytes} {will : MqttTopic} {fh : FixedHeader} {data : Bytes}

/-- A will is noted with its CONNECT. -/
theorem mem_handled_connect {m : Message} (htype : fh.getType = PackType.CONNECT.code)
    (hm : IsMessage will m) : m ∈ (g.handled client_id will fh data).free := by
  have hpublish : fh.getType ≠ PackType.PUBLISH.code := by rw [htype]; decide
  have hpubrel : fh.getType ≠ PackType.PUBREL.code := by rw [htype]; decide
  obtain ⟨hname, hdata⟩ := hm
  simp only [Messages.handled, if_neg hpublish, if_neg hpubrel, if_pos htype, hdata, hname]
  simp

variable (g client_id will) in
/-- A message is noted with its PUBLISH, as held with QoS 2. -/
theorem mem_handled_publish {vh : PublishVH} {message : MqttBinaryDataEntity}
    (htype : fh.getType = PackType.PUBLISH.code)
    (hread : handleMqttPublish fh data = .ok (vh, message)) :
    if fh.qoS = 2 then ((client_id, vh.packet_id), (vh.topic_name, message)) ∈
      (g.handled client_id will fh data).held
    else (vh.topic_name, message) ∈ (g.handled client_id will fh data).free := by
  split
  · rename_i hqos
    simp [Messages.handled, htype, hread, hqos]
  · rename_i hqos
    simp [Messages.handled, htype, hread, hqos]

/-- A PUBREL makes a held message free. -/
theorem mem_handled_pubrel {packet_id : UInt16} {m : Message}
    (htype : fh.getType = PackType.PUBREL.code) (hread : PubackVH.readFromBuf data = .ok packet_id)
    (hheld : ((client_id, packet_id), m) ∈ g.held) :
    m ∈ (g.handled client_id will fh data).free := by
  have hpublish : fh.getType ≠ PackType.PUBLISH.code := by rw [htype]; decide
  simp only [Messages.handled, if_neg hpublish, if_pos htype, hread]
  refine List.mem_append_right _ (List.mem_map.mpr ⟨_, List.mem_filter.mpr ⟨hheld, ?_⟩, rfl⟩)
  simp

end handled

/-- A packet that is no CONNECT. -/
theorem MessageInv.packet {b b' : Broker} {g : Messages} {fh : FixedHeader}
    {data random : Bytes} {fd : Fd} {ref : ClientRef} {err : MqttErr} (h : MessageInv b g)
    (htype : fh.getType ≠ PackType.CONNECT.code)
    (hclient : b.clients.lookup fd = some (some ref))
    (hpacket : b.handlePacket fh data fd random = .ok (b', err)) (will : MqttTopic) :
    MessageInv b' (g.handled (b.heap ref).client_id will fh data) := by
  have hmono := g.handled_mono (b.heap ref).client_id will fh data
  constructor
  · intro client_id topic m hmem hm
    have hkept : topic ∈ Spec.stored b client_id →
        ((client_id, topic.id), m) ∈ (g.handled (b.heap ref).client_id will fh data).held :=
      fun hmem => hmono.2 (h.stored client_id topic m hmem hm)
    -- nothing is stored, a PUBLISH with QoS 2 is, or a PUBREL has one erased
    obtain hsame | ⟨c, topic', hpublish, hrec⟩ | ⟨c, packet_id, hrel⟩ :=
      ((handlePacket_step b fh data fd random).of_eq_ok hpacket).inbound
    · exact hkept (by rwa [hsame.stored] at hmem)
    · rw [hrec.topics] at hmem
      by_cases hc : client_id = c
      · rw [hc, Function.update_self, List.mem_cons] at hmem
        obtain rfl | hmem := hmem
        · obtain ⟨htype', hqos, pClient, vh, message, hread, hclient', rfl, rfl⟩ := hpublish
          obtain rfl := Option.some.inj (Option.some.inj (hclient'.symm.trans hclient))
          have hheld := mem_handled_publish g (b.heap pClient).client_id will htype' hread
          rw [if_pos hqos] at hheld
          obtain rfl : m = (vh.topic_name, message) :=
            Prod.ext hm.1.symm (Option.some.inj hm.2).symm
          rw [hc]
          exact hheld
        · exact hkept (hc ▸ hmem)
      · exact hkept (by rwa [Function.update_of_ne hc] at hmem)
    · rw [hrel.topics] at hmem
      by_cases hc : client_id = c
      · rw [hc, Function.update_self] at hmem
        exact hkept (hc ▸ List.mem_of_mem_eraseP hmem)
      · exact hkept (by rwa [Function.update_of_ne hc] at hmem)
  · -- the wills stay
    intro ref' m hm
    rw [handlePacket_will_topic htype hpacket] at hm
    exact hmono.1 (h.will ref' m hm)
  · intro topic hmem m hm
    have hkept : topic ∈ b.storage.topics.toList → _ := fun hmem =>
      (h.mono hmono).retained topic hmem m hm
    -- retained topics are the old ones and what a PUBLISH with RETAIN stores
    obtain htopics | ⟨hpublish, vh, message, hread, htopics⟩ := handlePacket_topics htype hpacket
    · exact hkept (by rwa [htopics] at hmem)
    · rw [htopics] at hmem
      obtain rfl | hmem := OrderedSet.mem_insert hmem
      · have hnoted := mem_handled_publish g (b.heap ref).client_id will hpublish hread
        obtain rfl : m = (vh.topic_name, message) :=
          Prod.ext hm.1.symm (Option.some.inj hm.2).symm
        split at hnoted
        · exact .inr ⟨_, hnoted⟩
        · exact .inl hnoted
      · exact hkept (OrderedSet.mem_erase.mp hmem).1

/-- Each step keeps what is stored noted. -/
theorem MessageInv.step {s t : ServerThread} {e : SystemEvent} {g : Messages}
    (h : MessageInv s.broker g) (hstep : system.Step s e t) :
    MessageInv t.broker (noteMessages s e t g) := by
  cases system_messages hstep with
  | none hat hsame _ =>
    rw [noteMessages, hat]
    exact h.same hsame
  | @connect fd ref fh data hat htype hstored htopics hwill _ =>
    rw [noteMessages, hat]
    have hmono := h.mono (g.handled_mono (s.broker.heap ref).client_id
      (t.broker.heap ref).will_topic fh data)
    constructor
    · rw [hstored]
      exact hmono.stored
    · intro ref' m hm
      -- the will is noted with the CONNECT, the other wills stay
      by_cases href : ref' = ref
      · rw [href] at hm
        exact mem_handled_connect htype hm
      · exact hmono.will ref' m (hwill ref' href m hm)
    · rw [htopics]
      exact hmono.retained
  | @packet fd ref fh data random now b' err hat htype hclient hpacket hsame _ =>
    rw [noteMessages, hat]
    have htouch := h.same (sameMessages_touch s.broker ref now)
    have hid : ((touch s.broker ref now).heap ref).client_id = (s.broker.heap ref).client_id := by
      rw [touch, heap_setClient_self]
    have hclient' : (touch s.broker ref now).clients.lookup fd = some (some ref) := hclient
    have hinv := htouch.packet htype hclient' hpacket (t.broker.heap ref).will_topic
    rw [hid] at hinv
    exact hinv.same hsame

/-- In every run whatever is stored was sent by a client before. -/
theorem messageInv_of_reachable {s : ServerThread} {g : Messages}
    (h : messageSystem.Reachable (s, g)) : MessageInv s.broker g := by
  refine h.observe_invariant (P := fun s g => MessageInv s.broker g) ?_ fun hinv => hinv.step
  rintro s ⟨control_sock, rfl⟩
  refine ⟨fun c topic m hmem => ?_, fun ref m hm => ?_, fun topic hmem => ?_⟩
  · simp [stored, TopicStorage.qosGroup] at hmem
  · cases hm.2
  · simp at hmem

/-- A packet sends a message on that is free behind it, or one that a filter matches while
    it waits for its PUBREL. -/
theorem MessageInv.sendsOn {b : Broker} {g : Messages} {fh : FixedHeader} {data : Bytes} {fd : Fd}
    {ref : ClientRef} {m : Message} (h : MessageInv b g)
    (hclient : b.clients.lookup fd = some (some ref)) (hsends : SendsOn b fh data fd m)
    (will : MqttTopic) : m ∈ (g.handled (b.heap ref).client_id will fh data).free ∨
      (fh.getType = PackType.SUBSCRIBE.code ∧ Awaits g m ∧
        ∃ tpcs, Subscribing fh data tpcs ∧ MatchesRetained b.storage tpcs m) := by
  -- the message comes with this packet, or from one of the two stores
  cases hsends with
  | @publish vh htype hqos hread hname =>
    have hnoted := mem_handled_publish g (b.heap ref).client_id will htype hread
    rw [if_neg hqos, hname] at hnoted
    exact .inl hnoted
  | @pubrel pClient packet_id topic htype hclient' hread hmem hid hm =>
    obtain rfl := Option.some.inj (Option.some.inj (hclient'.symm.trans hclient))
    have hheld := h.stored _ topic m hmem hm
    rw [hid] at hheld
    exact .inl (mem_handled_pubrel htype hread hheld)
  | @subscribe tpcs htype hread hmatch =>
    by_cases hfree : m ∈ g.free
    · exact .inl ((g.handled_mono (b.heap ref).client_id will fh data).1 hfree)
    · obtain ⟨it, hit, matched, hmatched, topic, hmem, hm⟩ := hmatch
      have hretained := h.retained topic (mem_of_getMatchedTopics hmatched hmem) m hm
      exact .inr ⟨htype, ⟨hfree, hretained.resolve_left hfree⟩, tpcs, hread, it, hit, matched,
        hmatched, topic, hmem, hm⟩

/-- SUBSCRIBE to `t` with QoS 0. -/
def subscribeT : Bytes := [0, 2, 0, 0, 1, 0x74, 0]

/-- The client has subscribed and published with QoS 2. -/
def publishedQoS2 : List SystemEvent :=
  connected ++ pass 0x82 subscribeT ++ publishQoS2 ++ [.server (.round false 0)]

/-- The client has published with QoS 2 and RETAIN. -/
def retainedQoS2 : List SystemEvent :=
  connected ++ pass 0x35 [0, 1, 0x74, 0, 1, 0, 0x78] ++ [.server (.round false 0)]

def messageStep (x : ServerThread × Messages) (e : SystemEvent) :
    Option (ServerThread × Messages) :=
  (systemStep x.1 e).map fun t => (t, noteMessages x.1 e t x.2)

theorem step_of_messageStep {x y : ServerThread × Messages} {e : SystemEvent}
    (h : messageStep x e = some y) : messageSystem.Step x e y :=
  LTS.observe_step_of_map step_of_systemStep h

/-- A check that nothing is retained. -/
def retainsNothing (x : ServerThread × Messages) : Bool :=
  x.1.broker.storage.topics.toList.isEmpty

theorem not_sendsUnreleased {x : ServerThread × Messages} {e : SystemEvent}
    (h : retainsNothing x = true) : ¬ SendsUnreleased x e := by
  rintro ⟨fd, ref, fh, data, tpcs, m, -, -, -, ⟨it, -, matched, hmatched, topic, hmem, -⟩, -⟩
  have hretained := mem_of_getMatchedTopics hmatched hmem
  rw [List.isEmpty_iff.mp h] at hretained
  cases hretained

end Mqtt.Spec
