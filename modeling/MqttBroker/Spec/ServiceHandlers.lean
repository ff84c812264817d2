import MqttBroker.Spec.ActiveClients
import MqttBroker.Spec.ServiceSends

/-!
# Packet handlers of the service

Every packet that a handler accepts is a packet of the service: it decodes to one, and what the
handler queues and leaves behind is what the service does with it.
-/

namespace Mqtt.Spec

open Mqtt.Native Mqtt.Native.Broker

/-! ## Decoding -/

/-- The types of packets that have a handler. -/
def handledTypes : List PackType :=
  [.PUBLISH, .PUBACK, .PUBREL, .PUBREC, .PUBCOMP, .PINGREQ, .SUBSCRIBE, .DISCONNECT, .UNSUBSCRIBE,
    .CONNECT]

/-- The fixed header and the body are read as the packet. What a CONNECT reads may hang on the
    properties that its client has had before. -/
def Understood (fh : FixedHeader) (data : Bytes) : ClientPacket → Prop
  | .connect id clean alive will => fh.getType = PackType.CONNECT.code ∧
    ∃ b pClient con_vh offset, ReadsId b pClient data con_vh id offset ∧
      clean = (con_vh.conn_flags &&& 0x2 != 0) ∧ alive = con_vh.alive ∧
      match will with
      | some m => ∃ topic, WillIn data topic ∧ messageOf topic = some m
      | none => con_vh.conn_flags &&& 0x4 = 0
  | .badConnect => fh.getType = PackType.CONNECT.code
  | .publish qos retain packet_id m => fh.getType = PackType.PUBLISH.code ∧ qos = fh.qoS ∧
    retain = fh.isRETAIN ∧ ∃ vh, handleMqttPublish fh data = .ok (vh, m.2) ∧
      vh.topic_name = m.1 ∧ vh.packet_id = packet_id
  | .puback packet_id => fh.getType = PackType.PUBACK.code ∧
    PubackVH.readFromBuf data = .ok packet_id
  | .pubrec packet_id => fh.getType = PackType.PUBREC.code ∧
    PubackVH.readFromBuf data = .ok packet_id
  | .pubrel packet_id => fh.getType = PackType.PUBREL.code ∧
    PubackVH.readFromBuf data = .ok packet_id
  | .pubcomp packet_id => fh.getType = PackType.PUBCOMP.code ∧
    PubackVH.readFromBuf data = .ok packet_id
  | .subscribe packet_id records => fh.getType = PackType.SUBSCRIBE.code ∧
    (∃ offset, SubscribeVH.ofBuf data = .ok (packet_id, offset)) ∧ Subscribing fh data records
  | .unsubscribe packet_id filters => fh.getType = PackType.UNSUBSCRIBE.code ∧
    ∃ offset, UnsubscribeVH.readFromBuf data = .ok (packet_id, offset) ∧
      unsubscribeLoop fh.remaining_len data (data.length + 1) offset [] = .ok filters
  | .pingreq => fh.getType = PackType.PINGREQ.code
  | .disconnect => fh.getType = PackType.DISCONNECT.code
  | .other => ∀ type ∈ handledTypes, fh.getType ≠ type.code

/-- The type of a packet, if there is a handler for it. -/
def ClientPacket.type : ClientPacket → Option PackType
  | connect _ _ _ _ | badConnect => some .CONNECT
  | publish _ _ _ _ => some .PUBLISH
  | puback _ => some .PUBACK
  | pubrec _ => some .PUBREC
  | pubrel _ => some .PUBREL
  | pubcomp _ => some .PUBCOMP
  | subscribe _ _ => some .SUBSCRIBE
  | unsubscribe _ _ => some .UNSUBSCRIBE
  | pingreq => some .PINGREQ
  | disconnect => some .DISCONNECT
  | other => none

section understood

variable {fh : FixedHeader} {data : Bytes} {p p' : ClientPacket}

/-- A packet of a type is understood from a first byte of this type. -/
theorem Understood.getType {type : PackType} (h : Understood fh data p)
    (htype : p.type = some type) : fh.getType = type.code ∧ type ∈ handledTypes := by
  cases p with
  | badConnect | pingreq | disconnect =>
    obtain rfl := Option.some.inj htype
    exact ⟨h, by decide⟩
  | other => exact nomatch htype
  | _ =>
    obtain rfl := Option.some.inj htype
    exact ⟨h.1, by decide⟩

/-- A packet is of one type. -/
theorem Understood.type_unique (h : Understood fh data p) (h' : Understood fh data p') :
    p'.type = p.type := by
  have hother : ∀ {q : ClientPacket}, Understood fh data q → q.type = none →
      ∀ type ∈ handledTypes, fh.getType ≠ type.code := by
    intro q hq htype
    cases q with
    | other => exact hq
    | _ => exact nomatch htype
  -- the type is that of the first byte, if a handler has it
  cases htype : p.type with
  | none =>
    cases htype' : p'.type with
    | none => rfl
    | some type' =>
      obtain ⟨heq, hmem⟩ := h'.getType htype'
      exact absurd heq (hother h htype _ hmem)
  | some type =>
    obtain ⟨heq, hmem⟩ := h.getType htype
    cases htype' : p'.type with
    | none => exact absurd heq (hother h' htype' _ hmem)
    | some type' =>
      have hcode : ∀ t : PackType, PackType.ofNat t.code.toNat = t := by
        intro t
        cases t <;> rfl
      rw [← hcode type', ← hcode type, ← (h'.getType htype').1, ← heq]

/-- What a packet says is determined, but for a CONNECT. -/
theorem Understood.unique (h : Understood fh data p) (h' : Understood fh data p')
    (hp : p.type ≠ some .CONNECT) : p' = p := by
  have htype := h.type_unique h'
  cases p with
  | connect | badConnect => exact absurd rfl hp
  -- one case for each type; what is read from the body is read in one way
  | publish qos retain packet_id m =>
    cases p' with
    | publish qos' retain' packet_id' m' =>
      obtain ⟨-, rfl, rfl, vh, hread, hname, rfl⟩ := h
      obtain ⟨-, rfl, rfl, vh', hread', hname', rfl⟩ := h'
      obtain ⟨rfl, hmessage⟩ := Prod.mk.inj (Except.ok.inj (hread.symm.trans hread'))
      rw [Prod.ext (hname.symm.trans hname') hmessage]
    | _ => exact nomatch htype
  | puback packet_id =>
    cases p' with
    | puback packet_id' => rw [Except.ok.inj (h.2.symm.trans h'.2)]
    | _ => exact nomatch htype
  | pubrec packet_id =>
    cases p' with
    | pubrec packet_id' => rw [Except.ok.inj (h.2.symm.trans h'.2)]
    | _ => exact nomatch htype
  | pubrel packet_id =>
    cases p' with
    | pubrel packet_id' => rw [Except.ok.inj (h.2.symm.trans h'.2)]
    | _ => exact nomatch htype
  | pubcomp packet_id =>
    cases p' with
    | pubcomp packet_id' => rw [Except.ok.inj (h.2.symm.trans h'.2)]
    | _ => exact nomatch htype
  | subscribe packet_id records =>
    cases p' with
    | subscribe packet_id' records' =>
      obtain ⟨-, ⟨_, hread⟩, hrecords⟩ := h
      obtain ⟨-, ⟨_, hread'⟩, hrecords'⟩ := h'
      obtain ⟨rfl, -⟩ := Prod.mk.inj (Except.ok.inj (hread.symm.trans hread'))
      rw [hrecords.unique hrecords']
    | _ => exact nomatch htype
  | unsubscribe packet_id filters =>
    cases p' with
    | unsubscribe packet_id' filters' =>
      obtain ⟨-, _, hread, hloop⟩ := h
      obtain ⟨-, _, hread', hloop'⟩ := h'
      obtain ⟨rfl, rfl⟩ := Prod.mk.inj (Except.ok.inj (hread.symm.trans hread'))
      rw [Except.ok.inj (hloop.symm.trans hloop')]
    | _ => exact nomatch htype
  | pingreq | disconnect | other =>
    cases p' with
    | pingreq | disconnect | other => first | rfl | exact nomatch htype
    | _ => exact nomatch htype

end understood

/-- A packet on `fd` is served, and its connection stays. -/
structure ServedAs (b : Broker) (ending : List Fd) (fd : Fd) (σ : Service.Session)
    (fh : FixedHeader) (data : Bytes) (b' : Broker) (err : MqttErr) : Prop where
  ok : err = .ok
  served : ∃ p queued S', Understood fh data p ∧
    (serviceOf b ending).Handles fd σ p queued [] true S' ∧ Shows b ending queued b' S'

/-- What is written when a packet is refused. -/
def errorAnswer (fd : Fd) : MqttErr → List Outgoing
  | .protocolVersionErr =>
    [(fd, .connack 0 ReasonCode.unsupportedProtocolVersion.code OrderedSet.empty)]
  | .duplicateClientId =>
    [(fd, .connack 0 ReasonCode.clientIdentifierNotValid.code OrderedSet.empty)]
  | _ => []

/-- A packet on `fd` is refused, and its connection is to be closed. -/
structure RefusedAs (b : Broker) (ending : List Fd) (fd : Fd) (σ : Service.Session)
    (fh : FixedHeader) (data : Bytes) (b' : Broker) (err : MqttErr) : Prop where
  ne : err ≠ .ok
  refused : ∃ p S', Understood fh data p ∧
    (serviceOf b ending).Handles fd σ p [] (errorAnswer fd err) false S' ∧ Shows b ending [] b' S'

section handlers

variable {b b' : Broker} (ending : List Fd) {fh : FixedHeader} {data : Bytes} {fd : Fd}
  {ref : ClientRef} {err : MqttErr}

/-! ## Acknowledgements -/

/-- Nothing is kept for anyone. -/
theorem ServiceInv.delQosEvent (h : ServiceInv b) (client_id : Bytes) (packet_id : UInt16) :
    b.delQosEvent client_id packet_id = b := by
  rw [Broker.delQosEvent, h.empty]
  rfl

/-- Nothing is kept for a client id, so that nothing is sent. -/
theorem ServiceInv.sendKeptMessage (h : ServiceInv b) (fd : Fd) (client_id : Bytes) :
    b.sendKeptMessage fd client_id = .ok b := by
  rw [Broker.sendKeptMessage, h.queue]
  rfl

/-- A call that writes nothing is not seen. -/
theorem Shows.record {ending : List Fd} (h : ServiceInv b) {call : Call}
    (hcall : written? call = none) :
    Shows b ending [] (b.record call) (serviceOf b ending) :=
  .of_eq h rfl (by rw [wrote_record, hcall]; exact List.append_nil _)

/-- A PUBACK is answered by nothing. -/
theorem pubackHandler_shows {σ : Service.Session} (h : ServiceInv b)
    (htype : fh.getType = PackType.PUBACK.code) (hclient : b.clients.lookup fd = some (some ref))
    (hpacket : b.pubackHandler data fd = .ok (b', err)) :
    ServedAs b ending fd σ fh data b' err := by
  rw [pubackHandler, clientAt_eq hclient] at hpacket
  obtain ⟨packet_id, hread, hpacket⟩ := Except.bind_eq_ok_iff.mp hpacket
  dsimp only [deref] at hpacket
  rw [Except.ok_bind, h.delQosEvent] at hpacket
  have hrecord : Shows b ending [] (b.record (.acknowledged ref .PUBACK packet_id)) _ :=
    .record h rfl
  have hkept := hrecord.inv.sendKeptMessage fd (b.heap ref).client_id
  obtain ⟨b₁, hsend, hresult⟩ := Except.bind_eq_ok_iff.mp hpacket
  obtain rfl := Except.ok.inj (hkept.symm.trans hsend)
  obtain ⟨rfl, rfl⟩ := Prod.mk.inj (Except.ok.inj hresult)
  exact ⟨rfl, .puback packet_id, _, _, ⟨htype, hread⟩, .puback, hrecord⟩

/-- A PUBREC is answered by a PUBREL. -/
theorem pubrecHandler_shows {σ : Service.Session} (h : ServiceInv b)
    (htype : fh.getType = PackType.PUBREC.code) (hclient : b.clients.lookup fd = some (some ref))
    (hpacket : b.pubrecHandler data fd = .ok (b', err)) :
    ServedAs b ending fd σ fh data b' err := by
  rw [pubrecHandler] at hpacket
  obtain ⟨packet_id, hread, hpacket⟩ := Except.bind_eq_ok_iff.mp hpacket
  rw [derefAt_eq hclient, Except.ok_bind] at hpacket
  dsimp only at hpacket
  rw [h.delQosEvent] at hpacket
  obtain ⟨answer, hanswer, hresult⟩ := Except.bind_eq_ok_iff.mp hpacket
  obtain ⟨rfl, rfl⟩ := Prod.mk.inj (Except.ok.inj hresult)
  have hrecord : Shows b ending [] (b.record (.acknowledged ref .PUBREC packet_id)) _ :=
    .record h rfl
  exact ⟨rfl, .pubrec packet_id, _, _, ⟨htype, hread⟩, .pubrec, hrecord.trans
    (.addCommand (p := .pubrel packet_id) hrecord.inv fd (createMqttPacket_ack hanswer))⟩

/-- A PUBCOMP is answered by nothing. -/
theorem pubcompHandler_shows {σ : Service.Session} (h : ServiceInv b)
    (htype : fh.getType = PackType.PUBCOMP.code) (hclient : b.clients.lookup fd = some (some ref))
    (hpacket : b.pubcompHandler data fd = .ok (b', err)) :
    ServedAs b ending fd σ fh data b' err := by
  rw [pubcompHandler] at hpacket
  obtain ⟨packet_id, hread, hpacket⟩ := Except.bind_eq_ok_iff.mp hpacket
  rw [derefAt_eq hclient, Except.ok_bind] at hpacket
  dsimp only at hpacket
  rw [h.sendKeptMessage, Except.ok_bind] at hpacket
  obtain ⟨rfl, rfl⟩ := Prod.mk.inj (Except.ok.inj hpacket)
  exact ⟨rfl, .pubcomp packet_id, _, _, ⟨htype, hread⟩, .pubcomp, .refl h⟩

/-- A PINGREQ is answered by a PINGRESP. -/
theorem pingHandler_shows {σ : Service.Session} (h : ServiceInv b)
    (htype : fh.getType = PackType.PINGREQ.code) (hclient : b.clients.lookup fd = some (some ref))
    (hpacket : b.pingHandler fd = .ok (b', err)) : ServedAs b ending fd σ fh data b' err := by
  rw [pingHandler, derefAt_eq hclient, Except.ok_bind] at hpacket
  obtain ⟨answer, hanswer, hresult⟩ := Except.bind_eq_ok_iff.mp hpacket
  obtain ⟨rfl, rfl⟩ := Prod.mk.inj (Except.ok.inj hresult)
  exact ⟨rfl, .pingreq, _, _, htype, .pingreq, .addCommand h fd (createMqttPacket_pingresp hanswer)⟩

/-! ## PUBLISH and PUBREL -/

/-- `StoreTopicValue` is an update of the values. -/
theorem getStoredValuePtr_storeTopicValue (s : TopicStorage) (qos : UInt8) (id : UInt16)
    (topic_name : Bytes) (message : MqttBinaryDataEntity) :
    (s.storeTopicValue qos id topic_name (some message)).getStoredValuePtr =
      Function.update s.getStoredValuePtr topic_name (some message) := by
  funext name
  let topic : MqttTopic := .new qos id topic_name (some message)
  have hfind : (s.storeTopicValue qos id topic_name (some message)).findTopic name =
      if topic_name = name then some topic else s.findTopic name :=
    findTopic_storeTopic s topic name
  rw [TopicStorage.getStoredValuePtr, hfind]
  by_cases hname : topic_name = name
  · rw [if_pos hname, hname, Function.update_self]
    rfl
  · rw [if_neg hname, Function.update_of_ne (Ne.symm hname)]
    rfl

/-- Retaining a message is an update of the retained messages. -/
theorem retain_shows (h : ServiceInv b) (fh : FixedHeader) (vh : PublishVH)
    (message : MqttBinaryDataEntity) : Shows b ending [] (retain b fh vh message)
      ((serviceOf b ending).retain fh.isRETAIN (vh.topic_name, message)) := by
  unfold retain Service.retain
  split
  · refine ⟨.of_eq rfl, rfl, h.of_eq rfl rfl rfl rfl, ?_⟩
    rw [serviceOf, getStoredValuePtr_storeTopicValue]
    rfl
  · exact .refl h

/-- The answer to a PUBLISH. -/
def publishAnswer (fd : Fd) (qos : UInt8) (packet_id : UInt16) : List Outgoing :=
  if qos = 1 then [(fd, .puback packet_id)] else if qos = 2 then [(fd, .pubrec packet_id)] else []

/-- A PUBLISH is answered by what its QoS asks for. -/
theorem answerPublish_shows {packet_id : UInt16} (h : ServiceInv b)
    (hanswer : b.answerPublish fh packet_id fd ref = .ok b') :
    Shows b ending (publishAnswer fd fh.qoS packet_id) b' (serviceOf b ending) ∧
      b'.heap = b.heap := by
  unfold answerPublish at hanswer
  unfold publishAnswer
  dsimp only at hanswer
  split at hanswer
  · rename_i hqos
    obtain ⟨answer, hcreate, hresult⟩ := Except.bind_eq_ok_iff.mp hanswer
    obtain rfl := Except.ok.inj hresult
    rw [if_pos hqos]
    exact ⟨.addCommand (p := .puback packet_id) h fd (createMqttPacket_ack hcreate), rfl⟩
  · rename_i hqos
    rw [if_neg hqos]
    split at hanswer
    · rename_i hqos₂
      -- nothing waits, so the answer is queued and not kept
      rw [h.queue, if_pos (by simp)] at hanswer
      obtain ⟨answer, hcreate, hresult⟩ := Except.bind_eq_ok_iff.mp hanswer
      obtain rfl := Except.ok.inj hresult
      rw [if_pos hqos₂]
      exact ⟨.addCommand (p := .pubrec packet_id) h fd (createMqttPacket_ack hcreate), rfl⟩
    · rename_i hqos₂
      -- QoS 0 is not answered
      obtain rfl := Except.ok.inj hanswer
      rw [if_neg hqos₂]
      exact ⟨.refl h, rfl⟩

/-- A PUBLISH is retained, answered, and sent on or held. -/
theorem publishHandler_shows (h : ServiceInv b) (htype : fh.getType = PackType.PUBLISH.code)
    (hclient : b.clients.lookup fd = some (some ref))
    (hpacket : b.publishHandler fh data fd = .ok (b', err)) :
    ServedAs b ending fd (sessionOf (b.heap ref) (b.subscribed_clients.lookup fd).isSome) fh data b'
      err := by
  rw [publishHandler, clientAt_eq hclient] at hpacket
  obtain ⟨⟨vh, message⟩, hread, hpacket⟩ := Except.bind_eq_ok_iff.mp hpacket
  dsimp only at hpacket
  have hretain := retain_shows ending h fh vh message
  -- RETAIN comes first, then the answer, and the subscribers last
  change (retain b fh vh message).answerPublish fh vh.packet_id fd ref >>= _ = _ at hpacket
  obtain ⟨b₂, hanswer, hpacket⟩ := Except.bind_eq_ok_iff.mp hpacket
  obtain ⟨hanswered, hheap⟩ := answerPublish_shows ending hretain.inv hanswer
  rw [hretain.shows] at hanswered
  have hfirst := hretain.trans hanswered
  have hdecodes : Understood fh data
      (.publish fh.qoS fh.isRETAIN vh.packet_id (vh.topic_name, message)) :=
    ⟨htype, rfl, rfl, vh, hread, rfl, rfl⟩
  split at hpacket
  · rename_i hqos
    obtain ⟨⟨b₃, topic⟩, hnotify, hresult⟩ := Except.bind_eq_ok_iff.mp hpacket
    obtain ⟨rfl, rfl⟩ := Prod.mk.inj (Except.ok.inj hresult)
    obtain ⟨out, S', hnotifies, hshows⟩ := notifyClients_shows ending hfirst.inv hnotify
    rw [hfirst.shows] at hnotifies
    have hout : publishAnswer fd fh.qoS vh.packet_id =
        if fh.qoS = 1 then [(fd, .puback vh.packet_id)] else [] := by
      rw [publishAnswer, if_neg hqos]
    refine ⟨rfl, _, _, S', hdecodes, .publish hqos hnotifies, ?_⟩
    rw [← hout]
    exact hfirst.trans hshows
  -- QoS 2: the message waits for its PUBREL
  · rename_i hqos
    obtain ⟨rfl, rfl⟩ := Prod.mk.inj (Except.ok.inj hpacket)
    have hqos : fh.qoS = 2 := not_not.mp hqos
    rw [hqos, publishAnswer, if_neg (by decide), if_pos rfl] at hfirst
    rw [hqos] at hdecodes ⊢
    refine ⟨rfl, _, _, _, hdecodes, .hold, ?_⟩
    have hid : (b₂.heap ref).client_id = (b.heap ref).client_id := by
      rw [hheap, retain_clients]
    -- the id of the client is the one it had when the packet came
    have hheld : Shows b₂ ending [] { b₂ with
        storage := b₂.storage.addQoSTopic (b₂.heap ref).client_id
          (.new 2 vh.packet_id vh.topic_name (some message)) }
        ((serviceOf b₂ ending).hold (b.heap ref).client_id
        ⟨2, vh.packet_id, vh.topic_name, some message⟩) := by
      refine ⟨.of_eq rfl, rfl, hfirst.inv.of_eq rfl rfl rfl rfl, ?_⟩
      rw [serviceOf, stored_addQoSTopic, hid]
      rfl
    rw [hfirst.shows] at hheld
    exact (hfirst.trans hheld).trans (hheld.shows ▸ .record hheld.inv rfl)

/-- A PUBREL is answered by a PUBCOMP, and the message that is held for it is sent on. -/
theorem pubrelHandler_shows (h : ServiceInv b) (htype : fh.getType = PackType.PUBREL.code)
    (hclient : b.clients.lookup fd = some (some ref))
    (hpacket : b.pubrelHandler data fd = .ok (b', err)) :
    ServedAs b ending fd (sessionOf (b.heap ref) (b.subscribed_clients.lookup fd).isSome) fh data b'
      err := by
  rw [pubrelHandler, clientAt_eq hclient] at hpacket
  obtain ⟨packet_id, hread, hpacket⟩ := Except.bind_eq_ok_iff.mp hpacket
  dsimp only [deref] at hpacket
  rw [Except.ok_bind] at hpacket
  obtain ⟨answer, hcreate, hpacket⟩ := Except.bind_eq_ok_iff.mp hpacket
  have hqueued : Shows b ending [(fd, .pubcomp packet_id)] _ _ :=
    .addCommand h fd (createMqttPacket_ack hcreate)
  -- nothing is postponed, so only the PUBCOMP is queued
  rw [hqueued.inv.delQosEvent, hqueued.inv.sendKeptMessage, Except.ok_bind] at hpacket
  have hrecord : Shows (b.addCommand fd answer) ending []
      ((b.addCommand fd answer).record (.pubrel (b.heap ref).client_id packet_id)) _ :=
    .record hqueued.inv rfl
  have hfirst := hqueued.trans hrecord
  split at hpacket
  · rename_i topic htopic
    obtain ⟨⟨b₁, topic'⟩, hnotify, hresult⟩ := Except.bind_eq_ok_iff.mp hpacket
    obtain ⟨rfl, rfl⟩ := Prod.mk.inj (Except.ok.inj hresult)
    obtain ⟨out, S', hnotifies, hshows⟩ := notifyClients_shows ending hfirst.inv hnotify
    have hid : (b₁.heap ref).client_id = (b.heap ref).client_id :=
      (notifyClients_eq_ok hnotify).1.heap_congr (f := Client.client_id) (fun _ => rfl) ref
    -- what is released was not retained
    have htopics : (b₁.storage.delQoSTopic (b₁.heap ref).client_id packet_id).topics =
        b₁.storage.topics := by
      simp only [TopicStorage.delQoSTopic]
      split <;> rfl
    have hrelease : Shows b₁ ending [] { b₁ with
        storage := b₁.storage.delQoSTopic (b₁.heap ref).client_id packet_id }
        (S'.release (b.heap ref).client_id packet_id) := by
      refine ⟨.of_eq rfl, rfl, hshows.inv.of_eq rfl rfl rfl rfl, ?_⟩
      have hretained : (b₁.storage.delQoSTopic (b₁.heap ref).client_id packet_id).getStoredValuePtr =
          b₁.storage.getStoredValuePtr := by
        funext name
        rw [TopicStorage.getStoredValuePtr, TopicStorage.findTopic, htopics]
        rfl
      rw [serviceOf, hretained, stored_delQoSTopic, hid, ← hshows.shows]
      rfl
    have hall := (hfirst.trans hshows).trans hrelease
    rw [List.append_nil] at hall
    exact ⟨rfl, .pubrel packet_id, _, _, ⟨htype, hread⟩, .release htopic hnotifies, hall⟩
  -- there is no message with the packet id: the PUBCOMP is all
  · rename_i htopic
    obtain ⟨rfl, rfl⟩ := Prod.mk.inj (Except.ok.inj hpacket)
    exact ⟨rfl, .pubrel packet_id, _, _, ⟨htype, hread⟩, .unknown htopic, hfirst⟩

end handlers

end Mqtt.Spec
