import MqttBroker.Spec.Framing
import MqttBroker.Spec.ClientIds

/-!
# Fan-out of a topic

`NotifyClients` goes through `subscribed_clients` and changes one topic on the way.
`handOut` says what one subscriber gets, from the broker before the call only; the
loop hands out exactly that, in whatever order it meets the subscribers.
-/

namespace Mqtt.Spec

open Mqtt.Native Mqtt.Native.Broker

/-- The first byte of a PUBLISH packet, with DUP for one that is kept. -/
def publishByte (qos : UInt8) (dup : Bool) : UInt8 :=
  if dup then ((FHBuilder.packetType {} .PUBLISH).withQoS qos).withDup.build else publishFirst qos

/-- The first byte has the two low bits of the options as QoS. -/
theorem qoS_publishByte (options : UInt8) (dup : Bool) (n : Nat) :
    (FixedHeader.mk (publishByte (options &&& 3) dup) n).qoS = options &&& 3 := by
  change (FixedHeader.mk (publishByte (options &&& 3) dup) 0).qoS = options &&& 3
  cases dup with
  | false => exact (qoS_publishFirst _).trans (and_three_and_three options)
  | true =>
    exact forall_byte (p := fun options =>
      (FixedHeader.mk (publishByte (options &&& 3) true) 0).qoS = options &&& 3)
      (by decide +kernel) options

/-- `publishByte` is the first byte of a PUBLISH. -/
theorem getType_publishByte (options : UInt8) (dup : Bool) (n : Nat) :
    (FixedHeader.mk (publishByte (options &&& 3) dup) n).getType = PackType.PUBLISH.code := by
  change (FixedHeader.mk (publishByte (options &&& 3) dup) 0).getType = PackType.PUBLISH.code
  cases dup with
  | false => exact getType_publishFirst options
  | true =>
    exact forall_byte (p := fun options =>
      (FixedHeader.mk (publishByte (options &&& 3) true) 0).getType = PackType.PUBLISH.code)
      (by decide +kernel) options

/-! ## What a subscriber gets -/

/-- A PUBLISH packet for a client: it is queued for the socket, or kept for the client
    behind what is kept for it already. -/
structure HandOut where
  fd : Fd
  client : ClientRef
  client_id : Bytes
  qos : UInt8
  packet_id : UInt16
  kept : Bool
  packet : Bytes

/-- What an entry of `subscribed_clients` gets of a topic. -/
def handOut (b : Broker) (topic : MqttTopic) (message : MqttBinaryDataEntity)
    (it : Fd × ClientRef) : Option HandOut :=
  if b.alive it.2 then
    match (b.heap it.2).checkWildCards topic.name with
    | .ok (true, options) =>
      let c := b.heap it.2
      let qos := options &&& 3
      let packet_id := nextPacketID c qos
      let kept := qos != 0 && b.checkIfMoreMessages c.client_id
      some {
        fd := it.1
        client := it.2
        client_id := c.client_id
        qos
        packet_id
        kept
        packet := packetBytes (publishByte qos kept)
          (encodePublish topic.name packet_id ++ message.data) }
    | _ => none
  else none

namespace HandOut

/-- A packet id of the client is used up. -/
def number (b : Broker) (h : HandOut) : Broker :=
  if h.qos = 0 then b else b.setClient h.client (b.heap h.client).genPacketID.1

/-- The packet is kept or queued. -/
def send (b : Broker) (h : HandOut) : Broker :=
  if h.kept then b.addQosEvent h.client_id ⟨h.packet, h.packet_id⟩ else b.addCommand h.fd h.packet

/-- The broker after a packet has been handed out. -/
def apply (b : Broker) (h : HandOut) : Broker :=
  (h.send (h.number b)).record
    (.publish h.fd h.client ((FixedHeader.mk (h.packet.headD 0) 0).qoS) h.packet_id h.packet)

end HandOut

/-! ## One subscriber -/

/-- A topic with a QoS and a packet id makes a packet, with DUP or without. -/
theorem createPublish_byte {topic : MqttTopic} {message : MqttBinaryDataEntity} {options : UInt8}
    (hdata : topic.data = some message) (hqos : topic.qos = options &&& 3)
    (hid : topic.qos = 0 ↔ topic.id = 0) (dup : Bool) :
    createPublish topic dup = .ok (packetBytes (publishByte topic.qos dup)
      (encodePublish topic.name topic.id ++ message.data)) := by
  have hagree : (FixedHeader.mk (publishByte topic.qos dup) 0).qoS = 0 ↔ topic.id = 0 := by
    rw [hqos, qoS_publishByte, ← hqos]
    exact hid
  have hpacket := @createMqttPacketMessage_eq _ topic.name _ message hagree
  rw [← hdata] at hpacket
  cases dup with
  | false => exact hpacket
  | true => exact hpacket

/-- A topic that makes a packet is kept behind other packets, or queued. -/
theorem sendTopic_of_create {b : Broker} {fd : Fd} {pClient : ClientRef} {topic : MqttTopic}
    {packet : Bytes} {kept : Bool}
    (hkept : (topic.qos != 0 && b.checkIfMoreMessages (b.heap pClient).client_id) = kept)
    (hcreate : createPublish topic kept = .ok packet) :
    b.sendTopic fd pClient topic = .ok
      ((if kept then b.addQosEvent (b.heap pClient).client_id ⟨packet, topic.id⟩
        else b.addCommand fd packet).record
          (.publish fd pClient ((FixedHeader.mk (packet.headD 0) 0).qoS) topic.id packet)) := by
  have hpos : topic.qos > 0 ↔ topic.qos ≠ 0 := UInt8.pos_iff_ne_zero
  unfold sendTopic
  dsimp only
  -- with QoS 0 nothing is kept, else it depends on what waits
  by_cases hqos : topic.qos = 0
  · obtain rfl : false = kept := by simpa [hqos] using hkept
    rw [if_neg (by rw [hpos]; simpa using hqos), hcreate]
    rfl
  · rw [if_pos (hpos.mpr hqos)]
    cases hmore : b.checkIfMoreMessages (b.heap pClient).client_id with
    | false =>
      obtain rfl : false = kept := by simpa [hmore] using hkept
      rw [if_pos (by simp), hcreate]
      rfl
    -- something waits, so the packet is kept
    | true =>
      obtain rfl : true = kept := by rw [← hkept, hmore]; simpa using hqos
      rw [if_neg (by simp), hcreate]
      rfl

/-- `assignPacketID` counts one id further unless the QoS is 0. -/
theorem assignPacketID_broker (b : Broker) (pClient : ClientRef) (topic : MqttTopic) :
    (b.assignPacketID pClient topic).1 =
      if topic.qos = 0 then b else b.setClient pClient (b.heap pClient).genPacketID.1 := by
  unfold assignPacketID
  split <;> rfl

/-- The loop body hands out what the broker it meets says. A packet id is asked for only where
    the options that match have a QoS. -/
theorem notifySubscriber_handOut {b : Broker} {topic : MqttTopic}
    {message : MqttBinaryDataEntity} {it : Fd × ClientRef} (hdata : topic.data = some message)
    (hmatch : b.alive it.2 → ∃ r, (b.heap it.2).checkWildCards topic.name = .ok r)
    (hcounter : b.alive it.2 → ∀ options,
      (b.heap it.2).checkWildCards topic.name = .ok (true, options) → options &&& 3 ≠ 0 →
      (b.heap it.2).packet_id_gen ≠ 0) :
    ∃ topic', b.notifySubscriber topic it.1 it.2 =
        .ok ((handOut b topic message it).elim b (HandOut.apply b), topic') ∧
      topic'.name = topic.name ∧ topic'.data = topic.data := by
  unfold notifySubscriber handOut
  by_cases halive : b.alive it.2
  · obtain ⟨⟨found, options⟩, hmatch⟩ := hmatch halive
    rw [if_neg (by simp [halive]), if_pos halive, hmatch, Except.ok_bind]
    cases found with
    -- no filter takes the name
    | false => exact ⟨topic, rfl, rfl, rfl⟩
    | true =>
      have hgen := hcounter halive options hmatch
      -- the topic that is sent, whatever an earlier subscriber has left in it
      generalize hsnd : (b.assignPacketID it.2 (topic.setQos (options &&& 3))).2 = sent
      have hsent := (assignPacketID_topic b it.2 (topic.setQos (options &&& 3))).symm.trans hsnd
      have hqos : sent.qos = options &&& 3 := by rw [← hsent]; rfl
      have hid : sent.id = nextPacketID (b.heap it.2) (options &&& 3) := by rw [← hsent]; rfl
      have hname : sent.name = topic.name := by rw [← hsent]; rfl
      have hdata' : sent.data = some message := by rw [← hsent]; exact hdata
      have hagree : sent.qos = 0 ↔ sent.id = 0 := by
        rw [hqos, hid, nextPacketID]
        by_cases hzero : options &&& 3 = 0
        · simp [hzero]
        · simp [hzero, hgen hzero]
      -- its client, numbered or not, has the same packets kept
      have hqueue := assignPacketID_queue b it.2 (topic.setQos (options &&& 3))
      have hid_eq : ((b.assignPacketID it.2 (topic.setQos (options &&& 3))).1.heap it.2).client_id
          = (b.heap it.2).client_id := (does_assignPacketID b it.2 _).client_id_eq it.2
      have hsend := @sendTopic_of_create _ it.1 it.2 sent _
        (options &&& 3 != 0 && b.checkIfMoreMessages (b.heap it.2).client_id)
        (by rw [hqueue, hqos]) (createPublish_byte hdata' hqos hagree _)
      refine ⟨sent, ?_, hname, hdata'.trans hdata.symm⟩
      dsimp only
      rw [if_pos rfl, hsnd, hsend, hid_eq, assignPacketID_broker, hqos, hid, hname]
      rfl
  · rw [if_pos (by simpa using halive), if_neg halive]
    exact ⟨topic, rfl, rfl, rfl⟩

/-! ## What a packet is -/

/-- A packet is a PUBLISH that decodes to a topic name, a packet id and a payload, with
    a QoS. -/
def DecodesTo (packet name : Bytes) (packet_id : UInt16) (message : MqttBinaryDataEntity)
    (qos : UInt8) : Prop :=
  ∃ f_head rest, readFixedHeader packet = .ok (f_head, rest) ∧
    f_head.getType = PackType.PUBLISH.code ∧ f_head.qoS = qos ∧
    handleMqttPublish f_head rest = .ok (⟨name, packet_id, OrderedSet.empty⟩, message)

/-- What an entry of `subscribed_clients` gets: its client's options say the QoS, and
    the counter of the client is the packet id. -/
structure Gets (b : Broker) (topic : MqttTopic) (message : MqttBinaryDataEntity)
    (it : Fd × ClientRef) (h : HandOut) : Prop where
  fd : h.fd = it.1
  client : h.client = it.2
  client_id : h.client_id = (b.heap it.2).client_id
  qos : ∃ options, (b.heap it.2).checkWildCards topic.name = .ok (true, options) ∧
    h.qos = options &&& 3
  packet_id : h.packet_id = if h.qos = 0 then 0 else (b.heap it.2).packet_id_gen
  kept : h.kept = true ↔ h.qos ≠ 0 ∧ b.checkIfMoreMessages h.client_id = true
  decodes : DecodesTo h.packet topic.name h.packet_id message h.qos

/-- An entry gets something exactly when its client is alive and has the topic. -/
theorem handOut_isSome_iff (b : Broker) (topic : MqttTopic) (message : MqttBinaryDataEntity)
    (it : Fd × ClientRef) : (handOut b topic message it).isSome ↔
      b.alive it.2 ∧ ∃ options, (b.heap it.2).checkWildCards topic.name = .ok (true, options) := by
  unfold handOut
  by_cases halive : b.alive it.2
  · rw [if_pos halive]
    cases hmatch : (b.heap it.2).checkWildCards topic.name with
    | error e => simp
    | ok r =>
      obtain ⟨found, options⟩ := r
      cases found <;> simp [halive]
  · rw [if_neg halive]
    simp [halive]

/-- A PUBLISH is short enough for a remaining length. -/
theorem length_encodePublish_lt {name : Bytes} (hname : name.length ≤ 65535) (packet_id : UInt16)
    (message : MqttBinaryDataEntity) :
    (encodePublish name packet_id ++ message.data).length < 2 ^ 28 := by
  have hmessage := message.size_lt
  have hstring := length_encodeString name
  rw [MqttStringEntity.size] at hstring
  by_cases hzero : packet_id = 0 <;> simp [encodePublish, hzero, hstring] <;> omega

/-- What is handed out to an entry is a packet with the topic, read back by the reader. -/
theorem handOut_gets {b : Broker} {topic : MqttTopic} {message : MqttBinaryDataEntity}
    {it : Fd × ClientRef} {h : HandOut} (hname : topic.name.length ≤ 65535)
    (hcounter : b.alive it.2 → (b.heap it.2).packet_id_gen ≠ 0)
    (hout : handOut b topic message it = some h) : Gets b topic message it h := by
  unfold handOut at hout
  split at hout
  · rename_i halive
    split at hout
    · rename_i options hmatch
      have hgen := hcounter halive
      obtain rfl := Option.some.inj hout
      refine ⟨rfl, rfl, rfl, ⟨options, hmatch, rfl⟩, rfl, ?_, ?_⟩
      · simp
      · refine ⟨_, _, readFixedHeader_packetBytes (length_encodePublish_lt hname _ message) _,
          getType_publishByte options _ _, qoS_publishByte options _ _,
          handleMqttPublish_encodePublish hname ?_ rfl rfl⟩
        rw [qoS_publishByte, nextPacketID]
        -- with QoS 0 there is no id, else the next one of the client
        by_cases hzero : options &&& 3 = 0
        · simp [hzero]
        · simp [hzero, hgen]
    · -- a client without a filter for the name gets nothing
      simp at hout
  · simp at hout

/-! ## One after the other -/

/-- What an entry gets is the same in two brokers. -/
structure SameFor (b₀ b : Broker) (it : Fd × ClientRef) : Prop where
  alive : b.alive it.2 = b₀.alive it.2
  heap : b₀.alive it.2 → b.heap it.2 = b₀.heap it.2
  queue : ∀ client_id, b.checkIfMoreMessages client_id = b₀.checkIfMoreMessages client_id

/-- What an entry gets is decided by its own client and the name of the topic. -/
theorem handOut_congr {b₀ b : Broker} {topic₀ topic : MqttTopic} {message : MqttBinaryDataEntity}
    {it : Fd × ClientRef} (h : SameFor b₀ b it) (hname : topic.name = topic₀.name) :
    handOut b topic message it = handOut b₀ topic₀ message it := by
  unfold handOut
  rw [h.alive]
  by_cases halive : b₀.alive it.2
  · rw [if_pos halive, if_pos halive, h.heap halive, hname]
    simp only [h.queue]
  · rw [if_neg halive, if_neg halive]

/-- Behind packets that wait another one changes nothing about who waits. -/
theorem checkIfMoreMessages_addQosEvent {b : Broker} {client_id : Bytes}
    (h : b.checkIfMoreMessages client_id = true) (packet : PostponedPacket) (client_id' : Bytes) :
    (b.addQosEvent client_id packet).checkIfMoreMessages client_id' =
      b.checkIfMoreMessages client_id' := by
  by_cases hid : client_id' = client_id
  · rw [hid, h, checkIfMoreMessages, addQosEvent]
    simp
  · simp only [checkIfMoreMessages, addQosEvent, AList.lookup_insert_ne hid]

namespace HandOut

variable (b : Broker) (h : HandOut)

/-- Handing out changes the counter of one client. -/
theorem apply_heap : (h.apply b).heap = (h.number b).heap := by
  unfold apply send
  split <;> rfl

/-- Handing out changes no connection. -/
theorem apply_clients : (h.apply b).clients = b.clients := by
  unfold apply send number
  split <;> split <;> rfl

/-- Handing out changes no subscriber. -/
theorem apply_subscribed_clients : (h.apply b).subscribed_clients = b.subscribed_clients := by
  unfold apply send number
  split <;> split <;> rfl

/-- Handing out ends no client. -/
theorem apply_alive (ref : ClientRef) : (h.apply b).alive ref = b.alive ref := by
  rw [alive, alive, apply_clients]

/-- Handing out leaves the other clients alone. -/
theorem apply_heap_ne {ref : ClientRef} (href : ref ≠ h.client) :
    (h.apply b).heap ref = b.heap ref := by
  rw [apply_heap, number]
  split
  · rfl
  · exact heap_setClient_ne href

/-- With QoS above 0 the client counts one id further. -/
theorem apply_heap_self (hqos : h.qos ≠ 0) :
    (h.apply b).heap h.client = (b.heap h.client).genPacketID.1 := by
  rw [apply_heap, number, if_neg hqos, heap_setClient_self]

/-- With QoS 0 no client changes. -/
theorem apply_heap_of_qos (hqos : h.qos = 0) : (h.apply b).heap = b.heap := by
  rw [apply_heap, number, if_pos hqos]

/-- A packet that is not kept is queued. -/
theorem apply_commands : (h.apply b).commands =
    b.commands ++ if h.kept then [] else [⟨h.fd, h.packet⟩] := by
  have hnumber : (h.number b).commands = b.commands := by
    unfold number
    split <;> rfl
  unfold apply send
  split
  · exact hnumber.trans (List.append_nil _).symm
  · exact congrArg (· ++ _) hnumber

/-- A packet that is kept waits behind the others. -/
theorem apply_postponed_events : (h.apply b).postponed_events =
    if h.kept then (b.addQosEvent h.client_id ⟨h.packet, h.packet_id⟩).postponed_events
    else b.postponed_events := by
  unfold apply send number
  split <;> split <;> rfl

/-- Handing out does not change for whom packets wait. -/
theorem apply_queue (hkept : h.kept → b.checkIfMoreMessages h.client_id) (client_id : Bytes) :
    (h.apply b).checkIfMoreMessages client_id = b.checkIfMoreMessages client_id := by
  rw [checkIfMoreMessages, apply_postponed_events]
  by_cases hk : h.kept
  · rw [if_pos hk]
    exact checkIfMoreMessages_addQosEvent (hkept hk) _ client_id
  · rw [if_neg hk]
    rfl

/-- Nothing but clients, commands, postponed packets and the record changes. -/
theorem apply_others (heap : ClientRef → Client) (commands : List FdWriteCommand)
    (postponed_events : UnorderedMap Bytes (List PostponedPacket)) (calls : List Call) :
    { h.apply b with heap, commands, postponed_events, calls } =
      { b with heap, commands, postponed_events, calls } := by
  unfold apply send number
  split <;> split <;> rfl

end HandOut

/-- What is handed out to an entry is for its client, which is alive. -/
theorem handOut_fields {b : Broker} {topic : MqttTopic} {message : MqttBinaryDataEntity}
    {it : Fd × ClientRef} {h : HandOut} (hout : handOut b topic message it = some h) :
    b.alive it.2 ∧ h.client = it.2 ∧ (h.kept → b.checkIfMoreMessages h.client_id) := by
  have halive := ((handOut_isSome_iff b topic message it).mp (by rw [hout]; rfl)).1
  rw [handOut, if_pos halive] at hout
  split at hout
  · obtain rfl := Option.some.inj hout
    refine ⟨halive, rfl, fun hkept => ?_⟩
    simp only [Bool.and_eq_true] at hkept
    exact hkept.2
  · simp at hout

/-- Entries of different clients that are alive. -/
def Distinct (b : Broker) (it it' : Fd × ClientRef) : Prop := b.alive it.2 → it'.2 ≠ it.2

/-- What one entry gets is nothing to the entries of other clients. -/
theorem SameFor.apply {b₀ b : Broker} {topic : MqttTopic} {message : MqttBinaryDataEntity}
    {it it' : Fd × ClientRef} {h : HandOut} (hsame : SameFor b₀ b it')
    (hdistinct : Distinct b₀ it it') (hout : handOut b₀ topic message it = some h) :
    SameFor b₀ (h.apply b) it' := by
  obtain ⟨halive, hclient, hkept⟩ := handOut_fields hout
  constructor
  · rw [HandOut.apply_alive, hsame.alive]
  · intro halive'
    rw [HandOut.apply_heap_ne b h (by rw [hclient]; exact hdistinct halive), hsame.heap halive']
  · intro client_id
    rw [HandOut.apply_queue b h (fun hk => by rw [hsame.queue]; exact hkept hk), hsame.queue]

/-- The loop hands out to each entry what the broker before the loop says. -/
theorem notifySubscribers_handOut {b₀ : Broker} {topic₀ : MqttTopic}
    {message : MqttBinaryDataEntity} (its : List (Fd × ClientRef)) :
    ∀ (b : Broker) (topic : MqttTopic), topic.name = topic₀.name → topic.data = some message →
      (∀ it ∈ its, SameFor b₀ b it) → its.Pairwise (Distinct b₀) →
      (∀ it ∈ its, b₀.alive it.2 → ∃ r, (b₀.heap it.2).checkWildCards topic₀.name = .ok r) →
      (∀ it ∈ its, b₀.alive it.2 → ∀ options,
        (b₀.heap it.2).checkWildCards topic₀.name = .ok (true, options) → options &&& 3 ≠ 0 →
        (b₀.heap it.2).packet_id_gen ≠ 0) →
      ∃ topic', notifySubscribers topic its b =
        .ok ((its.filterMap (handOut b₀ topic₀ message)).foldl HandOut.apply b, topic') := by
  -- Induction on the entries
  induction its with
  | nil => exact fun b topic _ _ _ _ _ _ => ⟨topic, rfl⟩
  | cons it rest ih =>
    intro b topic hname hdata hsame hdistinct hmatch hcounter
    have hit := hsame it (.head _)
    obtain ⟨hfirst, hrest⟩ := List.pairwise_cons.mp hdistinct
    obtain ⟨topic', hnotify, hname', hdata'⟩ := @notifySubscriber_handOut b topic message it hdata
      (fun halive => by
        rw [hit.alive] at halive
        rw [hit.heap halive, hname]
        exact hmatch it (.head _) halive)
      (fun halive => by
        rw [hit.alive] at halive
        rw [hit.heap halive, hname]
        exact hcounter it (.head _) halive)
    rw [handOut_congr hit hname] at hnotify
    rw [notifySubscribers, hnotify, Except.ok_bind]
    dsimp only
    -- what an entry gets changes nothing that the entries behind it look at
    have hsame' : ∀ it' ∈ rest, SameFor b₀
        ((handOut b₀ topic₀ message it).elim b (HandOut.apply b)) it' := by
      intro it' hmem
      have hsame' := hsame it' (.tail _ hmem)
      cases hout : handOut b₀ topic₀ message it with
      | none => exact hsame'
      | some h => exact hsame'.apply (hfirst it' hmem) hout
    obtain ⟨topic'', hrun⟩ := ih _ topic' (hname'.trans hname) (hdata'.trans hdata) hsame' hrest
      (fun it' hmem => hmatch it' (.tail _ hmem)) (fun it' hmem => hcounter it' (.tail _ hmem))
    refine ⟨topic'', hrun.trans ?_⟩
    cases hout : handOut b₀ topic₀ message it with
    | none => rw [List.filterMap_cons_none hout]; rfl
    | some h => rw [List.filterMap_cons_some hout]; rfl

/-! ## The outcome -/

/-- The packets kept for a client id. -/
def keptFor (b : Broker) (client_id : Bytes) : List PostponedPacket :=
  (b.postponed_events.lookup client_id).getD []

/-- Packets have been handed out: each one is queued for its socket or kept for its
    client, and uses up a packet id unless its QoS is 0. -/
structure FansOut (b b' : Broker) (hs : List HandOut) : Prop where
  commands : b'.commands = b.commands ++
    (hs.filter fun h => !h.kept).map fun h => ⟨h.fd, h.packet⟩
  kept : ∀ client_id, keptFor b' client_id = keptFor b client_id ++
    (hs.filter fun h => h.kept && h.client_id = client_id).map fun h => ⟨h.packet, h.packet_id⟩
  numbered : ∀ h ∈ hs, h.qos ≠ 0 → b'.heap h.client = (b.heap h.client).genPacketID.1
  clients : ∀ ref, (∀ h ∈ hs, h.client = ref → h.qos = 0) → b'.heap ref = b.heap ref
  others : b' = { b with
    heap := b'.heap
    commands := b'.commands
    postponed_events := b'.postponed_events
    calls := b'.calls }

/-- What is kept for an id, behind one packet. -/
theorem HandOut.apply_keptFor (b : Broker) (h : HandOut) (client_id : Bytes) :
    keptFor (h.apply b) client_id = keptFor b client_id ++
      if h.kept && h.client_id = client_id then [⟨h.packet, h.packet_id⟩] else [] := by
  rw [keptFor, HandOut.apply_postponed_events]
  by_cases hk : h.kept
  · rw [if_pos hk, hk, Bool.true_and, addQosEvent]
    by_cases hid : client_id = h.client_id
    · subst hid
      simp [keptFor]
    · simp [keptFor, hid, Ne.symm hid]
  · rw [if_neg hk, Bool.eq_false_iff.mpr hk]
    simp [keptFor]

/-- Packets for different clients, one after the other. -/
theorem fansOut_foldl (hs : List HandOut) : ∀ b : Broker,
    hs.Pairwise (fun h h' => h'.client ≠ h.client) → FansOut b (hs.foldl HandOut.apply b) hs := by
  -- Induction on the packets; each client gets one at most
  induction hs with
  | nil =>
    intro b _
    refine ⟨(List.append_nil _).symm, fun _ => (List.append_nil _).symm, ?_, fun _ _ => rfl, rfl⟩
    intro h hmem
    simp at hmem
  | cons h rest ih =>
    intro b hdistinct
    obtain ⟨hfirst, hrest⟩ := List.pairwise_cons.mp hdistinct
    have hfans := ih (h.apply b) hrest
    constructor
    · rw [List.foldl_cons, hfans.commands, HandOut.apply_commands, List.append_assoc]
      cases hk : h.kept <;> simp [hk]
    · intro client_id
      rw [List.foldl_cons, hfans.kept, HandOut.apply_keptFor, List.append_assoc]
      cases hk : h.kept && decide (h.client_id = client_id) <;> simp [hk]
    · intro h' hmem hqos
      rw [List.foldl_cons]
      obtain rfl | hmem := List.mem_cons.mp hmem
      · -- no later packet is for this client
        rw [hfans.clients _ fun h'' hmem'' heq => absurd heq (hfirst h'' hmem''),
          HandOut.apply_heap_self b h' hqos]
      · rw [hfans.numbered h' hmem hqos, HandOut.apply_heap_ne b h (hfirst h' hmem)]
    · intro ref hnone
      rw [List.foldl_cons, hfans.clients ref fun h' hmem => hnone h' (.tail _ hmem)]
      -- a client that is not numbered keeps its counter
      by_cases href : ref = h.client
      · rw [HandOut.apply_heap_of_qos b h (hnone h (.head _) href.symm)]
      · exact HandOut.apply_heap_ne b h href
    · rw [List.foldl_cons]
      exact hfans.others.trans (HandOut.apply_others b h _ _ _ _)

/-- No two entries of `subscribed_clients` refer to the same client. -/
def OneEach (b : Broker) : Prop :=
  ∀ fd fd' ref, b.subscribed_clients.lookup fd = some ref →
    b.subscribed_clients.lookup fd' = some ref → b.alive ref → fd = fd'

/-- In whatever order, no two entries are for one client. -/
theorem OneEach.pairwise {b : Broker} (h : OneEach b) {m : UnorderedMap Fd ClientRef}
    (hm : UnorderedMap.Reordered b.subscribed_clients m) : m.toList.Pairwise (Distinct b) := by
  have hnodup := List.pairwise_map.mp (UnorderedMap.nodup_toList m)
  refine hnodup.imp_of_mem fun {it it'} hmem hmem' hne halive heq => hne ?_
  have hlookup : ∀ {it}, it ∈ m.toList → b.subscribed_clients.lookup it.1 = some it.2 :=
    fun hmem => by rwa [UnorderedMap.lookup_eq_of_reordered hm, ← UnorderedMap.mem_toList_iff]
  exact h it.1 it'.1 it.2 (hlookup hmem) (heq ▸ hlookup hmem') halive

/-! ## The subscribers of a run -/

/-- Who is subscribed under a socket is its client. -/
def SubscribersConnected (b : Broker) : Prop :=
  ∀ fd ref, b.subscribed_clients.lookup fd = some ref → b.clients.lookup fd = some (some ref)

/-- Subscribers that are connected have one entry each. -/
theorem SubscribersConnected.oneEach {b : Broker} (h : SubscribersConnected b)
    (hown : OwnClients b) : OneEach b :=
  fun fd fd' ref hfd hfd' _ => hown.inj (h fd ref hfd) (h fd' ref hfd')

/-- Only the two maps matter. -/
theorem SubscribersConnected.of_eq {b b' : Broker} (h : SubscribersConnected b)
    (hsubscribed : b'.subscribed_clients = b.subscribed_clients)
    (hclients : b'.clients = b.clients) : SubscribersConnected b' := by
  intro fd ref hfd
  rw [hsubscribed] at hfd
  rw [hclients]
  exact h fd ref hfd

/-- Operations of connected clients keep every subscriber connected. -/
theorem SubscribersConnected.does {b b' : Broker} (h : SubscribersConnected b)
    (hdoes : Does (FromClients b) b b') : SubscribersConnected b' := by
  induction hdoes with
  | refl => exact h
  | @snoc b₁ op hdoes hop hen ih =>
    have hclients : (op.apply b₁).clients = b₁.clients := (Does.one op hop hen).clients_eq
    -- only `addSubscribedClient` writes to the map, and for a client of the connection
    by_cases hwrites : op.Writes .subscribed_clients
    · cases op with
      | addSubscribedClient sock ref =>
        intro fd ref' hfd
        rw [hclients, hdoes.clients_eq]
        by_cases hsock : fd = sock
        · subst hsock
          rw [Op.apply, addSubscribedClient, UnorderedMap.lookup_insertNew_self] at hfd
          cases hold : b₁.subscribed_clients.lookup fd with
          | none =>
            rw [hold] at hfd
            -- the entry is the one that is added now
            obtain rfl : ref = ref' := Option.some.inj hfd
            exact hop
          | some old =>
            rw [hold] at hfd
            obtain rfl : old = ref' := Option.some.inj hfd
            rw [← hdoes.clients_eq]
            exact ih fd old hold
        · rw [Op.apply, addSubscribedClient, UnorderedMap.lookup_insertNew_ne hsock] at hfd
          rw [← hdoes.clients_eq]
          exact ih fd ref' hfd
      | _ => simp [Op.Writes] at hwrites
    · exact ih.of_eq (Op.same hwrites) hclients

/-- A connection that is closed is a subscriber no more. -/
theorem SubscribersConnected.closeConnection {b : Broker} (h : SubscribersConnected b) (it : Fd) :
    SubscribersConnected (b.closeConnection it) := by
  intro fd ref hfd
  simp only [Broker.closeConnection, delClient] at hfd ⊢
  by_cases hit : fd = it
  · rw [hit, AList.lookup_erase] at hfd
    simp at hfd
  · rw [AList.lookup_erase_ne hit] at hfd ⊢
    exact h fd ref hfd

/-- Editing a client keeps every subscriber connected. -/
theorem SubscribersConnected.edits {b b' : Broker} {pClient : ClientRef}
    (h : SubscribersConnected b) (hedits : Edits pClient b b') : SubscribersConnected b' :=
  h.of_eq (by rw [hedits.eq_heap]) hedits.clients

/-- A CONNECT keeps every subscriber connected, a takeover included. -/
theorem SubscribersConnected.connect {b b' : Broker} {pClient : ClientRef} {data random : Bytes}
    {err : MqttErr} (h : SubscribersConnected b)
    (heffect : ConnectEffect b pClient data random b' err) : SubscribersConnected b' := by
  cases heffect with
  | refused _ hedits => exact h.edits hedits
  | identified _ hedits _ hidentified hedits' =>
    have hbefore := h.edits hedits
    refine SubscribersConnected.edits ?_ hedits'
    cases hidentified with
    | unused | generated => exact hbefore.of_eq rfl rfl
    | takenOver => exact (hbefore.closeConnection _).of_eq rfl rfl

/-- Every core of a step leaves the subscribers connected. -/
theorem SubscribersConnected.core {s : ServerThread} {e : SystemEvent} {b b' : Broker}
    (h : SubscribersConnected b) (hclients : b.clients = s.broker.clients)
    (hcore : Core s e b b') : SubscribersConnected b' := by
  cases hcore with
  | refl | setState | execute => exact h.of_eq rfl rfl
  | connect _ _ hclient _ hconnect =>
    obtain ⟨b₁, heffect, hdoes⟩ := connectHandler_effect (hclients ▸ hclient) hconnect
    -- the answer to the CONNECT concerns neither map
    refine (h.connect heffect).does (hdoes.mono fun op hop => ?_)
    obtain ⟨answer, rfl⟩ := hop
    trivial
  | close => exact h.closeConnection _
  -- the socket is new, or its entry stays
  | @addClient sock ip now he =>
    intro fd ref hfd
    have hold := h fd ref hfd
    simp only [Broker.addClient, setClient]
    by_cases hsock : fd = sock
    · rw [hsock, UnorderedMap.lookup_insertNew_self, ← hsock, hold]
      rfl
    · rw [UnorderedMap.lookup_insertNew_ne hsock]
      exact hold
  | rehash hb =>
    intro fd ref hfd
    rw [← UnorderedMap.lookup_eq_of_reordered hb.subscribed_clients] at hfd
    rw [← UnorderedMap.lookup_eq_of_reordered hb.clients]
    exact h fd ref hfd

/-- In every run a subscriber is the client connected at its socket. -/
theorem subscribersConnected_of_reachable {s : ServerThread} (h : system.Reachable s) :
    SubscribersConnected s.broker := by
  refine h.invariant (P := fun s => SubscribersConnected s.broker) ?_ ?_
  · rintro _ ⟨control_sock, rfl⟩
    intro fd ref hfd
    simp at hfd
  · intro s e t hs hstep
    obtain ⟨b₁, b₂, hd₁, hcore, hd₂⟩ := system_steps hstep
    exact ((hs.does hd₁).core hd₁.clients_eq hcore).does hd₂

/-- No client is subscribed under two sockets, in any run. -/
theorem oneEach_of_reachable {s : ServerThread} (h : system.Reachable s) : OneEach s.broker :=
  (subscribersConnected_of_reachable h).oneEach (ownClients_of_reachable h)

/-! ## Fan-out -/

/-- Every entry of `subscribed_clients` whose client is alive and has the topic gets one
    PUBLISH, and no other does. What it gets depends on the broker before the call only:
    for every order of the entries the call hands out just that. -/
theorem notifyClients_fans_out {b : Broker} {topic : MqttTopic} {message : MqttBinaryDataEntity}
    (released : Option (Bytes × UInt16)) (hdata : topic.data = some message)
    (hname : topic.name.length ≤ 65535) (hone : OneEach b)
    (hmatch : ∀ fd ref, b.subscribed_clients.lookup fd = some ref → b.alive ref →
      ∃ r, (b.heap ref).checkWildCards topic.name = .ok r)
    (hcounter : ∀ fd ref, b.subscribed_clients.lookup fd = some ref → b.alive ref →
      (b.heap ref).packet_id_gen ≠ 0) :
    (∀ it ∈ b.subscribed_clients.toList,
      ((handOut b topic message it).isSome ↔ b.alive it.2 ∧
        ∃ options, (b.heap it.2).checkWildCards topic.name = .ok (true, options)) ∧
      ∀ h, handOut b topic message it = some h → Gets b topic message it h) ∧
    ∀ m, UnorderedMap.Reordered b.subscribed_clients m → ∃ b' topic',
      { b with subscribed_clients := m }.notifyClients topic released = .ok (b', topic') ∧
      FansOut { b with subscribed_clients := m } b'
        (m.toList.filterMap (handOut b topic message)) := by
  have hlookup : ∀ {it}, it ∈ b.subscribed_clients.toList →
      b.subscribed_clients.lookup it.1 = some it.2 := fun hmem => UnorderedMap.mem_toList_iff.mp hmem
  refine ⟨fun it hmem => ⟨handOut_isSome_iff b topic message it, fun h hout =>
    handOut_gets hname (hcounter _ _ (hlookup hmem)) hout⟩, fun m hm => ?_⟩
  have hmem : ∀ {it}, it ∈ m.toList → it ∈ b.subscribed_clients.toList := fun hmem =>
    (UnorderedMap.mem_toList_of_reordered hm).mpr hmem
  -- no client has two entries, in whatever order these are
  have hdistinct := hone.pairwise hm
  obtain ⟨topic', hrun⟩ := @notifySubscribers_handOut b topic message m.toList
    ({ b with subscribed_clients := m }.record (.notifyClients released topic)) topic rfl hdata
    (fun it _ => ⟨rfl, fun _ => rfl, fun _ => rfl⟩) hdistinct
    (fun it h => hmatch _ _ (hlookup (hmem h)))
    (fun it h halive _ _ _ => hcounter _ _ (hlookup (hmem h)) halive)
  refine ⟨_, topic', hrun, ?_⟩
  have hfans := fansOut_foldl (m.toList.filterMap (handOut b topic message))
    ({ b with subscribed_clients := m }.record (.notifyClients released topic)) ?_
  · exact ⟨hfans.commands, hfans.kept, hfans.numbered, hfans.clients, hfans.others⟩
  · rw [List.pairwise_filterMap]
    -- two packets are for two clients
    refine hdistinct.imp fun {it it'} hd h hout h' hout' => ?_
    obtain ⟨halive, hclient, -⟩ := handOut_fields hout
    rw [hclient, (handOut_fields hout').2.1]
    exact hd halive

/-- The client `a` on socket 5 has subscribed to `t` with QoS 1, and a packet is kept for
    it; the client `b` on socket 6 has subscribed to `+` with QoS 0. -/
def twoSubscribers : Broker where
  heap ref := if ref = 0 then
      { ip := [], time_last_packet := 0, client_id := [0x61], packet_id_gen := 9,
        subscribed_topics := AList.insert [0x74] 1 ∅ }
    else
      { ip := [], time_last_packet := 0, client_id := [0x62],
        subscribed_topics := AList.insert [0x2B] 0 ∅ }
  next_ref := 2
  clients := AList.insert 6 (some 1) (AList.insert 5 (some 0) ∅)
  subscribed_clients := AList.insert 6 1 (AList.insert 5 0 ∅)
  current_clients := 2
  postponed_events := AList.insert [0x61] [⟨[0x32, 0x00], 8⟩] ∅

/-- The two subscribers. -/
theorem subscriber_of_two {fd : Fd} {ref : ClientRef}
    (h : twoSubscribers.subscribed_clients.lookup fd = some ref) :
    fd = 5 ∧ ref = 0 ∨ fd = 6 ∧ ref = 1 := by
  have hmem := UnorderedMap.mem_toList_iff.mpr h
  have hlist : twoSubscribers.subscribed_clients.toList = [(6, 1), (5, 0)] := by decide
  rw [hlist] at hmem
  simp only [List.mem_cons, Prod.mk.injEq, List.not_mem_nil, or_false] at hmem
  exact hmem.symm

/-- Both get the topic `t`, in whatever order. -/
theorem notifyClients_fans_out_two :
    let topic := MqttTopic.new 0 0 [0x74] (some ⟨[0x78], by decide⟩)
    ((handOut twoSubscribers topic ⟨[0x78], by decide⟩ (5, 0)).map fun h =>
      (h.qos, h.packet_id, h.kept)) = some (1, 9, true) ∧
    ∀ m, UnorderedMap.Reordered twoSubscribers.subscribed_clients m → ∃ b' topic',
      { twoSubscribers with subscribed_clients := m }.notifyClients topic none =
        .ok (b', topic') ∧
      FansOut { twoSubscribers with subscribed_clients := m } b'
        (m.toList.filterMap (handOut twoSubscribers topic ⟨[0x78], by decide⟩)) := by
  intro topic
  refine ⟨by decide +kernel, ?_⟩
  -- the two entries are for two clients
  have hone : OneEach twoSubscribers := by
    intro fd fd' ref hfd hfd' _
    obtain ⟨rfl, rfl⟩ | ⟨rfl, rfl⟩ := subscriber_of_two hfd
    · obtain ⟨rfl, -⟩ | ⟨-, href⟩ := subscriber_of_two hfd'
      · rfl
      · simp at href
    · obtain ⟨-, href⟩ | ⟨rfl, -⟩ := subscriber_of_two hfd'
      · simp at href
      · rfl
  refine (@notifyClients_fans_out twoSubscribers topic ⟨[0x78], by decide⟩ none rfl (by decide)
    hone ?_ ?_).2
  · intro fd ref hfd _
    obtain ⟨-, rfl⟩ | ⟨-, rfl⟩ := subscriber_of_two hfd
    · exact ⟨(true, 1), by decide +kernel⟩
    · exact ⟨(true, 0), by decide +kernel⟩
  · intro fd ref hfd _
    obtain ⟨-, rfl⟩ | ⟨-, rfl⟩ := subscriber_of_two hfd
    · decide
    · decide

end Mqtt.Spec
