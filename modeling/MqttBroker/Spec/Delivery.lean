import MqttBroker.Native.Handlers
import MqttBroker.Spec.Packets

/-!
# Live and retained delivery

A topic reaches a subscriber on two paths: `NotifyClients` masks the QoS out of
the recorded options, the loop over the retained topics takes the whole options
byte for the QoS. The packets are the same exactly for the options whose other
bits do not get into the first byte.
-/

namespace Mqtt.Spec

open Mqtt.Native Mqtt.Native.Broker

/-- The first byte of a PUBLISH packet. -/
def publishFirst (qos : UInt8) : UInt8 := ((FHBuilder.packetType {} .PUBLISH).withQoS qos).build

/-- A statement about all bytes is a statement about the numbers below 256. -/
theorem forall_byte {p : UInt8 → Prop} (h : ∀ i : Fin 256, p (UInt8.ofNat i.val)) (b : UInt8) :
    p b := by
  have hb := h ⟨b.toNat, b.toNat_lt⟩
  rwa [UInt8.ofNat_toNat] at hb

/-- The first byte that `NotifyClient` writes has the two low bits of the QoS. -/
theorem qoS_publishFirst (qos : UInt8) :
    (FixedHeader.mk (publishFirst qos) 0).qoS = qos &&& 3 :=
  forall_byte (p := fun qos => (FixedHeader.mk (publishFirst qos) 0).qoS = qos &&& 3)
    (by decide +kernel) qos

/-- With these two bits alone it is the first byte of a PUBLISH. -/
theorem getType_publishFirst (qos : UInt8) :
    (FixedHeader.mk (publishFirst (qos &&& 3)) 0).getType = PackType.PUBLISH.code :=
  forall_byte (p := fun qos =>
    (FixedHeader.mk (publishFirst (qos &&& 3)) 0).getType = PackType.PUBLISH.code)
    (by decide +kernel) qos

/-- The other bits of the options change the first byte unless they are clear. -/
theorem publishFirst_eq_iff (options : UInt8) :
    publishFirst options = publishFirst (options &&& 3) ↔ options &&& 0x64 = 0 :=
  forall_byte (p := fun options =>
    publishFirst options = publishFirst (options &&& 3) ↔ options &&& 0x64 = 0)
    (by decide +kernel) options

/-- The two low bits of the two low bits. -/
theorem and_three_and_three (options : UInt8) : options &&& 3 &&& 3 = options &&& 3 :=
  forall_byte (p := fun options => options &&& 3 &&& 3 = options &&& 3) (by decide +kernel) options

/-- A topic with agreeing QoS and packet id makes a packet. -/
theorem createPublish_eq {topic : MqttTopic} {message : MqttBinaryDataEntity}
    (hdata : topic.data = some message) (h : topic.qos &&& 3 = 0 ↔ topic.id = 0) :
    createPublish topic false = .ok (packetBytes (publishFirst topic.qos)
      (encodePublish topic.name topic.id ++ message.data)) := by
  rw [← qoS_publishFirst] at h
  have hpacket := @createMqttPacketMessage_eq _ topic.name _ message h
  rw [← hdata] at hpacket
  exact hpacket

/-- A topic whose QoS bits and packet id disagree makes none. -/
theorem createPublish_ne_ok {topic : MqttTopic} {r : Bytes}
    (h : ¬ (topic.qos &&& 3 = 0 ↔ topic.id = 0)) : createPublish topic false ≠ .ok r := by
  rw [← qoS_publishFirst] at h
  exact createMqttPacketMessage_ne_ok h

/-- Without postponed packets a topic is sent at once. -/
theorem sendTopic_eq {b : Broker} {fd : Fd} {pClient : ClientRef} {topic : MqttTopic}
    (hqueue : b.checkIfMoreMessages (b.heap pClient).client_id = false) :
    b.sendTopic fd pClient topic = (do
      let data ← createPublish topic false
      return (b.addCommand fd data).record
        (.publish fd pClient ((FixedHeader.mk (data.headD 0) 0).qoS) topic.id data)) := by
  simp only [sendTopic, hqueue, Bool.not_false, ↓reduceIte, ite_self]

/-- `assignPacketID` queues nothing. -/
@[simp] theorem assignPacketID_commands (b : Broker) (pClient : ClientRef) (topic : MqttTopic) :
    (b.assignPacketID pClient topic).1.commands = b.commands := by
  unfold assignPacketID; split <;> rfl

/-- A new packet id does not change whether packets wait for the client. -/
theorem assignPacketID_queue (b : Broker) (pClient : ClientRef) (topic : MqttTopic) :
    (b.assignPacketID pClient topic).1.checkIfMoreMessages
        ((b.assignPacketID pClient topic).1.heap pClient).client_id =
      b.checkIfMoreMessages (b.heap pClient).client_id := by
  unfold assignPacketID
  split
  · rfl
  · simp only [Client.genPacketID, heap_setClient_self]
    rfl

/-- `derefAt` finds the client of a connection. -/
theorem derefAt_eq {b : Broker} {fd : Fd} {pClient : ClientRef}
    (h : b.clients.lookup fd = some (some pClient)) : b.derefAt fd = .ok (b, pClient) := by
  rw [derefAt, clientAt_eq h]
  rfl

/-- A client that is connected is alive. -/
theorem alive_of_lookup {b : Broker} {fd : Fd} {pClient : ClientRef}
    (h : b.clients.lookup fd = some (some pClient)) : b.alive pClient = true := by
  rw [alive, List.any_eq_true]
  exact ⟨(fd, some pClient), UnorderedMap.mem_toList_iff.mpr h, by simp⟩

/-- The packet of a delivery: its first byte has the type PUBLISH and the QoS of
    the options, and it has the packet id `c` unless the QoS is 0. -/
structure DeliveryPacket (name : Bytes) (message : MqttBinaryDataEntity) (options : UInt8)
    (c : UInt16) (packet : Bytes) : Prop where
  bytes : ∃ first, packet = packetBytes first
    (encodePublish name (if options &&& 3 = 0 then 0 else c) ++ message.data) ∧
      (FixedHeader.mk first 0).getType = PackType.PUBLISH.code ∧
      (FixedHeader.mk first 0).qoS = options &&& 3

/-- The two paths queue the same packet for a client, and no assertion fails. -/
def RetainedAgrees (b : Broker) (fd : Fd) (pClient : ClientRef) (live retained : MqttTopic)
    (message : MqttBinaryDataEntity) (options : UInt8) : Prop :=
  ∃ packet b₁ topic₁ b₂,
    b.notifySubscriber live fd pClient = .ok (b₁, topic₁) ∧
    sendRetained fd options [retained] b = .ok b₂ ∧
    b₁.commands = b.commands ++ [⟨fd, packet⟩] ∧
    b₂.commands = b.commands ++ [⟨fd, packet⟩] ∧
    DeliveryPacket live.name message options (b.heap pClient).packet_id_gen packet

/-- The packet id a topic of some QoS gets for a client. -/
def nextPacketID (c : Client) (qos : UInt8) : UInt16 := if qos = 0 then 0 else c.packet_id_gen

/-- `assignPacketID` gives the topic the next id of the client, or none for QoS 0. -/
theorem assignPacketID_topic (b : Broker) (pClient : ClientRef) (topic : MqttTopic) :
    (b.assignPacketID pClient topic).2 =
      topic.setPacketID (nextPacketID (b.heap pClient) topic.qos) := by
  unfold assignPacketID nextPacketID; split <;> rfl

/-- Numbering a topic and sending it, for a client without postponed packets. -/
theorem assign_sendTopic {b : Broker} {fd : Fd} {pClient : ClientRef} {topic : MqttTopic}
    (hqueue : b.checkIfMoreMessages (b.heap pClient).client_id = false) :
    (b.assignPacketID pClient topic).1.sendTopic fd pClient (b.assignPacketID pClient topic).2 =
      (do
        let data ← createPublish (topic.setPacketID (nextPacketID (b.heap pClient) topic.qos)) false
        return ((b.assignPacketID pClient topic).1.addCommand fd data).record
          (.publish fd pClient ((FixedHeader.mk (data.headD 0) 0).qoS)
            (nextPacketID (b.heap pClient) topic.qos) data)) := by
  rw [sendTopic_eq (by rw [assignPacketID_queue, hqueue]), assignPacketID_topic]
  rfl

/-- A numbered topic has QoS bits and a packet id that agree, unless it has other
    bits than those of a QoS only. -/
private theorem agree_iff {c : Client} {qos : UInt8} (hcounter : c.packet_id_gen ≠ 0) :
    (qos &&& 3 = 0 ↔ nextPacketID c qos = 0) ↔ (qos &&& 3 = 0 → qos = 0) := by
  unfold nextPacketID
  by_cases hq : qos = 0
  · simp [hq]
  · simp [hq, hcounter]

/-- The live path queues the packet of the masked options. -/
private theorem notifySubscriber_eq {b : Broker} {fd : Fd} {pClient : ClientRef}
    {live : MqttTopic} {message : MqttBinaryDataEntity} {options : UInt8}
    (hclient : b.clients.lookup fd = some (some pClient))
    (hmatch : (b.heap pClient).checkWildCards live.name = .ok (true, options))
    (hqueue : b.checkIfMoreMessages (b.heap pClient).client_id = false)
    (hcounter : (b.heap pClient).packet_id_gen ≠ 0) (hlive : live.data = some message) :
    ∃ b₁ topic₁, b.notifySubscriber live fd pClient = .ok (b₁, topic₁) ∧
      b₁.commands = b.commands ++ [⟨fd, packetBytes (publishFirst (options &&& 3))
        (encodePublish live.name (nextPacketID (b.heap pClient) (options &&& 3))
          ++ message.data)⟩] := by
  -- the packet can be made, as its id is there when its QoS needs one
  have hcreate := @createPublish_eq ((live.setQos (options &&& 3)).setPacketID
    (nextPacketID (b.heap pClient) (options &&& 3))) _ hlive
    ((agree_iff hcounter).mpr fun h => (and_three_and_three options).symm.trans h)
  -- nothing is kept for the client, so it is queued
  have hsend := @assign_sendTopic _ fd _ (live.setQos (options &&& 3)) hqueue
  rw [show (live.setQos (options &&& 3)).qos = options &&& 3 from rfl, hcreate] at hsend
  have hnotify : b.notifySubscriber live fd pClient =
      (b.assignPacketID pClient (live.setQos (options &&& 3))).1.sendTopic fd pClient
        (b.assignPacketID pClient (live.setQos (options &&& 3))).2 >>= fun b' =>
          pure (b', (b.assignPacketID pClient (live.setQos (options &&& 3))).2) := by
    simp only [notifySubscriber, alive_of_lookup hclient, Bool.not_true, Bool.false_eq_true,
      ↓reduceIte, hmatch, Except.ok_bind]
  simp only [hsend, Except.ok_bind, Except.pure_eq_ok] at hnotify
  refine ⟨_, _, hnotify, ?_⟩
  simp only [record, addCommand, assignPacketID_commands]
  rfl

/-- The retained path, which takes the options for the QoS. -/
private theorem sendRetained_eq {b : Broker} {fd : Fd} {pClient : ClientRef}
    {retained : MqttTopic} {options : UInt8}
    (hclient : b.clients.lookup fd = some (some pClient))
    (hqueue : b.checkIfMoreMessages (b.heap pClient).client_id = false) :
    sendRetained fd options [retained] b = (do
      let data ← createPublish ((retained.setQos options).setPacketID
        (nextPacketID (b.heap pClient) options)) false
      return ((b.assignPacketID pClient (retained.setQos options)).1.addCommand fd data).record
        (.publish fd pClient ((FixedHeader.mk (data.headD 0) 0).qoS)
          (nextPacketID (b.heap pClient) options) data)) := by
  have hsend := @assign_sendTopic _ fd _ (retained.setQos options) hqueue
  rw [show (retained.setQos options).qos = options from rfl] at hsend
  simp only [sendRetained, notifyClient, derefAt_eq hclient, Except.ok_bind, hsend]
  cases createPublish ((retained.setQos options).setPacketID _) false <;> rfl

/-- For a connected client without postponed packets whose subscriptions take the
    topic with `options`, retained delivery agrees with live delivery exactly when
    none of the bits 2, 5 and 6 is set in the options and options with QoS 0 are
    zero altogether. -/
theorem retained_agrees_iff {b : Broker} {fd : Fd} {pClient : ClientRef}
    {live retained : MqttTopic} {message : MqttBinaryDataEntity} {options : UInt8}
    (hclient : b.clients.lookup fd = some (some pClient))
    (hmatch : (b.heap pClient).checkWildCards live.name = .ok (true, options))
    (hqueue : b.checkIfMoreMessages (b.heap pClient).client_id = false)
    (hcounter : (b.heap pClient).packet_id_gen ≠ 0) (hname : retained.name = live.name)
    (hlive : live.data = some message) (hretained : retained.data = some message) :
    RetainedAgrees b fd pClient live retained message options ↔
      options &&& 0x64 = 0 ∧ (options &&& 3 = 0 → options = 0) := by
  obtain ⟨b₁, topic₁, hnotify, hcommands₁⟩ :=
    notifySubscriber_eq hclient hmatch hqueue hcounter hlive
  constructor
  · rintro ⟨packet, b₁', topic₁', b₂, hnotify', hsend, hcommands₁', hcommands₂, -⟩
    rw [sendRetained_eq hclient hqueue] at hsend
    obtain ⟨data, hcreate, hsend⟩ := Except.bind_eq_ok_iff.mp hsend
    have hid := (agree_iff hcounter).mp (not_not.mp fun h => createPublish_ne_ok h hcreate)
    refine ⟨?_, hid⟩
    -- the two packets are the same, so their first bytes are
    obtain ⟨rfl, rfl⟩ := Prod.mk.inj (Except.ok.inj (hnotify.symm.trans hnotify'))
    have hlive' := List.append_cancel_left (hcommands₁.symm.trans hcommands₁')
    obtain rfl := Except.ok.inj hsend
    simp only [record, addCommand, assignPacketID_commands] at hcommands₂
    have hretained' := List.append_cancel_left hcommands₂
    obtain rfl := Except.ok.inj ((@createPublish_eq
      ((retained.setQos options).setPacketID (nextPacketID (b.heap pClient) options)) _
      hretained ((agree_iff hcounter).mpr hid)).symm.trans hcreate)
    simp only [List.cons.injEq, FdWriteCommand.mk.injEq, true_and, and_true] at hlive' hretained'
    have hfirst := congrArg (List.headD · 0) (hretained'.trans hlive'.symm)
    exact (publishFirst_eq_iff options).mp hfirst
  · -- the retained packet has the QoS that the live one has
    rintro ⟨hbits, hid⟩
    have hcreate := @createPublish_eq ((retained.setQos options).setPacketID
      (nextPacketID (b.heap pClient) options)) _ hretained ((agree_iff hcounter).mpr hid)
    have hpid : nextPacketID (b.heap pClient) options =
        nextPacketID (b.heap pClient) (options &&& 3) := by
      by_cases hzero : options &&& 3 = 0
      · rw [hzero, hid hzero]
      · rw [nextPacketID, nextPacketID, if_neg hzero, if_neg fun h => hzero (by rw [h]; decide)]
    -- it is sent with an id that fits its options
    have hsend := @sendRetained_eq _ fd _ retained options hclient hqueue
    simp only [hcreate, Except.ok_bind, Except.pure_eq_ok] at hsend
    refine ⟨_, b₁, topic₁, _, hnotify, hsend, hcommands₁, ?_, ⟨publishFirst (options &&& 3), rfl,
      getType_publishFirst options, ?_⟩⟩
    · simp only [record, addCommand, assignPacketID_commands, MqttTopic.setQos,
        MqttTopic.setPacketID, hname, hpid, (publishFirst_eq_iff options).mpr hbits]
    · rw [qoS_publishFirst, and_three_and_three]

/-- A broker with one client, on socket 5, that is subscribed to `a`. -/
def subscriber (options : UInt8) : Broker where
  heap _ := { ip := [], time_last_packet := 0, subscribed_topics := AList.singleton [0x61] options }
  clients := AList.singleton 5 (some 0)
  subscribed_clients := AList.singleton 5 0

/-- The payload `x`. -/
def payloadX : MqttBinaryDataEntity := ⟨[0x78], by decide⟩

/-- The topic `a` with the payload `x`. -/
def topicA : MqttTopic := MqttTopic.new 1 1 [0x61] (some payloadX)

/-- Options 1, QoS 1 and nothing else: the two paths agree. -/
theorem retained_agrees_qos1 : RetainedAgrees (subscriber 1) 5 0 topicA topicA payloadX 1 :=
  (retained_agrees_iff (b := subscriber 1) rfl rfl rfl (by decide) rfl rfl rfl).mpr (by decide)

/-- Options 5, QoS 1 and No Local: the retained packet has the flag DUP, the live
    one has not. -/
theorem retained_disagrees_noLocal :
    (subscriber 5).clients.lookup 5 = some (some 0) ∧
    ((subscriber 5).heap 0).checkWildCards topicA.name = .ok (true, 5) ∧
    (subscriber 5).checkIfMoreMessages ((subscriber 5).heap 0).client_id = false ∧
    ((subscriber 5).heap 0).packet_id_gen = 1 ∧
    ((subscriber 5).notifySubscriber topicA 5 0).map (·.1.commands) =
      .ok [⟨5, [0x32, 7, 0, 1, 0x61, 0, 1, 0, 0x78]⟩] ∧
    (sendRetained 5 5 [topicA] (subscriber 5)).map (·.commands) =
      .ok [⟨5, [0x3A, 7, 0, 1, 0x61, 0, 1, 0, 0x78]⟩] ∧
    ¬ RetainedAgrees (subscriber 5) 5 0 topicA topicA payloadX 5 := by
  have hlive : ((subscriber 5).notifySubscriber topicA 5 0).map (·.1.commands) =
      .ok [⟨5, [0x32, 7, 0, 1, 0x61, 0, 1, 0, 0x78]⟩] := rfl
  have hretained : (sendRetained 5 5 [topicA] (subscriber 5)).map (·.commands) =
      .ok [⟨5, [0x3A, 7, 0, 1, 0x61, 0, 1, 0, 0x78]⟩] := rfl
  refine ⟨rfl, rfl, rfl, rfl, hlive, hretained, ?_⟩
  rintro ⟨packet, b₁, topic₁, b₂, h₁, h₂, hcommands₁, hcommands₂, -⟩
  rw [h₁] at hlive
  rw [h₂] at hretained
  have heq := (Except.ok.inj hlive).symm.trans
    ((hcommands₁.trans hcommands₂.symm).trans (Except.ok.inj hretained))
  exact absurd heq (by decide)

end Mqtt.Spec
