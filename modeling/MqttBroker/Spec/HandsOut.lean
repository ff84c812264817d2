import MqttBroker.Spec.FanOut

/-!
# Rows of PUBLISH packets

Whoever sends a topic numbers it for a client and hands a packet out. `Carries` says
what the packet is made of, `HandsOut` that a broker is the outcome of a row of such
packets. Unlike the theorems about fan-out nothing is asked of the topic or of the
clients: where a packet cannot be made the call faults and there is no outcome.
-/

namespace Mqtt.Spec

open Mqtt.Native Mqtt.Native.Broker

/-- A PUBLISH packet, as the broker `b` makes it of a topic name and a message. -/
structure Carries (b : Broker) (name : Bytes) (message : MqttBinaryDataEntity) (h : HandOut) :
    Prop where
  client_id : h.client_id = (b.heap h.client).client_id
  packet_id : h.packet_id = nextPacketID (b.heap h.client) h.qos
  kept : h.kept = (h.qos != 0 && b.checkIfMoreMessages h.client_id)
  packet : h.packet = packetBytes (publishByte h.qos h.kept)
    (encodePublish name h.packet_id ++ message.data)
  agree : h.qos &&& 3 = 0 ↔ h.packet_id = 0

/-- The broker `b'` comes out of `b` by handing out packets that have a property. -/
inductive HandsOut (P : Broker → HandOut → Prop) (b : Broker) : Broker → Prop
  | refl : HandsOut P b b
  | snoc {b' : Broker} {h : HandOut} : HandsOut P b b' → P b' h → HandsOut P b (h.apply b')

namespace HandsOut

variable {P Q : Broker → HandOut → Prop} {b b' b'' : Broker}

theorem trans (h : HandsOut P b b') (h' : HandsOut P b' b'') : HandsOut P b b'' := by
  induction h' with
  | refl => exact h
  | snoc _ hP ih => exact ih.snoc hP

theorem mono (h : HandsOut P b b') (hP : ∀ b₁ out, P b₁ out → Q b₁ out) : HandsOut Q b b' := by
  induction h with
  | refl => exact .refl
  | snoc _ hout ih => exact ih.snoc (hP _ _ hout)

/-- One packet handed out. -/
theorem one {out : HandOut} (h : P b out) : HandsOut P b (out.apply b) := .snoc .refl h

/-- A property that no packet destroys is kept. -/
theorem preserves {R : Broker → Prop} (h : HandsOut P b b')
    (hP : ∀ b₁ out, R b₁ → P b₁ out → R (out.apply b₁)) (hb : R b) : R b' := by
  induction h with
  | refl => exact hb
  | snoc _ hout ih => exact hP _ _ ih hout

/-- Handing packets out changes no connection. -/
theorem clients_eq (h : HandsOut P b b') : b'.clients = b.clients := by
  refine h.preserves (R := fun b₁ => b₁.clients = b.clients) (fun b₁ out heq _ => ?_) rfl
  rw [HandOut.apply_clients, heq]

/-- What a packet id does not change in a client stays as it is in all of them. -/
theorem heap_congr {α : Type} {f : Client → α} (hf : ∀ c : Client, f c.genPacketID.1 = f c)
    (h : HandsOut P b b') (ref : ClientRef) : f (b'.heap ref) = f (b.heap ref) := by
  refine h.preserves (R := fun b₁ => f (b₁.heap ref) = f (b.heap ref)) (fun b₁ out heq _ => ?_) rfl
  rw [← heq]
  by_cases hqos : out.qos = 0
  · rw [HandOut.apply_heap_of_qos b₁ out hqos]
  · by_cases href : ref = out.client
    · rw [href, HandOut.apply_heap_self b₁ out hqos, hf]
    · rw [HandOut.apply_heap_ne b₁ out href]

end HandsOut

/-! ## One packet -/

/-- The first byte that `createPublish` writes has the two low bits of the QoS. -/
theorem qoS_publishByte_raw (qos : UInt8) (dup : Bool) :
    (FixedHeader.mk (publishByte qos dup) 0).qoS = qos &&& 3 := by
  cases dup with
  | false => exact qoS_publishFirst qos
  | true =>
    exact forall_byte (p := fun qos => (FixedHeader.mk (publishByte qos true) 0).qoS = qos &&& 3)
      (by decide +kernel) qos

/-- A packet is made only of a topic with a message whose QoS bits and packet id
    agree. -/
theorem createPublish_eq_ok {topic : MqttTopic} {dup : Bool} {packet : Bytes}
    (h : createPublish topic dup = .ok packet) : ∃ message, topic.data = some message ∧
      packet = packetBytes (publishByte topic.qos dup)
        (encodePublish topic.name topic.id ++ message.data) ∧
      (topic.qos &&& 3 = 0 ↔ topic.id = 0) := by
  have hbyte : createPublish topic dup = createMqttPacketMessage (publishByte topic.qos dup)
      (PublishVH.mk topic.name topic.id OrderedSet.empty) topic.data := by
    cases dup <;> rfl
  rw [hbyte] at h
  -- the assertion in `CreateMqttPacket` is passed exactly when QoS and id agree
  by_cases hagree : (FixedHeader.mk (publishByte topic.qos dup) 0).qoS = 0 ↔ topic.id = 0
  · cases hdata : topic.data with
    | none => simp [hdata, createMqttPacketMessage, throw, throwThe, MonadExceptOf.throw] at h
    | some message =>
      rw [hdata, createMqttPacketMessage_eq message hagree] at h
      rw [qoS_publishByte_raw] at hagree
      exact ⟨message, rfl, (Except.ok.inj h).symm, hagree⟩
  · exact absurd h (createMqttPacketMessage_ne_ok hagree)

/-- A topic that is sent is made a packet, which is kept behind others or queued. -/
theorem sendTopic_eq_ok {b b' : Broker} {fd : Fd} {pClient : ClientRef} {topic : MqttTopic}
    (h : b.sendTopic fd pClient topic = .ok b') : ∃ packet kept,
      kept = (topic.qos != 0 && b.checkIfMoreMessages (b.heap pClient).client_id) ∧
      createPublish topic kept = .ok packet ∧
      b' = ((if kept then b.addQosEvent (b.heap pClient).client_id ⟨packet, topic.id⟩
        else b.addCommand fd packet).record
          (.publish fd pClient ((FixedHeader.mk (packet.headD 0) 0).qoS) topic.id packet)) := by
  generalize hkept : (topic.qos != 0 && b.checkIfMoreMessages (b.heap pClient).client_id) = kept
  cases hcreate : createPublish topic kept with
  | ok packet =>
    rw [sendTopic_of_create hkept hcreate] at h
    exact ⟨packet, kept, rfl, hcreate, (Except.ok.inj h).symm⟩
  | error e =>
    -- whichever way the packet would go, it is made first
    have hpos : topic.qos > 0 ↔ topic.qos ≠ 0 := UInt8.pos_iff_ne_zero
    unfold sendTopic at h
    dsimp only at h
    by_cases hqos : topic.qos = 0
    · obtain rfl : false = kept := by simpa [hqos] using hkept
      rw [if_neg (by rw [hpos]; simpa using hqos), hcreate] at h
      cases h
    · rw [if_pos (hpos.mpr hqos)] at h
      cases hmore : b.checkIfMoreMessages (b.heap pClient).client_id with
      | false =>
        obtain rfl : false = kept := by simpa [hmore] using hkept
        rw [hmore, if_pos (by simp), hcreate] at h
        cases h
      | true =>
        obtain rfl : true = kept := by rw [← hkept, hmore]; simpa using hqos
        rw [hmore, if_neg (by simp), hcreate] at h
        cases h

/-- A topic that is numbered and sent is a packet handed out. -/
theorem handOut_of_send {b b' : Broker} {fd : Fd} {pClient : ClientRef} {topic : MqttTopic}
    (h : (b.assignPacketID pClient topic).1.sendTopic fd pClient
      (b.assignPacketID pClient topic).2 = .ok b') :
    ∃ message out, topic.data = some message ∧ out.fd = fd ∧ out.client = pClient ∧
      out.qos = topic.qos ∧ Carries b topic.name message out ∧ b' = out.apply b := by
  obtain ⟨packet, kept, hkept, hcreate, rfl⟩ := sendTopic_eq_ok h
  obtain ⟨message, hdata, hpacket, hagree⟩ := createPublish_eq_ok hcreate
  rw [assignPacketID_queue] at hkept
  rw [assignPacketID_topic] at hkept hdata hpacket hagree
  have hid : ((b.assignPacketID pClient topic).1.heap pClient).client_id =
      (b.heap pClient).client_id := (does_assignPacketID b pClient topic).client_id_eq pClient
  have hcarries : Carries b topic.name message ⟨fd, pClient, (b.heap pClient).client_id, topic.qos,
      nextPacketID (b.heap pClient) topic.qos, kept, packet⟩ :=
    ⟨rfl, rfl, hkept, hpacket, hagree⟩
  refine ⟨message, _, hdata, rfl, rfl, rfl, hcarries, ?_⟩
  rw [hid, assignPacketID_topic, assignPacketID_broker]
  rfl

/-! ## The notifying functions -/

/-- A packet that `NotifyClients` hands out: a subscriber is alive, its subscriptions
    take the topic, and their options say the QoS. -/
structure Notifies (name : Bytes) (data : Option MqttBinaryDataEntity)
    (its : List (Fd × ClientRef)) (b : Broker) (h : HandOut) : Prop where
  entry : (h.fd, h.client) ∈ its
  alive : b.alive h.client
  matched : ∃ options, (b.heap h.client).checkWildCards name = .ok (true, options) ∧
    h.qos = options &&& 3
  carries : ∃ message, data = some message ∧ Carries b name message h

/-- What `notifySubscriber` hands out is for its own subscriber, with the topic and the message
    as they are. -/
theorem notifySubscriber_eq_ok {b b' : Broker} {topic topic' : MqttTopic} {it : Fd × ClientRef}
    (h : b.notifySubscriber topic it.1 it.2 = .ok (b', topic')) :
    HandsOut (Notifies topic.name topic.data [it]) b b' ∧ topic'.name = topic.name ∧
      topic'.data = topic.data := by
  unfold notifySubscriber at h
  split at h
  · obtain ⟨rfl, rfl⟩ := Prod.mk.inj (Except.ok.inj h)
    exact ⟨.refl, rfl, rfl⟩
  · -- a subscriber whose pointer has expired gets nothing
    rename_i halive
    obtain ⟨⟨found, options⟩, hmatch, h⟩ := Except.bind_eq_ok_iff.mp h
    dsimp only at h
    split at h
    · -- a filter takes the name
      rename_i hfound
      obtain ⟨b₁, hsend, hresult⟩ := Except.bind_eq_ok_iff.mp h
      obtain ⟨rfl, rfl⟩ := Prod.mk.inj (Except.ok.inj hresult)
      obtain ⟨message, out, hdata, hfd, hclient, hqos, hcarries, rfl⟩ := handOut_of_send hsend
      rw [assignPacketID_topic]
      refine ⟨.one ⟨?_, ?_, ⟨options, ?_, hqos⟩, message, hdata, hcarries⟩, rfl, rfl⟩
      · rw [hfd, hclient]
        exact .head _
      · rw [hclient]
        simpa using halive
      · rw [hclient, hmatch, hfound]
    · obtain ⟨rfl, rfl⟩ := Prod.mk.inj (Except.ok.inj h)
      exact ⟨.refl, rfl, rfl⟩

/-- What the loop hands out is for subscribers it goes through. -/
theorem notifySubscribers_eq_ok (its : List (Fd × ClientRef)) :
    ∀ {b b' : Broker} {topic topic' : MqttTopic},
      notifySubscribers topic its b = .ok (b', topic') →
      HandsOut (Notifies topic.name topic.data its) b b' ∧ topic'.name = topic.name ∧
        topic'.data = topic.data := by
  -- Induction on the subscribers; the topic keeps its name and its message from one to the next
  induction its with
  | nil =>
    intro b b' topic topic' h
    obtain ⟨rfl, rfl⟩ := Prod.mk.inj (Except.ok.inj h)
    exact ⟨.refl, rfl, rfl⟩
  | cons it rest ih =>
    intro b b' topic topic' h
    rw [notifySubscribers] at h
    obtain ⟨⟨b₁, topic₁⟩, hnotify, hrest⟩ := Except.bind_eq_ok_iff.mp h
    obtain ⟨hfirst, hname, hdata⟩ := notifySubscriber_eq_ok hnotify
    obtain ⟨hlater, hname', hdata'⟩ := ih hrest
    rw [hname, hdata] at hlater
    refine ⟨.trans (hfirst.mono fun b₂ out hout => ?_) (hlater.mono fun b₂ out hout => ?_),
      hname'.trans hname, hdata'.trans hdata⟩
    · obtain hmem : (out.fd, out.client) = it := by simpa using hout.entry
      exact ⟨hmem ▸ .head _, hout.alive, hout.matched, hout.carries⟩
    · exact ⟨.tail _ hout.entry, hout.alive, hout.matched, hout.carries⟩

/-- What `NotifyClients` hands out is for subscribers of the broker. -/
theorem notifyClients_eq_ok {b b' : Broker} {topic topic' : MqttTopic}
    {released : Option (Bytes × UInt16)} (h : b.notifyClients topic released = .ok (b', topic')) :
    HandsOut (Notifies topic.name topic.data b.subscribed_clients.toList)
        (b.record (.notifyClients released topic)) b' ∧
      topic'.name = topic.name ∧ topic'.data = topic.data :=
  notifySubscribers_eq_ok _ h

end Mqtt.Spec
