import MqttBroker.Spec.MessageFlow
import MqttBroker.Spec.SubscribeParse

/-!
# The QoS of what is handed out

Four routes lead to a subscriber: a PUBLISH that is sent on, the release of a stored one, a
will, and the retained messages after a SUBSCRIBE. Each of them writes the options of the
subscriber over the QoS of the message, so a packet has the QoS of the options, which is the
smaller of the two only where the message has at least that QoS.
-/

namespace Mqtt.Spec

open Mqtt.Native Mqtt.Native.Broker

/-! ## What is due and what is delivered -/

/-- A message for a subscriber: the QoS of the message and the options that take it. -/
structure Due where
  fd : Fd
  client : ClientRef
  qos : UInt8
  options : UInt8
deriving DecidableEq

/-- A PUBLISH that was handed out, with its QoS. -/
structure Delivery where
  fd : Fd
  client : ClientRef
  qos : UInt8
deriving DecidableEq

/-- What `NotifyClients` and `NotifyClient` make of a message for a subscriber. -/
def Due.delivered (d : Due) : Delivery := ⟨d.fd, d.client, d.options &&& 3⟩

/-- The smaller of the two, where the options have a QoS. -/
def Due.minimum (d : Due) : Delivery := ⟨d.fd, d.client, min d.qos (d.options &&& 3)⟩

/-- What is handed out by a call. -/
def delivery? : Call → Option Delivery
  | .publish fd client qos _ _ => some ⟨fd, client, qos⟩
  | _ => none

/-- The PUBLISH packets handed out so far. -/
def deliveries (b : Broker) : List Delivery := (handedOut b).filterMap delivery?

/-- What an entry of `subscribed_clients` is due of a topic name. -/
def dueTo (b : Broker) (name : Bytes) (qos : UInt8) (it : Fd × ClientRef) : Option Due :=
  if b.alive it.2 then
    match (b.heap it.2).checkWildCards name with
    | .ok (true, options) => some ⟨it.1, it.2, qos, options⟩
    | _ => none
  else none

/-- A subscriber is due a topic when it is alive and one of its filters matches. -/
theorem dueTo_eq_some_iff {b : Broker} {name : Bytes} {qos : UInt8} {it : Fd × ClientRef}
    {d : Due} : dueTo b name qos it = some d ↔ b.alive it.2 ∧ ∃ options,
      (b.heap it.2).checkWildCards name = .ok (true, options) ∧ ⟨it.1, it.2, qos, options⟩ = d := by
  unfold dueTo
  split
  · rename_i halive
    split
    · rename_i options hmatch
      simp [halive, hmatch]
    · rename_i hnone
      simp only [halive, true_and, reduceCtorEq, false_iff, not_exists, not_and]
      exact fun options hmatch => absurd hmatch (hnone options)
  · rename_i halive
    simp [halive]

/-- What all subscribers are due of a topic. -/
def dueOf (b : Broker) (topic : MqttTopic) : List Due :=
  b.subscribed_clients.toList.filterMap (dueTo b topic.name topic.qos)

/-- Who is due what goes by the clients, the subscribers and their tables. -/
structure SameSubscribers (b b' : Broker) : Prop where
  clients : b'.clients = b.clients
  subscribed_clients : b'.subscribed_clients = b.subscribed_clients
  tables : ∀ ref, (b'.heap ref).subscribed_topics = (b.heap ref).subscribed_topics

theorem SameSubscribers.trans {b b' b'' : Broker} (h : SameSubscribers b b')
    (h' : SameSubscribers b' b'') : SameSubscribers b b'' :=
  ⟨h'.clients.trans h.clients, h'.subscribed_clients.trans h.subscribed_clients,
    fun ref => (h'.tables ref).trans (h.tables ref)⟩

/-- The same subscribers are due the same. -/
theorem SameSubscribers.dueTo {b b' : Broker} (h : SameSubscribers b b') (name : Bytes)
    (qos : UInt8) : Spec.dueTo b' name qos = Spec.dueTo b name qos := by
  funext it
  have halive : b'.alive it.2 = b.alive it.2 := by rw [alive, alive, h.clients]
  have hmatch : (b'.heap it.2).checkWildCards name = (b.heap it.2).checkWildCards name := by
    rw [Client.checkWildCards, Client.checkWildCards, h.tables]
  rw [Spec.dueTo, Spec.dueTo, halive, hmatch]

/-- A topic is due to the same subscribers. -/
theorem SameSubscribers.dueOf {b b' : Broker} (h : SameSubscribers b b') (topic : MqttTopic) :
    Spec.dueOf b' topic = Spec.dueOf b topic := by
  rw [Spec.dueOf, Spec.dueOf, h.subscribed_clients, h.dueTo]

/-- Nothing is delivered when nothing is handed out. -/
theorem deliveries_eq {b b' : Broker} (h : handedOut b' = handedOut b) :
    deliveries b' = deliveries b := by rw [deliveries, deliveries, h]

/-- Handing packets out leaves the subscribers as they are. -/
theorem HandsOut.sameSubscribers {P : Broker → HandOut → Prop} {b b' : Broker}
    (h : HandsOut P b b') : SameSubscribers b b' where
  clients := h.clients_eq
  subscribed_clients := by
    refine h.preserves (R := fun b₁ => b₁.subscribed_clients = b.subscribed_clients)
      (fun b₁ out heq _ => ?_) rfl
    exact (HandOut.apply_subscribed_clients b₁ out).trans heq
  tables := h.heap_congr (f := Client.subscribed_topics) fun _ => rfl

/-- A packet that is handed out, with the QoS of its first byte. -/
theorem deliveries_apply {b : Broker} {name : Bytes} {message : MqttBinaryDataEntity}
    {out : HandOut} (h : Carries b name message out) :
    deliveries (out.apply b) = deliveries b ++ [⟨out.fd, out.client, out.qos &&& 3⟩] := by
  rw [deliveries, handedOut_apply, List.filterMap_append, ← deliveries, h.packet]
  show deliveries b ++ [Delivery.mk out.fd out.client
    (FixedHeader.mk (publishByte out.qos out.kept) 0).qoS] = _
  rw [qoS_publishByte_raw]

/-! ## NotifyClients -/

/-- `notifySubscriber` delivers to its subscriber what is due. -/
theorem notifySubscriber_deliveries {b b' : Broker} {topic topic' : MqttTopic}
    {it : Fd × ClientRef} (h : b.notifySubscriber topic it.1 it.2 = .ok (b', topic'))
    (qos : UInt8) : deliveries b' =
      deliveries b ++ (dueTo b topic.name qos it).toList.map Due.delivered := by
  unfold notifySubscriber at h
  unfold dueTo
  split at h
  · -- the client is gone
    rename_i halive
    obtain ⟨rfl, rfl⟩ := Prod.mk.inj (Except.ok.inj h)
    rw [if_neg (by simpa using halive)]
    exact (List.append_nil _).symm
  · rename_i halive
    rw [if_pos (by simpa using halive)]
    obtain ⟨⟨found, options⟩, hmatch, h⟩ := Except.bind_eq_ok_iff.mp h
    rw [hmatch]
    dsimp only at h
    split at h
    · -- one of the filters matches
      rename_i hfound
      obtain ⟨b₁, hsend, hresult⟩ := Except.bind_eq_ok_iff.mp h
      obtain ⟨rfl, rfl⟩ := Prod.mk.inj (Except.ok.inj hresult)
      obtain ⟨message, out, -, hfd, hclient, hqos, hcarries, rfl⟩ := handOut_of_send hsend
      rw [deliveries_apply hcarries, hfd, hclient, hqos, hfound]
      show _ ++ [Delivery.mk it.1 it.2 (options &&& 3 &&& 3)] = _
      rw [and_three_and_three]
      rfl
    · rename_i hfound
      obtain ⟨rfl, rfl⟩ := Prod.mk.inj (Except.ok.inj h)
      rw [Bool.eq_false_iff.mpr hfound]
      exact (List.append_nil _).symm

/-- The loop delivers what is due to each subscriber, in the order it goes through them. -/
theorem notifySubscribers_deliveries (qos : UInt8) (its : List (Fd × ClientRef)) :
    ∀ {b b' : Broker} {topic topic' : MqttTopic},
      notifySubscribers topic its b = .ok (b', topic') → deliveries b' =
        deliveries b ++ (its.filterMap (dueTo b topic.name qos)).map Due.delivered := by
  -- Induction on the entries
  induction its with
  | nil =>
    intro b b' topic topic' h
    obtain ⟨rfl, rfl⟩ := Prod.mk.inj (Except.ok.inj h)
    exact (List.append_nil _).symm
  | cons it rest ih =>
    intro b b' topic topic' h
    rw [notifySubscribers] at h
    obtain ⟨⟨b₁, topic₁⟩, hnotify, hrest⟩ := Except.bind_eq_ok_iff.mp h
    obtain ⟨hout, hname, -⟩ := notifySubscriber_eq_ok hnotify
    -- the entries behind are due the same as before the first one was served
    rw [ih hrest, hname, hout.sameSubscribers.dueTo, notifySubscriber_deliveries hnotify qos,
      List.append_assoc, ← List.map_append]
    cases hdue : dueTo b topic.name qos it with
    | none => rw [List.filterMap_cons_none hdue]; rfl
    | some d => rw [List.filterMap_cons_some hdue]; rfl

/-- Everyone who is due a topic gets it, with the QoS of the options. -/
theorem notifyClients_deliveries {b b' : Broker} {topic topic' : MqttTopic}
    {released : Option (Bytes × UInt16)} (h : b.notifyClients topic released = .ok (b', topic')) :
    deliveries b' = deliveries b ++ (dueOf b topic).map Due.delivered := by
  have hrun := notifySubscribers_deliveries topic.qos _ h
  have hrecord : deliveries (b.record (.notifyClients released topic)) = deliveries b :=
    deliveries_eq (by simp [handedOut, Broker.record, isPublish])
  rw [hrun, hrecord]
  rfl

/-! ## NotifyClient -/

/-- `NotifyClient` delivers its topic with the two low bits of its QoS. -/
theorem notifyClient_deliveries {b b' : Broker} {fd : Fd} {ref : ClientRef} {topic : MqttTopic}
    (hclient : b.clients.lookup fd = some (some ref)) (h : b.notifyClient fd topic = .ok b') :
    deliveries b' = deliveries b ++ [⟨fd, ref, topic.qos &&& 3⟩] ∧ SameSubscribers b b' := by
  rw [notifyClient, derefAt_eq hclient, Except.ok_bind] at h
  obtain ⟨message, out, -, hfd, href, hqos, hcarries, rfl⟩ := handOut_of_send h
  rw [deliveries_apply hcarries, hfd, href, hqos]
  exact ⟨rfl, (HandsOut.one (P := fun _ _ => True) trivial).sameSubscribers⟩

/-- Each topic of the row is delivered with the options of the filter. -/
theorem sendRetained_deliveries {fd : Fd} {ref : ClientRef} {options : UInt8}
    (topics : List MqttTopic) : ∀ {b b' : Broker}, b.clients.lookup fd = some (some ref) →
      sendRetained fd options topics b = .ok b' → deliveries b' =
        deliveries b ++ topics.map fun topic => (Due.mk fd ref topic.qos options).delivered := by
  -- Induction on the retained messages; the subscribers stay the same
  induction topics with
  | nil =>
    intro b b' _ h
    obtain rfl := Except.ok.inj h
    exact (List.append_nil _).symm
  | cons it rest ih =>
    intro b b' hclient h
    rw [sendRetained] at h
    obtain ⟨b₁, hnotify, hrest⟩ := Except.bind_eq_ok_iff.mp h
    obtain ⟨hfirst, hsame⟩ := notifyClient_deliveries hclient hnotify
    rw [ih (hsame.clients ▸ hclient) hrest, hfirst, List.append_assoc]
    rfl

/-- The retained messages that a row of filters with options is due. -/
def retainedDue (storage : TopicStorage) (fd : Fd) (ref : ClientRef)
    (tpcs : List (Bytes × UInt8)) : List Due :=
  tpcs.flatMap fun it =>
    match storage.getMatchedTopics it.1 with
    | .ok matched => matched.toList.map fun topic => ⟨fd, ref, topic.qos, it.2⟩
    | .error _ => []

/-- Each filter brings the retained topics that match it. -/
theorem sendAllRetained_deliveries {fd : Fd} {ref : ClientRef} (tpcs : List (Bytes × UInt8)) :
    ∀ {b b' : Broker}, b.clients.lookup fd = some (some ref) →
      sendAllRetained fd tpcs b = .ok b' → deliveries b' =
        deliveries b ++ (retainedDue b.storage fd ref tpcs).map Due.delivered := by
  -- Induction on the records
  induction tpcs with
  | nil =>
    intro b b' _ h
    obtain rfl := Except.ok.inj h
    exact (List.append_nil _).symm
  | cons it rest ih =>
    intro b b' hclient h
    obtain ⟨matched, b₁, hmatched, hsend, hrest⟩ := sendAllRetained_cons h
    have hout := sendRetained_eq_ok matched.toList hsend
    rw [ih (hout.clients_eq ▸ hclient) hrest, sendRetained_deliveries _ hclient hsend,
      hout.storage_eq, List.append_assoc]
    rw [retainedDue, retainedDue, List.flatMap_cons, hmatched, List.map_append, List.map_map]
    rfl

/-! ## The routes to a subscriber -/

/-- The four ways of a message, with what is due of it before the step and the broker after. -/
inductive Route (b : Broker) : List Due → Broker → Prop
  | publish {b' : Broker} {fh : FixedHeader} {data : Bytes} {fd : Fd} {err : MqttErr}
      {vh : PublishVH} {message : MqttBinaryDataEntity} :
      b.publishHandler fh data fd = .ok (b', err) → fh.qoS < 2 →
      handleMqttPublish fh data = .ok (vh, message) →
      Route b (dueOf b ⟨fh.qoS, vh.packet_id, vh.topic_name, some message⟩) b'
  | pubrel {b' : Broker} {data : Bytes} {fd : Fd} {err : MqttErr} {ref : ClientRef}
      {packet_id : UInt16} {topic : MqttTopic} :
      b.pubrelHandler data fd = .ok (b', err) → b.clients.lookup fd = some (some ref) →
      PubackVH.readFromBuf data = .ok packet_id →
      b.storage.getQoSTopic (b.heap ref).client_id packet_id = some topic →
      Route b (dueOf b topic) b'
  | will {b' : Broker} {ref : ClientRef} :
      b.sendWill ref = .ok b' → (b.heap ref).isWillFlag → Route b (dueOf b (b.heap ref).will_topic) b'
  | retained {b' : Broker} {first : UInt8} {fd : Fd} {err : MqttErr} {ref : ClientRef}
      {m : SubscribeRequest} :
      b.subscribeHandler ⟨first, m.encode.length⟩ m.encode fd = .ok (b', err) →
      b.clients.lookup fd = some (some ref) →
      Route b (retainedDue b.storage fd ref m.records) b'

/-- Silent operations on neither clients nor tables hand nothing out. -/
theorem Does.sameSubscribers_of_answers {b b' : Broker} (h : Does IsAnswer b b') :
    SameSubscribers b b' ∧ deliveries b' = deliveries b := by
  have hsame : ∀ part : Part, part.Same b b' := fun part => h.same fun op hop => by
    cases op with
    | addCommand | addQosEvent | delQosEvent => simp [Op.Writes]
    | _ => exact hop.elim
  exact ⟨⟨h.clients_eq, hsame .subscribed_clients, fun ref => hsame (.subscribed_topics ref)⟩,
    deliveries_eq (hsame .handedOut)⟩

/-- On every route what is delivered is what is due. -/
theorem Route.deliveries {b b' : Broker} {due : List Due} (h : Route b due b') :
    Spec.deliveries b' = Spec.deliveries b ++ due.map Due.delivered := by
  cases h with
  | @publish _ fh data fd err vh message hhandler hqos hread =>
    obtain ⟨vh', message', pClient, b₂, hread', -, hanswer, hend, -⟩ := publishHandler_eq_ok hhandler
    obtain ⟨rfl, rfl⟩ := Prod.mk.inj (Except.ok.inj (hread.symm.trans hread'))
    obtain ⟨hsame, hdeliveries⟩ := hanswer.sameSubscribers_of_answers
    -- the retained topic is stored before the subscribers are gone through
    have hretain : SameSubscribers b (retain b fh vh message) ∧
        Spec.deliveries (retain b fh vh message) = Spec.deliveries b := by
      rw [retain_clients]
      exact ⟨⟨rfl, rfl, fun _ => rfl⟩, rfl⟩
    cases hend with
    | sent _ hnotify =>
      have hnew : (MqttTopic.new fh.qoS vh.packet_id vh.topic_name (some message)).qos = fh.qoS :=
        if_neg (UInt8.not_lt.mpr (UInt8.le_of_lt hqos))
      rw [notifyClients_deliveries hnotify, hdeliveries, hretain.2,
        (hretain.1.trans hsame).dueOf, dueOf, dueOf, hnew]
      rfl
    | stored htwo =>
      rw [htwo] at hqos
      exact absurd hqos (by decide)
  | @pubrel _ data fd err ref packet_id topic hhandler hclient hread htopic =>
    obtain ⟨pClient, packet_id', b₂, hclient', hread', hanswer, hend, -⟩ :=
      pubrelHandler_eq_ok hhandler
    obtain rfl := Option.some.inj (Option.some.inj (hclient.symm.trans hclient'))
    obtain rfl := Except.ok.inj (hread.symm.trans hread')
    obtain ⟨hsame, hdeliveries⟩ := hanswer.sameSubscribers_of_answers
    have hstorage : b₂.storage = b.storage := hanswer.storage_eq_of_answers
    cases hend with
    | @released topic' _ b₃ htopic' hnotify heq =>
      -- the first message with the id is the one that is released
      obtain rfl : topic' = topic := by
        rw [show (b₂.record _).storage = b₂.storage from rfl, hstorage, htopic] at htopic'
        exact (Option.some.inj htopic').symm
      have hafter : Spec.deliveries b' = Spec.deliveries b₃ := by
        rw [heq]
        rfl
      have hrecord : SameSubscribers b (b₂.record (.pubrel (b.heap ref).client_id packet_id)) :=
        ⟨hsame.clients, hsame.subscribed_clients, hsame.tables⟩
      have hquiet : Spec.deliveries (b₂.record (.pubrel (b.heap ref).client_id packet_id)) =
          Spec.deliveries b₂ := deliveries_eq (by simp [handedOut, Broker.record, isPublish])
      rw [hafter, notifyClients_deliveries hnotify, hquiet, hdeliveries, hrecord.dueOf]
    | unknown hnone =>
      rw [show (b₂.record _).storage = b₂.storage from rfl, hstorage, htopic] at hnone
      cases hnone
  -- a will has no packet that is answered
  | @will _ ref hwill hflag =>
    rw [sendWill, if_pos hflag] at hwill
    obtain ⟨⟨b₁, topic⟩, hnotify, h⟩ := Except.bind_eq_ok_iff.mp hwill
    obtain rfl := Except.ok.inj h
    have hdeliveries := notifyClients_deliveries hnotify
    exact hdeliveries
  | @retained _ first fd err ref m hhandler hclient =>
    rw [subscribeHandler_request hclient] at hhandler
    obtain ⟨b₂, hsend, h⟩ := Except.bind_eq_ok_iff.mp hhandler
    obtain ⟨rfl, -⟩ := Prod.mk.inj (Except.ok.inj h)
    -- the records are entered before the retained messages are looked up
    have hadd := addSubscriptions_eq ref m.records b
    have hsent := @sendAllRetained_deliveries fd ref m.records _ _ (by rw [hadd]; exact hclient) hsend
    rw [hadd] at hsent
    exact hsent

/-- The smaller one of two numbers. -/
theorem eq_min_iff {o q : UInt8} : o = min q o ↔ o ≤ q := by
  show o = (if q ≤ o then q else o) ↔ o ≤ q
  split
  · rename_i hle
    exact ⟨fun h => h ▸ UInt8.le_refl o, fun h => UInt8.le_antisymm h hle⟩
  · rename_i hlt
    exact iff_of_true rfl (UInt8.le_of_lt (UInt8.not_le.mp hlt))

/-- On every route each subscriber with a matching filter is handed out one PUBLISH with the
    QoS of its options, whatever the QoS of the message is. It is the smaller of the two
    exactly when the message has at least the QoS of the options. -/
theorem delivered_with_options {b b' : Broker} {due : List Due} (h : Route b due b') :
    deliveries b' = deliveries b ++ due.map Due.delivered ∧
      ∀ d ∈ due, d.delivered.qos = d.options &&& 3 ∧
        (d.delivered = d.minimum ↔ d.options &&& 3 ≤ d.qos) := by
  refine ⟨h.deliveries, fun d _ => ⟨rfl, ?_⟩⟩
  simp only [Due.delivered, Due.minimum, Delivery.mk.injEq, true_and]
  exact eq_min_iff

/-- A PUBLISH of the topic `a` with QoS 0. -/
def publishA : Bytes := [0, 1, 0x61, 0, 0x78]

/-- A client that is subscribed to `a` with QoS 1 publishes it with QoS 0. -/
theorem route_publishA : ∃ b', Route (subscriber 1) [⟨5, 0, 0, 1⟩] b' := by
  have hrun : ((subscriber 1).publishHandler ⟨0x30, 5⟩ publishA 5).map (·.2) = .ok .ok := by
    decide +kernel
  have hread : (handleMqttPublish ⟨0x30, 5⟩ publishA).map (·.1.topic_name) = .ok [0x61] := by
    decide +kernel
  obtain ⟨⟨b', err⟩, hhandler, -⟩ := Except.map_eq_ok_iff.mp hrun
  obtain ⟨⟨vh, message⟩, hmessage, hname⟩ := Except.map_eq_ok_iff.mp hread
  have hdue : dueOf (subscriber 1) ⟨0, vh.packet_id, vh.topic_name, some message⟩ =
      [⟨5, 0, 0, 1⟩] := by
    rw [show vh.topic_name = [0x61] from hname]
    rfl
  exact ⟨b', hdue ▸ .publish hhandler (by decide) hmessage⟩

/-- It is handed out with QoS 1. -/
theorem delivered_with_options_publishA : ∃ b', Route (subscriber 1) [⟨5, 0, 0, 1⟩] b' ∧
    deliveries b' = [⟨5, 0, 1⟩] := by
  obtain ⟨b', h⟩ := route_publishA
  exact ⟨b', h, (delivered_with_options h).1⟩

/-- The packet does not have the smaller QoS. -/
theorem delivered_not_minimum : ¬ ∀ b due b', Route b due b' →
    (∀ d ∈ due, d.qos ≤ 2 ∧ d.options &&& 3 ≤ 2) →
      deliveries b' = deliveries b ++ due.map Due.minimum := by
  intro h
  obtain ⟨b', hroute⟩ := route_publishA
  have hmin := h _ _ _ hroute (by decide)
  rw [hroute.deliveries] at hmin
  exact absurd (List.append_cancel_left hmin) (by decide)

end Mqtt.Spec
