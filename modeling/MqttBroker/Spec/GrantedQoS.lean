import MqttBroker.Spec.DeliveredQoS
import MqttBroker.Spec.HashOrder
import MqttBroker.Spec.LatestRequest

/-!
# The QoS that is granted

The loop of `HandleMqttSubscribe` writes QoS 2 down for every filter, and `NotifyClients`
looks the options up in the table. The SUBACK is true exactly when the table has options
with QoS 2 for every filter of the packet that decides on the delivery of a topic.
-/

namespace Mqtt.Spec

open Mqtt.Native Mqtt.Native.Broker

/-! ## Topics of one filter -/

/-- A topic name that one filter takes and no other of a set; these can be compared with it. -/
def OnlyTakenBy (filters : Set Bytes) (f name : Bytes) : Prop :=
  Selects f name ∧ ∀ g ∈ filters, g ≠ f → ¬ Selects g name ∧ ¬ TooShort g name

/-- The filters of a table. -/
def filtersOf (table : UnorderedMap Bytes UInt8) : Set Bytes := { f | f ∈ table }

/-- The options of the only filter that takes a topic name are found. -/
theorem checkWildCards_of_onlyTakenBy {c : Client} {f name : Bytes} {options : UInt8}
    (honly : OnlyTakenBy (filtersOf c.subscribed_topics) f name)
    (hoptions : c.subscribed_topics.lookup f = some options) :
    c.checkWildCards name = .ok (true, options) := by
  obtain ⟨hsel, hothers⟩ := honly
  have hmem : ∀ {sub : Bytes × UInt8}, sub ∈ c.subscribed_topics.toList →
      sub.1 ∈ c.subscribed_topics := fun hsub =>
    AList.lookup_isSome.mp (by rw [UnorderedMap.mem_toList_iff.mp hsub]; rfl)
  refine checkSubscriptions_of_agree (fun sub hsub => ?_) (fun sub hsub hsub' => ?_)
    ⟨(f, options), UnorderedMap.mem_toList_iff.mpr hoptions, hsel⟩
  · -- no other filter takes the name, so none is too short for it either
    by_cases hf : sub.1 = f
    · rw [hf]
      exact hsel.not_tooShort
    · exact (hothers _ (hmem hsub) hf).2
  · by_cases hf : sub.1 = f
    · -- the table has one entry for the filter
      have hlookup := UnorderedMap.mem_toList_iff.mp hsub
      rw [hf, hoptions] at hlookup
      exact (Option.some.inj hlookup).symm
    · exact absurd hsub' (hothers _ (hmem hsub) hf).1

/-! ## What is delivered later -/

/-- Whatever else has changed, as long as a client has this table, `NotifyClients` hands
    out to it the topics that only `f` takes with this QoS. -/
def DeliveredWith (table : UnorderedMap Bytes UInt8) (ref : ClientRef) (f : Bytes)
    (qos : UInt8) : Prop :=
  ∀ (b b' : Broker) topic topic' released new, (b.heap ref).subscribed_topics = table →
    OnlyTakenBy (filtersOf table) f topic.name →
    b.notifyClients topic released = .ok (b', topic') → deliveries b' = deliveries b ++ new →
    ∀ d ∈ new, d.client = ref → d.qos = qos

/-- A broker whose only client has a given table. -/
def brokerWith (table : UnorderedMap Bytes UInt8) (ref : ClientRef) : Broker where
  heap _ := { ip := [], time_last_packet := 0, subscribed_topics := table }
  clients := AList.singleton 5 (some ref)
  subscribed_clients := AList.singleton 5 ref

/-- The QoS of the options is the one that topics are delivered with. -/
theorem deliveredWith_iff {table : UnorderedMap Bytes UInt8} {ref : ClientRef} {f : Bytes}
    {options qos : UInt8} (hoptions : table.lookup f = some options) :
    DeliveredWith table ref f qos ↔
      ((∃ name, OnlyTakenBy (filtersOf table) f name) → options &&& 3 = qos) := by
  constructor
  · rintro h ⟨name, honly⟩
    -- the topic is sent to a client that has just this table
    have hmatch : ((brokerWith table ref).heap ref).checkWildCards name = .ok (true, options) :=
      checkWildCards_of_onlyTakenBy honly hoptions
    have hclient : (brokerWith table ref).clients.lookup 5 = some (some ref) := rfl
    have hdue : dueOf (brokerWith table ref) ⟨0, 0, name, some payloadX⟩ =
        [⟨5, ref, 0, options⟩] :=
      List.filterMap_cons_some (dueTo_eq_some_iff.mpr
        ⟨alive_of_lookup hclient, options, hmatch, rfl⟩)
    obtain ⟨topic', hsend, -, -⟩ := @notifySubscriber_handOut
      ((brokerWith table ref).record (.notifyClients none ⟨0, 0, name, some payloadX⟩))
      ⟨0, 0, name, some payloadX⟩ payloadX (5, ref) rfl (fun _ => ⟨_, hmatch⟩)
      (fun _ _ _ _ => show (1 : UInt16) ≠ 0 by decide)
    generalize Option.elim _ _ _ = b' at hsend
    have hnotify : (brokerWith table ref).notifyClients ⟨0, 0, name, some payloadX⟩ none =
        .ok (b', topic') := by
      show notifySubscribers _ [(5, ref)] _ = _
      rw [notifySubscribers, hsend, Except.ok_bind]
      rfl
    have hnew := notifyClients_deliveries hnotify
    rw [hdue] at hnew
    exact h _ _ _ _ _ _ rfl honly hnotify hnew _ (.head _) rfl
  · -- whatever is sent to the client is due to the one filter that takes the name
    intro h b b' topic topic' released new htable honly hnotify hnew d hmem href
    rw [notifyClients_deliveries hnotify] at hnew
    obtain rfl := List.append_cancel_left hnew
    obtain ⟨due, hdue, rfl⟩ := List.mem_map.mp hmem
    obtain ⟨it, -, hit⟩ := List.mem_filterMap.mp hdue
    obtain ⟨-, options', hmatch, rfl⟩ := dueTo_eq_some_iff.mp hit
    obtain rfl : it.2 = ref := href
    -- the table decides on the options
    rw [checkWildCards_of_onlyTakenBy (htable ▸ honly) (htable ▸ hoptions)] at hmatch
    obtain ⟨-, rfl⟩ := Prod.mk.inj (Except.ok.inj hmatch)
    exact h ⟨topic.name, honly⟩

/-! ## The SUBACK -/

/-- The broker between the SUBACK of a request and the retained messages. -/
def afterSuback (b : Broker) (fd : Fd) (ref : ClientRef) (m : SubscribeRequest) : Broker :=
  (addSubscriptions b ref m.records).addCommand fd
    (reasonsPacket .SUBACK m.packet_id (List.replicate m.records.length 2))

/-- A SUBACK has been queued with one reason code for each filter, in order. A code is that
    of a failure when the options have no QoS, and otherwise their QoS, with which topics of
    the filter are delivered from then on. -/
def TellsTruth (b b₁ : Broker) (fd : Fd) (ref : ClientRef) (m : SubscribeRequest) : Prop :=
  ∃ codes : List UInt8, b₁.commands = b.commands ++ [⟨fd, reasonsPacket .SUBACK m.packet_id codes⟩] ∧
    codes.length = m.records.length ∧
    ∀ (i : Nat) f options, m.records[i]? = some (f, options) → ∃ code, codes[i]? = some code ∧
      if options &&& 3 = 3 then 0x80 ≤ code
      else code = options &&& 3 ∧ DeliveredWith (b₁.heap ref).subscribed_topics ref f code

/-- The filters that a client has after a request. -/
def filtersAfter (table : UnorderedMap Bytes UInt8) (m : SubscribeRequest) : Set Bytes :=
  { f | f ∈ table ∨ f ∈ m.records.map Prod.fst }

/-- All options of a packet have QoS 2, and so do those that the table has already for one
    of its filters, if a topic is delivered by that filter alone. -/
def AllQoS2 (table : UnorderedMap Bytes UInt8) (m : SubscribeRequest) : Prop :=
  ∀ record ∈ m.records, record.2 &&& 3 = 2 ∧ ∀ old, table.lookup record.1 = some old →
    (∃ name, OnlyTakenBy (filtersAfter table m) record.1 name) → old &&& 3 = 2

/-- The reason codes can be read off a packet. -/
theorem reasonsPacket_inj {type : PackType} {packet_id : UInt16} {codes codes' : List UInt8}
    (h : reasonsPacket type packet_id codes = reasonsPacket type packet_id codes') :
    codes = codes' :=
  (List.cons.inj (List.append_cancel_left (packetBytes_inj h).2)).2

/-- The options under a filter of a packet: those from before, or the first in the packet. -/
theorem lookup_after {table : UnorderedMap Bytes UInt8} {m : SubscribeRequest}
    {record : Bytes × UInt8} (hmem : record ∈ m.records) :
    ∃ options, (table.insertAllNew m.records).lookup record.1 = some options ∧
      (table.lookup record.1 = some options ∨
        (table.lookup record.1 = none ∧ (record.1, options) ∈ m.records)) := by
  rw [UnorderedMap.lookup_insertAllNew]
  cases hold : table.lookup record.1 with
  | some old => exact ⟨old, rfl, .inl rfl⟩
  | none =>
    cases hfind : m.records.find? fun e => e.1 = record.1 with
    | none =>
      have hne := List.find?_eq_none.mp hfind record hmem
      simp at hne
    | some first =>
      have hkey : first.1 = record.1 := by simpa using List.find?_some hfind
      exact ⟨first.2, rfl, .inr ⟨rfl, hkey ▸ List.mem_of_find?_eq_some hfind⟩⟩

/-- The constant reason codes are true exactly when every filter is delivered with QoS 2. -/
theorem tellsTruth_iff (b : Broker) (fd : Fd) (ref : ClientRef) (m : SubscribeRequest) :
    TellsTruth b (afterSuback b fd ref m) fd ref m ↔
      AllQoS2 (b.heap ref).subscribed_topics m := by
  let table := (b.heap ref).subscribed_topics
  have htable : ((afterSuback b fd ref m).heap ref).subscribed_topics =
      table.insertAllNew m.records := addSubscriptions_subscribed_topics ref m.records b
  have hcommands : (afterSuback b fd ref m).commands = b.commands ++
      [⟨fd, reasonsPacket .SUBACK m.packet_id (List.replicate m.records.length 2)⟩] := by
    rw [afterSuback, addSubscriptions_eq]
    rfl
  have hfilters : filtersOf (table.insertAllNew m.records) = filtersAfter table m :=
    Set.ext fun f => UnorderedMap.mem_insertAllNew
  constructor
  · rintro ⟨codes, hcodes, -, htruth⟩ record hmem
    obtain ⟨i, hi⟩ := List.mem_iff_getElem?.mp hmem
    obtain ⟨code, hcode, hgranted⟩ := htruth i record.1 record.2 hi
    -- the codes are the constant 2
    obtain rfl : List.replicate m.records.length 2 = codes := by
      rw [hcommands] at hcodes
      obtain ⟨hcommand, -⟩ := List.cons.inj (List.append_cancel_left hcodes)
      exact reasonsPacket_inj (FdWriteCommand.mk.inj hcommand).2
    obtain rfl : (2 : UInt8) = code := by
      rw [List.getElem?_replicate] at hcode
      split at hcode
      · exact Option.some.inj hcode
      · cases hcode
    split at hgranted
    · exact absurd hgranted (by decide)
    · obtain ⟨htwo, hdelivered⟩ := hgranted
      refine ⟨htwo.symm, fun old hold hname => ?_⟩
      rw [htable] at hdelivered
      -- a filter that was there keeps its options
      have hafter : (table.insertAllNew m.records).lookup record.1 = some old := by
        rw [UnorderedMap.lookup_insertAllNew, hold]
        rfl
      exact (deliveredWith_iff hafter).mp hdelivered (hfilters ▸ hname)
  · -- each filter is granted 2, and what is delivered for it has QoS 2
    intro htwo
    refine ⟨_, hcommands, List.length_replicate, fun i f options hi => ?_⟩
    have hmem := List.mem_of_getElem? hi
    have hqos : options &&& 3 = 2 := (htwo _ hmem).1
    refine ⟨2, ?_, ?_⟩
    · rw [List.getElem?_replicate, if_pos (List.getElem?_eq_some_iff.mp hi).1]
    · rw [hqos, if_neg (by decide), htable]
      obtain ⟨stored, hstored, hfrom⟩ := @lookup_after table _ _ hmem
      refine ⟨rfl, (deliveredWith_iff hstored).mpr fun hname => ?_⟩
      rcases hfrom with hold | ⟨-, hfirst⟩
      · exact (htwo _ hmem).2 stored hold (hfilters ▸ hname)
      · exact (htwo _ hfirst).1

/-- A well-formed SUBSCRIBE queues a SUBACK before the retained messages are sent, and the
    SUBACK tells the truth exactly when the options have QoS 2. -/
theorem suback_true_iff {b : Broker} {fd : Fd} {ref : ClientRef}
    (hclient : b.clients.lookup fd = some (some ref)) (first : UInt8) (m : SubscribeRequest) :
    b.subscribeHandler ⟨first, m.encode.length⟩ m.encode fd = (do
      let b ← sendAllRetained fd m.records (afterSuback b fd ref m)
      return (b.addSubscribedClient fd ref, .ok)) ∧
    (TellsTruth b (afterSuback b fd ref m) fd ref m ↔
      AllQoS2 (b.heap ref).subscribed_topics m) :=
  ⟨subscribeHandler_request hclient first m, tellsTruth_iff b fd ref m⟩

/-- The SUBACK of a first SUBSCRIBE with QoS 2. -/
theorem suback_true_qos2 : TellsTruth oneClient
    (afterSuback oneClient 5 0 (subscribeRequest 2)) 5 0 (subscribeRequest 2) := by
  refine (suback_true_iff rfl 0x82 (subscribeRequest 2)).2.mpr fun record hmem => ?_
  obtain rfl := List.mem_singleton.mp hmem
  exact ⟨rfl, nofun⟩

/-- QoS 0 is asked for, and QoS 2 is granted. -/
theorem suback_grants_more : ¬ TellsTruth oneClient
    (afterSuback oneClient 5 0 (subscribeRequest 0)) 5 0 (subscribeRequest 0) := by
  intro h
  have hqos := ((tellsTruth_iff _ _ _ _).mp h ([0x74], 0) (.head _)).1
  exact absurd hqos (by decide)

end Mqtt.Spec
