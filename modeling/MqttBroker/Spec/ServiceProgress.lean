import MqttBroker.Spec.ServiceDelivery

/-!
# Progress of the service

The other direction of the refinement. Whatever the broker does the service may do; here what a
client may ask for the broker does: a packet that is understood is served, unless a filter is
too short for a name, or a packet id that a message needs is 0.
-/

namespace Mqtt.Spec

open Mqtt.Native Mqtt.Native.Broker

namespace Service

/-- A message can be sent to all who have subscribed: no filter is too short for its name, and
    where a filter with a QoS takes the name the next packet id is not 0. -/
def Sendable (S : Service) (name : Bytes) : Prop :=
  ∀ fd σ, S.sessions fd = some σ → σ.subscribed →
    (∀ f, (σ.filters f).isSome → ¬ TooShort f name) ∧
    ∀ f options, σ.filters f = some options → Selects f name → options &&& 3 ≠ 0 → σ.next_id ≠ 0

/-- The retained messages can be searched for a filter: it outruns none of their names. -/
def Searchable (S : Service) (filter : Bytes) : Prop :=
  filter = multiLevel ∨ filter = rootMultiLevel ∨
    ∀ name, (S.retained name).isSome → ¬ Outruns (tokenize filter) (tokenize name)

/-- What a packet needs to be served. A CONNECT is left out. -/
def Servable (S : Service) (σ : Session) : ClientPacket → Prop
  | .connect _ _ _ _ | .badConnect => False
  | .publish qos _ _ m => qos ≠ 2 → S.Sendable m.1
  | .pubrel packet_id => ∀ topic, S.heldFor σ.client_id packet_id = some topic →
    S.Sendable topic.name
  | .subscribe _ records => (∀ record ∈ records, S.Searchable record.1) ∧
    ∃ σ' ps, (σ.subscribe records).SendsRetained S.retained records σ' ps
  | _ => True

variable {S S' : Service}

/-- Whether a message can be sent depends on the sessions alone. -/
theorem Sendable.congr {name : Bytes} (h : S.Sendable name) (hsessions : S'.sessions = S.sessions) :
    S'.Sendable name :=
  fun fd σ hσ => h fd σ (hsessions ▸ hσ)

end Service

section handlers

variable {b : Broker} {fh : FixedHeader} {data : Bytes} {fd : Fd} {ref : ClientRef}
  {ending : List Fd}

/-! ## Notification -/

/-- Filters that are long enough can be compared. -/
theorem checkWildCards_ok {c : Client} {name : Bytes}
    (h : ∀ f, (c.subscribed_topics.lookup f).isSome → ¬ TooShort f name) :
    ∃ r, c.checkWildCards name = .ok r := by
  refine (checkSubscriptions_ok_iff name _).mpr fun pre sub post hsubs _ => h sub.1 ?_
  have hmem : sub ∈ c.subscribed_topics.toList := by
    rw [hsubs]
    exact List.mem_append_right _ (.head _)
  exact Option.isSome_of_eq_some (UnorderedMap.mem_toList_iff.mp hmem)

/-- Every subscriber has a session that has subscribed. -/
theorem ServiceInv.session (h : ServiceInv b) {it : Fd × ClientRef}
    (hit : b.subscribed_clients.lookup it.1 = some it.2) :
    (serviceOf b ending).sessions it.1 = some (sessionOf (b.heap it.2) true) := by
  rw [sessions_of_lookup (h.mirrors _ _ hit), hit]
  rfl

/-- `NotifyClients` gets through with a message that can be sent to all. -/
theorem notifyClients_ok {topic : MqttTopic} {message : MqttBinaryDataEntity}
    (released : Option (Bytes × UInt16)) (h : ServiceInv b) (hdata : topic.data = some message)
    (hsend : (serviceOf b ending).Sendable topic.name) :
    ∃ b' topic', b.notifyClients topic released = .ok (b', topic') := by
  have hlookup : ∀ {it}, it ∈ b.subscribed_clients.toList →
      b.subscribed_clients.lookup it.1 = some it.2 := fun hmem => UnorderedMap.mem_toList_iff.mp hmem
  -- each subscriber can be looked up, and has a packet id if it needs one
  have hready : ∀ it ∈ b.subscribed_clients.toList,
      (∃ r, (b.heap it.2).checkWildCards topic.name = .ok r) ∧
      ∀ options, (b.heap it.2).checkWildCards topic.name = .ok (true, options) →
        options &&& 3 ≠ 0 → (b.heap it.2).packet_id_gen ≠ 0 := by
    intro it hit
    obtain ⟨hfilters, hcounter⟩ := hsend it.1 _ (h.session (hlookup hit)) rfl
    refine ⟨checkWildCards_ok hfilters, fun options hmatch hqos => ?_⟩
    obtain ⟨f, hf, hselects⟩ := checkWildCards_taken hmatch
    exact hcounter f options hf hselects hqos
  obtain ⟨topic', hrun⟩ := @notifySubscribers_handOut b topic message b.subscribed_clients.toList
    (b.record (.notifyClients released topic)) topic rfl hdata
    (fun it _ => ⟨rfl, fun _ => rfl, fun _ => rfl⟩)
    ((h.mirrors.oneEach h.own).pairwise (List.Perm.refl _))
    (fun it hit _ => (hready it hit).1) (fun it hit _ => (hready it hit).2)
  exact ⟨_, topic', hrun⟩

/-! ## Answers -/

/-- A packet that holds a packet id can always be made. -/
theorem createMqttPacket_answer (first : UInt8) (packet_id : UInt16) : ∃ answer,
    createMqttPacket first (PubackVH.mk packet_id ReasonCode.success.code OrderedSet.empty) =
      .ok answer := by
  let vh : PubackVH := ⟨packet_id, ReasonCode.success.code, OrderedSet.empty⟩
  have hsize : IVariableHeader.getSize vh = (encodeHeader (.puback vh)).length :=
    (@length_encodeHeader (.puback vh) (Nat.zero_le _)).symm
  exact ⟨_, createMqttPacket_eq (makes_header (.puback vh)).writes hsize first⟩

/-- The answer to a PUBLISH can be made. -/
theorem answerPublish_ok (h : ServiceInv b) (packet_id : UInt16) :
    ∃ b', b.answerPublish fh packet_id fd ref = .ok b' := by
  obtain ⟨puback, hpuback⟩ := createMqttPacket_answer (packetByte .PUBACK) packet_id
  obtain ⟨pubrec, hpubrec⟩ := createMqttPacket_answer (packetByte .PUBREC) packet_id
  unfold answerPublish
  dsimp only
  split
  · exact ⟨_, by rw [hpuback]; rfl⟩
  · split
    · -- nothing waits for the client
      exact ⟨_, by rw [h.queue, hpubrec]; rfl⟩
    · exact ⟨_, rfl⟩

/-! ## The handlers -/

/-- The handler of PUBLISH ends well where the message can be sent on. -/
theorem publishHandler_ok {vh : PublishVH} {message : MqttBinaryDataEntity} (h : ServiceInv b)
    (hclient : b.clients.lookup fd = some (some ref))
    (hread : handleMqttPublish fh data = .ok (vh, message))
    (hsend : fh.qoS ≠ 2 → (serviceOf b ending).Sendable vh.topic_name) :
    ∃ b', b.publishHandler fh data fd = .ok (b', .ok) := by
  have hretain := retain_shows ending h fh vh message
  obtain ⟨b₁, hanswer⟩ := @answerPublish_ok _ fh fd ref hretain.inv vh.packet_id
  obtain ⟨hanswered, -⟩ := answerPublish_shows ending hretain.inv hanswer
  rw [publishHandler, clientAt_eq hclient]
  dsimp only
  rw [hread, Except.ok_bind]
  change ∃ b', (retain b fh vh message).answerPublish fh vh.packet_id fd ref >>= _ = _
  rw [hanswer, Except.ok_bind]
  split
  · rename_i hqos
    have hsessions : (serviceOf b₁ ending).sessions = (serviceOf b ending).sessions := by
      rw [hanswered.shows, hretain.shows, Service.sessions_retain]
    obtain ⟨b₂, topic', hnotify⟩ := @notifyClients_ok _ ending
      (.new fh.qoS vh.packet_id vh.topic_name (some message)) message none hanswered.inv rfl
      ((hsend hqos).congr hsessions)
    exact ⟨b₂, by rw [hnotify]; rfl⟩
  · -- with QoS 2 the message is held
    exact ⟨_, rfl⟩

/-- The handler of PUBREL ends well where the held message can be sent on. -/
theorem pubrelHandler_ok {packet_id : UInt16} (h : ServiceInv b)
    (hclient : b.clients.lookup fd = some (some ref))
    (hread : PubackVH.readFromBuf data = .ok packet_id)
    (hsend : ∀ topic, (serviceOf b ending).heldFor (b.heap ref).client_id packet_id = some topic →
      topic.data.isSome ∧ (serviceOf b ending).Sendable topic.name) :
    ∃ b', b.pubrelHandler data fd = .ok (b', .ok) := by
  obtain ⟨answer, hanswer⟩ := createMqttPacket_answer (packetByte .PUBCOMP) packet_id
  have hqueued : Shows b ending [(fd, .pubcomp packet_id)] (b.addCommand fd answer) _ :=
    .addCommand h fd (createMqttPacket_ack hanswer)
  have hrecord : Shows (b.addCommand fd answer) ending []
      ((b.addCommand fd answer).record (.pubrel (b.heap ref).client_id packet_id)) _ :=
    .record hqueued.inv rfl
  rw [pubrelHandler, clientAt_eq hclient]
  dsimp only [deref]
  rw [hread, Except.ok_bind, Except.ok_bind, hanswer, Except.ok_bind, hqueued.inv.delQosEvent,
    hqueued.inv.sendKeptMessage, Except.ok_bind]
  split
  · rename_i topic htopic
    obtain ⟨hdata, hsendable⟩ := hsend topic htopic
    obtain ⟨message, hmessage⟩ := Option.isSome_iff_exists.mp hdata
    obtain ⟨b₁, topic', hnotify⟩ := @notifyClients_ok _ ending topic message
      (some ((b.heap ref).client_id, packet_id)) hrecord.inv hmessage
      (hsendable.congr (by rw [hrecord.shows, hqueued.shows]))
    exact ⟨_, by rw [hnotify]; rfl⟩
  · -- nothing is held under this id
    exact ⟨_, rfl⟩

/-- The handler of PUBACK ends well. -/
theorem pubackHandler_ok {packet_id : UInt16} (h : ServiceInv b)
    (hclient : b.clients.lookup fd = some (some ref))
    (hread : PubackVH.readFromBuf data = .ok packet_id) :
    ∃ b', b.pubackHandler data fd = .ok (b', .ok) := by
  have hrecord : Shows b [] [] (b.record (.acknowledged ref .PUBACK packet_id)) _ :=
    .record h rfl
  rw [pubackHandler, clientAt_eq hclient]
  dsimp only [deref]
  rw [hread, Except.ok_bind, Except.ok_bind, h.delQosEvent, hrecord.inv.sendKeptMessage]
  exact ⟨_, rfl⟩

/-- The handler of PUBREC ends well. -/
theorem pubrecHandler_ok {packet_id : UInt16} (h : ServiceInv b)
    (hclient : b.clients.lookup fd = some (some ref))
    (hread : PubackVH.readFromBuf data = .ok packet_id) :
    ∃ b', b.pubrecHandler data fd = .ok (b', .ok) := by
  obtain ⟨answer, hanswer⟩ := createMqttPacket_answer (packetByte .PUBREL ||| 0x02) packet_id
  rw [pubrecHandler, hread, Except.ok_bind, derefAt_eq hclient, Except.ok_bind]
  dsimp only
  rw [h.delQosEvent, hanswer]
  exact ⟨_, rfl⟩

/-- The handler of PUBCOMP ends well. -/
theorem pubcompHandler_ok {packet_id : UInt16} (h : ServiceInv b)
    (hclient : b.clients.lookup fd = some (some ref))
    (hread : PubackVH.readFromBuf data = .ok packet_id) :
    ∃ b', b.pubcompHandler data fd = .ok (b', .ok) := by
  rw [pubcompHandler, hread, Except.ok_bind, derefAt_eq hclient, Except.ok_bind]
  dsimp only
  rw [h.sendKeptMessage]
  exact ⟨_, rfl⟩

/-- The handler of PINGREQ ends well. -/
theorem pingHandler_ok (hclient : b.clients.lookup fd = some (some ref)) :
    ∃ b', b.pingHandler fd = .ok (b', .ok) := by
  have hping : createMqttPacketEmpty (packetByte .PINGRESP) = .ok [0xD0, 0] := by decide
  rw [pingHandler, derefAt_eq hclient, Except.ok_bind]
  dsimp only
  rw [hping]
  exact ⟨_, rfl⟩

/-- The reason code is there when the length says so. -/
theorem disconnectHandler_ok (hclient : b.clients.lookup fd = some (some ref)) (first : UInt8) :
    b.disconnectHandler ⟨first, data.length⟩ data fd = .ok (b, .disconnect) := by
  rw [disconnectHandler, derefAt_eq hclient, Except.ok_bind]
  cases data with
  | nil => rfl
  | cons code rest => rfl

/-- The handler of UNSUBSCRIBE ends well when its filters can be read. -/
theorem unsubscribeHandler_ok {packet_id : UInt16} {offset : Nat} {filters : List Bytes}
    (hclient : b.clients.lookup fd = some (some ref))
    (hread : UnsubscribeVH.readFromBuf data = .ok (packet_id, offset))
    (hloop : unsubscribeLoop fh.remaining_len data (data.length + 1) offset [] = .ok filters) :
    ∃ b', b.unsubscribeHandler fh data fd = .ok (b', .ok) := by
  rw [unsubscribeHandler, derefAt_eq hclient, Except.ok_bind]
  dsimp only
  rw [hread, Except.ok_bind]
  dsimp only
  rw [hloop, Except.ok_bind, createMqttPacket_unsubAck]
  exact ⟨_, rfl⟩

end handlers

/-! ## Retained messages -/

namespace Service.Session

variable {σ σ₁ σ₂ : Session} {filter : Bytes} {ms ms' : List Message}

/-- Which messages a filter takes, and in which order, is determined. -/
theorem Takes.unique {retained : Bytes → Option MqttBinaryDataEntity} (h : Takes retained filter ms)
    (h' : Takes retained filter ms') : ms = ms' := by
  have hnodup : ∀ {ms : List Message}, (ms.Pairwise fun m m' => m.1 < m'.1) → ms.Nodup := by
    intro ms hsorted
    refine hsorted.imp fun {m m'} hlt heq => ?_
    rw [heq] at hlt
    exact List.lt_irrefl _ hlt
  have hperm : ms.Perm ms' := (List.perm_ext_iff_of_nodup (hnodup h.1) (hnodup h'.1)).mpr
    fun m => (h.2 m).trans (h'.2 m).symm
  exact hperm.eq_of_pairwise (fun _ _ _ _ hlt hlt' => absurd hlt' (List.lt_asymm hlt)) h.1 h'.1

/-- What is left behind by sending is determined. -/
theorem Sends.unique {options : UInt8} {ps ps' : List ServerPacket} (h : σ.Sends options ms σ₁ ps)
    (h' : σ.Sends options ms σ₂ ps') : σ₁ = σ₂ := by
  induction h generalizing ps' with
  | nil =>
    cases h' with
    | nil => rfl
  | cons _ _ ih =>
    cases h' with
    | cons _ hrest => exact ih hrest

end Service.Session

section retained

variable {b : Broker} {fd : Fd} {ref : ClientRef} {ending : List Fd}

/-- A message can be sent to one client when its next packet id is not 0, or no id is taken. -/
theorem notifyClient_ok {topic : MqttTopic} {message : MqttBinaryDataEntity} (h : ServiceInv b)
    (hclient : b.clients.lookup fd = some (some ref)) (hdata : topic.data = some message)
    (hnumbered : (sessionOf (b.heap ref) (b.subscribed_clients.lookup fd).isSome).Numbered
      topic.qos) : ∃ b', b.notifyClient fd topic = .ok b' := by
  have hcreate := @createPublish_eq (topic.setPacketID (nextPacketID (b.heap ref) topic.qos)) _ hdata
    hnumbered
  rw [notifyClient, derefAt_eq hclient, Except.ok_bind]
  dsimp only
  rw [assign_sendTopic (h.queue _), hcreate]
  exact ⟨_, rfl⟩

/-- What the service may send the broker sends. -/
theorem sendRetained_ok {options : UInt8} (topics : List MqttTopic) :
    ∀ {b : Broker} {σ σ' : Service.Session} {ms : List Message} {ps : List ServerPacket},
      ServiceInv b → b.clients.lookup fd = some (some ref) →
      (serviceOf b ending).sessions fd = some σ → topics.map messageOf = ms.map some →
      σ.Sends options ms σ' ps → ∃ b', sendRetained fd options topics b = .ok b' := by
  -- Induction on the retained topics; each message is numbered by what those before it left
  induction topics with
  | nil => exact fun _ _ _ _ _ => ⟨_, rfl⟩
  | cons it rest ih =>
    intro b σ σ' ms ps h hclient hσ hms hsends
    cases hsends with
    | nil => exact nomatch hms
    | @cons _ _ m ms ps hnumbered hrest =>
      obtain ⟨hm, hms⟩ := List.cons.inj hms
      obtain ⟨message, hdata, -⟩ := Option.map_eq_some_iff.mp hm
      obtain rfl := Option.some.inj (hσ.symm.trans (sessions_of_lookup hclient))
      obtain ⟨b₁, hnotify⟩ := @notifyClient_ok _ _ _ (it.setQos options) _ h hclient hdata hnumbered
      obtain ⟨_, -, -, hshows⟩ := notifyClient_shows ending h hclient hnotify
      have hclient₁ : b₁.clients.lookup fd = some (some ref) :=
        (notifyClient_deliveries hclient hnotify).2.clients ▸ hclient
      obtain ⟨b₂, hsend⟩ := ih hshows.inv hclient₁
        (by rw [hshows.shows, Service.sessions_edit_self hσ]; rfl) hms hrest
      exact ⟨b₂, by rw [sendRetained, hnotify, Except.ok_bind, hsend]⟩

/-- All retained topics have a message. -/
def RetainsData (b : Broker) : Prop := ∀ topic ∈ b.storage.topics.toList, topic.data.isSome

/-- The retained messages of a filter can be searched. -/
theorem getMatchedTopics_ok {filter : Bytes} (hdata : RetainsData b)
    (h : (serviceOf b ending).Searchable filter) :
    ∃ matched, b.storage.getMatchedTopics filter = .ok matched := by
  rw [TopicStorage.getMatchedTopics]
  split
  · exact ⟨_, rfl⟩
  · rename_i hsome
    rw [not_or] at hsome
    have hnames := (h.resolve_left hsome.1).resolve_left hsome.2
    refine (matchStoredTopics_ok_iff _).mpr fun topic htopic => hnames topic.name ?_
    have hfind := mem_topics_iff.mp htopic
    simp only [serviceOf, TopicStorage.getStoredValuePtr, hfind]
    exact hdata topic htopic

/-- The topics that are found have the messages that the filter takes. -/
theorem map_messageOf_matched {filter : Bytes} {matched : OrderedSet MqttTopic.name}
    {ms : List Message} (hdata : RetainsData b)
    (hmatched : b.storage.getMatchedTopics filter = .ok matched)
    (htakes : Service.Session.Takes (serviceOf b ending).retained filter ms) :
    matched.toList.map messageOf = ms.map some := by
  have hsome : ∀ m ∈ matched.toList.map messageOf, m.isSome := by
    refine List.forall_mem_map.mpr fun topic htopic => ?_
    rw [messageOf, Option.isSome_map]
    exact hdata topic (mem_of_getMatchedTopics hmatched htopic)
  have hms : (matched.toList.filterMap messageOf).map some = matched.toList.map messageOf := by
    rw [List.map_filterMap_some_eq_filter_map_isSome, List.filter_eq_self.mpr hsome]
  rw [← hms, (takes_of_getMatchedTopics ending hmatched hms.symm).unique htakes]

/-- The retained messages for all records can be sent. -/
theorem sendAllRetained_ok (records : List (Bytes × UInt8)) :
    ∀ {b : Broker} {σ σ' : Service.Session} {ps : List ServerPacket}, ServiceInv b →
      RetainsData b → b.clients.lookup fd = some (some ref) →
      (serviceOf b ending).sessions fd = some σ →
      (∀ record ∈ records, (serviceOf b ending).Searchable record.1) →
      σ.SendsRetained (serviceOf b ending).retained records σ' ps →
      ∃ b', sendAllRetained fd records b = .ok b' := by
  induction records with
  | nil => exact fun _ _ _ _ _ _ => ⟨_, rfl⟩
  | cons record records ih =>
    intro b σ σ' ps h hdata hclient hσ hsearch hsends
    obtain ⟨hfirst, hrest⟩ := List.forall_mem_cons.mp hsearch
    cases hsends with
    | @cons _ σ₁ _ _ _ ms _ ps' htakes hone hlater =>
      obtain ⟨matched, hmatched⟩ := getMatchedTopics_ok hdata hfirst
      have hms := map_messageOf_matched hdata hmatched htakes
      obtain ⟨b₁, hsend⟩ := sendRetained_ok _ h hclient hσ hms hone
      obtain ⟨ms', σ₁', _, hms', hone', hshows⟩ := sendRetained_shows ending _ h hclient hσ hsend
      obtain rfl : ms = ms' := List.map_injective_iff.mpr (Option.some_injective _)
        (hms.symm.trans hms')
      obtain rfl := hone.unique hone'
      have hout := sendRetained_eq_ok _ hsend
      have hdata₁ : RetainsData b₁ := by rwa [RetainsData, hout.storage_eq]
      have hclient₁ : b₁.clients.lookup fd = some (some ref) := hout.clients_eq ▸ hclient
      -- the records behind find the broker as this one has left it
      obtain ⟨b₂, hsend₂⟩ := @ih b₁ σ₁ σ' ps' hshows.inv hdata₁ hclient₁
        (by rw [hshows.shows, Service.sessions_edit_self hσ])
        (fun record hrecord => by rw [hshows.shows]; exact hrest record hrecord)
        (by rw [hshows.shows]; exact hlater)
      exact ⟨b₂, by rw [sendAllRetained, hmatched, Except.ok_bind, hsend, Except.ok_bind, hsend₂]⟩

/-- The handler of SUBSCRIBE ends well where the retained messages can be sent. -/
theorem subscribeHandler_ok {fh : FixedHeader} {data : Bytes} {packet_id : UInt16} {offset : Nat}
    {records : List (Bytes × UInt8)} (h : ServiceInv b) (hdata : RetainsData b)
    (hclient : b.clients.lookup fd = some (some ref))
    (hread : SubscribeVH.ofBuf data = .ok (packet_id, offset))
    (hsubscribing : Subscribing fh data records)
    (hserve : (serviceOf b ending).Servable
      (sessionOf (b.heap ref) (b.subscribed_clients.lookup fd).isSome)
      (.subscribe packet_id records)) :
    ∃ b', b.subscribeHandler fh data fd = .ok (b', .ok) := by
  obtain ⟨hsearch, σ', ps, hsends⟩ := hserve
  obtain ⟨b₀, pClient, _, _, _, _, hread₀, hloop⟩ := hsubscribing
  obtain ⟨rfl, rfl⟩ := Prod.mk.inj (Except.ok.inj (hread.symm.trans hread₀))
  -- the records hang on the body only
  rw [subscribeLoop_eq_map, subscribeRecords_eq] at hloop
  obtain ⟨_, hrecords, hresult⟩ := Except.map_eq_ok_iff.mp hloop
  obtain ⟨r, hreads, rfl⟩ := Except.map_eq_ok_iff.mp hrecords
  cases hresult
  simp only [List.nil_append] at hsearch hsends
  -- the filters are in and the SUBACK is queued before the retained messages are searched
  have hadd := addSubscriptions_shows ending h hclient r.1
  have hqueued : Shows (addSubscriptions b ref r.1) ending
      [(fd, .suback packet_id (List.replicate r.1.length 2))] _ _ := .addCommand hadd.inv fd rfl
  have hclient₁ : (addSubscriptions b ref r.1).clients.lookup fd = some (some ref) := by
    rw [addSubscriptions_eq_setClient]
    exact hclient
  have hdata₁ : RetainsData (addSubscriptions b ref r.1) := by
    rw [addSubscriptions_eq_setClient]
    exact hdata
  obtain ⟨b', hsend⟩ := @sendAllRetained_ok fd ref ending r.1 _ _ σ' ps hqueued.inv hdata₁ hclient₁
    (by rw [hqueued.shows, hadd.shows, Service.sessions_edit_self (sessions_of_lookup hclient)])
    (by rw [hqueued.shows, hadd.shows]; exact hsearch)
    (by rw [hqueued.shows, hadd.shows]; exact hsends)
  rw [subscribeHandler, clientAt_eq hclient]
  dsimp only [deref]
  rw [hread, Except.ok_bind, Except.ok_bind, subscribeLoop_eq_map, subscribeRecords_eq, hreads]
  refine ⟨b'.addSubscribedClient fd ref, ?_⟩
  change createMqttPacket (packetByte .SUBACK)
    (SubackVH.mk packet_id OrderedSet.empty ([] ++ List.replicate r.1.length 2)) >>= _ = _
  rw [List.nil_append, createMqttPacket_suback, Except.ok_bind]
  change sendAllRetained fd r.1 ((addSubscriptions b ref r.1).addCommand fd
    (ServerPacket.suback packet_id (List.replicate r.1.length 2)).encode) >>= _ = _
  rw [hsend]
  rfl

end retained

/-! ## Held messages -/

namespace Service

variable {S S' : Service} {fd : Fd} {σ σ' : Session} {out : List Outgoing}

/-- Every message that waits for its PUBREL is there. -/
def HeldFull (S : Service) : Prop := ∀ client_id, ∀ topic ∈ S.held client_id, topic.data.isSome

/-- Whether held messages have data depends on what is held alone. -/
theorem HeldFull.congr (h : S.HeldFull) (hheld : S'.held = S.held) : S'.HeldFull :=
  fun client_id topic htopic => h client_id topic (hheld ▸ htopic)

/-- A packet holds messages with data only. -/
theorem Handles.heldFull {p : ClientPacket} {queued written : List Outgoing} {keep : Bool}
    (h : S.Handles fd σ p queued written keep S') (hfull : S.HeldFull) : S'.HeldFull := by
  have hretain : ∀ retain m, (S.retain retain m).HeldFull := by
    intro retain m
    refine hfull.congr ?_
    rw [Service.retain]
    split <;> rfl
  cases h with
  | connect htakes => exact hfull.congr (congrArg held htakes.others :)
  | badConnect hid =>
    obtain rfl | ⟨_, _, _, htakes⟩ := hid
    · exact hfull.congr rfl
    · exact hfull.congr (congrArg held htakes.others :)
  | publish _ hnotifies => exact (hretain _ _).congr (congrArg held hnotifies.others :)
  | @hold retain packet_id m =>
    intro client_id topic htopic
    simp only [Service.hold] at htopic
    by_cases hid : client_id = σ.client_id
    · -- for the client of the packet one message more, and for the others the same
      rw [hid, Function.update_self] at htopic
      obtain rfl | htopic := List.mem_cons.mp htopic
      · rfl
      · exact hretain retain m _ topic htopic
    · rw [Function.update_of_ne hid] at htopic
      exact hretain retain m _ topic htopic
  | @release packet_id _ _ S' _ hnotifies =>
    have hfull' := hfull.congr (congrArg held hnotifies.others :)
    intro client_id topic htopic
    simp only [Service.release] at htopic
    by_cases hid : client_id = σ.client_id
    · rw [hid, Function.update_self] at htopic
      exact hfull' _ topic (List.mem_of_mem_eraseP htopic)
    · rw [Function.update_of_ne hid] at htopic
      exact hfull' _ topic htopic
  | _ => exact hfull.congr rfl

/-- Each step holds messages with data only. -/
theorem Step.heldFull {l : Label} (h : S.Step l S') (hfull : S.HeldFull) : S'.HeldFull := by
  cases h with
  | packet _ hhandles => exact hhandles.heldFull (hfull.congr rfl)
  | lastPacket _ hhandles => exact (hhandles.heldFull (hfull.congr rfl)).congr rfl
  | @lost _ _ now _ S₁ _ _ hS₁ hwill =>
    have hheld : S₁.held = S.held := by
      rw [hS₁]
      cases now <;> rfl
    exact (hfull.congr hheld).congr (congrArg held hwill.others :)
  | timeout _ _ hwill => exact hfull.congr (congrArg held hwill.others :)
  | _ => exact hfull.congr rfl

/-- In every run what is held has data. -/
theorem heldFull_of_run {ls : List Label} {S : Service} (h : machine.Run {} ls S) : S.HeldFull :=
  h.preserves (P := HeldFull) (fun hfull hstep => Step.heldFull hstep hfull)
    fun _ _ htopic => nomatch htopic

end Service

/-! ## The broker -/

section broker

variable {b : Broker} {fh : FixedHeader} {data : Bytes} {fd : Fd} {ref : ClientRef}
  {ending : List Fd} {p : ClientPacket}

/-- Every packet that is understood can be handled, and what is refused is not answered. -/
theorem handlePacket_ok (h : ServiceInv b) (hretains : RetainsData b)
    (hfull : (serviceOf b ending).HeldFull) (hclient : b.clients.lookup fd = some (some ref))
    (hlen : fh.remaining_len = data.length) (hunderstood : Understood fh data p)
    (hserve : (serviceOf b ending).Servable
      (sessionOf (b.heap ref) (b.subscribed_clients.lookup fd).isSome) p) (random : Bytes) :
    ∃ b' err, b.handlePacket fh data fd random = .ok (b', err) ∧
      (err = .ok ∨ b'.handleError err fd = .ok b') := by
  have hserved : (∃ b', b.handlePacket fh data fd random = .ok (b', .ok)) →
      ∃ b' err, b.handlePacket fh data fd random = .ok (b', err) ∧
        (err = .ok ∨ b'.handleError err fd = .ok b') :=
    fun ⟨b', hb'⟩ => ⟨b', .ok, hb', .inl rfl⟩
  cases p with
  | connect | badConnect => exact hserve.elim
  | publish qos retain packet_id m =>
    obtain ⟨htype, rfl, -, vh, hread, hname, -⟩ := hunderstood
    rw [handlePacket_publish b data fd random htype] at hserved ⊢
    exact hserved (publishHandler_ok h hclient hread fun hqos => hname ▸ hserve hqos)
  | puback packet_id =>
    obtain ⟨htype, hread⟩ := hunderstood
    have hhandler : b.handlePacket fh data fd random = b.pubackHandler data fd := by
      simp only [handlePacket, htype]
      rfl
    exact hserved (hhandler ▸ pubackHandler_ok h hclient hread)
  | pubrec packet_id =>
    obtain ⟨htype, hread⟩ := hunderstood
    have hhandler : b.handlePacket fh data fd random = b.pubrecHandler data fd := by
      simp only [handlePacket, htype]
      rfl
    exact hserved (hhandler ▸ pubrecHandler_ok h hclient hread)
  | pubrel packet_id =>
    obtain ⟨htype, hread⟩ := hunderstood
    rw [handlePacket_pubrel b data fd random htype] at hserved ⊢
    refine hserved (pubrelHandler_ok h hclient hread fun topic htopic => ⟨?_, hserve topic htopic⟩)
    -- what waits for its PUBREL has data
    exact hfull _ topic (List.mem_of_find?_eq_some htopic)
  | pubcomp packet_id =>
    obtain ⟨htype, hread⟩ := hunderstood
    have hhandler : b.handlePacket fh data fd random = b.pubcompHandler data fd := by
      simp only [handlePacket, htype]
      rfl
    exact hserved (hhandler ▸ pubcompHandler_ok h hclient hread)
  | subscribe packet_id records =>
    obtain ⟨htype, ⟨offset, hread⟩, hrecords⟩ := hunderstood
    rw [handlePacket_subscribe b data fd random htype] at hserved ⊢
    exact hserved (subscribeHandler_ok h hretains hclient hread hrecords hserve)
  | unsubscribe packet_id filters =>
    obtain ⟨htype, offset, hread, hloop⟩ := hunderstood
    rw [handlePacket_unsubscribe b data fd random htype] at hserved ⊢
    exact hserved (unsubscribeHandler_ok hclient hread hloop)
  | pingreq =>
    have hhandler : b.handlePacket fh data fd random = b.pingHandler fd := by
      have htype : fh.getType = PackType.PINGREQ.code := hunderstood
      simp only [handlePacket, htype]
      rfl
    exact hserved (hhandler ▸ pingHandler_ok hclient)
  | disconnect =>
    have hhandler : b.handlePacket fh data fd random = b.disconnectHandler fh data fd := by
      have htype : fh.getType = PackType.DISCONNECT.code := hunderstood
      simp only [handlePacket, htype]
      rfl
    -- a DISCONNECT is an error for the broker, whose handler does not answer
    obtain ⟨first, n⟩ := fh
    obtain rfl : n = data.length := hlen
    exact ⟨b, .disconnect, hhandler.trans (disconnectHandler_ok hclient first), .inr rfl⟩
  | other =>
    have hother : ∀ type ∈ handledTypes, fh.getType ≠ type.code := hunderstood
    simp only [handledTypes, List.forall_mem_cons] at hother
    obtain ⟨hpublish, hpuback, hpubrel, hpubrec, hpubcomp, hping, hsubscribe, hdisconnect,
      hunsubscribe, hconnect, -⟩ := hother
    -- no handler takes the packet
    refine ⟨b, .handleError, ?_, .inr rfl⟩
    simp only [handlePacket, if_neg hpublish, if_neg hpuback, if_neg hpubrel, if_neg hpubrec,
      if_neg hpubcomp, if_neg hping, if_neg hsubscribe, if_neg hdisconnect, if_neg hunsubscribe,
      if_neg hconnect]

/-- Where the scan gets through with a socket, the thread makes its step. -/
theorem step_of_scanSocket {s : ServerThread} {event : SocketEvent}
    (hat : socketAt s = some fd)
    (hscan : ∃ r, s.broker.scanSocket fd (passTime s) event = .ok r) :
    ∃ t, systemStep s (.server (.socket event)) = some t := by
  obtain ⟨broker, vec_fds, pc⟩ := s
  cases pc with
  | loop | close | returned => exact nomatch hat
  | scan client_num i now fd_to_delete =>
    obtain ⟨hi, hfd⟩ := Option.ite_none_right_eq_some.mp hat
    obtain ⟨⟨b', next⟩, hscan⟩ := hscan
    have hscan : broker.scanSocket fd now event = .ok (b', next) := hscan
    -- whatever is to be done with the socket, the thread goes on
    have hstep : ∃ t, ServerThread.step ⟨broker, vec_fds, .scan client_num i now fd_to_delete⟩
        (.socket event) = .ok (some t) := by
      simp only [ServerThread.step, if_pos hi, ServerThread.scanAt, hfd, hscan, Except.ok_bind]
      cases next <;> exact ⟨_, rfl⟩
    obtain ⟨t, hstep⟩ := hstep
    exact ⟨t, by rw [systemStep, hstep]; rfl⟩

/-- A packet that can be handled is read. -/
theorem scanSocket_ok {now : Time} {add : Bool} {first : UInt8} {random : Bytes} {err : MqttErr}
    {b' : Broker} (hcontrol : fd ≠ b.control_sock) (hclient : b.clients.lookup fd = some (some ref))
    (hhandle : (touch b ref now).handlePacket ⟨first, data.length⟩ data fd random = .ok (b', err))
    (herror : err = .ok ∨ b'.handleError err fd = .ok b') :
    ∃ r, b.scanSocket fd now (.pollin add (.packet first data random)) = .ok r := by
  rw [scanSocket, if_neg hcontrol, readClient, derefAt_eq hclient, Except.ok_bind]
  change ∃ r, (touch b ref now).handlePacket ⟨first, data.length⟩ data fd random >>= _ = _
  rw [hhandle, Except.ok_bind]
  dsimp only
  split
  · rename_i hne
    rw [herror.resolve_left hne]
    exact ⟨_, rfl⟩
  · exact ⟨_, rfl⟩

end broker

/-- In every run the retained topics have the messages they were published with. -/
theorem retainsData_of_traffic {x : ServerThread × Traffic} (h : trafficSystem.Reachable x) :
    RetainsData x.1.broker := by
  have hinit : ∀ {x}, trafficSystem.Init x → system.Init x.1 := And.left
  have hstep : ∀ {x e y}, trafficSystem.Step x e y → system.Step x.1 e y.1 := fun h => h.2.1
  have hreach : system.Reachable x.1 :=
    h.simulate (f := Prod.fst) hinit fun h => ⟨_, hstep h⟩
  obtain ⟨log, hlog⟩ := hreach.observe noteRetained []
  intro topic htopic
  have hlatest := retainsLatest_of_reachable hlog topic.name
  rw [mem_topics_iff.mp htopic, Option.map_some] at hlatest
  obtain ⟨data, -, hdata⟩ := Option.map_eq_some_iff.mp hlatest.symm
  exact Option.isSome_of_eq_some hdata.symm

/-- A packet is read at a socket of a client. -/
theorem event_of_packetAt {s : ServerThread} {e : SystemEvent} {fd : Fd} {ref : ClientRef}
    {fh : FixedHeader} {data : Bytes} (h : packetAt s e = some (fd, ref, fh, data)) :
    fd ≠ s.broker.control_sock ∧ ∃ add first random, fh = ⟨first, data.length⟩ ∧
      e = .server (.socket (.pollin add (.packet first data random))) := by
  unfold packetAt at h
  split at h
  · obtain ⟨hcontrol, heq⟩ := Option.ite_none_left_eq_some.mp h
    obtain ⟨rfl, rfl, rfl, rfl⟩ := heq
    exact ⟨hcontrol, _, _, _, rfl, rfl⟩
  · exact nomatch h

/-- A CONNECT is not servable. -/
theorem Service.Servable.type_ne {S : Service} {σ : Session} {p : ClientPacket}
    (h : S.Servable σ p) : p.type ≠ some .CONNECT := by
  cases p with
  | connect | badConnect => exact h.elim
  | _ => exact fun htype => nomatch htype

/-- In every run the broker serves the packet that it reads, if it understands it: it makes the
    step, and the step is that of the service with this packet. No packet but a CONNECT can stop
    it otherwise than with a filter that is too short for a name, a name that is too short for a
    filter, a message with a QoS for a client whose next packet id is 0, or retained messages
    whose packet ids do not agree with the options. -/
theorem packets_served {x : ServerThread × Traffic} {e : SystemEvent} {fd : Fd} {ref : ClientRef}
    {fh : FixedHeader} {data : Bytes} {p : ClientPacket} (h : trafficSystem.Reachable x)
    (hpacket : packetAt x.1 e = some (fd, ref, fh, data)) (hunderstood : Understood fh data p)
    (hserve : ∀ S σ, S = (serviceOf x.1.broker (toDelete x.1)).touch fd (passTime x.1) →
      S.sessions fd = some σ → S.Servable σ p) :
    ∃ y ls l, trafficSystem.Step x e y ∧ RunsAs x ls ∧ RunsAs y (ls ++ [l]) ∧
      Refines x.1 e y.1 l ∧ l.packet? = some (fd, p) := by
  obtain ⟨ls, hruns⟩ := exists_runsAs h
  obtain ⟨hat, hclient⟩ := socketAt_of_packetAt hpacket
  obtain ⟨hcontrol, add, first, random, rfl, rfl⟩ := event_of_packetAt hpacket
  -- the time of the packet is noted before it is handled
  obtain ⟨h₀, hclient₀, hservice, -⟩ :=
    touched (toDelete x.1) (passTime x.1) (threadInv_of_traffic h).service hclient
  have hfull : (serviceOf (touch x.1.broker ref (passTime x.1)) (toDelete x.1)).HeldFull := by
    rw [hservice]
    exact (Service.heldFull_of_run hruns.run).congr rfl
  have hservable := hserve _ _ hservice (sessions_of_lookup hclient₀)
  obtain ⟨b', err, hhandle, herror⟩ := handlePacket_ok h₀ (retainsData_of_traffic h) hfull hclient₀
    rfl hunderstood hservable random
  obtain ⟨t, ht⟩ := step_of_scanSocket hat
    (@scanSocket_ok _ _ _ _ _ add _ _ _ _ hcontrol hclient hhandle herror)
  have hstep : trafficSystem.Step x (.server (.socket (.pollin add (.packet first data random))))
      (t, noteTraffic x.1 _ t x.2) :=
    ⟨fun _ _ _ he => (nomatch he), step_of_systemStep ht, rfl⟩
  obtain ⟨l, hl, hruns'⟩ := hruns.step h hstep
  have hincoming : incoming x.1 (.server (.socket (.pollin add (.packet first data random)))) =
      some (fd, ⟨first, data.length⟩, data) := by
    simp only [incoming, hat, readAt, if_neg hcontrol]
  -- the label of the step has this packet, as it can be understood in one way
  have hread := hl.packet_eq hincoming hunderstood hservable.type_ne
  exact ⟨_, ls, l, hstep, hruns, hruns', hl, hread⟩

/-- The only client that is connected can be sent what its filters and its counter allow. -/
theorem Service.sendable_of_one {b : Broker} {ending : List Fd} {fd : Fd} {ref : ClientRef}
    {now : Time} {name : Bytes} (hclients : b.clients.toList = [(fd, some ref)])
    (hcounter : (b.heap ref).packet_id_gen ≠ 0)
    (hfilters : ∀ record ∈ (b.heap ref).subscribed_topics.toList, ¬ TooShort record.1 name) :
    ((serviceOf b ending).touch fd now).Sendable name := by
  intro fd' σ hσ _
  by_cases hfd : fd' = fd
  · subst hfd
    have hclient : b.clients.lookup fd' = some (some ref) :=
      UnorderedMap.mem_toList_iff.mp (hclients ▸ .head _)
    obtain rfl := Option.some.inj
      ((Service.sessions_edit_self (sessions_of_lookup hclient)).symm.trans hσ)
    refine ⟨fun f hf => ?_, fun _ _ _ _ _ => hcounter⟩
    obtain ⟨options, hoptions⟩ := Option.isSome_iff_exists.mp hf
    exact hfilters (f, options) (UnorderedMap.mem_toList_iff.mpr hoptions)
  · -- nobody else is connected
    rw [Service.touch, Service.sessions_edit_ne hfd] at hσ
    obtain ⟨ref', hclient, -⟩ := lookup_of_sessions hσ
    have hmem := UnorderedMap.mem_toList_iff.mpr hclient
    rw [hclients] at hmem
    exact absurd (Prod.mk.inj (List.mem_singleton.mp hmem)).1 hfd

/-- The client, which has subscribed to `t` with QoS 1, publishes to itself. -/
theorem packets_served_publishOwn : ∃ x y ls l, trafficSystem.Step x publishOwn y ∧
    RunsAs x ls ∧ RunsAs y (ls ++ [l]) ∧ Refines x.1 publishOwn y.1 l ∧
      l.packet? = some (5, .publish 1 false 7 ([0x74], ⟨[0x78], by decide⟩)) := by
  have hrun : (readyToPublish.foldlM trafficStep (fromStart, {})).map (fun x =>
      decide (socketAt x.1 = some 5) && (decide (5 ≠ x.1.broker.control_sock) &&
        (decide (x.1.broker.clients.toList = [(5, some 0)]) &&
        (decide ((x.1.broker.heap 0).packet_id_gen ≠ 0) &&
        decide ((x.1.broker.heap 0).subscribed_topics.toList = [([0x74], 1)]))))) = some true := by
    decide +kernel
  obtain ⟨x, hx, hcheck⟩ := Option.map_eq_some_iff.mp hrun
  simp only [Bool.and_eq_true, decide_eq_true_eq] at hcheck
  obtain ⟨hat, hcontrol, hclients, hcounter, htopics⟩ := hcheck
  have hclient : x.1.broker.clients.lookup 5 = some (some 0) :=
    UnorderedMap.mem_toList_iff.mp (hclients ▸ .head _)
  have hpacket : packetAt x.1 publishOwn = some (5, 0, ⟨0x32, 7⟩, [0, 1, 0x74, 0, 7, 0, 0x78]) :=
    packetAt_eq hat hclient hcontrol
  have hsendable : ((serviceOf x.1.broker (toDelete x.1)).touch 5 (passTime x.1)).Sendable [0x74] := by
    refine Service.sendable_of_one hclients hcounter fun record hrecord htoo => ?_
    rw [htopics] at hrecord
    obtain rfl := List.mem_singleton.mp hrecord
    exact htoo.2.1 rfl
  obtain ⟨y, ls, l, hserved⟩ := packets_served
    ⟨(fromStart, {}), _, ⟨⟨4, rfl⟩, rfl⟩, LTS.run_of_foldlM step_of_trafficStep hx⟩
    hpacket understood_publishOwn fun S σ hS _ => hS ▸ fun _ => hsendable
  exact ⟨x, y, ls, l, hserved⟩

end Mqtt.Spec
