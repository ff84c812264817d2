import MqttBroker.Spec.ServiceState

/-!
# Wills and retained messages of the service

Two more of the broker's ways to send: the will of a client, and the retained messages behind
a SUBSCRIBE. Each shows what the service does in its place.
-/

namespace Mqtt.Spec

open Mqtt.Native Mqtt.Native.Broker

/-! ## Wills -/

/-- Without a message nobody can get anything. -/
theorem Service.Notifies.of_none {S S' : Service} {name : Bytes} {out : List Outgoing}
    (h : S.Notifies name none out S') : out = [] ∧ S' = S := by
  have hgets : ∀ fd, S'.sessions fd = S.sessions fd ∧ outTo fd out = [] := by
    intro fd
    cases hσ : S.sessions fd with
    | none => exact h.absent fd hσ
    | some σ =>
      obtain ⟨σ', hσ', hgets⟩ := h.present fd σ hσ
      cases hdata : outTo fd out with
      | nil =>
        rw [hdata] at hgets
        cases hgets with
        | nothing => exact ⟨hσ', rfl⟩
      | cons p ps =>
        rw [hdata] at hgets
        cases hgets with
        -- a message without data is never sent
        | publish _ _ _ hnone => cases hnone
  constructor
  · cases out with
    | nil => rfl
    | cons o out => exact absurd (hgets o.1).2 (by simp [outTo])
  · rw [h.others, funext fun fd => (hgets fd).1]

/-- The will of a client is the will of its session. -/
theorem sendWill_shows {b b' : Broker} (ending : List Fd) {fd : Fd} {ref : ClientRef}
    (h : ServiceInv b) (hclient : b.clients.lookup fd = some (some ref))
    (hsend : b.sendWill ref = .ok b') : ∃ out S',
      (serviceOf b ending).SendsWill (willOf (b.heap ref)) out S' ∧ Shows b ending out b' S' := by
  unfold sendWill at hsend
  split at hsend
  · rename_i hflag
    have hwill : willOf (b.heap ref) = messageOf (b.heap ref).will_topic := if_pos hflag
    rw [notifyWill] at hsend
    obtain ⟨⟨b₁, topic⟩, hnotify, hresult⟩ := Except.bind_eq_ok_iff.mp hsend
    obtain rfl := Except.ok.inj hresult
    obtain ⟨hout, hname, hdata⟩ := notifyClients_eq_ok hnotify
    obtain ⟨out, S', hnotifies, hshows⟩ := notifyClients_shows ending h hnotify
    -- the topic was given a QoS and a packet id on the way, which a will does not show
    have hsame : (b₁.heap ref).will_topic = (b.heap ref).will_topic :=
      hout.heap_congr (f := Client.will_topic) (fun _ => rfl) ref
    have hclient₁ : b₁.clients.lookup fd = some (some ref) := hout.clients_eq ▸ hclient
    have hset : Shows b₁ ending [] (b₁.setClient ref { b₁.heap ref with will_topic := topic }) S' := by
      have hedit : Shows b₁ ending [] (b₁.setClient ref { b₁.heap ref with will_topic := topic })
          ((serviceOf b₁ ending).edit fd fun σ => σ) :=
        .setClient hshows.inv hclient₁ fun subscribed => by
          simp only [sessionOf, willOf, Client.isWillFlag, messageOf, hname, hdata, hsame]
      rwa [Service.edit_id, hshows.shows] at hedit
    have hall := hshows.trans hset
    rw [List.append_nil] at hall
    -- without data the will is sent to nobody
    cases hmessage : (b.heap ref).will_topic.data with
    | none =>
      rw [hmessage] at hnotifies
      obtain ⟨rfl, rfl⟩ := hnotifies.of_none
      refine ⟨[], _, ?_, hall⟩
      rw [hwill, messageOf, hmessage]
      exact .nothing
    | some message =>
      rw [hmessage] at hnotifies
      refine ⟨out, S', ?_, hall⟩
      rw [hwill, messageOf, hmessage]
      exact .sent hnotifies
  · rename_i hflag
    obtain rfl := Except.ok.inj hsend
    have hwill : willOf (b.heap ref) = none := if_neg hflag
    rw [hwill]
    exact ⟨[], _, .nothing, .refl h⟩

/-! ## Retained messages -/

section retained

variable (ending : List Fd) {fd : Fd} {ref : ClientRef}

/-- `NotifyClient` queues one message, which its client numbers. -/
theorem notifyClient_shows {b b' : Broker} {topic : MqttTopic} (h : ServiceInv b)
    (hclient : b.clients.lookup fd = some (some ref)) (hnotify : b.notifyClient fd topic = .ok b') :
    let σ := sessionOf (b.heap ref) (b.subscribed_clients.lookup fd).isSome
    ∃ message, topic.data = some message ∧ σ.Numbered topic.qos ∧
      Shows b ending [(fd, σ.publish topic.qos (topic.name, message))] b'
        ((serviceOf b ending).edit fd fun σ => σ.number topic.qos) := by
  rw [notifyClient, derefAt_eq hclient, Except.ok_bind] at hnotify
  obtain ⟨message, out, hdata, hfd, href, hqos, hcarries, rfl⟩ := handOut_of_send hnotify
  -- the id of the packet is the next one of its client
  have hid : out.packet_id = nextPacketID (b.heap ref) topic.qos := by
    rw [hcarries.packet_id, href, hqos]
  refine ⟨message, hdata, ?_, ?_⟩
  · have hagree := hcarries.agree
    rwa [hqos, hid] at hagree
  · have hshows := Shows.apply ending h (by rw [hfd, href]; exact hclient) hcarries
    rwa [hfd, hqos, hid] at hshows

/-- The matched topics go out in their order, each with its message. -/
theorem sendRetained_shows {options : UInt8} (topics : List MqttTopic) :
    ∀ {b b' : Broker} {σ : Service.Session}, ServiceInv b →
      b.clients.lookup fd = some (some ref) → (serviceOf b ending).sessions fd = some σ →
      sendRetained fd options topics b = .ok b' → ∃ ms σ' ps,
        topics.map messageOf = ms.map some ∧ σ.Sends options ms σ' ps ∧
        Shows b ending (ps.map fun p => (fd, p)) b' ((serviceOf b ending).edit fd fun _ => σ') := by
  -- Induction on the topics; the session behind one is the one that the next is sent to
  induction topics with
  | nil =>
    intro b b' σ h _ hσ hsend
    obtain rfl := Except.ok.inj hsend
    refine ⟨[], σ, [], rfl, .nil, ?_⟩
    rw [Service.edit_congr (g := fun σ => σ) hσ rfl, Service.edit_id]
    exact .refl h
  | cons it rest ih =>
    intro b b' σ h hclient hσ hsend
    rw [sendRetained] at hsend
    obtain ⟨b₁, hnotify, hrest⟩ := Except.bind_eq_ok_iff.mp hsend
    obtain ⟨message, hdata, hnumbered, hfirst⟩ :=
      notifyClient_shows ending h hclient hnotify
    rw [← Option.some.inj (hσ.symm.trans (sessions_of_lookup hclient))] at hnumbered hfirst
    have hclient₁ : b₁.clients.lookup fd = some (some ref) :=
      (notifyClient_deliveries hclient hnotify).2.clients ▸ hclient
    have hσ₁ : (serviceOf b₁ ending).sessions fd = some (σ.number options) := by
      rw [hfirst.shows, Service.sessions_edit_self hσ]
      rfl
    obtain ⟨ms, σ', ps, hms, hsends, hlater⟩ := ih hfirst.inv hclient₁ hσ₁ hrest
    refine ⟨(it.name, message) :: ms, σ', _, ?_, .cons hnumbered hsends, ?_⟩
    · have hdata' : it.data = some message := hdata
      rw [List.map_cons, List.map_cons, hms, messageOf, hdata']
      rfl
    · rw [hfirst.shows, Service.edit_edit] at hlater
      exact hfirst.trans hlater

/-- What a filter finds are the retained messages that it takes. -/
theorem takes_of_getMatchedTopics {b : Broker} {filter : Bytes}
    {matched : OrderedSet MqttTopic.name} {ms : List Message}
    (hmatched : b.storage.getMatchedTopics filter = .ok matched)
    (hms : matched.toList.map messageOf = ms.map some) :
    Service.Session.Takes (serviceOf b ending).retained filter ms := by
  have hmem : ∀ m, m ∈ ms ↔ ∃ topic ∈ matched.toList, messageOf topic = some m := by
    intro m
    have hsome : some m ∈ ms.map some ↔ m ∈ ms := by simp
    rw [← hsome, ← hms, List.mem_map]
  -- the topics that are found all carry data, so their names are those of the messages
  have hnames : matched.toList.map MqttTopic.name = ms.map Prod.fst := by
    have hfst : ∀ topic ∈ matched.toList, (messageOf topic).map Prod.fst = some topic.name := by
      intro topic htopic
      have hin : messageOf topic ∈ ms.map some := hms ▸ List.mem_map_of_mem htopic
      obtain ⟨m, -, hm⟩ := List.mem_map.mp hin
      obtain ⟨data, hdata, rfl⟩ := Option.map_eq_some_iff.mp hm.symm
      rw [messageOf, hdata]
      rfl
    have hopt := congrArg (List.map (Option.map Prod.fst)) hms
    rw [List.map_map, List.map_map] at hopt
    refine List.map_injective_iff.mpr (Option.some_injective _) ?_
    rw [List.map_map, List.map_map, ← show _ = ms.map (some ∘ Prod.fst) from hopt]
    exact (List.map_congr_left hfst).symm
  refine ⟨?_, fun m => ?_⟩
  -- the set of topics is sorted by name
  · have hsorted := matched.sorted
    rw [← List.pairwise_map (f := MqttTopic.name), hnames, List.pairwise_map] at hsorted
    exact hsorted
  · -- a name is stored once, so it is found with its own message
    have hretained : (serviceOf b ending).retained m.1 = some m.2 ↔
        ∃ topic, b.storage.findTopic m.1 = some topic ∧ topic.data = some m.2 := by
      simp only [serviceOf, TopicStorage.getStoredValuePtr, MqttTopic.getPtr]
      cases b.storage.findTopic m.1 <;> simp
    rw [hmem, hretained]
    constructor
    · rintro ⟨topic, htopic, hm⟩
      obtain ⟨data, hdata, rfl⟩ := Option.map_eq_some_iff.mp hm
      have hstored := mem_of_getMatchedTopics hmatched htopic
      exact ⟨⟨topic, mem_topics_iff.mp hstored, hdata⟩,
        (hasName_getMatchedTopics ⟨topic, hstored, rfl⟩ hmatched).mp ⟨topic, htopic, rfl⟩⟩
    · rintro ⟨⟨topic, hfind, hdata⟩, htakes⟩
      obtain ⟨hstored, hname⟩ := findTopic_eq_some_iff.mp hfind
      obtain ⟨topic', htopic', hname'⟩ :=
        (hasName_getMatchedTopics ⟨topic, hstored, hname⟩ hmatched).mpr htakes
      have hfind' := mem_topics_iff.mp (mem_of_getMatchedTopics hmatched htopic')
      rw [hname', hfind] at hfind'
      obtain rfl := Option.some.inj hfind'
      refine ⟨topic, htopic', ?_⟩
      rw [messageOf, hdata, hname]
      rfl

/-- The retained messages for the records of a SUBSCRIBE are queued one record after the other. -/
theorem sendAllRetained_shows (records : List (Bytes × UInt8)) :
    ∀ {b b' : Broker} {σ : Service.Session}, ServiceInv b →
      b.clients.lookup fd = some (some ref) → (serviceOf b ending).sessions fd = some σ →
      sendAllRetained fd records b = .ok b' → ∃ σ' ps,
        σ.SendsRetained (serviceOf b ending).retained records σ' ps ∧
        Shows b ending (ps.map fun p => (fd, p)) b' ((serviceOf b ending).edit fd fun _ => σ') := by
  induction records with
  | nil =>
    intro b b' σ h _ hσ hsend
    obtain rfl := Except.ok.inj hsend
    refine ⟨σ, [], .nil, ?_⟩
    rw [Service.edit_congr (g := fun σ => σ) hσ rfl, Service.edit_id]
    exact .refl h
  -- the records behind find the session as the first one has left it
  | cons it rest ih =>
    intro b b' σ h hclient hσ hsend
    obtain ⟨matched, b₁, hmatched, hfirst, hrest⟩ := sendAllRetained_cons hsend
    obtain ⟨ms, σ₁, ps, hms, hsends, hshows⟩ :=
      sendRetained_shows ending _ h hclient hσ hfirst
    have hclient₁ : b₁.clients.lookup fd = some (some ref) :=
      (sendRetained_eq_ok _ hfirst).clients_eq ▸ hclient
    have hσ₁ : (serviceOf b₁ ending).sessions fd = some σ₁ := by
      rw [hshows.shows, Service.sessions_edit_self hσ]
    obtain ⟨σ₂, ps', hsends', hlater⟩ := ih hshows.inv hclient₁ hσ₁ hrest
    rw [hshows.shows] at hsends'
    refine ⟨σ₂, ps ++ ps', .cons (takes_of_getMatchedTopics ending hmatched hms) hsends hsends', ?_⟩
    rw [hshows.shows, Service.edit_edit] at hlater
    rw [List.map_append]
    exact hshows.trans hlater

end retained

end Mqtt.Spec
