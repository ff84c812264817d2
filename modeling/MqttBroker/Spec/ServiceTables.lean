import MqttBroker.Spec.ServiceHandlers

/-!
# SUBSCRIBE and UNSUBSCRIBE of the service

The handlers change the table of a client filter by filter, while the records are read. What is
left in the end is one change of the table, which is the change of the session.
-/

namespace Mqtt.Spec

open Mqtt.Native Mqtt.Native.Broker

/-! ## The tables -/

/-- Subscriptions that are added in turn are one change of their client. -/
theorem addSubscriptions_eq_setClient (ref : ClientRef) (records : List (Bytes × UInt8)) :
    ∀ b : Broker, addSubscriptions b ref records = b.setClient ref { b.heap ref with
      subscribed_topics := (b.heap ref).subscribed_topics.insertAllNew records } := by
  induction records with
  | nil => exact fun b => (setClient_heap b ref).symm
  | cons record records ih =>
    intro b
    rw [addSubscriptions, List.foldl_cons, ← addSubscriptions, ih, setClient_setClient,
      heap_setClient_self]
    rfl

/-- Subscriptions that are deleted in turn are one change of their client. -/
theorem delSubscriptions_eq_setClient (ref : ClientRef) (topics : List Bytes) :
    ∀ (b : Broker) (reason_codes : List UInt8),
      (delSubscriptions ref topics b reason_codes).1 = b.setClient ref { b.heap ref with
        subscribed_topics := (b.heap ref).subscribed_topics.eraseAll topics } := by
  induction topics with
  | nil => exact fun b _ => (setClient_heap b ref).symm
  | cons it rest ih =>
    intro b reason_codes
    rw [delSubscriptions]
    dsimp only
    rw [ih, setClient_setClient, heap_setClient_self]
    rfl

/-- The reason codes of an UNSUBACK are those for the table of the session. -/
theorem unsubscribeCodes_eq (topics : List Bytes) :
    ∀ table : UnorderedMap Bytes UInt8,
      Service.Session.unsubscribeCodes table.lookup topics =
        (table.erased topics).map unsubackCode := by
  induction topics with
  | nil => exact fun _ => rfl
  | cons f rest ih =>
    intro table
    have hrest : Function.update table.lookup f none = (table.erase f).lookup := by
      funext f'
      by_cases hf : f' = f
      · rw [hf, Function.update_self, AList.lookup_erase]
      · rw [Function.update_of_ne hf, AList.lookup_erase_ne hf]
    rw [Service.Session.unsubscribeCodes, hrest, ih]
    rfl

section handlers

variable {b b' : Broker} (ending : List Fd) {fh : FixedHeader} {data : Bytes} {fd : Fd}
  {ref : ClientRef} {err : MqttErr}

/-- The inserts of a SUBSCRIBE are the new filters of its session. -/
theorem addSubscriptions_shows (h : ServiceInv b) (hclient : b.clients.lookup fd = some (some ref))
    (records : List (Bytes × UInt8)) : Shows b ending [] (addSubscriptions b ref records)
      ((serviceOf b ending).edit fd fun σ => σ.subscribe records) := by
  rw [addSubscriptions_eq_setClient]
  refine .setClient h hclient fun subscribed => ?_
  rw [sessionOf, Service.Session.subscribe]
  congr 1
  funext f
  exact UnorderedMap.lookup_insertAllNew _ records f

/-- The erasures of an UNSUBSCRIBE are the filters that its session loses. -/
theorem delSubscriptions_shows (h : ServiceInv b) (hclient : b.clients.lookup fd = some (some ref))
    (topics : List Bytes) : Shows b ending [] (delSubscriptions ref topics b []).1
      ((serviceOf b ending).edit fd fun σ => σ.unsubscribe topics) := by
  rw [delSubscriptions_eq_setClient]
  refine .setClient h hclient fun subscribed => ?_
  rw [sessionOf, Service.Session.unsubscribe]
  congr 1
  funext f
  refine (UnorderedMap.lookup_eraseAll _ topics f).trans ?_
  congr

/-! ## The subscribers -/

/-- Whoever is added to the subscribers has a session that has subscribed. -/
theorem addSubscribedClient_shows (h : ServiceInv b)
    (hclient : b.clients.lookup fd = some (some ref)) :
    Shows b ending [] (b.addSubscribedClient fd ref)
      ((serviceOf b ending).edit fd fun σ => { σ with subscribed := true }) := by
  have hmirrors : SubscribersConnected (b.addSubscribedClient fd ref) :=
    h.mirrors.does (.one (.addSubscribedClient fd ref) hclient trivial)
  refine ⟨.of_eq rfl, rfl, ⟨h.own.of_eq rfl rfl, hmirrors, h.positive, h.empty⟩, ?_⟩
  have hsessions : sessionAt (b.addSubscribedClient fd ref) = Function.update (sessionAt b) fd
      ((sessionAt b fd).map fun σ => { σ with subscribed := true }) := by
    funext fd'
    -- the entry is that of this socket alone
    by_cases hfd : fd' = fd
    · subst hfd
      have hentry : ((b.addSubscribedClient fd' ref).subscribed_clients.lookup fd').isSome = true := by
        rw [addSubscribedClient, UnorderedMap.lookup_insertNew_self]
        rfl
      have hclient' : (b.addSubscribedClient fd' ref).clients.lookup fd' = some (some ref) := hclient
      rw [Function.update_self]
      simp only [sessionAt, hclient, hclient', hentry, Option.map_some]
      rfl
    · rw [Function.update_of_ne hfd]
      simp only [sessionAt, addSubscribedClient, UnorderedMap.lookup_insertNew_ne hfd]
  rw [serviceOf, hsessions]
  rfl

/-! ## The handlers -/

/-- A SUBSCRIBE adds its filters, and is answered by a SUBACK with the retained messages behind
    it. -/
theorem subscribeHandler_shows (h : ServiceInv b) (htype : fh.getType = PackType.SUBSCRIBE.code)
    (hclient : b.clients.lookup fd = some (some ref))
    (hpacket : b.subscribeHandler fh data fd = .ok (b', err)) :
    ServedAs b ending fd (sessionOf (b.heap ref) (b.subscribed_clients.lookup fd).isSome) fh data b'
      err := by
  rw [subscribeHandler, clientAt_eq hclient] at hpacket
  obtain ⟨⟨packet_id, offset⟩, hread, hpacket⟩ := Except.bind_eq_ok_iff.mp hpacket
  obtain ⟨pClient, hderef, hpacket⟩ := Except.bind_eq_ok_iff.mp hpacket
  obtain rfl := Except.ok.inj hderef
  obtain ⟨⟨b₁, reason_codes, tpcs⟩, hloop, hpacket⟩ := Except.bind_eq_ok_iff.mp hpacket
  have hsubscribing : Subscribing fh data tpcs := ⟨_, _, _, _, _, _, hread, hloop⟩
  -- what the loop does hangs on the records it reads only
  rw [subscribeLoop_eq_map, subscribeRecords_eq] at hloop
  obtain ⟨_, hrecords, hresult⟩ := Except.map_eq_ok_iff.mp hloop
  obtain ⟨r, -, rfl⟩ := Except.map_eq_ok_iff.mp hrecords
  cases hresult
  simp only [List.nil_append] at hpacket hsubscribing
  rw [createMqttPacket_suback, Except.ok_bind] at hpacket
  obtain ⟨b₂, hsend, hresult⟩ := Except.bind_eq_ok_iff.mp hpacket
  obtain ⟨rfl, rfl⟩ := Prod.mk.inj (Except.ok.inj hresult)
  -- the filters, the SUBACK, the retained messages and the new subscriber, in this order
  have hadd := addSubscriptions_shows ending h hclient r.1
  have hclient₁ : (addSubscriptions b ref r.1).clients.lookup fd = some (some ref) := by
    rw [addSubscriptions_eq_setClient]
    exact hclient
  have hqueued : Shows (addSubscriptions b ref r.1) ending
      [(fd, .suback packet_id (List.replicate r.1.length 2))] _ _ := .addCommand hadd.inv fd rfl
  have hσ : (serviceOf b ending).sessions fd = some _ := sessions_of_lookup hclient
  have hσ₁ := Service.sessions_edit_self (f := fun σ => σ.subscribe r.1) hσ
  rw [← hadd.shows] at hσ₁
  obtain ⟨σ', ps, hsends, hretained⟩ :=
    sendAllRetained_shows ending r.1 hqueued.inv hclient₁ hσ₁ hsend
  have hclient₂ : b₂.clients.lookup fd = some (some ref) :=
    (sendAllRetained_eq_ok r.1 hsend).clients_eq ▸ hclient₁
  have hadded := addSubscribedClient_shows ending hretained.inv hclient₂
  have hall := ((hadd.trans hqueued).trans hretained).trans hadded
  rw [hretained.shows, hqueued.shows, hadd.shows, Service.edit_edit, Service.edit_edit,
    List.append_nil] at hall
  rw [hqueued.shows, hadd.shows] at hsends
  have hunderstood : Understood fh data (.subscribe packet_id r.1) :=
    ⟨htype, ⟨offset, hread⟩, hsubscribing⟩
  exact ⟨rfl, .subscribe packet_id r.1, _, _, hunderstood, .subscribe hsends, hall⟩

/-- An UNSUBSCRIBE takes its filters out, and is answered by one code for each. -/
theorem unsubscribeHandler_shows (h : ServiceInv b)
    (htype : fh.getType = PackType.UNSUBSCRIBE.code)
    (hclient : b.clients.lookup fd = some (some ref))
    (hpacket : b.unsubscribeHandler fh data fd = .ok (b', err)) :
    ServedAs b ending fd (sessionOf (b.heap ref) (b.subscribed_clients.lookup fd).isSome) fh data b'
      err := by
  rw [unsubscribeHandler, derefAt_eq hclient, Except.ok_bind] at hpacket
  obtain ⟨⟨packet_id, offset⟩, hread, hpacket⟩ := Except.bind_eq_ok_iff.mp hpacket
  obtain ⟨topics, hloop, hpacket⟩ := Except.bind_eq_ok_iff.mp hpacket
  dsimp only at hpacket
  rw [createMqttPacket_unsubAck, Except.ok_bind] at hpacket
  obtain ⟨rfl, rfl⟩ := Prod.mk.inj (Except.ok.inj hpacket)
  have hdel := delSubscriptions_shows ending h hclient topics
  rw [(delSubscriptions_eq ref topics b []).2.2, List.nil_append, ← unsubscribeCodes_eq]
  -- the filters are taken out first, then the answer is queued
  have hqueued : Shows (delSubscriptions ref topics b []).1 ending
      [(fd, .unsuback packet_id (Service.Session.unsubscribeCodes
        (b.heap ref).subscribed_topics.lookup topics))] _ _ := .addCommand hdel.inv fd rfl
  have hall := hdel.trans hqueued
  rw [hdel.shows] at hall
  exact ⟨rfl, .unsubscribe packet_id topics, _, _, ⟨htype, offset, hread, hloop⟩, .unsubscribe, hall⟩

end handlers

end Mqtt.Spec
