import MqttBroker.ForStd.RequestLog
import MqttBroker.Spec.BeforeConnect
import MqttBroker.Spec.Release
import MqttBroker.Spec.SubscribeParse

/-!
# The latest request for a filter

The elements of SUBSCRIBE and UNSUBSCRIBE packets are requests to `subscribed_topics`, and
the log of a client's requests is a history variable of the system. `AddSubscription`
inserts into an unordered map, which leaves a present key alone: the table knows the
filters the log leaves in it, with the options of their first SUBSCRIBE.
-/

namespace Mqtt.Spec

open Mqtt.Native Mqtt.Native.Broker RequestLog

/-! ## The requests of a packet -/

/-- A row of requests to `subscribed_topics`. -/
abbrev Requests := List (Request Bytes UInt8)

/-- A SUBSCRIBE puts its filters with their options. -/
def SubscribeRequest.requests (m : SubscribeRequest) : Requests :=
  m.records.map fun record => .put record.1 record.2

/-- An UNSUBSCRIBE takes its filters away. -/
def UnsubscribeRequest.requests (m : UnsubscribeRequest) : Requests := m.filters.map .take

/-- What a packet asks of the subscriptions of its client, if it is well-formed. -/
inductive Asks (fh : FixedHeader) : Bytes → Requests → Prop
  | subscribe (m : SubscribeRequest) : fh.getType = PackType.SUBSCRIBE.code →
      Asks fh m.encode m.requests
  | unsubscribe (m : UnsubscribeRequest) : fh.getType = PackType.UNSUBSCRIBE.code →
      Asks fh m.encode m.requests
  | other {data : Bytes} : fh.getType ≠ PackType.SUBSCRIBE.code →
      fh.getType ≠ PackType.UNSUBSCRIBE.code → Asks fh data []

/-- The packet of a step, if there is one, is well-formed, and its requests are logged for
    its client. -/
def Logs (s : ServerThread) (e : SystemEvent) (log log' : ClientRef → Requests) : Prop :=
  match packetAt s e with
  | some (_, ref, fh, data) => ∃ requests, Asks fh data requests ∧
      log' = Function.update log ref (log ref ++ requests)
  | none => log' = log

/-- The system with the requests of each client, for runs whose SUBSCRIBE and UNSUBSCRIBE
    packets are well-formed. -/
def requestSystem : LTS (ServerThread × (ClientRef → Requests)) SystemEvent where
  Init x := system.Init x.1 ∧ x.2 = fun _ => []
  Step x e y := system.Step x.1 e y.1 ∧ Logs x.1 e x.2 y.2

/-! ## What the handlers do to the table -/

/-- The records of a SUBSCRIBE are requests to the table. -/
theorem addSubscriptions_table (ref : ClientRef) (records : List (Bytes × UInt8)) (b : Broker) :
    ((addSubscriptions b ref records).heap ref).subscribed_topics =
      (records.map fun record => Request.put record.1 record.2).foldl Request.apply
        (b.heap ref).subscribed_topics := by
  rw [addSubscriptions_subscribed_topics, List.foldl_map]
  rfl

/-- The filters of an UNSUBSCRIBE are requests to the table. -/
theorem delSubscriptions_table (ref : ClientRef) (topics : List Bytes) (b : Broker)
    (reason_codes : List UInt8) :
    ((delSubscriptions ref topics b reason_codes).1.heap ref).subscribed_topics =
      (topics.map Request.take).foldl Request.apply (b.heap ref).subscribed_topics := by
  rw [(delSubscriptions_eq ref topics b reason_codes).2.1, List.foldl_map]
  rfl

section table

variable {b b' : Broker} {first : UInt8} {fd : Fd} {ref : ClientRef} {err : MqttErr}

/-- `subscribeHandler` applies the requests of its packet. -/
theorem subscribeHandler_table (m : SubscribeRequest)
    (hclient : b.clients.lookup fd = some (some ref))
    (h : b.subscribeHandler ⟨first, m.encode.length⟩ m.encode fd = .ok (b', err)) :
    (b'.heap ref).subscribed_topics =
      m.requests.foldl Request.apply (b.heap ref).subscribed_topics := by
  rw [subscribeHandler_request hclient] at h
  obtain ⟨b₂, hsend, h⟩ := Except.bind_eq_ok_iff.mp h
  obtain ⟨rfl, -⟩ := Prod.mk.inj (Except.ok.inj h)
  -- the answer and the retained messages leave the table alone
  have hsame : Part.Same _ b₂ (.subscribed_topics ref) :=
    ((does_sendAllRetained fd m.records _).of_eq_ok hsend).same fun op hop => by
      cases op with
      | setSubscriptions => exact hop.elim
      | _ => simp [Op.Writes]
  exact Eq.trans hsame (addSubscriptions_table ref m.records b)

/-- `unsubscribeHandler` applies the requests of its packet. -/
theorem unsubscribeHandler_table (m : UnsubscribeRequest)
    (hclient : b.clients.lookup fd = some (some ref))
    (h : b.unsubscribeHandler ⟨first, m.encode.length⟩ m.encode fd = .ok (b', err)) :
    (b'.heap ref).subscribed_topics =
      m.requests.foldl Request.apply (b.heap ref).subscribed_topics := by
  obtain ⟨pClient, packet_id, offset, topics, answer, hclient', hread, hloop, rfl, -⟩ :=
    unsubscribeHandler_eq_ok h
  obtain rfl := Option.some.inj (Option.some.inj (hclient.symm.trans hclient'))
  rw [UnsubscribeVH.readFromBuf, readIdAndProperties_eq, m.readHeader] at hread
  obtain ⟨rfl, rfl⟩ := Prod.mk.inj (Except.ok.inj hread)
  rw [unsubscribeLoop_eq_map, m.readRecords] at hloop
  obtain rfl := Except.ok.inj hloop
  exact delSubscriptions_table ref m.filters b []

/-- A packet does to the table of its client what it asks for, and nothing to other tables. -/
theorem handlePacket_tables {fh : FixedHeader} {data random : Bytes} {requests : Requests}
    (hlen : fh.remaining_len = data.length) (hasks : Asks fh data requests)
    (hclient : b.clients.lookup fd = some (some ref))
    (h : b.handlePacket fh data fd random = .ok (b', err)) :
    (b'.heap ref).subscribed_topics =
        requests.foldl Request.apply (b.heap ref).subscribed_topics ∧
      ∀ ref' ≠ ref, (b'.heap ref').subscribed_topics = (b.heap ref').subscribed_topics := by
  obtain ⟨first, remaining_len⟩ := fh
  obtain rfl : remaining_len = data.length := hlen
  -- a CONNECT may end another client's connection, and is treated by itself below
  have hothers : (FixedHeader.mk first data.length).getType ≠ PackType.CONNECT.code →
      ∀ ref' ≠ ref, (b'.heap ref').subscribed_topics = (b.heap ref').subscribed_topics := by
    intro htype ref' href
    have hsame : Part.Same b b' (.subscribed_topics ref') := by
      refine same_of_not_affects htype h ?_
      rintro ⟨hclient', -⟩
      exact href (Option.some.inj (Option.some.inj (hclient'.symm.trans hclient)))
    exact hsame
  cases hasks with
  | subscribe m htype =>
    have hhandle : b.subscribeHandler ⟨first, m.encode.length⟩ m.encode fd = .ok (b', err) :=
      (handlePacket_subscribe _ _ _ _ htype).symm.trans h
    refine ⟨subscribeHandler_table m hclient hhandle, hothers fun hconnect => ?_⟩
    rw [htype] at hconnect
    cases hconnect
  | unsubscribe m htype =>
    have hhandle : b.unsubscribeHandler ⟨first, m.encode.length⟩ m.encode fd = .ok (b', err) :=
      (handlePacket_unsubscribe _ _ _ _ htype).symm.trans h
    refine ⟨unsubscribeHandler_table m hclient hhandle, hothers fun hconnect => ?_⟩
    rw [htype] at hconnect
    cases hconnect
  | other hsubscribe hunsubscribe =>
    -- a CONNECT keeps all tables, and every other packet writes its own at most
    by_cases htype : (FixedHeader.mk first data.length).getType = PackType.CONNECT.code
    · rw [handlePacket_connect _ _ _ _ htype] at h
      have hkeeps := connectHandler_keepsState h
      exact ⟨congrArg Prod.snd (hkeeps ref), fun ref' _ => congrArg Prod.snd (hkeeps ref')⟩
    · have hsame : Part.Same b b' (.subscribed_topics ref) := by
        refine same_of_not_affects htype h ?_
        rintro ⟨-, htype' | ⟨htype', -⟩⟩
        · exact hsubscribe htype'
        · exact hunsubscribe htype'
      exact ⟨hsame, hothers htype⟩

end table

/-! ## The invariant -/

/-- Every table has what its log keeps. Who is yet to come has asked for nothing. -/
structure TableInv (b : Broker) (log : ClientRef → Requests) : Prop where
  lookup : ∀ ref f, (b.heap ref).subscribed_topics.lookup f = kept f (log ref)
  fresh : ∀ ref, b.next_ref ≤ ref → log ref = []

/-- Only the tables and `next_ref` matter. -/
theorem TableInv.of_eq {b b' : Broker} {log : ClientRef → Requests} (h : TableInv b log)
    (hsame : ∀ ref, (b'.heap ref).subscribed_topics = (b.heap ref).subscribed_topics)
    (hnext : b.next_ref ≤ b'.next_ref) : TableInv b' log := by
  refine ⟨fun ref f => ?_, fun ref href => h.fresh ref (Nat.le_trans hnext href)⟩
  rw [hsame]
  exact h.lookup ref f

/-- Outside of packets the tables stay as they are. -/
theorem outside_tables : Outside fun b b' => ∀ log, TableInv b log → TableInv b' log where
  refl _ _ h := h
  trans h h' log hlog := h' log (h log hlog)
  touch b pClient now log h :=
    h.of_eq (heap_setClient_congr (f := Client.subscribed_topics) rfl) (Nat.le_refl _)
  addCommand _ _ _ _ h := h.of_eq (fun _ => rfl) (Nat.le_refl _)
  sendWill {b b' pClient} hsend log h := by
    have hdoes := (does_sendWill b pClient (-1)).of_eq_ok hsend
    refine h.of_eq (fun ref => ?_) (Nat.le_of_eq hdoes.next_ref_eq.symm)
    -- sending a will sets no subscriptions
    have hsame : Part.Same b b' (.subscribed_topics ref) := hdoes.same fun op hop => by
      cases op with
      | setSubscriptions => exact hop.elim
      | _ => simp [Op.Writes]
    exact hsame
  setState _ _ _ h := h.of_eq (fun _ => rfl) (Nat.le_refl _)
  close _ _ _ h := h.of_eq (fun _ => rfl) (Nat.le_refl _)
  addClient b sock ip now log h := by
    refine ⟨fun ref f => ?_, fun ref href => h.fresh ref (Nat.le_of_succ_le href)⟩
    -- a new client begins with an empty table and an empty log
    by_cases href : ref = b.next_ref
    · rw [href, Broker.addClient, heap_setClient_self, h.fresh _ (Nat.le_refl _)]
      rfl
    · rw [Broker.addClient, heap_setClient_ne href]
      exact h.lookup ref f
  execute _ _ _ h := h.of_eq (fun _ => rfl) (Nat.le_refl _)
  rehash {b b'} hb log h := by
    -- a rehash reorders a table and changes no lookup
    have hnext : b'.next_ref = b.next_ref := by rw [hb.others]
    refine ⟨fun ref f => ?_, fun ref href => h.fresh ref (hnext ▸ href)⟩
    rw [← UnorderedMap.lookup_eq_of_reordered (hb.subscribed_topics ref)]
    exact h.lookup ref f

/-- The remaining length of a packet is that of its body. -/
theorem packetAt_remaining_len {s : ServerThread} {e : SystemEvent} {fd : Fd} {ref : ClientRef}
    {fh : FixedHeader} {data : Bytes} (h : packetAt s e = some (fd, ref, fh, data)) :
    fh.remaining_len = data.length := by
  unfold packetAt at h
  split at h
  · split at h
    · cases h
    · obtain ⟨-, -, rfl, rfl⟩ := h
      rfl
  · cases h

/-- Each step keeps the tables and the logs in step. -/
theorem TableInv.step {s t : ServerThread} {e : SystemEvent} {log log' : ClientRef → Requests}
    (h : TableInv s.broker log) (hown : OwnClients s.broker) (hstep : system.Step s e t)
    (hlogs : Logs s e log log') : TableInv t.broker log' := by
  -- a step handles no packet, or exactly the one whose requests are logged
  cases outside_tables.system hstep with
  | outside hat hkeeps =>
    rw [Logs, hat] at hlogs
    rw [hlogs]
    exact hkeeps log h
  | @packet fd ref fh data random now b' err hat hclient hpacket hafter =>
    rw [Logs, hat] at hlogs
    obtain ⟨requests, hasks, rfl⟩ := hlogs
    have hheap : t.broker.heap = b'.heap := by
      obtain heq | ⟨written, heq⟩ := hafter
      · rw [heq]
      · rw [heq]
        rfl
    have htouch := outside_tables.touch s.broker ref now log h
    have hclient' : (touch s.broker ref now).clients.lookup fd = some (some ref) := hclient
    obtain ⟨hself, hothers⟩ :=
      handlePacket_tables (packetAt_remaining_len hat) hasks hclient' hpacket
    constructor
    · intro ref' f
      rw [hheap]
      by_cases href : ref' = ref
      · subst href
        rw [Function.update_self, hself]
        exact lookup_foldl_apply (htouch.lookup ref' f) requests
      · rw [Function.update_of_ne href, hothers ref' href]
        exact htouch.lookup ref' f
    · intro ref' hfresh
      have hle := Nat.le_trans (system_connections hstep).next_ref hfresh
      -- who sends a packet has been added before
      have href : ref' ≠ ref := fun href => Nat.not_lt.mpr hle (href ▸ hown.lt hclient)
      rw [Function.update_of_ne href]
      exact h.fresh ref' hle

/-- In every run a table is what the log of its client makes of an empty one. -/
theorem tableInv_of_reachable {s : ServerThread} {log : ClientRef → Requests}
    (h : requestSystem.Reachable (s, log)) : TableInv s.broker log := by
  have hinv : OwnClients s.broker ∧ TableInv s.broker log := by
    refine h.invariant (P := fun x => OwnClients x.1.broker ∧ TableInv x.1.broker x.2) ?_ ?_
    · rintro ⟨s, log⟩ ⟨⟨control_sock, rfl⟩, rfl⟩
      exact ⟨ownClients_of_reachable (.init ⟨control_sock, rfl⟩), fun _ _ => rfl, fun _ _ => rfl⟩
    · rintro ⟨s, log⟩ e ⟨t, log'⟩ ⟨hown, hinv⟩ ⟨hstep, hlogs⟩
      exact ⟨hown.step (system_connections hstep), hinv.step hown hstep hlogs⟩
  exact hinv.2

/-! ## The latest request -/

/-- A filter is in the table exactly when the last element that names it was of a SUBSCRIBE,
    and then with the options of that element. -/
def ReflectsLatest (table : UnorderedMap Bytes UInt8) (f : Bytes) (log : Requests) : Prop :=
  (f ∈ table ↔ (latest f log).isSome) ∧
    ∀ options, latest f log = some options → table.lookup f = some options

/-- In every run whose SUBSCRIBE and UNSUBSCRIBE packets are well-formed, the table of a
    client reflects the latest request for a filter exactly when the first SUBSCRIBE since
    the filter was last unsubscribed has the options of the last. -/
theorem latest_request_iff {s : ServerThread} {log : ClientRef → Requests}
    (h : requestSystem.Reachable (s, log)) (ref : ClientRef) (f : Bytes) :
    ReflectsLatest (s.broker.heap ref).subscribed_topics f (log ref) ↔
      kept f (log ref) = latest f (log ref) := by
  have hlookup := (tableInv_of_reachable h).lookup ref f
  have hsome := isSome_kept f (log ref)
  have hmem : f ∈ (s.broker.heap ref).subscribed_topics ↔ (latest f (log ref)).isSome := by
    rw [← AList.lookup_isSome, hlookup, hsome]
  -- the table has what is kept, which is there exactly when the latest request is a SUBSCRIBE
  constructor
  · rintro ⟨-, hoptions⟩
    cases hlatest : latest f (log ref) with
    | none =>
      rw [hlatest] at hsome
      exact Option.isNone_iff_eq_none.mp (by simpa using hsome)
    | some options => exact hlookup.symm.trans (hoptions options hlatest)
  · intro hkept
    refine ⟨hmem, fun options hlatest => ?_⟩
    rw [hlookup, hkept, hlatest]

/-! ## Runs of one client -/

/-- SUBSCRIBE to `t`, with options. -/
def subscribeRequest (options : UInt8) : SubscribeRequest where
  packet_id := 2
  properties := emptySection
  records := [([0x74], options)]
  records_le := by simp

/-- The step of a thread with the log, where every SUBSCRIBE is one of `ms` and nothing is
    unsubscribed. -/
def requestStep (ms : List SubscribeRequest) (x : ServerThread × (ClientRef → Requests))
    (e : SystemEvent) : Option (ServerThread × (ClientRef → Requests)) :=
  (systemStep x.1 e).bind fun t =>
    match packetAt x.1 e with
    | none => some (t, x.2)
    | some (_, ref, fh, data) =>
      if fh.getType = PackType.SUBSCRIBE.code then
        (ms.find? fun m => m.encode = data).map fun m =>
          (t, Function.update x.2 ref (x.2 ref ++ m.requests))
      else if fh.getType = PackType.UNSUBSCRIBE.code then none
      else some (t, x.2)

theorem step_of_requestStep {ms : List SubscribeRequest}
    {x y : ServerThread × (ClientRef → Requests)} {e : SystemEvent}
    (h : requestStep ms x e = some y) : requestSystem.Step x e y := by
  obtain ⟨t, ht, h⟩ := Option.bind_eq_some_iff.mp h
  show system.Step x.1 e y.1 ∧ Logs x.1 e x.2 y.2
  rw [Logs]
  split at h
  · rename_i hat
    obtain rfl := Option.some.inj h
    rw [hat]
    exact ⟨.inl ht, rfl⟩
  · rename_i fd ref fh data hat
    rw [hat]
    split at h
    · -- a SUBSCRIBE, which the packets of the run must contain
      rename_i htype
      obtain ⟨m, hm, rfl⟩ := Option.map_eq_some_iff.mp h
      have hdata : m.encode = data := by simpa using List.find?_some hm
      rw [← hdata]
      exact ⟨.inl ht, m.requests, .subscribe m htype, rfl⟩
    · -- any other packet; the runs have no UNSUBSCRIBE
      rename_i hsubscribe
      split at h
      · cases h
      · rename_i hunsubscribe
        obtain rfl := Option.some.inj h
        refine ⟨.inl ht, [], .other hsubscribe hunsubscribe, ?_⟩
        rw [List.append_nil, Function.update_eq_self]

/-- A client connects and subscribes, again and again. -/
def subscribing (ms : List SubscribeRequest) : List SystemEvent :=
  connected ++ ms.flatMap fun m => pass 0x82 m.encode

/-- Runs of the step function are runs. -/
theorem requestSystem_reachable {ms : List SubscribeRequest} {es : List SystemEvent}
    {x : ServerThread × (ClientRef → Requests)}
    (h : es.foldlM (requestStep ms) (fromStart, fun _ => []) = some x) :
    requestSystem.Reachable x :=
  ⟨_, es, ⟨⟨4, rfl⟩, rfl⟩, LTS.run_of_foldlM step_of_requestStep h⟩

/-- A filter that is subscribed again with the same options. -/
theorem latest_request_again : ∃ (s : ServerThread) (log : ClientRef → Requests),
    latest [0x74] (log 0) = some 1 ∧ kept [0x74] (log 0) = some 1 ∧
      ReflectsLatest (s.broker.heap 0).subscribed_topics [0x74] (log 0) := by
  let ms := [subscribeRequest 1, subscribeRequest 1]
  have hrun : ((subscribing ms).foldlM (requestStep ms) (fromStart, fun _ => [])).map
      (fun x => (latest [0x74] (x.2 0), kept [0x74] (x.2 0))) = some (some 1, some 1) := by
    decide +kernel
  obtain ⟨⟨s, log⟩, hs, hfinal⟩ := Option.map_eq_some_iff.mp hrun
  obtain ⟨hlatest, hkept⟩ := Prod.mk.inj hfinal
  exact ⟨s, log, hlatest, hkept, (latest_request_iff (requestSystem_reachable hs) 0 [0x74]).mpr
    (hkept.trans hlatest.symm)⟩

/-- A filter that is subscribed with QoS 0 and then with QoS 1 stays at QoS 0. -/
theorem resubscription_ignored : ∃ (s : ServerThread) (log : ClientRef → Requests),
    requestSystem.Reachable (s, log) ∧ latest [0x74] (log 0) = some 1 ∧
      (s.broker.heap 0).subscribed_topics.lookup [0x74] = some 0 ∧
      ¬ ReflectsLatest (s.broker.heap 0).subscribed_topics [0x74] (log 0) := by
  let ms := [subscribeRequest 0, subscribeRequest 1]
  have hrun : ((subscribing ms).foldlM (requestStep ms) (fromStart, fun _ => [])).map
      (fun x => (latest [0x74] (x.2 0), (x.1.broker.heap 0).subscribed_topics.lookup [0x74])) =
        some (some 1, some 0) := by
    decide +kernel
  obtain ⟨⟨s, log⟩, hs, hfinal⟩ := Option.map_eq_some_iff.mp hrun
  obtain ⟨hlatest, hlookup⟩ := Prod.mk.inj hfinal
  refine ⟨s, log, requestSystem_reachable hs, hlatest, hlookup, ?_⟩
  rintro ⟨-, hoptions⟩
  have hold := (hoptions 1 hlatest).symm.trans hlookup
  exact absurd hold (by decide)

end Mqtt.Spec
