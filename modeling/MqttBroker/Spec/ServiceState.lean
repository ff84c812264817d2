import MqttBroker.Spec.Outbound
import MqttBroker.Spec.Service

/-!
# The broker as a service

The state of the service that a broker shows, and what sending does to it. Client objects and
the two maps of sockets become sessions; the order of hash maps and the command queue do not
show.
-/

namespace Mqtt.Spec

open Mqtt.Native Mqtt.Native.Broker

/-! ## The state that shows -/

/-- The message of a topic. -/
def messageOf (topic : MqttTopic) : Option Message := topic.data.map fun data => (topic.name, data)

/-- The will of a client. -/
def willOf (c : Client) : Option Message := if c.isWillFlag then messageOf c.will_topic else none

/-- The session of a client. -/
def sessionOf (c : Client) (subscribed : Bool) : Service.Session where
  client_id := c.client_id
  generated := c.id_was_random_generated
  filters := c.subscribed_topics.lookup
  subscribed
  will := willOf c
  alive := c.alive
  last := c.time_last_packet
  next_id := c.packet_id_gen

/-- The session on a socket. -/
def sessionAt (b : Broker) (fd : Fd) : Option Service.Session :=
  match b.clients.lookup fd with
  | some (some ref) => some (sessionOf (b.heap ref) (b.subscribed_clients.lookup fd).isSome)
  | _ => none

/-- The service that a broker is, with the connections it is about to close. -/
def serviceOf (b : Broker) (ending : List Fd) : Service where
  sessions := sessionAt b
  retained := b.storage.getStoredValuePtr
  held := stored b
  ending

/-- What was written past the command queue. -/
def written? : Call → Option FdWriteCommand
  | .wrote fd packet => some ⟨fd, packet⟩
  | _ => none

/-- The packets that were written past the command queue, in their order. -/
def wrote (b : Broker) : List FdWriteCommand := b.calls.filterMap written?

/-- A call more is a write more if it wrote. -/
theorem wrote_record (b : Broker) (call : Call) :
    wrote (b.record call) = wrote b ++ (written? call).toList := by
  rw [wrote, Broker.record, List.filterMap_append]
  cases hcall : written? call <;> simp [hcall, wrote]

/-- What holds of the broker between any two steps. -/
structure ServiceInv (b : Broker) : Prop where
  own : OwnClients b
  mirrors : SubscribersConnected b
  positive : SocketsPositive b
  empty : b.postponed_events = ∅

/-- The invariant speaks of four fields of the broker. -/
theorem ServiceInv.of_eq {b b' : Broker} (h : ServiceInv b) (hclients : b'.clients = b.clients)
    (hnext : b'.next_ref = b.next_ref) (hsubscribed : b'.subscribed_clients = b.subscribed_clients)
    (hpostponed : b'.postponed_events = b.postponed_events) : ServiceInv b' :=
  ⟨h.own.of_eq hclients hnext, h.mirrors.of_eq hsubscribed hclients,
    fun fd ref hfd => h.positive fd ref (hclients ▸ hfd), hpostponed.trans h.empty⟩

/-- `CloseConnection` keeps the invariant. -/
theorem ServiceInv.closeConnection {b : Broker} (h : ServiceInv b) (fd : Fd) :
    ServiceInv (b.closeConnection fd) where
  own := h.own.closeConnection fd
  mirrors := h.mirrors.closeConnection fd
  positive fd' ref hfd' := h.positive fd' ref (lookup_closeConnection hfd').2
  empty := h.empty

/-- No client id has events that were postponed. -/
theorem ServiceInv.queue {b : Broker} (h : ServiceInv b) (client_id : Bytes) :
    b.checkIfMoreMessages client_id = false := by
  rw [checkIfMoreMessages, h.empty]
  rfl

section serviceOf

variable {b b' : Broker} {ending : List Fd} {fd : Fd} {ref : ClientRef}

/-- The session of a connected client. -/
theorem sessions_of_lookup (h : b.clients.lookup fd = some (some ref)) :
    (serviceOf b ending).sessions fd =
      some (sessionOf (b.heap ref) (b.subscribed_clients.lookup fd).isSome) := by
  simp only [serviceOf, sessionAt, h]

/-- A session is that of a connected client. -/
theorem lookup_of_sessions {σ : Service.Session} (h : (serviceOf b ending).sessions fd = some σ) :
    ∃ ref, b.clients.lookup fd = some (some ref) ∧
      σ = sessionOf (b.heap ref) (b.subscribed_clients.lookup fd).isSome := by
  simp only [serviceOf, sessionAt] at h
  split at h
  · exact ⟨_, ‹_›, (Option.some.inj h).symm⟩
  · exact nomatch h

/-- A change of a client is a change of its session. -/
theorem serviceOf_setClient (hown : OwnClients b) (hclient : b.clients.lookup fd = some (some ref))
    {c : Client} {f : Service.Session → Service.Session}
    (hf : ∀ subscribed, sessionOf c subscribed = f (sessionOf (b.heap ref) subscribed)) :
    serviceOf (b.setClient ref c) ending = (serviceOf b ending).edit fd f := by
  have hsessions : sessionAt (b.setClient ref c) =
      Function.update (sessionAt b) fd ((sessionAt b fd).map f) := by
    funext fd'
    by_cases hfd : fd' = fd
    · subst hfd
      rw [Function.update_self]
      have hclient' : (b.setClient ref c).clients.lookup fd' = some (some ref) := hclient
      simp only [sessionAt, hclient, hclient', heap_setClient_self, hf, Option.map_some]
      rfl
    · rw [Function.update_of_ne hfd]
      simp only [sessionAt]
      -- another socket has another client
      show (match b.clients.lookup fd' with | some (some ref') => _ | _ => none) = _
      split
      · rename_i ref' hlookup
        have href : ref' ≠ ref := fun heq => hfd (hown.inj (heq ▸ hlookup) hclient)
        rw [heap_setClient_ne href]
        rfl
      · rfl
  rw [serviceOf, hsessions]
  rfl

/-- A connection that is closed is a session that goes. -/
theorem serviceOf_closeConnection (fd : Fd) :
    serviceOf (b.closeConnection fd) ending = (serviceOf b ending).drop fd := by
  have hsessions : sessionAt (b.closeConnection fd) = Function.update (sessionAt b) fd none := by
    funext fd'
    simp only [sessionAt, Broker.closeConnection, delClient]
    by_cases hfd : fd' = fd
    · rw [hfd, AList.lookup_erase, Function.update_self]
    · rw [AList.lookup_erase_ne hfd, AList.lookup_erase_ne hfd, Function.update_of_ne hfd, sessionAt]
  rw [serviceOf, hsessions]
  rfl

/-- Noting the time of a packet notes it in its session. -/
theorem serviceOf_touch (hown : OwnClients b) (hclient : b.clients.lookup fd = some (some ref))
    (now : Time) : serviceOf (touch b ref now) ending = (serviceOf b ending).touch fd now :=
  serviceOf_setClient hown hclient fun _ => rfl

end serviceOf

/-! ## A packet handed out -/

/-- The filter that decides is one of those that take the name. -/
theorem checkWildCards_taken {c : Client} {name : Bytes} {options : UInt8}
    (h : c.checkWildCards name = .ok (true, options)) :
    ∃ f, c.subscribed_topics.lookup f = some options ∧ Selects f name := by
  suffices ∀ subs, Client.checkSubscriptions name subs = .ok (true, options) →
      ∃ f, (f, options) ∈ subs ∧ Selects f name by
    obtain ⟨f, hmem, hselects⟩ := this _ h
    exact ⟨f, UnorderedMap.mem_toList_iff.mp hmem, hselects⟩
  intro subs
  -- Induction on the subscriptions; the first one that takes the name decides
  induction subs with
  | nil => exact fun h => nomatch (Prod.mk.inj (Except.ok.inj h)).1
  | cons it rest ih =>
    intro h
    obtain ⟨hselects, hit⟩ | ⟨-, hit⟩ | ⟨-, -, hit⟩ := checkSubscriptions_cons_cases name it rest
    · obtain ⟨-, rfl⟩ := Prod.mk.inj (Except.ok.inj (h.symm.trans hit))
      exact ⟨it.1, .head _, hselects⟩
    · cases hit.symm.trans h
    · obtain ⟨f, hmem, hselects⟩ := ih (hit.symm.trans h)
      exact ⟨f, .tail _ hmem, hselects⟩

/-- When `CheckWildCards` finds nothing, no filter of the client takes the name. -/
theorem checkWildCards_none {c : Client} {name : Bytes} {found : Bool} {options : UInt8}
    (h : c.checkWildCards name = .ok (found, options)) (hfound : ¬ found = true) {f : Bytes}
    (hf : (c.subscribed_topics.lookup f).isSome) : ¬ Selects f name := by
  obtain ⟨o, ho⟩ := Option.isSome_iff_exists.mp hf
  intro hselects
  exact hfound ((checkSubscriptions_found _ h).mpr
    ⟨(f, o), UnorderedMap.mem_toList_iff.mpr ho, hselects⟩)

section handOut

variable {b : Broker} {ending : List Fd} {out : HandOut}

/-- A packet that is not kept numbers its client, and is queued. -/
theorem apply_of_not_kept (hkept : out.kept = false) : out.apply b =
    ((out.number b).addCommand out.fd out.packet).record (.publish out.fd out.client
      ((FixedHeader.mk (out.packet.headD 0) 0).qoS) out.packet_id out.packet) := by
  rw [HandOut.apply, HandOut.send, hkept]
  rfl

/-- A packet that is queued keeps the invariant. -/
theorem ServiceInv.apply (h : ServiceInv b) (hkept : out.kept = false) :
    ServiceInv (out.apply b) := by
  refine h.of_eq (HandOut.apply_clients b out) ?_ (HandOut.apply_subscribed_clients b out) ?_
  · rw [apply_of_not_kept hkept, HandOut.number]
    split <;> rfl
  · rw [HandOut.apply_postponed_events, hkept]
    rfl

/-- A PUBLISH that is handed out to a client takes one packet id of its session, if it has a
    QoS, and changes nothing else that shows. -/
theorem serviceOf_apply (hown : OwnClients b)
    (hclient : b.clients.lookup out.fd = some (some out.client)) (hkept : out.kept = false) :
    serviceOf (out.apply b) ending =
      (serviceOf b ending).edit out.fd fun σ => σ.number out.qos := by
  rw [apply_of_not_kept hkept]
  show serviceOf (out.number b) ending = _
  rw [HandOut.number]
  split
  · rename_i hqos
    have hnumber : (fun σ : Service.Session => σ.number out.qos) = id := by
      funext σ
      exact if_pos hqos
    rw [hnumber, Service.edit, Option.map_id]
    exact congrArg (fun sessions => { serviceOf b ending with sessions })
      (Function.update_eq_self out.fd _).symm
  · rename_i hqos
    -- the counter of the client is the next packet id of its session
    refine serviceOf_setClient hown hclient fun subscribed => ?_
    rw [Service.Session.number, if_neg hqos]
    rfl

end handOut

/-! ## What sending shows -/

/-- The broker `b'` comes out of `b` by queueing `out` and writing nothing else, and shows the
    service `S'`. -/
structure Shows (b : Broker) (ending : List Fd) (out : List Outgoing) (b' : Broker)
    (S' : Service) : Prop where
  emits : Emits b b' out
  writes : wrote b' = wrote b
  inv : ServiceInv b'
  shows : serviceOf b' ending = S'

namespace Shows

variable {b b' b'' : Broker} {ending : List Fd} {out out' : List Outgoing} {S' S'' : Service}

theorem refl (h : ServiceInv b) : Shows b ending [] b (serviceOf b ending) :=
  ⟨.of_eq rfl, rfl, h, rfl⟩

theorem trans (h : Shows b ending out b' S') (h' : Shows b' ending out' b'' S'') :
    Shows b ending (out ++ out') b'' S'' :=
  ⟨h.emits.trans h'.emits, h'.writes.trans h.writes, h'.inv, h'.shows⟩

/-- `AddCommand` with the encoding of a packet queues this packet and changes no session. -/
theorem addCommand (h : ServiceInv b) (fd : Fd) {p : ServerPacket} {answer : Bytes}
    (hanswer : answer = p.encode) :
    Shows b ending [(fd, p)] (b.addCommand fd answer) (serviceOf b ending) :=
  ⟨.addCommand b fd hanswer, rfl, h.of_eq rfl rfl rfl rfl, rfl⟩

/-- Recording calls that write nothing queues nothing and changes no session. -/
theorem of_eq (h : ServiceInv b) (heq : b' = { b with calls := b'.calls })
    (hwrote : wrote b' = wrote b) : Shows b ending [] b' (serviceOf b ending) := by
  refine ⟨.of_eq ?_, hwrote, ?_, ?_⟩
  · rw [heq]
  · rw [heq]
    exact h.of_eq rfl rfl rfl rfl
  · rw [heq]
    rfl

/-- Setting a connected client edits the session of its socket. -/
theorem setClient {fd : Fd} {ref : ClientRef} {c : Client} {f : Service.Session → Service.Session}
    (h : ServiceInv b) (hclient : b.clients.lookup fd = some (some ref))
    (hf : ∀ subscribed, sessionOf c subscribed = f (sessionOf (b.heap ref) subscribed)) :
    Shows b ending [] (b.setClient ref c) ((serviceOf b ending).edit fd f) :=
  ⟨.of_eq rfl, rfl, h.of_eq rfl rfl rfl rfl, serviceOf_setClient h.own hclient hf⟩

/-- `CloseConnection` drops the session of its socket. -/
theorem closeConnection (h : ServiceInv b) (fd : Fd) :
    Shows b ending [] (b.closeConnection fd) ((serviceOf b ending).drop fd) :=
  ⟨.of_eq rfl, rfl, h.closeConnection fd, serviceOf_closeConnection fd⟩

/-- A PUBLISH that is handed out is queued for its socket, and its session takes a packet id if
    it has a QoS. -/
theorem apply (ending : List Fd) {name : Bytes} {message : MqttBinaryDataEntity} {o : HandOut}
    (h : ServiceInv b)
    (hclient : b.clients.lookup o.fd = some (some o.client))
    (hcarries : Carries b name message o) :
    Shows b ending [(o.fd, .publish o.qos o.packet_id name message)] (o.apply b)
      ((serviceOf b ending).edit o.fd fun σ => σ.number o.qos) := by
  have hkept : o.kept = false := by
    rw [hcarries.kept, h.queue, Bool.and_false]
  refine ⟨emits_apply hcarries hkept, ?_, h.apply hkept, serviceOf_apply h.own hclient hkept⟩
  rw [apply_of_not_kept hkept, wrote_record, HandOut.number]
  split <;> exact List.append_nil _

end Shows

/-! ## Notification -/

section outTo

variable {fd fd' : Fd}

/-- All packets for one socket are to it, -/
theorem outTo_self (ps : List ServerPacket) : outTo fd (ps.map fun p => (fd, p)) = ps := by
  simp [outTo, List.filter_map, Function.comp_def]

/-- and none is to another one. -/
theorem outTo_ne (h : fd' ≠ fd) (ps : List ServerPacket) :
    outTo fd' (ps.map fun p => (fd, p)) = [] := by
  simp [outTo, List.filter_map, Function.comp_def, h.symm]

end outTo

namespace Service

variable {S : Service} {fd fd' : Fd} {f g : Session → Session}

/-- An edit is seen in its own session, -/
theorem sessions_edit_self {σ : Session} (h : S.sessions fd = some σ) :
    (S.edit fd f).sessions fd = some (f σ) := by
  simp only [edit, Function.update_self, h, Option.map_some]

/-- and in no other. -/
theorem sessions_edit_ne (h : fd' ≠ fd) : (S.edit fd f).sessions fd' = S.sessions fd' :=
  Function.update_of_ne h ..

/-- Two edits of one session are one. -/
theorem edit_edit : (S.edit fd f).edit fd g = S.edit fd fun σ => g (f σ) := by
  simp only [edit, Function.update_self, Function.update_idem, Option.map_map]
  rfl

/-- Where the session is known only what becomes of it counts. -/
theorem edit_congr {σ : Session} (h : S.sessions fd = some σ) (hfg : f σ = g σ) :
    S.edit fd f = S.edit fd g := by
  rw [edit, edit, h, Option.map_some, Option.map_some, hfg]

/-- A session that goes takes its changes with it. -/
theorem drop_edit : (S.drop fd').edit fd f = (S.edit fd f).drop fd' := by
  simp only [edit, drop, Service.mk.injEq, and_true]
  by_cases hfd : fd = fd'
  · rw [hfd, Function.update_self, Option.map_none, Function.update_idem, Function.update_idem]
  · rw [Function.update_of_ne hfd, Function.update_comm hfd]

/-- An edit that leaves its session as it is changes nothing. -/
theorem edit_id : (S.edit fd fun σ => σ) = S := by
  have hid : (S.sessions fd).map (fun σ => σ) = S.sessions fd := Option.map_id'
  rw [edit, hid, Function.update_eq_self]

end Service

section notify

variable {b b' : Broker} (ending : List Fd) {topic topic' : MqttTopic}

/-- One subscriber gets what its session gets. -/
theorem notifySubscriber_shows {it : Fd × ClientRef} (h : ServiceInv b)
    (hit : b.subscribed_clients.lookup it.1 = some it.2)
    (hnotify : b.notifySubscriber topic it.1 it.2 = .ok (b', topic')) : ∃ σ σ' ps,
      (serviceOf b ending).sessions it.1 = some σ ∧ σ.Gets topic.name topic.data σ' ps ∧
      Shows b ending (ps.map fun p => (it.1, p)) b' ((serviceOf b ending).edit it.1 fun _ => σ') := by
  have hclient := h.mirrors _ _ hit
  have hsession : (serviceOf b ending).sessions it.1 = some (sessionOf (b.heap it.2) true) := by
    rw [sessions_of_lookup hclient, hit]
    rfl
  unfold notifySubscriber at hnotify
  -- who has subscribed is connected, so the weak pointer can be locked
  rw [if_neg (by rw [alive_of_lookup hclient]; simp)] at hnotify
  obtain ⟨⟨found, options⟩, hmatch, hnotify⟩ := Except.bind_eq_ok_iff.mp hnotify
  dsimp only at hnotify
  split at hnotify
  · rename_i hfound
    obtain ⟨b₁, hsend, hresult⟩ := Except.bind_eq_ok_iff.mp hnotify
    obtain ⟨rfl, rfl⟩ := Prod.mk.inj (Except.ok.inj hresult)
    obtain ⟨message, out, hdata, hfd, href, hqos, hcarries, rfl⟩ := handOut_of_send hsend
    obtain ⟨f, hf, hselects⟩ := checkWildCards_taken (hfound ▸ hmatch)
    have hqos' : out.qos = options &&& 3 := hqos
    -- the QoS of the filter says whether the session counts the packet
    have hid : out.packet_id = (sessionOf (b.heap it.2) true).packetId (options &&& 3) := by
      rw [hcarries.packet_id, href, hqos']
      rfl
    have hshows := Shows.apply ending h (by rw [hfd, href]; exact hclient) hcarries
    rw [hfd, hqos', hid] at hshows
    refine ⟨_, _, _, hsession, .publish rfl hf hselects hdata ?_, ?_⟩
    · have hagree := hcarries.agree
      rwa [hqos', hid] at hagree
    · rwa [Service.edit_congr (g := fun _ => (sessionOf (b.heap it.2) true).number (options &&& 3))
        hsession rfl] at hshows
  · rename_i hfound
    obtain ⟨rfl, rfl⟩ := Prod.mk.inj (Except.ok.inj hnotify)
    refine ⟨_, _, [], hsession, .nothing fun _ f hf => checkWildCards_none hmatch hfound hf, ?_⟩
    rw [Service.edit_congr (g := fun σ => σ) hsession rfl, Service.edit_id]
    exact .refl h

/-- All subscribers of a list without repetitions get it, and nobody else does. -/
theorem notifySubscribers_shows (its : List (Fd × ClientRef)) :
    ∀ {b b' : Broker} {topic topic' : MqttTopic}, ServiceInv b →
      (∀ it ∈ its, b.subscribed_clients.lookup it.1 = some it.2) → (its.map Prod.fst).Nodup →
      notifySubscribers topic its b = .ok (b', topic') → ∃ out S', Shows b ending out b' S' ∧
        S' = { serviceOf b ending with sessions := S'.sessions } ∧
        (∀ fd ∉ its.map Prod.fst,
          S'.sessions fd = (serviceOf b ending).sessions fd ∧ outTo fd out = []) ∧
        ∀ fd ∈ its.map Prod.fst, ∃ σ σ', (serviceOf b ending).sessions fd = some σ ∧
          S'.sessions fd = some σ' ∧ σ.Gets topic.name topic.data σ' (outTo fd out) := by
  induction its with
  | nil =>
    intro b b' topic topic' hinv _ _ h
    obtain ⟨rfl, rfl⟩ := Prod.mk.inj (Except.ok.inj h)
    exact ⟨[], _, .refl hinv, rfl, fun _ _ => ⟨rfl, rfl⟩, fun _ hfd => nomatch hfd⟩
  | cons it rest ih =>
    intro b b' topic topic' hinv hits hnodup h
    obtain ⟨hnew, hnodup⟩ := List.nodup_cons.mp hnodup
    rw [notifySubscribers] at h
    obtain ⟨⟨b₁, topic₁⟩, hnotify, hrest⟩ := Except.bind_eq_ok_iff.mp h
    obtain ⟨σ, σ', ps, hσ, hgets, hfirst⟩ :=
      notifySubscriber_shows ending hinv (hits it (.head _)) hnotify
    obtain ⟨hout, hname, hdata⟩ := notifySubscriber_eq_ok hnotify
    -- the entries behind find their sessions as they were
    obtain ⟨out, S', hlater, hothers, habsent, hpresent⟩ := ih hfirst.inv (fun it' hit' => by
      rw [hout.sameSubscribers.subscribed_clients]
      exact hits it' (.tail _ hit')) hnodup hrest
    rw [hname, hdata] at hpresent
    rw [hfirst.shows] at hothers habsent hpresent
    -- the first entry gets its own packets only: no entry comes twice
    refine ⟨_, S', hfirst.trans hlater, hothers, fun fd hfd => ?_, fun fd hfd => ?_⟩
    · obtain ⟨hne, hfd⟩ := not_or.mp (mt List.mem_cons.mpr hfd)
      obtain ⟨hsession, hnothing⟩ := habsent fd hfd
      rw [outTo_append, outTo_ne hne, hnothing, hsession, Service.sessions_edit_ne hne]
      exact ⟨rfl, rfl⟩
    · obtain rfl | hfd := List.mem_cons.mp hfd
      · obtain ⟨hsession, hnothing⟩ := habsent _ hnew
        refine ⟨σ, σ', hσ, ?_, ?_⟩
        · rw [hsession, Service.sessions_edit_self hσ]
        · rw [outTo_append, outTo_self, hnothing, List.append_nil]
          exact hgets
      · have hne : fd ≠ it.1 := fun heq => hnew (heq ▸ hfd)
        obtain ⟨τ, τ', hτ, hτ', hgets'⟩ := hpresent fd hfd
        rw [Service.sessions_edit_ne hne] at hτ
        refine ⟨τ, τ', hτ, hτ', ?_⟩
        rwa [outTo_append, outTo_ne hne]

/-- `NotifyClients` is the notification of all sessions. -/
theorem notifyClients_shows {released : Option (Bytes × UInt16)} (h : ServiceInv b)
    (hnotify : b.notifyClients topic released = .ok (b', topic')) : ∃ out S',
      (serviceOf b ending).Notifies topic.name topic.data out S' ∧ Shows b ending out b' S' := by
  have hits : ∀ it ∈ b.subscribed_clients.toList, b.subscribed_clients.lookup it.1 = some it.2 :=
    fun it hit => UnorderedMap.mem_toList_iff.mp hit
  have hrecord : Shows b ending [] (b.record (.notifyClients released topic))
      (serviceOf b ending) := .of_eq h rfl (by rw [wrote_record]; exact List.append_nil _)
  obtain ⟨out, S', hshows, hothers, habsent, hpresent⟩ :=
    notifySubscribers_shows ending _ hrecord.inv hits
      (UnorderedMap.nodup_toList _) hnotify
  rw [hrecord.shows] at hothers habsent hpresent
  refine ⟨out, S', ⟨hothers, fun fd hfd => ?_, fun fd σ hσ => ?_⟩, hrecord.trans hshows⟩
  · -- without a session there is no subscriber
    by_cases hmem : fd ∈ b.subscribed_clients.toList.map Prod.fst
    · obtain ⟨σ, -, hσ, -⟩ := hpresent fd hmem
      cases hfd.symm.trans hσ
    · obtain ⟨hsession, hnothing⟩ := habsent fd hmem
      exact ⟨hsession.trans hfd, hnothing⟩
  · by_cases hmem : fd ∈ b.subscribed_clients.toList.map Prod.fst
    · obtain ⟨τ, σ', hτ, hσ', hgets⟩ := hpresent fd hmem
      obtain rfl := Option.some.inj (hσ.symm.trans hτ)
      exact ⟨σ', hσ', hgets⟩
    · obtain ⟨hsession, hnothing⟩ := habsent fd hmem
      refine ⟨σ, hsession.trans hσ, ?_⟩
      rw [hnothing]
      -- the session has not subscribed
      refine .nothing fun hsubscribed => absurd ?_ hmem
      obtain ⟨ref, -, rfl⟩ := lookup_of_sessions hσ
      obtain ⟨ref', href'⟩ := Option.isSome_iff_exists.mp hsubscribed
      exact List.mem_map.mpr ⟨(fd, ref'), UnorderedMap.mem_toList_iff.mpr href', rfl⟩

end notify

end Mqtt.Spec
