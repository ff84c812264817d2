import MqttBroker.Spec.Inbound
import MqttBroker.Spec.MessageFlow
import MqttBroker.Spec.Will

/-!
# Packet ids of long runs

A client's packet ids come from a counter of sixteen bits that starts at 1. Whatever is
sent to the client, the counter is one ahead of the number of ids given out, until that
number is 65535: then it is 0. A PUBLISH has no room for that id, though its size counts
one, and `CreateMqttPacket` fails its assertion.
-/

namespace Mqtt.Spec

open Mqtt.Native Mqtt.Native.Broker

/-- A PUBLISH for a client with a packet id. -/
def isNumbered (ref : ClientRef) : Call → Bool
  | .publish _ client _ packet_id _ => client = ref && packet_id != 0
  | _ => false

/-- How many PUBLISH packets with a packet id a client has been handed. -/
def idsGiven (b : Broker) (ref : ClientRef) : Nat := (handedOut b).countP (isNumbered ref)

/-- The counters are one ahead of what has been given out. -/
structure IdsInv (b : Broker) : Prop where
  counter : ∀ ref, idsGiven b ref < 65535 →
    (b.heap ref).packet_id_gen.toNat = idsGiven b ref + 1
  fresh : ∀ ref, b.next_ref ≤ ref → idsGiven b ref = 0

/-- No counter is counted up. -/
def KeepsIds (b b' : Broker) : Prop :=
  ∀ ref, (b'.heap ref).packet_id_gen = (b.heap ref).packet_id_gen

theorem KeepsIds.refl (b : Broker) : KeepsIds b b := fun _ => rfl

/-- Setting a client without its counter moves none. -/
theorem keepsIds_setClient {b : Broker} {ref : ClientRef} {c : Client}
    (h : c.packet_id_gen = (b.heap ref).packet_id_gen) : KeepsIds b (b.setClient ref c) :=
  heap_setClient_congr (f := Client.packet_id_gen) h

/-! ## What is handed out -/

/-- A silent operation moves no counter. -/
theorem keepsIds_of_silent {b : Broker} {op : Op} (h : Silent op) : KeepsIds b (op.apply b) := by
  cases op with
  | genPacketID => exact h.elim
  | setSubscriptions | setWillTopic | setLastTime => exact keepsIds_setClient rfl
  | delQosEvent client_id packet_id =>
    obtain ⟨_, heq⟩ := delQosEvent_eq b client_id packet_id
    rw [Op.apply, heq]
    exact .refl b
  | _ => exact .refl b

/-- Ids are given with packets that are handed out. -/
theorem idsGiven_congr {b b' : Broker} (h : handedOut b' = handedOut b) (ref : ClientRef) :
    idsGiven b' ref = idsGiven b ref := by rw [idsGiven, idsGiven, h]

/-- A packet with an id gives one to its client. -/
theorem idsGiven_apply (b : Broker) (h : HandOut) (ref : ClientRef) : idsGiven (h.apply b) ref =
    idsGiven b ref + if h.client = ref ∧ h.packet_id ≠ 0 then 1 else 0 := by
  rw [idsGiven, handedOut_apply, List.countP_append, ← idsGiven, List.countP_singleton]
  simp [isNumbered]

/-- Handing out makes no client. -/
theorem HandOut.apply_next_ref (b : Broker) (h : HandOut) : (h.apply b).next_ref = b.next_ref := by
  unfold apply send number
  split <;> split <;> rfl

namespace IdsInv

variable {b b' : Broker}

/-- The invariant is kept where nothing is handed out and no counter moves. -/
theorem of_keepsIds (h : IdsInv b) (hkeeps : KeepsIds b b') (hout : handedOut b' = handedOut b)
    (hnext : b.next_ref ≤ b'.next_ref) : IdsInv b' := by
  constructor
  · intro ref hlt
    rw [idsGiven_congr hout] at hlt ⊢
    rw [hkeeps ref]
    exact h.counter ref hlt
  · intro ref hfresh
    rw [idsGiven_congr hout]
    exact h.fresh ref (Nat.le_trans hnext hfresh)

/-- A packet takes the id the counter has, or none. -/
theorem apply {out : HandOut} (h : IdsInv b) (hlt : out.client < b.next_ref)
    (hid : out.packet_id = nextPacketID (b.heap out.client) out.qos) : IdsInv (out.apply b) := by
  constructor
  · intro ref hgiven
    rw [idsGiven_apply] at hgiven ⊢
    by_cases href : out.client = ref
    · subst href
      by_cases hqos : out.qos = 0
      · -- QoS 0 takes no id
        rw [nextPacketID, if_pos hqos] at hid
        rw [if_neg (by simp [hid])] at hgiven ⊢
        rw [HandOut.apply_heap_of_qos b out hqos]
        exact h.counter out.client hgiven
      · rw [nextPacketID, if_neg hqos] at hid
        rw [HandOut.apply_heap_self b out hqos]
        have hcounter := h.counter out.client (by omega)
        -- below 65535 the counter has not wrapped
        have hne : out.packet_id ≠ 0 := by
          intro hzero
          rw [← hid, hzero] at hcounter
          simp at hcounter
        rw [if_pos ⟨rfl, hne⟩] at hgiven ⊢
        simp only [Client.genPacketID, UInt16.toNat_add, hcounter, UInt16.toNat_one]
        omega
    · rw [if_neg fun hc => href hc.1] at hgiven ⊢
      rw [HandOut.apply_heap_ne b out (Ne.symm href)]
      exact h.counter ref hgiven
  · intro ref hfresh
    rw [HandOut.apply_next_ref] at hfresh
    have hne : out.client ≠ ref := fun href => Nat.not_lt.mpr hfresh (href ▸ hlt)
    rw [idsGiven_apply, if_neg (by simp [hne])]
    exact h.fresh ref hfresh

end IdsInv

/-- Forwarding changes no connection. -/
theorem Forwards.connections {M : Message → Prop} {b b' : Broker} (h : Forwards M b b') :
    b'.clients = b.clients ∧ b'.next_ref = b.next_ref := by
  induction h with
  | refl => exact ⟨rfl, rfl⟩
  | op op _ hop hen ih =>
    have hdoes := Does.one (A := Silent) op hop hen
    exact ⟨hdoes.clients_eq.trans ih.1, hdoes.next_ref_eq.trans ih.2⟩
  | @handOut b₁ out _ _ _ _ _ ih =>
    exact ⟨(out.apply_clients b₁).trans ih.1, (out.apply_next_ref b₁).trans ih.2⟩

/-- Forwarding keeps the counters in step with the ids given. -/
theorem IdsInv.forwards {M : Message → Prop} {b b' : Broker} (h : IdsInv b) (hown : OwnClients b)
    (hb : Forwards M b b') : IdsInv b' := by
  induction hb with
  | refl => exact h
  | op op _ hop hen ih =>
    have hdoes := Does.one (A := Silent) op hop hen
    exact ih.of_keepsIds (keepsIds_of_silent hop) (handedOut_silent hop)
      (Nat.le_of_eq hdoes.next_ref_eq.symm)
  | @handOut b₁ out m hb₁ _ halive hcarries ih =>
    obtain ⟨hclients, hnext⟩ := hb₁.connections
    refine ih.apply ?_ hcarries.packet_id
    -- who is alive has been added before
    simp only [Broker.alive, hclients, List.any_eq_true, decide_eq_true_eq] at halive
    obtain ⟨⟨fd, entry⟩, hmem, rfl⟩ := halive
    rw [hnext]
    exact hown.lt (UnorderedMap.mem_toList_iff.mp hmem)

/-! ## CONNECT -/

/-- A CONNECT moves no counter. -/
theorem connectHandler_keepsIds {b b' : Broker} {data random : Bytes} {fd : Fd} {err : MqttErr}
    (h : b.connectHandler data fd random = .ok (b', err)) : KeepsIds b b' := fun ref =>
  congrArg Prod.fst (connectHandler_keepsState h ref)

/-! ## The invariant over runs -/

/-- Forwarding is a way to describe the handling. -/
theorem handles_forwards : Handles (Forwards fun _ => True) where
  refl _ := .refl
  trans h h' := h.trans h'
  touch _ pClient current_time := .op (.setLastTime pClient current_time) .refl trivial trivial
  addCommand _ fd cmd := .op (.addCommand fd cmd) .refl trivial trivial
  wrote _ fd data := .op (.record (.wrote fd data)) .refl rfl trivial
  sendWill h := (sendWill_forwards h).1.mono fun _ _ => trivial
  handlePacket htype h := (handlePacket_forwards htype h).mono fun _ _ => trivial

/-- The core of a step keeps the counters in step with the ids given. -/
theorem IdsInv.core {s : ServerThread} {e : SystemEvent} {b b' : Broker} (h : IdsInv b)
    (hclients : b.clients = s.broker.clients) (hcore : Core s e b b') : IdsInv b' := by
  cases hcore with
  | refl => exact h
  | setState | execute | close => exact h.of_keepsIds (.refl b) rfl (Nat.le_refl _)
  -- a CONNECT gives no ids
  | connect _ _ hclient _ hconnect =>
    obtain ⟨b₁, heffect, hdoes⟩ := connectHandler_effect (hclients ▸ hclient) hconnect
    obtain ⟨-, -, hcalls⟩ := eq_of_addCommands (hdoes.mono fun op hop => by
      obtain ⟨answer, rfl⟩ := hop
      exact ⟨_, answer, rfl⟩)
    refine h.of_keepsIds (connectHandler_keepsIds hconnect) ?_ ?_
    · rw [handedOut, handedOut, hcalls, heffect.calls]
    · rw [hdoes.next_ref_eq, heffect.next_ref]
  | @addClient sock ip now he =>
    have hcalls : handedOut (b.addClient sock ip now).1 = handedOut b := rfl
    constructor
    · intro ref hlt
      rw [idsGiven_congr hcalls] at hlt ⊢
      by_cases href : ref = b.next_ref
      · -- a new client has been handed nothing
        rw [href, h.fresh _ (Nat.le_refl _)]
        simp [Broker.addClient, setClient]
      · rw [← h.counter ref hlt]
        simp [Broker.addClient, setClient, Function.update_of_ne href]
    · intro ref hfresh
      rw [idsGiven_congr hcalls]
      exact h.fresh ref (Nat.le_of_succ_le hfresh)
  | rehash hb =>
    have hothers := hb.others
    refine h.of_keepsIds (fun ref => ?_) ?_ ?_
    · rw [hothers]
    · rw [handedOut, handedOut, hothers]
    · rw [hothers]

/-- In every run the counter of a client has the number of ids it was given. -/
theorem idsInv_of_reachable {s : ServerThread} (h : system.Reachable s) : IdsInv s.broker := by
  have hinv : OwnClients s.broker ∧ IdsInv s.broker := by
    refine h.invariant (P := fun s => OwnClients s.broker ∧ IdsInv s.broker) ?_ ?_
    · rintro s ⟨control_sock, rfl⟩
      refine ⟨ownClients_of_reachable (.init ⟨control_sock, rfl⟩), fun ref _ => ?_, fun _ _ => ?_⟩
      · rfl
      · rfl
    · rintro s e t ⟨hown, hs⟩ hstep
      have hown' := hown.step (system_connections hstep)
      -- a step is its core between two parts that forward messages
      obtain ⟨b₁, b₂, h₁, hcore, h₂⟩ := handles_forwards.system hstep
      obtain ⟨hclients, hnext⟩ := h₂.connections
      have h₁' := (hs.forwards hown h₁).core h₁.connections.1 hcore
      exact ⟨hown', h₁'.forwards (hown'.of_eq hclients.symm hnext.symm) h₂⟩
  exact hinv.2

/-! ## The turn of one subscriber -/

/-- A packet with a packet id is handed out to an entry of `subscribed_clients`. -/
def HandsNumbered (b : Broker) (topic : MqttTopic) (message : MqttBinaryDataEntity)
    (it : Fd × ClientRef) : Prop :=
  ∃ (out : HandOut) (topic' : MqttTopic),
    b.notifySubscriber topic it.1 it.2 = .ok (out.apply b, topic') ∧
    out.fd = it.1 ∧ out.client = it.2 ∧ out.packet_id ≠ 0 ∧
    ∃ first, out.packet = packetBytes first
      (encodeString topic.name ++ htons out.packet_id.toNat ++ [0] ++ message.data)

/-- With QoS bits, but without a packet id, the assertion fails. -/
theorem createPublish_assert {topic : MqttTopic} {message : MqttBinaryDataEntity}
    (hdata : topic.data = some message) (hqos : topic.qos &&& 3 ≠ 0) (hid : topic.id = 0)
    (dup : Bool) : createPublish topic dup = .error .assertFailed := by
  rw [← qoS_publishByte_raw topic.qos dup] at hqos
  have hassert := @createMqttPacketMessage_assert _ topic.name message hqos
  rw [← hdata, ← hid] at hassert
  cases dup with
  | false => exact hassert
  | true => exact hassert

/-- A subscriber whose counter is 0 makes the assertion fail when its QoS is above 0. -/
theorem notifySubscriber_assert {b : Broker} {topic : MqttTopic} {message : MqttBinaryDataEntity}
    {it : Fd × ClientRef} {options : UInt8} (hdata : topic.data = some message)
    (halive : b.alive it.2) (hmatch : (b.heap it.2).checkWildCards topic.name = .ok (true, options))
    (hqos : options &&& 3 ≠ 0) (hgen : (b.heap it.2).packet_id_gen = 0) :
    b.notifySubscriber topic it.1 it.2 = .error .assertFailed := by
  unfold notifySubscriber
  rw [if_neg (by simp [halive]), hmatch, Except.ok_bind]
  dsimp only
  rw [if_pos rfl]
  generalize hsnd : (b.assignPacketID it.2 (topic.setQos (options &&& 3))).2 = sent
  have hsent := (assignPacketID_topic b it.2 (topic.setQos (options &&& 3))).symm.trans hsnd
  have hqos' : sent.qos = options &&& 3 := by rw [← hsent]; rfl
  -- the id that would be given is 0
  have hid : sent.id = 0 := by
    rw [← hsent]
    exact (if_neg hqos).trans hgen
  have hdata' : sent.data = some message := by rw [← hsent]; exact hdata
  have hcreate := createPublish_assert hdata' (by rwa [hqos', and_three_and_three]) hid
  have hpos : sent.qos > 0 := by rwa [hqos', gt_iff_lt, UInt8.pos_iff_ne_zero]
  unfold sendTopic
  simp only [if_pos hpos, hcreate]
  split <;> rfl

/-- Matching a topic against subscriptions faults in one way only. -/
theorem checkWildCards_fault {c : Client} {topic_name : Bytes} {e : Fault}
    (h : c.checkWildCards topic_name = .error e) : e = .outOfBounds := by
  -- only an index into the tokens can be outside
  have htoken : ∀ tokens i, (token tokens i).Sat (fun _ => True) (· = .outOfBounds) := by
    intro tokens i
    unfold token
    split <;> simp
  have hlevels : ∀ tokens tokens' levels i,
      (Client.matchSubscribedTopic tokens tokens' levels i).Sat (fun _ => True)
        (· = .outOfBounds) := by
    intro tokens tokens' levels
    -- Induction on the levels, and then on the filters
    induction levels with
    | nil => exact fun _ => trivial
    | cons level rest ih =>
      intro i
      refine (htoken tokens' i).bind fun subscribed _ => ?_
      split
      · split
        · trivial
        · exact ih _
      · repeat' split
        all_goals first | trivial | exact ih _
  have hloop : ∀ its, (Client.checkSubscriptions topic_name its).Sat (fun _ => True)
      (· = .outOfBounds) := by
    intro its
    induction its with
    | nil => trivial
    | cons it rest ih =>
      unfold Client.checkSubscriptions
      split
      · trivial
      · split
        · trivial
        · refine (hlevels _ _ _ _).bind fun found _ => ?_
          split
          · trivial
          · exact ih
  exact (hloop _).of_eq_error h

/-- The assertion fails only at the turn of a subscriber whose counter is 0. -/
theorem notifySubscribers_assert {message : MqttBinaryDataEntity} (its : List (Fd × ClientRef)) :
    ∀ {b : Broker} {topic : MqttTopic}, topic.data = some message →
      notifySubscribers topic its b = .error .assertFailed →
      ∃ b₁ it, Forwards (fun _ => True) b b₁ ∧ it ∈ its ∧ b₁.alive it.2 ∧
        (b₁.heap it.2).packet_id_gen = 0 := by
  induction its with
  | nil =>
    intro b topic _ h
    cases h
  | cons it rest ih =>
    intro b topic hdata h
    rw [notifySubscribers] at h
    -- the first subscriber fails, or it is served and one behind it fails
    obtain hfirst | ⟨⟨b₁, topic₁⟩, hfirst, hrest⟩ := Except.bind_eq_error_iff.mp h
    · refine ⟨b, it, .refl, .head _, ?_⟩
      by_contra hne
      have hgen : b.alive it.2 → (b.heap it.2).packet_id_gen ≠ 0 :=
        fun halive hzero => hne ⟨halive, hzero⟩
      -- matching has not failed, or the fault would be another one
      cases hmatch : (b.heap it.2).checkWildCards topic.name with
      | ok r =>
        obtain ⟨topic', hok, -⟩ := notifySubscriber_handOut hdata (fun _ => ⟨r, hmatch⟩)
          fun halive _ _ _ => hgen halive
        rw [hok] at hfirst
        cases hfirst
      | error e =>
        obtain rfl := checkWildCards_fault hmatch
        unfold notifySubscriber at hfirst
        rw [hmatch] at hfirst
        split at hfirst <;> cases hfirst
    · obtain ⟨hout, -, hdata'⟩ := notifySubscriber_eq_ok hfirst
      obtain ⟨b₂, it', hb₂, hmem, hzero⟩ := ih (hdata'.trans hdata) hrest
      refine ⟨b₂, it', .trans (.of_handsOut hout fun b₃ out hnotifies => ?_) hb₂, .tail _ hmem,
        hzero⟩
      obtain ⟨message', -, hcarries⟩ := hnotifies.carries
      exact ⟨hnotifies.alive, (topic.name, message'), trivial, hcarries⟩

/-- At any time of any run, a subscriber that takes a topic with QoS 1 or 2 is handed a
    packet with a packet id exactly when its counter is not 0, as it is while fewer than
    65535 such packets have been handed to it; and `NotifyClients` fails the assertion only
    at the turn of a subscriber that has been handed 65535 of them. -/
theorem packet_ids_usable {s : ServerThread} (hs : system.Reachable s) {b : Broker}
    (hb : Forwards (fun _ => True) s.broker b) {topic : MqttTopic}
    {message : MqttBinaryDataEntity} (hdata : topic.data = some message) :
    (∀ ref, idsGiven b ref < 65535 → (b.heap ref).packet_id_gen ≠ 0) ∧
    (∀ it options, b.alive it.2 →
      (b.heap it.2).checkWildCards topic.name = .ok (true, options) → options &&& 3 ≠ 0 →
      (HandsNumbered b topic message it ↔ (b.heap it.2).packet_id_gen ≠ 0)) ∧
    ∀ released, b.notifyClients topic released = .error .assertFailed →
      ∃ b₁ it, Forwards (fun _ => True) b b₁ ∧ it ∈ b.subscribed_clients.toList ∧
        b₁.alive it.2 ∧ (b₁.heap it.2).packet_id_gen = 0 ∧ 65535 ≤ idsGiven b₁ it.2 := by
  have hown := ownClients_of_reachable hs
  have hinv := (idsInv_of_reachable hs).forwards hown hb
  have hnonzero : ∀ {b : Broker}, IdsInv b → ∀ ref, idsGiven b ref < 65535 →
      (b.heap ref).packet_id_gen ≠ 0 := by
    intro b hinv ref hlt hzero
    -- while the counter has not come round it is one more than the packets handed out
    have hcounter := hinv.counter ref hlt
    rw [hzero] at hcounter
    simp at hcounter
  refine ⟨hnonzero hinv, fun it options halive hmatch hqos => ⟨?_, fun hgen => ?_⟩, ?_⟩
  · rintro ⟨out, topic', hok, -⟩ hzero
    rw [notifySubscriber_assert hdata halive hmatch hqos hzero] at hok
    cases hok
  · obtain ⟨topic', hok, -⟩ := @notifySubscriber_handOut _ _ _ it hdata
      (fun _ => ⟨_, hmatch⟩) (fun _ _ _ _ => hgen)
    obtain ⟨out, hout⟩ := Option.isSome_iff_exists.mp
      ((handOut_isSome_iff b topic message it).mpr ⟨halive, options, hmatch⟩)
    rw [hout] at hok
    rw [handOut, if_pos halive, hmatch] at hout
    obtain rfl := Option.some.inj hout
    have hid : nextPacketID (b.heap it.2) (options &&& 3) = (b.heap it.2).packet_id_gen :=
      if_neg hqos
    rw [← hid] at hgen
    have hbytes : ∀ id : UInt16, id ≠ 0 →
        encodePublish topic.name id = encodeString topic.name ++ htons id.toNat ++ [0] :=
      fun id hne => by rw [encodePublish, if_pos hne]
    exact ⟨_, topic', hok, rfl, rfl, hgen, _,
      congrArg (fun body => packetBytes _ (body ++ message.data)) (hbytes _ hgen)⟩
  · intro released hassert
    have hrecord : Forwards (fun _ => True) b (b.record (.notifyClients released topic)) :=
      .op (.record _) .refl rfl trivial
    -- the subscribers before it were served, which keeps the invariant
    obtain ⟨b₁, it, hb₁, hmem, halive, hzero⟩ := notifySubscribers_assert _ hdata hassert
    have hb₁' := hrecord.trans hb₁
    refine ⟨b₁, it, hb₁', hmem, halive, hzero, ?_⟩
    by_contra hlt
    exact hnonzero (hinv.forwards (hown.of_eq hb.connections.1 hb.connections.2) hb₁') it.2
      (Nat.lt_of_not_le hlt) hzero

/-! ## A client that publishes to itself -/

/-- The client on socket 5 has subscribed to `t` with QoS 1. -/
def subscribedT : List SystemEvent := connected ++ pass 0x82 [0, 2, 0, 0, 1, 0x74, 1]

/-- The topic `t`, published with QoS 0. -/
def plainT : MqttTopic := MqttTopic.new 0 0 [0x74] (some payloadX)

/-- A check that the server thread is before `poll`. -/
def isWaiting (s : ServerThread) : Bool :=
  match s.pc, s.broker.state with
  | .loop, .wait_state => true
  | _, _ => false

/-- The server thread waits, with one client, which has subscribed to `t`. -/
structure SelfSubscribed (s : ServerThread) : Prop where
  pc : s.pc = .loop
  state : s.broker.state = .wait_state
  vec_fds : s.vec_fds = [5, 4]
  control_sock : s.broker.control_sock = 4
  clients : s.broker.clients.toList = [(5, some 0)]
  subscribed_clients : s.broker.subscribed_clients.toList = [(5, 0)]
  subscribed_topics : (s.broker.heap 0).subscribed_topics.toList = [([0x74], 1)]

set_option synthInstance.maxSize 2000 in
/-- A client that has subscribed to its own topic, with the counter at 1. -/
theorem selfSubscribed_start : ∃ s, system.Reachable s ∧ SelfSubscribed s ∧
    (s.broker.heap 0).packet_id_gen = 1 := by
  have hrun : (subscribedT.foldlM systemStep fromStart).map (fun s =>
      (isWaiting s, s.vec_fds, s.broker.control_sock, s.broker.clients.toList,
        s.broker.subscribed_clients.toList, (s.broker.heap 0).subscribed_topics.toList,
        (s.broker.heap 0).packet_id_gen)) =
      some (true, [5, 4], 4, [(5, some 0)], [(5, 0)], [([0x74], 1)], 1) := by
    decide +kernel
  obtain ⟨s, hs, hfinal⟩ := Option.map_eq_some_iff.mp hrun
  simp only [Prod.mk.injEq] at hfinal
  obtain ⟨hwaiting, hfds, hcontrol, hclients, hsubscribed, htopics, hgen⟩ := hfinal
  unfold isWaiting at hwaiting
  split at hwaiting
  · rename_i hpc hstate
    exact ⟨s, reachable_of_steps 4 hs, ⟨hpc, hstate, hfds, hcontrol, hclients, hsubscribed,
      htopics⟩, hgen⟩
  · cases hwaiting

/-- The client that has subscribed to itself is the one on socket 5. -/
theorem SelfSubscribed.client {s : ServerThread} (h : SelfSubscribed s) :
    s.broker.clients.lookup 5 = some (some 0) :=
  UnorderedMap.mem_toList_iff.mp (by rw [h.clients]; exact .head _)

/-- The one filter of the client takes the topic `t`. -/
theorem checkWildCards_t {c : Client} (h : c.subscribed_topics.toList = [([0x74], 1)]) :
    c.checkWildCards plainT.name = .ok (true, 1) := by
  rw [Client.checkWildCards, h]
  decide

/-- The client publishes to `t` with QoS 0, and gets the message with QoS 1. -/
theorem handlePacket_self {b : Broker} (hclient : b.clients.lookup 5 = some (some 0))
    (hsubscribed : b.subscribed_clients.toList = [(5, 0)])
    (htopics : (b.heap 0).subscribed_topics.toList = [([0x74], 1)])
    (hgen : (b.heap 0).packet_id_gen ≠ 0) :
    ∃ out : HandOut, b.handlePacket ⟨0x30, 5⟩ [0, 1, 0x74, 0, 0x78] 5 [] =
      .ok (out.apply (b.record (.notifyClients none plainT)), .ok) ∧ out.client = 0 ∧
      out.qos ≠ 0 := by
  have hmem : (5 : Fd) ∈ b.clients := AList.lookup_isSome.mp (by rw [hclient]; rfl)
  have hat : b.clientAt 5 = (b, some 0) := by
    rw [clientAt, UnorderedMap.insertNew, if_pos hmem, hclient]
    rfl
  -- the PUBLISH has QoS 0 and does not retain
  have hread : handleMqttPublish ⟨0x30, 5⟩ [0, 1, 0x74, 0, 0x78] =
      .ok (⟨[0x74], 0, OrderedSet.empty⟩, payloadX) := by
    rfl
  have hmatch := checkWildCards_t htopics
  have halive := alive_of_lookup hclient
  obtain ⟨topic', hnotify, -⟩ := @notifySubscriber_handOut
    (b.record (.notifyClients none plainT)) plainT payloadX (5, 0) rfl (fun _ => ⟨_, hmatch⟩)
    (fun _ _ _ _ => hgen)
  obtain ⟨out, hout⟩ := Option.isSome_iff_exists.mp ((handOut_isSome_iff
    (b.record (.notifyClients none plainT)) plainT payloadX (5, 0)).mpr ⟨halive, _, hmatch⟩)
  rw [hout] at hnotify
  -- the client is its own and only subscriber
  have hnotifyClients : b.notifyClients plainT none = .ok
      (out.apply (b.record (.notifyClients none plainT)), topic') := by
    rw [notifyClients, hsubscribed, notifySubscribers, hnotify]
    rfl
  have hpublish : b.publishHandler ⟨0x30, 5⟩ [0, 1, 0x74, 0, 0x78] 5 = .ok
      (out.apply (b.record (.notifyClients none plainT)), .ok) := by
    have hqos : (FixedHeader.mk 0x30 5).qoS = 0 := by decide
    have hretain : (FixedHeader.mk 0x30 5).isRETAIN = false := by decide
    have hanswer : b.answerPublish ⟨0x30, 5⟩ 0 5 0 = .ok b := by
      simp only [answerPublish, hqos]
      rfl
    have htopic : MqttTopic.new 0 0 [0x74] (some payloadX) = plainT := rfl
    simp only [publishHandler, hat, hread, Except.ok_bind, deref, hretain, Bool.false_eq_true,
      ↓reduceIte, hanswer, hqos, htopic, hnotifyClients]
    rfl
  have hfields := @handOut_gets (b.record (.notifyClients none plainT)) _ _ (5, 0) _
    (by decide) (fun _ => hgen) hout
  obtain ⟨options, hmatch', hqos⟩ := hfields.qos
  obtain ⟨-, rfl⟩ := Prod.mk.inj (Except.ok.inj (hmatch.symm.trans hmatch'))
  refine ⟨out, hpublish, hfields.client, ?_⟩
  rw [hqos]
  decide

/-- A pass of the server thread in which the client publishes to itself counts its
    counter up. -/
theorem SelfSubscribed.publish {s : ServerThread} (h : SelfSubscribed s)
    (hreach : system.Reachable s) (hgen : (s.broker.heap 0).packet_id_gen ≠ 0) :
    ∃ t, system.Reachable t ∧ SelfSubscribed t ∧
      (t.broker.heap 0).packet_id_gen = (s.broker.heap 0).packet_id_gen + 1 := by
  have hclient := h.client
  have hself : (touch s.broker 0 0).heap 0 = { s.broker.heap 0 with time_last_packet := 0 } :=
    heap_setClient_self ..
  obtain ⟨out, hpacket, hout, hqos⟩ := handlePacket_self (b := touch s.broker 0 0) hclient
    h.subscribed_clients (by rw [hself]; exact h.subscribed_topics) (by rw [hself]; exact hgen)
  -- `b'` is the broker behind the packet; only the counter of the client has changed
  generalize hb' : out.apply ((touch s.broker 0 0).record (.notifyClients none plainT)) = b'
    at hpacket
  have hheap : b'.heap 0 = { s.broker.heap 0 with
      time_last_packet := 0
      packet_id_gen := (s.broker.heap 0).packet_id_gen + 1 } := by
    rw [← hb', ← hout, HandOut.apply_heap_self _ out hqos, hout]
    show ((touch s.broker 0 0).heap 0).genPacketID.1 = _
    rw [hself]
    rfl
  have hothers := HandOut.apply_others ((touch s.broker 0 0).record (.notifyClients none plainT))
    out (fun _ => default) [] ∅ []
  rw [hb'] at hothers
  have hclients : b'.clients = s.broker.clients := by
    have heq := congrArg Broker.clients hothers
    exact heq
  have hsubscribed : b'.subscribed_clients = s.broker.subscribed_clients := by
    have heq := congrArg Broker.subscribed_clients hothers
    exact heq
  have hstate : b'.state = s.broker.state := by
    have heq := congrArg Broker.state hothers
    exact heq
  have hcontrol : b'.control_sock = s.broker.control_sock := by
    have heq := congrArg Broker.control_sock hothers
    exact heq
  -- the five events of the pass
  have hround : systemStep s (.server (.round false 0)) =
      some { s with pc := .scan 2 0 0 [] } := by
    simp [systemStep, ServerThread.step, h.pc, h.state, ServerThread.waitState, getClientCount,
      h.clients, Except.toOption]
  have hread : s.broker.readClient 5 0 (.packet 0x30 [0, 1, 0x74, 0, 0x78] []) =
      .ok (b', .keep) := by
    rw [readClient, derefAt_eq hclient, Except.ok_bind]
    dsimp only
    rw [show ([0, 1, 0x74, 0, 0x78] : Bytes).length = 5 from rfl, hpacket]
    rfl
  have hsocket : systemStep { s with pc := .scan 2 0 0 [] }
      (.server (.socket (.pollin false (.packet 0x30 [0, 1, 0x74, 0, 0x78] [])))) =
      some { s with broker := b', pc := .scan 2 1 0 [] } := by
    simp [systemStep, ServerThread.step, ServerThread.scanAt, h.vec_fds, scanSocket,
      h.control_sock, hread, Except.toOption]
  have hidle : systemStep { s with broker := b', pc := .scan 2 1 0 [] } (.server (.socket .idle)) =
      some { s with broker := b', pc := .scan 2 2 0 [] } := by
    simp [systemStep, ServerThread.step, ServerThread.scanAt, h.vec_fds, scanSocket, hcontrol,
      h.control_sock, Except.toOption]
  have hend : systemStep { s with broker := b', pc := .scan 2 2 0 [] } (.server .next) =
      some { s with broker := b', pc := .close [] } := rfl
  have hloop : systemStep { s with broker := b', pc := .close [] } (.server .next) =
      some { s with broker := b', pc := .loop } := rfl
  refine ⟨{ s with broker := b', pc := .loop }, ?_, ?_, ?_⟩
  · exact ((((hreach.step (.inl hround)).step (.inl hsocket)).step (.inl hidle)).step
      (.inl hend)).step (.inl hloop)
  · exact ⟨rfl, hstate.trans h.state, h.vec_fds, hcontrol.trans h.control_sock,
      by rw [hclients]; exact h.clients, by rw [hsubscribed]; exact h.subscribed_clients,
      by rw [hheap]; exact h.subscribed_topics⟩
  · rw [hheap]

/-- Such passes run the counter through all its values. -/
theorem selfSubscribed_count (n : Nat) (hn : n ≤ 65535) : ∃ s, system.Reachable s ∧
    SelfSubscribed s ∧ (s.broker.heap 0).packet_id_gen = UInt16.ofNat (n + 1) := by
  induction n with
  | zero => exact selfSubscribed_start
  | succ n ih =>
    obtain ⟨s, hreach, hs, hgen⟩ := ih (by omega)
    -- the counter does not wrap before it has counted to 65535
    have hne : (s.broker.heap 0).packet_id_gen ≠ 0 := by
      intro hzero
      have hnat := congrArg UInt16.toNat (hgen.symm.trans hzero)
      rw [UInt16.toNat_ofNat', Nat.mod_eq_of_lt (by omega)] at hnat
      simp at hnat
    obtain ⟨t, ht, hpublish, hgen'⟩ := hs.publish hreach hne
    refine ⟨t, ht, hpublish, ?_⟩
    rw [hgen', hgen]
    apply UInt16.toNat.inj
    simp

/-- The first message is handed out with packet id 1. -/
theorem packet_ids_usable_first : ∃ s, system.Reachable s ∧
    (s.broker.heap 0).packet_id_gen = 1 ∧ HandsNumbered s.broker plainT payloadX (5, 0) := by
  obtain ⟨s, hreach, hs, hgen⟩ := selfSubscribed_start
  have hmatch := checkWildCards_t hs.subscribed_topics
  have hturn := (@packet_ids_usable _ hreach _ .refl plainT _ rfl).2.1 (5, 0) 1
    (alive_of_lookup hs.client) hmatch (by decide)
  refine ⟨s, hreach, hgen, hturn.mpr ?_⟩
  rw [hgen]
  decide

/-- After 65535 messages the next one cannot be made. -/
theorem packet_ids_run_out : ¬ ∀ s, system.Reachable s → ∀ topic message it options,
    topic.data = some message → s.broker.alive it.2 →
    (s.broker.heap it.2).checkWildCards topic.name = .ok (true, options) → options &&& 3 ≠ 0 →
    HandsNumbered s.broker topic message it := by
  intro h
  obtain ⟨s, hreach, hs, hgen⟩ := selfSubscribed_count 65535 (Nat.le_refl _)
  have hmatch := checkWildCards_t hs.subscribed_topics
  obtain ⟨out, topic', hok, -⟩ := h s hreach plainT payloadX (5, 0) 1 rfl
    (alive_of_lookup hs.client) hmatch (by decide)
  have hassert := @notifySubscriber_assert s.broker plainT payloadX (5, 0) 1 rfl
    (alive_of_lookup hs.client) hmatch (by decide) (by rw [hgen]; decide)
  rw [hassert] at hok
  cases hok

end Mqtt.Spec
