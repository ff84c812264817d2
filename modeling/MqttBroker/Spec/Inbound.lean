import MqttBroker.Spec.System

/-!
# Inbound QoS 2

`qos_2_topics` against a receiver that delivers exactly once. A stored topic is a
message that waits for its PUBREL. The store is a multimap, so the two agree as
long as no topic is stored under a packet id that is still in use: a PUBLISH that
is sent again before its PUBREL is the one way to break it.
-/

namespace Mqtt.Spec

open Mqtt.Native Mqtt.Native.Broker ReceiverEvent

/-- A QoS 2 PUBLISH is handled while a topic with its client id and packet id is
    still stored. -/
def ResentAt (s : ServerThread) (e : SystemEvent) : Prop :=
  ∃ client_id topic, PublishAt s e client_id topic ∧
    ∃ held ∈ stored s.broker client_id, held.id = topic.id

/-- The stored topics are the messages that wait for their PUBREL. -/
structure InboundInv (b : Broker) : Prop where
  exactlyOnce : ExactlyOnce (history b)
  waiting : ∀ client_id packet_id,
    (stored b client_id).filter (fun topic => topic.id = packet_id) =
      (pending (history b) (client_id, packet_id)).toList

/-- Of two topics with different ids one is erased, the other stays. -/
private theorem filter_eraseP_ne {l : List MqttTopic} {p q : UInt16} (h : q ≠ p) :
    (l.eraseP fun topic => topic.id = p).filter (fun topic => topic.id = q) =
      l.filter fun topic => topic.id = q := by
  induction l with
  | nil => rfl
  | cons topic rest ih =>
    by_cases hp : topic.id = p
    · simp [hp, h.symm]
    · rw [List.eraseP_cons_of_neg (by simpa using hp), List.filter_cons, List.filter_cons, ih]

/-- Erasing the first message with an id leaves the later ones with it. -/
private theorem filter_eraseP_self (l : List MqttTopic) (p : UInt16) :
    (l.eraseP fun topic => topic.id = p).filter (fun topic => topic.id = p) =
      (l.filter fun topic => topic.id = p).tail := by
  induction l with
  | nil => rfl
  | cons topic rest ih =>
    by_cases hp : topic.id = p
    · simp [hp]
    · rw [List.eraseP_cons_of_neg (by simpa using hp), List.filter_cons, List.filter_cons, ih]
      simp [hp]

/-- A message with an id that none is held under becomes the one that waits there. -/
theorem InboundInv.receives {b b' : Broker} {client_id : Bytes} {topic : MqttTopic}
    (h : InboundInv b) (hrec : Receives b b' client_id topic)
    (hnew : ∀ held ∈ stored b client_id, held.id ≠ topic.id) : InboundInv b' := by
  refine ⟨by rw [hrec.history]; exact h.exactlyOnce.received, fun c p => ?_⟩
  rw [hrec.topics, hrec.history, pending_received]
  -- only the id of the new message has one more
  by_cases hc : c = client_id
  · subst hc
    rw [Function.update_self, List.filter_cons]
    by_cases hp : topic.id = p
    · subst hp
      have hnone : (stored b c).filter (fun held => held.id = topic.id) = [] := by
        simpa using hnew
      simp [hnone]
    · have hkey : (c, p) ≠ (c, topic.id) := by simpa [eq_comm] using hp
      rw [Function.update_of_ne hkey, ← h.waiting]
      simp [hp]
  · -- nothing was received for another client
    have hkey : (c, p) ≠ (client_id, topic.id) := by simp [hc]
    rw [Function.update_of_ne hc, Function.update_of_ne hkey]
    exact h.waiting c p

/-- A PUBREL takes the message that waits, and what is left under the id is none. -/
theorem InboundInv.releases {b b' : Broker} {client_id : Bytes} {packet_id : UInt16}
    (h : InboundInv b) (hrel : Releases b b' client_id packet_id) : InboundInv b' := by
  -- the first topic with the id is the message that waits
  have hfind : (stored b client_id).find? (fun topic => topic.id = packet_id) =
      pending (history b) (client_id, packet_id) := by
    rw [← List.head?_filter, h.waiting]
    cases pending (history b) (client_id, packet_id) <;> rfl
  have hhistory := hrel.history
  rw [hfind] at hhistory
  refine ⟨by rw [hhistory]; exact h.exactlyOnce.release, fun c p => ?_⟩
  rw [hrel.topics, hhistory, pending_release]
  by_cases hc : c = client_id
  · subst hc
    rw [Function.update_self]
    -- other ids lose nothing
    by_cases hp : p = packet_id
    · subst hp
      rw [Function.update_self, filter_eraseP_self, h.waiting]
      cases pending (history b) (c, p) <;> rfl
    · have hkey : (c, p) ≠ (c, packet_id) := by simpa using hp
      rw [Function.update_of_ne hkey, filter_eraseP_ne hp]
      exact h.waiting c p
  · have hkey : (c, p) ≠ (client_id, packet_id) := by simp [hc]
    rw [Function.update_of_ne hc, Function.update_of_ne hkey]
    exact h.waiting c p

/-- Each step keeps what is held and what the history says waits the same, unless an id that is
    held is sent again. -/
theorem InboundInv.step {s t : ServerThread} {e : SystemEvent} (h : InboundInv s.broker)
    (hstep : system.Step s e t) (hnew : ¬ ResentAt s e) : InboundInv t.broker := by
  obtain hs | ⟨client_id, topic, hpublish, hrec⟩ | ⟨client_id, packet_id, hrel⟩ :=
    (system_effect hstep).inbound
  · refine ⟨by rw [hs.history]; exact h.exactlyOnce, fun c p => ?_⟩
    rw [hs.stored, hs.history]
    exact h.waiting c p
  · exact h.receives hrec fun held hheld hid =>
      hnew ⟨client_id, topic, hpublish, held, hheld, hid⟩
  · exact h.releases hrel

/-- A pass of the server thread with one packet, from the first client. -/
def pass (first : UInt8) (data : Bytes) : List SystemEvent :=
  [.server (.round false 0), .server (.socket (.pollin false (.packet first data []))),
    .server (.socket .idle), .server .next, .server .next]

/-- A client on socket 5 connects with the id `a`. -/
def connected : List SystemEvent :=
  [.addClient 5 [] 0, .start, .server (.round false 0)] ++
    pass 0x10 [0, 4, 0x4D, 0x51, 0x54, 0x54, 5, 0x02, 0, 60, 0, 0, 1, 0x61]

/-- The client publishes `x` under `t` with QoS 2 and packet id 1. -/
def publishQoS2 : List SystemEvent := pass 0x34 [0, 1, 0x74, 0, 1, 0, 0x78]

/-- The client releases packet id 1. -/
def pubrelQoS2 : List SystemEvent := pass 0x62 [0, 1]

/-- The published topic. -/
def topicT : MqttTopic := MqttTopic.new 2 1 [0x74] (some payloadX)

/-- The start of the broker, with a control socket. -/
def fromStart : ServerThread := { broker := { control_sock := 4 }, pc := .returned }

/-- A check that an event is no PUBLISH that is sent again: it is none, or no topic
    is stored. -/
def fresh (s : ServerThread) : SystemEvent → Bool
  | .server (.socket (.pollin _ (.packet first _ _))) =>
    (FixedHeader.mk first 0).getType ≠ PackType.PUBLISH.code ||
      s.broker.storage.qos_2_topics.toList.all fun e => e.2.isEmpty
  | _ => true

/-- What `fresh` checks. -/
private theorem not_resentAt_of_fresh {s : ServerThread} {e : SystemEvent}
    (h : fresh s e = true) : ¬ ResentAt s e := by
  rintro ⟨c, topic, ⟨fd, event, -, rfl, fh, data, ⟨add, random, rfl, -⟩, hpublish⟩, held, hheld, -⟩
  simp only [fresh, Bool.or_eq_true, decide_eq_true_eq, List.all_eq_true] at h
  obtain h | h := h
  · exact h hpublish.1
  · simp only [stored, TopicStorage.qosGroup] at hheld
    cases hl : s.broker.storage.qos_2_topics.lookup c with
    | none => simp [hl] at hheld
    | some group =>
      have hempty := h _ (UnorderedMap.mem_toList_iff.mpr hl)
      simp only [List.isEmpty_iff] at hempty
      simp [hl, hempty] at hheld

end Mqtt.Spec
