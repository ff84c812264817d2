import Mathlib.Order.Bounds.Basic
import MqttBroker.Spec.TopicMatch

/-!
# Subscriptions in the order of a hash map

`checkWildCards` stops at the first subscription that it takes, and faults on the first that
is too short. Every subscription comes first in some order of the table, so the order does
not matter only where none is too short and all that are taken have the same options.
-/

namespace Mqtt.Spec

open Mqtt.Native Mqtt.Native.Client UnorderedMap

/-! ## One order -/

/-- Subscriptions of which none is too short come to an answer: the options of those that are
    taken, when these agree. -/
theorem checkSubscriptions_of_agree {topic_name : Bytes} {options : UInt8}
    {subs : List (Bytes × UInt8)} (hshort : ∀ sub ∈ subs, ¬ TooShort sub.1 topic_name)
    (hagree : ∀ sub ∈ subs, Selects sub.1 topic_name → sub.2 = options)
    (hsel : ∃ sub ∈ subs, Selects sub.1 topic_name) :
    checkSubscriptions topic_name subs = .ok (true, options) := by
  induction subs with
  | nil =>
    obtain ⟨sub, hmem, -⟩ := hsel
    cases hmem
  | cons it rest ih =>
    -- the first subscription is taken, or it is passed over and one behind it is taken
    rcases checkSubscriptions_cons_cases topic_name it rest with
      ⟨hit, h⟩ | ⟨hit, -⟩ | ⟨hit, -, h⟩
    · rw [h, hagree it (.head _) hit]
    · exact absurd hit (hshort it (.head _))
    · rw [h]
      refine ih (fun sub hmem => hshort sub (.tail _ hmem))
        (fun sub hmem => hagree sub (.tail _ hmem)) ?_
      obtain ⟨sub, hmem, hsel⟩ := hsel
      rcases List.mem_cons.mp hmem with rfl | hmem
      · exact absurd hsel hit
      · exact ⟨sub, hmem, hsel⟩

/-- Without a filter that selects the name, and with none too short for it, nothing is found. -/
theorem checkSubscriptions_of_none {topic_name : Bytes} {subs : List (Bytes × UInt8)}
    (hshort : ∀ sub ∈ subs, ¬ TooShort sub.1 topic_name)
    (hsel : ∀ sub ∈ subs, ¬ Selects sub.1 topic_name) :
    checkSubscriptions topic_name subs = .ok (false, 0) := by
  induction subs with
  | nil => rfl
  | cons it rest ih =>
    rcases checkSubscriptions_cons_cases topic_name it rest with
      ⟨hit, -⟩ | ⟨hit, -⟩ | ⟨-, -, h⟩
    · exact absurd hit (hsel it (.head _))
    · exact absurd hit (hshort it (.head _))
    · rw [h]
      exact ih (fun sub hmem => hshort sub (.tail _ hmem)) fun sub hmem => hsel sub (.tail _ hmem)

/-! ## All orders -/

/-- The client with its subscriptions in another order. -/
def withOrder (c : Client) (subscribed_topics : UnorderedMap Bytes UInt8) : Client :=
  { c with subscribed_topics }

/-- The QoS of the subscriptions that are taken for a topic name. -/
def selectedQoS (c : Client) (topic_name : Bytes) : Set Nat :=
  { qos | ∃ sub ∈ c.subscribed_topics.toList, Selects sub.1 topic_name ∧
    qos = (sub.2 &&& 3).toNat }

/-- `MyTopic` has one answer in all orders of the table, with the greatest QoS of the
    subscriptions that are taken. -/
def OrderIndependent (c : Client) (topic_name : Bytes) : Prop :=
  ∃ found options, (∀ m, Reordered c.subscribed_topics m →
      (withOrder c m).checkWildCards topic_name = .ok (found, options)) ∧
    (found = true → IsGreatest (selectedQoS c topic_name) (options &&& 3).toNat)

/-- Where all orders have one answer, every subscription has it in front of some others. -/
theorem answer_first {c : Client} {topic_name : Bytes} {answer : Bool × UInt8}
    (hall : ∀ m, Reordered c.subscribed_topics m →
      (withOrder c m).checkWildCards topic_name = .ok answer) {sub : Bytes × UInt8}
    (hmem : sub ∈ c.subscribed_topics.toList) :
    ∃ rest, checkSubscriptions topic_name (sub :: rest) = .ok answer := by
  -- one of the orders has the subscription at its front
  obtain ⟨m, rest, hm, htoList⟩ := exists_reordered_cons hmem
  have hanswer := hall m hm
  rw [checkWildCards, withOrder, htoList] at hanswer
  exact ⟨rest, hanswer⟩

/-- What is in front must not be too short, and if it is taken it has the options of the
    answer. -/
theorem options_of_first {topic_name : Bytes} {sub : Bytes × UInt8} {rest : List (Bytes × UInt8)}
    {found : Bool} {options : UInt8}
    (h : checkSubscriptions topic_name (sub :: rest) = .ok (found, options)) :
    ¬ TooShort sub.1 topic_name ∧ (Selects sub.1 topic_name → sub.2 = options) := by
  rcases checkSubscriptions_cons_cases topic_name sub rest with
    ⟨hsel, hcons⟩ | ⟨-, hcons⟩ | ⟨hnot, hshort, -⟩
  · exact ⟨hsel.not_tooShort, fun _ =>
      (Prod.mk.inj (Except.ok.inj (hcons.symm.trans h))).2⟩
  · exact nomatch hcons.symm.trans h
  · exact ⟨hshort, fun hsel => absurd hsel hnot⟩

/-- Subscriptions of which none is too short, and which agree where they are taken, have one
    answer in all orders. -/
theorem orderIndependent_of_agree {c : Client} {topic_name : Bytes}
    (hshort : ∀ sub ∈ c.subscribed_topics.toList, ¬ TooShort sub.1 topic_name)
    (hagree : ∀ sub ∈ c.subscribed_topics.toList, ∀ sub' ∈ c.subscribed_topics.toList,
      Selects sub.1 topic_name → Selects sub'.1 topic_name → sub.2 = sub'.2) :
    OrderIndependent c topic_name := by
  have hshort' : ∀ m, Reordered c.subscribed_topics m →
      ∀ sub ∈ m.toList, ¬ TooShort sub.1 topic_name := fun m hm sub hmem =>
    hshort sub ((mem_toList_of_reordered hm).mpr hmem)
  -- with a subscription that is taken the answer has its options, without one it is negative
  by_cases hsome : ∃ sub ∈ c.subscribed_topics.toList, Selects sub.1 topic_name
  · obtain ⟨sub, hmem, hsel⟩ := hsome
    refine ⟨true, sub.2, fun m hm => ?_, fun _ => ⟨⟨sub, hmem, hsel, rfl⟩, ?_⟩⟩
    · refine checkSubscriptions_of_agree (hshort' m hm) (fun sub' hmem' hsel' => ?_)
        ⟨sub, (mem_toList_of_reordered hm).mp hmem, hsel⟩
      exact hagree sub' ((mem_toList_of_reordered hm).mpr hmem') sub hmem hsel' hsel
    · rintro qos ⟨sub', hmem', hsel', rfl⟩
      rw [hagree sub' hmem' sub hmem hsel' hsel]
  · refine ⟨false, 0, fun m hm => ?_, nofun⟩
    refine checkSubscriptions_of_none (hshort' m hm) fun sub hmem hsel => ?_
    exact hsome ⟨sub, (mem_toList_of_reordered hm).mpr hmem, hsel⟩

/-- The order of the table does not matter exactly when no subscription is too short and all
    that are taken have the same options. -/
theorem order_independent_iff (c : Client) (topic_name : Bytes) :
    OrderIndependent c topic_name ↔
      (∀ sub ∈ c.subscribed_topics.toList, ¬ TooShort sub.1 topic_name) ∧
      ∀ sub ∈ c.subscribed_topics.toList, ∀ sub' ∈ c.subscribed_topics.toList,
        Selects sub.1 topic_name → Selects sub'.1 topic_name → sub.2 = sub'.2 := by
  constructor
  · rintro ⟨found, options, hall, -⟩
    have hfirst : ∀ sub ∈ c.subscribed_topics.toList, ¬ TooShort sub.1 topic_name ∧
        (Selects sub.1 topic_name → sub.2 = options) := by
      intro sub hmem
      obtain ⟨rest, hanswer⟩ := answer_first hall hmem
      exact options_of_first hanswer
    refine ⟨fun sub hmem => (hfirst sub hmem).1, fun sub hmem sub' hmem' hsel hsel' => ?_⟩
    rw [(hfirst sub hmem).2 hsel, (hfirst sub' hmem').2 hsel']
  · exact fun ⟨hshort, hagree⟩ => orderIndependent_of_agree hshort hagree

/-- A client that is subscribed to `a` with QoS 0 and to `+` with QoS 1. -/
def twiceSubscribed : Client :=
  { ip := [], time_last_packet := 0,
    subscribed_topics := (AList.singleton singleLevel 1).insert [0x61] 0 }

/-- The QoS with which it gets the topic `a` depends on the order. -/
theorem overlapping_order_dependent : ¬ OrderIndependent twiceSubscribed [0x61] := by
  rintro ⟨found, options, hall, -⟩
  have hswapped : Reordered twiceSubscribed.subscribed_topics
      ((AList.singleton [0x61] 0).insert singleLevel 1) := .swap _ _ _
  have hfirst : (withOrder twiceSubscribed twiceSubscribed.subscribed_topics).checkWildCards [0x61] =
      .ok (true, 0) := by decide +kernel
  have hsecond : (withOrder twiceSubscribed ((AList.singleton [0x61] 0).insert singleLevel 1)
      ).checkWildCards [0x61] = .ok (true, 1) := by decide +kernel
  have hsame := (hall _ (.refl _)).symm.trans hfirst
  rw [(Prod.mk.inj (Except.ok.inj hsame)).2] at hall
  exact absurd (Prod.mk.inj (Except.ok.inj ((hall _ hswapped).symm.trans hsecond))).2 (by decide)

end Mqtt.Spec
