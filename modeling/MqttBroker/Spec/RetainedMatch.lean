import MqttBroker.Spec.TopicMatch

/-!
# Live and retained matching

Which topic names a filter takes on the two paths: a topic that is published is
compared with the subscriptions of a client, a filter that is subscribed to with
the retained topics. Where neither path reads past a list of levels, both go by
`Accepts`, and the shortcuts before the comparison are all that can differ.
-/

namespace Mqtt.Spec

open Mqtt.Native Mqtt.Native.Client Mqtt.Native.TopicStorage

/-- A set of topics has one of a name. -/
def HasName (topics : OrderedSet MqttTopic.name) (name : Bytes) : Prop :=
  ∃ topic ∈ topics.toList, topic.name = name

/-! ## Filters against names -/

/-- No filter takes a name without levels. -/
theorem not_accepts_nil {fs : List Bytes} : ¬ Accepts fs [] := by
  intro h
  cases h

/-- A `#` takes whatever has a level left. -/
theorem accepts_multi_iff {fs ws : List Bytes} : Accepts (multiLevel :: fs) ws ↔ ws ≠ [] := by
  cases ws with
  | nil => simp [not_accepts_nil]
  | cons w ws => simp [Accepts.multi]

/-- A level that is not `#`, and the rest. -/
theorem accepts_cons_iff {f w : Bytes} {fs ws : List Bytes} (hmulti : f ≠ multiLevel) :
    Accepts (f :: fs) (w :: ws) ↔ Passes f w ∧ ((ws = [] ∧ fs = []) ∨ Accepts fs ws) := by
  constructor
  · intro h
    cases h with
    | multi => exact absurd rfl hmulti
    | last hp => exact ⟨hp, .inl ⟨rfl, rfl⟩⟩
    | cons hp h => exact ⟨hp, .inr h⟩
  · rintro ⟨hp, ⟨rfl, rfl⟩ | h⟩
    · exact .last hp
    · exact .cons hp h

/-! ## Subscriptions -/

/-- A client with one subscription takes the topic names that one selects. -/
theorem checkWildCards_singleton {c : Client} {filter topic_name : Bytes} {options o : UInt8}
    {found : Bool} (hsub : c.subscribed_topics.toList = [(filter, options)])
    (h : c.checkWildCards topic_name = .ok (found, o)) :
    found = true ↔ Selects filter topic_name := by
  rw [checkWildCards, hsub] at h
  rw [checkSubscriptions_found _ h]
  simp

/-! ## Retained topics -/

/-- Inserting a topic under a condition adds its name under that condition. -/
private theorem hasName_insertIf {topics : OrderedSet MqttTopic.name} {it : MqttTopic} {c : Prop}
    [Decidable c] {name : Bytes} :
    HasName (if c then topics.insert it else topics) name ↔
      (c ∧ it.name = name) ∨ HasName topics name := by
  by_cases hc : c
  · rw [if_pos hc]
    simp only [hc, true_and]
    exact OrderedSet.exists_key_insert
  · simp [hc]

/-- The inner loop of `GetMatchedTopics` adds the topic exactly when the rest of
    the filter accepts the rest of its levels. -/
theorem hasName_matchStoredTopic {filter stored : List Bytes} {it : MqttTopic} (fs : List Bytes) :
    ∀ {ts : List Bytes} {i : Nat} {topics r : OrderedSet MqttTopic.name} {name : Bytes},
      filter.drop i = fs → stored.drop i = ts →
      matchStoredTopic filter stored it fs i topics = .ok r →
      (HasName r name ↔ (Accepts fs ts ∧ it.name = name) ∨ HasName topics name) := by
  -- Induction on the levels of the filter that are left, along those of the stored topic
  induction fs with
  | nil =>
    intro ts i topics r name _ _ h
    obtain rfl := Except.ok.inj h
    have hnot : ¬ Accepts [] ts := by
      intro hacc
      cases hacc
    simp [hnot]
  | cons f fs ih =>
    intro ts i topics r name hfs hts h
    rw [matchStoredTopic] at h
    split at h
    · rename_i hsingle
      have hmulti : f ≠ multiLevel := hsingle ▸ by decide
      have hdrop : filter.drop (i + 1) = fs := by
        rw [← List.drop_drop, hfs]
        rfl
      have hdrop' : stored.drop (i + 1) = ts.tail := by
        rw [← List.tail_drop, hts]
      rw [ih hdrop hdrop' h, hasName_insertIf]
      cases ts with
      | nil =>
        -- behind the end of the stored topic nothing is added
        -- so the last level of both is not reached at once
        have hlast : ¬ (i + 1 = filter.length ∧ i + 1 = stored.length) := by
          have hlen := congrArg List.length hts
          rw [List.length_drop, List.length_nil] at hlen
          omega
        simp [not_accepts_nil, hlast]
      | cons t ts =>
        have hp : Passes f t := .inl hsingle
        rw [accepts_cons_iff hmulti, and_comm (a := i + 1 = filter.length),
          last_iff hts hfs, List.tail_cons]
        rw [← or_assoc, ← or_and_right, or_comm (a := Accepts fs ts)]
        simp only [hp, true_and]
    · rename_i hsingle
      cases ts with
      | nil =>
        rw [token_of_drop_nil hts] at h
        cases h
      | cons t ts =>
        rw [token_of_drop hts] at h
        simp only [Except.ok_bind, Except.pure_eq_ok] at h
        have hdrop : filter.drop (i + 1) = fs := by
          rw [← List.drop_drop, hfs]
          rfl
        have hdrop' : stored.drop (i + 1) = ts := by
          rw [← List.drop_drop, hts]
          rfl
        split at h
        · rename_i hne
          obtain rfl := Except.ok.inj h
          rw [hasName_insertIf]
          by_cases hmulti : f = multiLevel
          · subst hmulti
            simp [accepts_multi_iff]
          · have hnot : ¬ Passes f t := by
              rintro (hp | hp)
              · exact hsingle hp
              · exact hne hp.2
            rw [accepts_cons_iff hmulti]
            simp only [hmulti, hnot, false_and, false_or]
        · -- the two levels are equal
          rename_i heq
          obtain rfl := not_not.mp heq
          rw [ih hdrop hdrop' h, hasName_insertIf, hasName_insertIf,
            and_comm (a := i + 1 = filter.length), last_iff hts hfs]
          by_cases hmulti : f = multiLevel
          · subst hmulti
            simp only [accepts_multi_iff, true_and, ne_eq, reduceCtorEq, not_false_eq_true]
            -- the topic is added behind `#` whatever the levels before it did
            rw [or_iff_right_of_imp fun h => .inr (.inl h.2), or_iff_right_of_imp fun h => .inl h.2]
          · have hp : Passes f f := .inr ⟨hmulti, rfl⟩
            rw [accepts_cons_iff hmulti]
            simp only [hmulti, hp, false_and, false_or, true_and]
            rw [← or_assoc, ← or_and_right, or_comm (a := Accepts fs ts)]

/-- The outer loop of `GetMatchedTopics` collects the topics the filter accepts. -/
theorem hasName_matchStoredTopics {filter : List Bytes} {name : Bytes} (its : List MqttTopic) :
    ∀ {topics r : OrderedSet MqttTopic.name}, matchStoredTopics filter its topics = .ok r →
      (HasName r name ↔
        (∃ it ∈ its, Accepts filter (tokenize it.name) ∧ it.name = name) ∨ HasName topics name) := by
  -- Induction on the stored topics
  induction its with
  | nil =>
    intro topics r h
    obtain rfl := Except.ok.inj h
    simp
  | cons it its ih =>
    intro topics r h
    rw [matchStoredTopics] at h
    obtain ⟨topics', hone, h⟩ := Except.bind_eq_ok_iff.mp h
    rw [ih h, hasName_matchStoredTopic filter List.drop_zero List.drop_zero hone,
      List.exists_mem_cons_iff]
    exact or_left_comm.trans or_assoc.symm

/-- A retained topic is found by the filters `#` and `/#` and by those that accept
    its name. -/
theorem hasName_getMatchedTopics {s : TopicStorage} {filter topic_name : Bytes}
    {matched : OrderedSet MqttTopic.name} (hstored : HasName s.topics topic_name)
    (h : s.getMatchedTopics filter = .ok matched) :
    HasName matched topic_name ↔ filter = multiLevel ∨ filter = rootMultiLevel ∨
      Accepts (tokenize filter) (tokenize topic_name) := by
  rw [getMatchedTopics] at h
  split at h
  · -- `#` and `/#` take every topic
    rename_i hall
    obtain rfl := Except.ok.inj h
    exact iff_of_true hstored (hall.imp_right .inl)
  · -- any other filter is compared with each stored topic
    rename_i hsome
    rw [hasName_matchStoredTopics _ h]
    constructor
    · rintro (⟨it, -, hacc, rfl⟩ | ⟨topic, hmem, -⟩)
      · exact .inr (.inr hacc)
      · cases hmem
    · rintro (hmulti | hroot | hacc)
      · exact absurd (.inl hmulti) hsome
      · exact absurd (.inr hroot) hsome
      · obtain ⟨it, hmem, rfl⟩ := hstored
        exact .inl ⟨it, hmem, hacc, rfl⟩

/-! ## Agreement -/

/-- The two paths agree on a stored topic and a filter exactly when the topic name
    has a level, or is not the filter itself and the filter is not `/#`. -/
theorem retained_match_agrees_iff {c : Client} {s : TopicStorage} {filter topic_name : Bytes}
    {options o : UInt8} {found : Bool} {matched : OrderedSet MqttTopic.name}
    (hsub : c.subscribed_topics.toList = [(filter, options)])
    (hstored : HasName s.topics topic_name)
    (hlive : c.checkWildCards topic_name = .ok (found, o))
    (hretained : s.getMatchedTopics filter = .ok matched) :
    (HasName matched topic_name ↔ found = true) ↔
      (tokenize topic_name ≠ [] ∨ (topic_name ≠ filter ∧ filter ≠ rootMultiLevel)) := by
  rw [checkWildCards_singleton hsub hlive, hasName_getMatchedTopics hstored hretained, Selects]
  have hroot : tokenize rootMultiLevel = [multiLevel] := by decide +kernel
  have hmulti : tokenize multiLevel = [multiLevel] := by decide +kernel
  by_cases hlevels : tokenize topic_name = []
  · -- without levels nothing is compared, and only the shortcuts are left
    rw [hlevels]
    have hne : filter = multiLevel → topic_name ≠ filter := by
      rintro rfl rfl
      simp [hmulti] at hlevels
    have hne' : filter = rootMultiLevel → topic_name ≠ filter := by
      rintro rfl rfl
      simp [hroot] at hlevels
    have hboth : filter = multiLevel → filter ≠ rootMultiLevel := by
      rintro rfl
      decide
    simp only [not_accepts_nil, or_false, ne_eq, not_true_eq_false, false_or]
    by_cases hm : filter = multiLevel
    · exact iff_of_true (iff_of_true (.inl hm) (.inl hm)) ⟨hne hm, hboth hm⟩
    · by_cases hr : filter = rootMultiLevel
      · -- `/#` finds the topic without being its name
        simp only [hr, or_true, true_iff, not_true_eq_false, and_false, iff_false]
        rintro (hmulti' | hsame)
        · exact hm (hr.trans hmulti')
        · exact hne' hr (hsame.trans hr.symm)
      · simp only [hm, hr, false_or, false_iff, not_false_eq_true, and_true]
  · -- with levels a filter takes its own name, so that both sides compare the levels
    have hsame : topic_name = filter → Accepts (tokenize filter) (tokenize topic_name) := by
      rintro rfl
      exact accepts_self hlevels
    have hall : filter = rootMultiLevel → Accepts (tokenize filter) (tokenize topic_name) := by
      rintro rfl
      rw [hroot]
      exact accepts_multi_iff.mpr hlevels
    refine iff_of_true ⟨?_, ?_⟩ (.inl hlevels)
    · rintro (hm | hr | hacc)
      · exact .inl hm
      · exact .inr (.inr (hall hr))
      · exact .inr (.inr hacc)
    · rintro (hm | hs | hacc)
      · exact .inl hm
      · exact .inr (.inr (hsame hs))
      · exact .inr (.inr hacc)

/-- A client whose one subscription is the given filter. -/
def onlySubscribed (filter : Bytes) : Client :=
  { ip := [], time_last_packet := 0, subscribed_topics := AList.singleton filter 0 }

/-- The storage with one retained topic. -/
def retainedTopic (name : Bytes) : TopicStorage :=
  ⟨OrderedSet.empty.insert ⟨0, 0, name, none⟩, ∅⟩

/-- The topic named `/` is delivered to who is subscribed to `/`, but is not found
    among the retained topics. -/
theorem slash_not_retained :
    HasName (retainedTopic [0x2F]).topics [0x2F] ∧
    (onlySubscribed [0x2F]).subscribed_topics.toList = [([0x2F], 0)] ∧
    (onlySubscribed [0x2F]).checkWildCards [0x2F] = .ok (true, 0) ∧
    (retainedTopic [0x2F]).getMatchedTopics [0x2F] = .ok OrderedSet.empty ∧
    ¬ (HasName OrderedSet.empty [0x2F] ↔ true = true) := by
  refine ⟨⟨_, .head _, rfl⟩, rfl, by decide +kernel, by decide +kernel, fun h => ?_⟩
  obtain ⟨topic, hmem, -⟩ := h.mpr rfl
  cases hmem

/-- The topic named `a` and the filter `a`. -/
theorem retained_match_agrees_level :
    HasName (OrderedSet.empty.insert ⟨0, 0, [0x61], none⟩) [0x61] ↔ true = true :=
  (@retained_match_agrees_iff (onlySubscribed [0x61]) (retainedTopic [0x61]) [0x61] [0x61] 0 0 true
    (OrderedSet.empty.insert ⟨0, 0, [0x61], none⟩) rfl ⟨_, .head _, rfl⟩ (by decide +kernel)
    (by decide +kernel)).mpr (.inl (by decide +kernel))

end Mqtt.Spec
