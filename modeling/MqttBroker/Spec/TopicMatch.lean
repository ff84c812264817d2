import MqttBroker.Native.Client

/-!
# Topic levels against filters

When a list of filter levels accepts a topic name, and when the two loops that
compare them index past the other list. `Overruns` is the defect of
`checkWildCards` (the filter is the shorter list), `Outruns` the one of
`GetMatchedTopics` (the stored topic is).
-/

namespace Mqtt.Spec

open Mqtt.Native Mqtt.Native.Client Mqtt.Native.TopicStorage

/-! ## Subscriptions -/

/-- A filter level that lets a level of a topic name pass. -/
def Passes (f w : Bytes) : Prop := f = singleLevel ∨ (f ≠ multiLevel ∧ f = w)

/-- The levels of a filter accept those of a topic name. -/
inductive Accepts : (filter name : List Bytes) → Prop
  | multi {fs ws : List Bytes} {w : Bytes} : Accepts (multiLevel :: fs) (w :: ws)
  | last {f w : Bytes} : Passes f w → Accepts [f] [w]
  | cons {f w : Bytes} {fs ws : List Bytes} : Passes f w → Accepts fs ws →
      Accepts (f :: fs) (w :: ws)

/-- The topic name has more levels than the filter, and all of the filter's let
    it pass. -/
inductive Overruns : (filter name : List Bytes) → Prop
  | nil {w : Bytes} {ws : List Bytes} : Overruns [] (w :: ws)
  | cons {f w : Bytes} {fs ws : List Bytes} : Passes f w → Overruns fs ws →
      Overruns (f :: fs) (w :: ws)

/-- A filter that takes a name does not run over its end. -/
theorem Accepts.not_overruns {fs ws : List Bytes} (h : Accepts fs ws) : ¬ Overruns fs ws := by
  induction h with
  | multi =>
    rintro (_ | ⟨hp | hp, _⟩)
    · exact absurd hp (by decide)
    · exact hp.1 rfl
  | last =>
    rintro (_ | ⟨_, h⟩)
    exact nomatch h
  | cons _ _ ih =>
    rintro (_ | ⟨_, h⟩)
    exact ih h

/-- A filter accepts itself, unless it has no levels. -/
theorem accepts_self {fs : List Bytes} (h : fs ≠ []) : Accepts fs fs := by
  induction fs with
  | nil => exact absurd rfl h
  | cons f fs ih =>
    by_cases hmulti : f = multiLevel
    · rw [hmulti]
      exact .multi
    · have hp : Passes f f := .inr ⟨hmulti, rfl⟩
      by_cases hfs : fs = []
      · rw [hfs]
        exact .last hp
      · exact .cons hp (ih hfs)

/-- The token at a place. -/
theorem token_of_drop {tokens rest : List Bytes} {i : Nat} {t : Bytes}
    (h : tokens.drop i = t :: rest) : token tokens i = .ok t := by
  have hi : tokens[i]? = some t := by
    rw [← Nat.add_zero i, ← List.getElem?_drop, h]
    rfl
  simp only [token, hi]

/-- A read behind the last token is a fault. -/
theorem token_of_drop_nil {tokens : List Bytes} {i : Nat} (h : tokens.drop i = []) :
    token tokens i = .error .outOfBounds := by
  have hi : tokens[i]? = none := List.getElem?_eq_none (List.drop_eq_nil_iff.mp h)
  simp only [token, hi]

/-- Both lists end with the token at index `i`. -/
theorem last_iff {tokens tokens' ws fs : List Bytes} {w f : Bytes} {i : Nat}
    (hws : tokens.drop i = w :: ws) (hfs : tokens'.drop i = f :: fs) :
    (i + 1 = tokens.length ∧ i + 1 = tokens'.length) ↔ ws = [] ∧ fs = [] := by
  have h := congrArg List.length hws
  have h' := congrArg List.length hfs
  simp only [List.length_drop, List.length_cons] at h h'
  rw [← List.length_eq_zero_iff, ← List.length_eq_zero_iff]
  omega

/-- The tokens behind the first one. -/
private theorem drop_succ {tokens ts : List Bytes} {t : Bytes} {i : Nat}
    (h : tokens.drop i = t :: ts) : tokens.drop (i + 1) = ts := by
  rw [← List.drop_drop, h]
  rfl

/-- The inner loop of `checkWildCards` faults, accepts or goes on to the next
    subscription. -/
theorem matchSubscribedTopic_cases {name sub : List Bytes} (ws : List Bytes) :
    ∀ {i : Nat} {fs : List Bytes}, name.drop i = ws → sub.drop i = fs →
      (Overruns fs ws ∧ matchSubscribedTopic name sub ws i = .error .outOfBounds) ∨
      (Accepts fs ws ∧ matchSubscribedTopic name sub ws i = .ok true) ∨
      (¬ Overruns fs ws ∧ ¬ Accepts fs ws ∧ matchSubscribedTopic name sub ws i = .ok false) := by
  -- Induction on the levels of the name that are left
  induction ws with
  | nil =>
    intro i fs _ _
    exact .inr (.inr ⟨(nomatch ·), (nomatch ·), rfl⟩)
  | cons w ws ih =>
    intro i fs hws hfs
    cases fs with
    | nil => exact .inl ⟨.nil, by rw [matchSubscribedTopic, token_of_drop_nil hfs]; rfl⟩
    | cons f fs =>
      rw [matchSubscribedTopic, token_of_drop hfs, Except.ok_bind]
      simp only [last_iff hws hfs, Except.pure_eq_ok]
      have hrec := ih (drop_succ hws) (drop_succ hfs)
      -- a level that passes leaves the question to the rest
      have hpass : Passes f w → ¬ (ws = [] ∧ fs = []) → f ≠ multiLevel →
          (Overruns (f :: fs) (w :: ws) ↔ Overruns fs ws) ∧
            (Accepts (f :: fs) (w :: ws) ↔ Accepts fs ws) := fun hp hlast hmulti => by
        refine ⟨⟨fun h => ?_, .cons hp⟩, ⟨fun h => ?_, .cons hp⟩⟩
        · cases h with
          | cons _ h => exact h
        · cases h with
          | multi => exact absurd rfl hmulti
          | last => exact absurd ⟨rfl, rfl⟩ hlast
          | cons _ h => exact h
      have hacc : Accepts (f :: fs) (w :: ws) →
          (Overruns (f :: fs) (w :: ws) ∧ Except.ok true = (.error .outOfBounds : Exec Bool)) ∨
          (Accepts (f :: fs) (w :: ws) ∧ Except.ok true = (.ok true : Exec Bool)) ∨
          (¬ Overruns (f :: fs) (w :: ws) ∧ ¬ Accepts (f :: fs) (w :: ws) ∧
            Except.ok true = (.ok false : Exec Bool)) := fun h => .inr (.inl ⟨h, rfl⟩)
      split
      · rename_i hsingle
        have hp : Passes f w := .inl hsingle
        split
        · rename_i hlast
          obtain ⟨rfl, rfl⟩ := hlast
          exact hacc (.last hp)
        · rename_i hlast
          obtain ⟨ho, ha⟩ := hpass hp hlast (hsingle ▸ by decide)
          rwa [ho, ha]
      · rename_i hsingle
        split
        · rename_i hmulti
          exact hacc (hmulti ▸ .multi)
        · rename_i hmulti
          split
          · -- two levels that differ end the comparison
            rename_i hne
            have hnot : ¬ Passes f w := fun hp => hp.elim hsingle fun hp => hne hp.2.symm
            refine .inr (.inr ⟨fun h => ?_, fun h => ?_, rfl⟩)
            · cases h with
              | cons hp _ => exact hnot hp
            · cases h with
              | multi => exact hmulti rfl
              | last hp => exact hnot hp
              | cons hp _ => exact hnot hp
          · -- two levels that agree go on to the next
            rename_i heq
            have hp : Passes f w := .inr ⟨hmulti, (not_not.mp heq).symm⟩
            split
            · rename_i hlast
              obtain ⟨rfl, rfl⟩ := hlast
              exact hacc (.last hp)
            · rename_i hlast
              obtain ⟨ho, ha⟩ := hpass hp hlast hmulti
              rwa [ho, ha]

/-- A subscription that `checkWildCards` takes for a topic name. -/
def Selects (filter topic_name : Bytes) : Prop :=
  filter = multiLevel ∨ topic_name = filter ∨ Accepts (tokenize filter) (tokenize topic_name)

/-- A subscription whose levels are compared with those of a topic name and run
    out first. -/
def TooShort (filter topic_name : Bytes) : Prop :=
  filter ≠ multiLevel ∧ topic_name ≠ filter ∧ Overruns (tokenize filter) (tokenize topic_name)

/-- A filter that takes a name is long enough for it. -/
theorem Selects.not_tooShort {filter topic_name : Bytes} (h : Selects filter topic_name) :
    ¬ TooShort filter topic_name := by
  rintro ⟨hmulti, hne, hover⟩
  rcases h with h | h | h
  · exact hmulti h
  · exact hne h
  · exact h.not_overruns hover

/-- The loop over the subscriptions takes the first one, faults on it or goes on to the rest. -/
theorem checkSubscriptions_cons_cases (topic_name : Bytes) (it : Bytes × UInt8)
    (rest : List (Bytes × UInt8)) :
    (Selects it.1 topic_name ∧ checkSubscriptions topic_name (it :: rest) = .ok (true, it.2)) ∨
    (TooShort it.1 topic_name ∧
      checkSubscriptions topic_name (it :: rest) = .error .outOfBounds) ∨
    (¬ Selects it.1 topic_name ∧ ¬ TooShort it.1 topic_name ∧
      checkSubscriptions topic_name (it :: rest) = checkSubscriptions topic_name rest) := by
  rw [checkSubscriptions]
  simp only [Except.pure_eq_ok]
  split
  · rename_i hmulti
    exact .inl ⟨.inl hmulti, rfl⟩
  · rename_i hmulti
    split
    · rename_i heq
      exact .inl ⟨.inr (.inl heq), rfl⟩
    · rename_i heq
      -- neither `#` nor the name itself, so that the levels decide
      rcases matchSubscribedTopic_cases (tokenize topic_name)
          (@List.drop_zero _ (tokenize topic_name)) (@List.drop_zero _ (tokenize it.1)) with
        ⟨hover, h⟩ | ⟨hacc, h⟩ | ⟨hover, hacc, h⟩
      · rw [h]
        exact .inr (.inl ⟨⟨hmulti, heq, hover⟩, rfl⟩)
      · rw [h]
        exact .inl ⟨.inr (.inr hacc), rfl⟩
      · rw [h]
        refine .inr (.inr ⟨?_, fun hs => hover hs.2.2, rfl⟩)
        rintro (hsel | hsel | hsel)
        · exact hmulti hsel
        · exact heq hsel
        · exact hacc hsel

/-- The loop over the subscriptions faults exactly when one that is too short
    comes before all that are taken. -/
theorem checkSubscriptions_ok_iff (topic_name : Bytes) (subs : List (Bytes × UInt8)) :
    (∃ r, checkSubscriptions topic_name subs = .ok r) ↔
      ∀ pre sub post, subs = pre ++ sub :: post → (∀ e ∈ pre, ¬ Selects e.1 topic_name) →
        ¬ TooShort sub.1 topic_name := by
  -- Induction on the subscriptions
  induction subs with
  | nil => exact ⟨fun _ pre sub post h => by simp at h, fun _ => ⟨_, rfl⟩⟩
  | cons it rest ih =>
    rcases checkSubscriptions_cons_cases topic_name it rest with
      ⟨hsel, h⟩ | ⟨hshort, h⟩ | ⟨hsel, hshort, h⟩
    · -- a subscription that is taken ends the loop
      rw [h]
      refine ⟨fun _ pre sub post hsubs hpre => ?_, fun _ => ⟨_, rfl⟩⟩
      cases pre with
      | nil =>
        obtain ⟨rfl, rfl⟩ := List.cons.inj hsubs
        exact hsel.not_tooShort
      | cons p pre =>
        obtain ⟨rfl, -⟩ := List.cons.inj hsubs
        exact absurd hsel (hpre _ (.head _))
    · rw [h]
      -- one that is too short makes the loop fail
      refine ⟨fun ⟨r, hr⟩ => (nomatch hr), fun hall => ?_⟩
      exact absurd hshort (hall [] it rest rfl (by simp))
    · rw [h]
      refine ih.trans ⟨fun hall pre sub post hsubs hpre => ?_, fun hall pre sub post hsubs hpre =>
        hall (it :: pre) sub post (by rw [hsubs]; rfl)
          fun e he => (List.mem_cons.mp he).elim (fun h => h ▸ hsel) (hpre e)⟩
      cases pre with
      | nil =>
        obtain ⟨rfl, rfl⟩ := List.cons.inj hsubs
        exact hshort
      | cons p pre =>
        obtain ⟨rfl, rfl⟩ := List.cons.inj hsubs
        exact hall pre sub post rfl fun e he => hpre e (.tail _ he)

/-- The loop over the subscriptions, when it comes to an end, finds a match exactly
    when it takes a subscription. -/
theorem checkSubscriptions_found {topic_name : Bytes} {found : Bool} {o : UInt8}
    (subs : List (Bytes × UInt8)) (h : checkSubscriptions topic_name subs = .ok (found, o)) :
    found = true ↔ ∃ sub ∈ subs, Selects sub.1 topic_name := by
  induction subs with
  | nil =>
    obtain ⟨rfl, -⟩ := Prod.mk.inj (Except.ok.inj h)
    simp
  | cons it rest ih =>
    rcases checkSubscriptions_cons_cases topic_name it rest with
      ⟨hsel, hit⟩ | ⟨-, hit⟩ | ⟨hsel, -, hit⟩
    · -- a subscription that is taken is the answer
      obtain ⟨rfl, -⟩ := Prod.mk.inj (Except.ok.inj (h.symm.trans hit))
      exact ⟨fun _ => ⟨it, .head _, hsel⟩, fun _ => rfl⟩
    · exact nomatch h.symm.trans hit
    · rw [ih (hit.symm.trans h), List.exists_mem_cons_iff]
      simp only [hsel, false_or]

/-! ## Retained topics -/

/-- The filter has a level other than `+` behind the last level of the stored
    topic, and the levels before it are `+` or equal. -/
inductive Outruns : (filter stored : List Bytes) → Prop
  | stop {f : Bytes} {fs : List Bytes} : f ≠ singleLevel → Outruns (f :: fs) []
  | skip {fs ts : List Bytes} : Outruns fs ts.tail → Outruns (singleLevel :: fs) ts
  | level {f : Bytes} {fs ts : List Bytes} : f ≠ singleLevel → Outruns fs ts →
      Outruns (f :: fs) (f :: ts)

/-- The inner loop of `GetMatchedTopics` faults exactly when the filter outruns the
    stored topic. -/
theorem matchStoredTopic_ok_iff {filter stored : List Bytes} {it : MqttTopic}
    (fs : List Bytes) : ∀ {i : Nat} {matched_topics : OrderedSet MqttTopic.name},
      (∃ r, matchStoredTopic filter stored it fs i matched_topics = .ok r) ↔
        ¬ Outruns fs (stored.drop i) := by
  induction fs with
  | nil => exact fun {i _} => ⟨fun _ h => (nomatch h), fun _ => ⟨_, rfl⟩⟩
  | cons f fs ih =>
    intro i matched_topics
    rw [matchStoredTopic]
    split
    · rename_i hsingle
      subst hsingle
      -- a `+` is passed without a look at the stored topic, even behind its end
      rw [ih, ← List.tail_drop]
      generalize stored.drop i = ts
      refine not_congr ⟨.skip, fun h => ?_⟩
      cases h with
      | stop hne => exact absurd rfl hne
      | skip h => exact h
      | level hne _ => exact absurd rfl hne
    · rename_i hsingle
      cases hts : stored.drop i with
      | nil =>
        -- the index is behind the end of the stored topic
        rw [token_of_drop_nil hts]
        exact ⟨fun ⟨r, hr⟩ => (nomatch hr), fun h => absurd (.stop hsingle) h⟩
      | cons t ts =>
        rw [token_of_drop hts]
        simp only [Except.ok_bind, Except.pure_eq_ok]
        split
        · -- a level that differs ends the loop
          rename_i hne
          refine ⟨fun _ h => ?_, fun _ => ⟨_, rfl⟩⟩
          cases h with
          | skip _ => exact hsingle rfl
          | level _ _ => exact hne rfl
        · rename_i heq
          obtain rfl := not_not.mp heq
          rw [ih, drop_succ hts]
          refine not_congr ⟨.level hsingle, fun h => ?_⟩
          cases h with
          | skip _ => exact absurd rfl hsingle
          | level _ h => exact h

/-- The loop over the retained topics reads no token behind the end of one. -/
theorem matchStoredTopics_ok_iff {filter : List Bytes} (topics : List MqttTopic) :
    ∀ {matched_topics : OrderedSet MqttTopic.name},
      (∃ r, matchStoredTopics filter topics matched_topics = .ok r) ↔
        ∀ topic ∈ topics, ¬ Outruns filter (tokenize topic.name) := by
  induction topics with
  | nil => exact fun {_} => ⟨fun _ _ h => (nomatch h), fun _ => ⟨_, rfl⟩⟩
  | cons it rest ih =>
    intro matched_topics
    have hone := @matchStoredTopic_ok_iff filter (tokenize it.name) it filter 0 matched_topics
    rw [List.drop_zero] at hone
    rw [matchStoredTopics, List.forall_mem_cons, ← hone]
    cases matchStoredTopic filter (tokenize it.name) it filter 0 matched_topics with
    | error e => exact ⟨fun ⟨r, hr⟩ => (nomatch hr), fun h => (nomatch h.1)⟩
    | ok matched_topics =>
      exact ih.trans ⟨fun h => ⟨⟨_, rfl⟩, h⟩, And.right⟩

/-- The two loops over topic levels stay inside their lists exactly when: every
    subscription before which none is taken is long enough, and the filter of a
    retained lookup, unless it is `#` or `/#`, outruns no stored topic. -/
theorem topic_matching_ok_iff (c : Client) (topic_name : Bytes) (s : TopicStorage)
    (filter : Bytes) :
    ((∃ r, c.checkWildCards topic_name = .ok r) ↔
      ∀ pre sub post, c.subscribed_topics.toList = pre ++ sub :: post →
        (∀ e ∈ pre, ¬ Selects e.1 topic_name) → ¬ TooShort sub.1 topic_name) ∧
    ((∃ r, s.getMatchedTopics filter = .ok r) ↔
      filter = multiLevel ∨ filter = rootMultiLevel ∨
        ∀ topic ∈ s.topics.toList, ¬ Outruns (tokenize filter) (tokenize topic.name)) := by
  refine ⟨checkSubscriptions_ok_iff topic_name _, ?_⟩
  rw [getMatchedTopics]
  split
  · rename_i hall
    exact ⟨fun _ => hall.elim .inl fun h => .inr (.inl h), fun _ => ⟨_, rfl⟩⟩
  · rename_i hsome
    rw [matchStoredTopics_ok_iff]
    exact ⟨fun h => .inr (.inr h), fun h => h.elim (fun h => absurd (.inl h) hsome)
      fun h => h.elim (fun h => absurd (.inr h) hsome) id⟩

/-- A client subscribed to `a` and a topic named `a/b`; a filter `a/b` and a
    stored topic named `a`. -/
theorem topic_matching_past_end :
    ({ ip := [], time_last_packet := 0, subscribed_topics := AList.singleton [0x61] 0 } :
      Client).checkWildCards [0x61, 0x2F, 0x62] = .error .outOfBounds ∧
    (TopicStorage.mk (OrderedSet.empty.insert ⟨0, 0, [0x61], none⟩) ∅).getMatchedTopics
      [0x61, 0x2F, 0x62] = .error .outOfBounds := by
  decide +kernel

end Mqtt.Spec
