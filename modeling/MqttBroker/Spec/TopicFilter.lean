import MqttBroker.Spec.TopicMatch

/-!
# Topic filters by the MQTT rule

`Matches` is the rule: level by level, `+` for one level and `#` for those that
are left, none included. `checkWildCards` goes by it for names and filters whose
levels it can tell apart, with two exceptions: a filter that is `#` behind the
levels of the topic name is not taken, and a filter with too few levels is read
past its end.
-/

namespace Mqtt.Spec

open Mqtt.Native Mqtt.Native.Client

/-- What stands between the slashes. -/
def levels (name : Bytes) : List Bytes := name.splitOnP fun c => c == 0x2F

/-- A name whose levels are not empty, contain no whitespace and no `|` and do not
    start with `$`. -/
structure PlainLevels (name : Bytes) : Prop where
  separator : ∀ c ∈ name, isSeparator c = true → c = 0x2F
  nonempty : ∀ l ∈ levels name, l ≠ []
  dollar : ∀ l ∈ levels name, l.head? ≠ some 0x24

/-- A topic name: without wildcards. -/
structure IsTopicName (name : Bytes) : Prop extends PlainLevels name where
  wildcard : ∀ c ∈ name, c ≠ 0x2B ∧ c ≠ 0x23

/-- A topic filter: `+` is a whole level, and `#` is the last one. -/
structure IsTopicFilter (filter : Bytes) : Prop extends PlainLevels filter where
  single : ∀ l ∈ levels filter, 0x2B ∈ l → l = singleLevel
  multi : ∀ l ∈ levels filter, 0x23 ∈ l → l = multiLevel
  last : ∀ l ∈ (levels filter).dropLast, l ≠ multiLevel

/-- The MQTT rule. -/
inductive Matches : (filter name : List Bytes) → Prop
  | nil : Matches [] []
  | multi {ws : List Bytes} : Matches [multiLevel] ws
  | single {fs ws : List Bytes} {w : Bytes} : Matches fs ws →
      Matches (singleLevel :: fs) (w :: ws)
  | level {fs ws : List Bytes} {f : Bytes} : f ≠ singleLevel → f ≠ multiLevel → Matches fs ws →
      Matches (f :: fs) (f :: ws)

/-- The filter is `#` behind the levels of the topic name. -/
inductive ParentOf : (filter name : List Bytes) → Prop
  | multi : ParentOf [multiLevel] []
  | cons {f w : Bytes} {fs ws : List Bytes} : Passes f w → ParentOf fs ws →
      ParentOf (f :: fs) (w :: ws)

/-! ## Levels -/

/-- Splitting goes by the separators that occur. -/
private theorem splitOnP_congr {p q : UInt8 → Bool} {name : Bytes} (h : ∀ c ∈ name, p c = q c) :
    name.splitOnP p = name.splitOnP q := by
  induction name with
  | nil => rfl
  | cons c name ih =>
    rw [List.splitOnP_cons_eq_if_modifyHead, List.splitOnP_cons_eq_if_modifyHead, h c (.head _),
      ih fun c' hc' => h c' (.tail _ hc')]

/-- Without empty levels `strtok` finds the levels. -/
theorem tokenize_eq_levels {name : Bytes} (h : PlainLevels name) : tokenize name = levels name := by
  have hsplit : name.splitOnP isSeparator = levels name := by
    apply splitOnP_congr
    intro c hc
    -- of the three separators of `strtok` only the slash occurs
    by_cases hslash : c = 0x2F
    · rw [hslash]
      rfl
    · have hsep : isSeparator c = false := by
        rw [← Bool.not_eq_true]
        exact fun hs => hslash (h.separator c hc hs)
      simp [hsep, hslash]
  rw [tokenize, hsplit, List.filter_eq_self]
  intro l hl
  simpa using h.nonempty l hl

/-- A name has at least one level. -/
theorem levels_ne_nil (name : Bytes) : levels name ≠ [] := List.splitOnP_ne_nil _ _

/-! ## The rule and the loop -/

/-- A filter `a/#` does not take its parent `a` in the loop. -/
theorem ParentOf.not_accepts {fs ws : List Bytes} (h : ParentOf fs ws) : ¬ Accepts fs ws := by
  induction h with
  | multi =>
    intro hacc
    cases hacc
  -- the first levels agree, and the rest decides
  | cons hp hparent ih =>
    intro hacc
    cases hacc with
    | multi =>
      obtain hp | hp := hp
      · exact absurd hp (by decide)
      · exact hp.1 rfl
    | last => cases hparent
    | cons _ hacc => exact ih hacc

/-- A level of a filter and the rest, by the rule. -/
private theorem matches_cons_iff {f w : Bytes} {fs ws : List Bytes} (hmulti : f ≠ multiLevel) :
    Matches (f :: fs) (w :: ws) ↔ Passes f w ∧ Matches fs ws := by
  constructor
  · intro h
    cases h with
    | multi => exact absurd rfl hmulti
    | single h => exact ⟨.inl rfl, h⟩
    | level _ _ h => exact ⟨.inr ⟨hmulti, rfl⟩, h⟩
  · rintro ⟨hp, h⟩
    -- a level is passed by `+` or by itself
    by_cases hsingle : f = singleLevel
    · rw [hsingle]
      exact .single h
    · obtain ⟨-, rfl⟩ := hp.resolve_left hsingle
      exact .level hsingle hmulti h

/-- The rule takes what the loop accepts and the parents. -/
theorem matches_iff {fs ws : List Bytes} (hlast : ∀ l ∈ fs.dropLast, l ≠ multiLevel)
    (hne : ws ≠ []) : Matches fs ws ↔ Accepts fs ws ∨ ParentOf fs ws := by
  suffices ∀ fs ws : List Bytes, (∀ l ∈ fs.dropLast, l ≠ multiLevel) →
      (Matches fs ws ↔ Accepts fs ws ∨ ParentOf fs ws ∨ (fs = [] ∧ ws = [])) by
    rw [this fs ws hlast]
    simp [hne]
  intro fs
  -- Induction on the levels of the filter, along those of the name
  induction fs with
  | nil =>
    intro ws _
    constructor
    · intro h
      cases h
      exact .inr (.inr ⟨rfl, rfl⟩)
    · rintro (h | h | ⟨-, rfl⟩)
      · cases h
      · cases h
      · exact .nil
  | cons f fs ih =>
    intro ws hlast
    by_cases hmulti : f = multiLevel
    · -- `#` is the last level
      subst hmulti
      obtain rfl : fs = [] := by
        by_contra hfs
        rw [List.dropLast_cons_of_ne_nil hfs] at hlast
        exact hlast multiLevel (.head _) rfl
      refine iff_of_true .multi ?_
      cases ws with
      | nil => exact .inr (.inl .multi)
      | cons w ws => exact .inl .multi
    · -- any other level is compared, and the rest is the hypothesis
      have hrest : ∀ l ∈ fs.dropLast, l ≠ multiLevel := by
        by_cases hfs : fs = []
        · simp [hfs]
        · rw [List.dropLast_cons_of_ne_nil hfs] at hlast
          exact fun l hl => hlast l (.tail _ hl)
      cases ws with
      | nil =>
        refine iff_of_false ?_ ?_
        · intro h
          cases h
          exact hmulti rfl
        · rintro (h | h | ⟨h, -⟩)
          · cases h
          · cases h
            exact hmulti rfl
          · cases h
      | cons w ws =>
        rw [matches_cons_iff hmulti, ih ws hrest]
        constructor
        · rintro ⟨hp, hacc | hparent | ⟨rfl, rfl⟩⟩
          · exact .inl (.cons hp hacc)
          · exact .inr (.inl (.cons hp hparent))
          · exact .inl (.last hp)
        · rintro (h | h | ⟨h, -⟩)
          · cases h with
            | multi => exact absurd rfl hmulti
            | last hp => exact ⟨hp, .inr (.inr ⟨rfl, rfl⟩)⟩
            | cons hp h => exact ⟨hp, .inl h⟩
          · cases h with
            | cons hp h => exact ⟨hp, .inr (.inl h)⟩
          · cases h

/-- A filter matches a topic name otherwise than as `#` behind its levels. -/
def MatchesLevels (filter name : Bytes) : Prop :=
  Matches (levels filter) (levels name) ∧ ¬ ParentOf (levels filter) (levels name)

/-- What the loop takes among topic filters. -/
theorem selects_iff {filter name : Bytes} (hfilter : IsTopicFilter filter)
    (hname : IsTopicName name) : Selects filter name ↔ MatchesLevels filter name := by
  have hne := levels_ne_nil name
  have haccepts : Accepts (levels filter) (levels name) ↔ MatchesLevels filter name := by
    rw [MatchesLevels, matches_iff hfilter.last hne]
    constructor
    · exact fun h => ⟨.inl h, fun hparent => hparent.not_accepts h⟩
    · exact fun h => h.1.resolve_right h.2
  rw [Selects, tokenize_eq_levels hfilter.toPlainLevels, tokenize_eq_levels hname.toPlainLevels,
    ← haccepts]
  constructor
  · -- `#`, the name itself, or what the loop takes
    rintro (rfl | rfl | h)
    · obtain ⟨w, ws, hws⟩ := List.exists_cons_of_ne_nil hne
      rw [hws]
      exact .multi
    · exact accepts_self hne
    · exact h
  · exact fun h => .inr (.inr h)

/-- What is too short among topic filters. -/
theorem tooShort_iff {filter name : Bytes} (hfilter : IsTopicFilter filter)
    (hname : IsTopicName name) :
    TooShort filter name ↔ Overruns (levels filter) (levels name) := by
  have hsel := selects_iff hfilter hname
  rw [TooShort, tokenize_eq_levels hfilter.toPlainLevels, tokenize_eq_levels hname.toPlainLevels]
  refine ⟨fun h => h.2.2, fun h => ?_⟩
  -- a filter that is taken does not run out
  have hnot : ¬ Selects filter name := by
    intro hs
    have hmatches := hsel.mp hs
    rw [MatchesLevels, matches_iff hfilter.last (levels_ne_nil name)] at hmatches
    exact (hmatches.1.resolve_right hmatches.2).not_overruns h
  exact ⟨fun heq => hnot (.inl heq), fun heq => hnot (.inr (.inl heq)), h⟩

/-! ## Tables of subscriptions -/

/-- `MyTopic` comes to the answer of the rule. -/
def FollowsRule (c : Client) (name : Bytes) : Prop :=
  ∃ r, c.checkWildCards name = .ok r ∧
    (r.1 = true ↔ ∃ sub ∈ c.subscribed_topics.toList, Matches (levels sub.1) (levels name))

/-- The rule is followed exactly when no filter that is too short comes before all
    that match by their levels, and a filter that is `#` behind the levels of the
    topic name is not the only one to match. -/
theorem wildcards_follow_rule_iff {c : Client} {name : Bytes} (hname : IsTopicName name)
    (hsubs : ∀ sub ∈ c.subscribed_topics.toList, IsTopicFilter sub.1) :
    FollowsRule c name ↔
      (∀ pre sub post, c.subscribed_topics.toList = pre ++ sub :: post →
        (∀ e ∈ pre, ¬ MatchesLevels e.1 name) → ¬ Overruns (levels sub.1) (levels name)) ∧
      ((∃ sub ∈ c.subscribed_topics.toList, ParentOf (levels sub.1) (levels name)) →
        ∃ sub ∈ c.subscribed_topics.toList, MatchesLevels sub.1 name) := by
  have hok := checkSubscriptions_ok_iff name c.subscribed_topics.toList
  have hcond : (∀ pre sub post, c.subscribed_topics.toList = pre ++ sub :: post →
        (∀ e ∈ pre, ¬ Selects e.1 name) → ¬ TooShort sub.1 name) ↔
      ∀ pre sub post, c.subscribed_topics.toList = pre ++ sub :: post →
        (∀ e ∈ pre, ¬ MatchesLevels e.1 name) → ¬ Overruns (levels sub.1) (levels name) := by
    refine forall_congr' fun pre => forall_congr' fun sub => forall_congr' fun post =>
      imp_congr_right fun heq => ?_
    rw [heq] at hsubs
    have hpre : ∀ e ∈ pre, Selects e.1 name ↔ MatchesLevels e.1 name := fun e he =>
      selects_iff (hsubs e (List.mem_append_left _ he)) hname
    rw [tooShort_iff (hsubs sub (by simp)) hname]
    exact imp_congr_left (forall₂_congr fun e he => not_congr (hpre e he))
  -- the answer of the loop, against that of the rule
  have hanswer : ∀ r, c.checkWildCards name = .ok r →
      ((r.1 = true ↔ ∃ sub ∈ c.subscribed_topics.toList, Matches (levels sub.1) (levels name)) ↔
        ((∃ sub ∈ c.subscribed_topics.toList, ParentOf (levels sub.1) (levels name)) →
          ∃ sub ∈ c.subscribed_topics.toList, MatchesLevels sub.1 name)) := by
    intro r hr
    have hfound : r.1 = true ↔ ∃ sub ∈ c.subscribed_topics.toList, MatchesLevels sub.1 name := by
      rw [checkSubscriptions_found _ hr]
      exact exists_congr fun sub => and_congr_right fun hsub => selects_iff (hsubs sub hsub) hname
    rw [hfound]
    constructor
    · rintro hiff ⟨sub, hsub, hparent⟩
      refine hiff.mpr ⟨sub, hsub, ?_⟩
      exact (matches_iff (hsubs sub hsub).last (levels_ne_nil name)).mpr (.inr hparent)
    · intro hother
      constructor
      · rintro ⟨sub, hsub, hmatches, -⟩
        exact ⟨sub, hsub, hmatches⟩
      · rintro ⟨sub, hsub, hmatches⟩
        by_cases hparent : ParentOf (levels sub.1) (levels name)
        · exact hother ⟨sub, hsub, hparent⟩
        · exact ⟨sub, hsub, hmatches, hparent⟩
  rw [← hcond, ← hok]
  constructor
  · -- the loop agrees with the rule unless the parent of some filter is asked for
    rintro ⟨r, hr, hrule⟩
    exact ⟨⟨r, hr⟩, (hanswer r hr).mp hrule⟩
  · rintro ⟨⟨r, hr⟩, hother⟩
    exact ⟨r, hr, (hanswer r hr).mpr hother⟩

/-- A client subscribed to `a/#`. -/
def belowA : Client :=
  { ip := [], time_last_packet := 0, subscribed_topics := AList.singleton [0x61, 0x2F, 0x23] 0 }

/-- The name `a` has one level. -/
private theorem isTopicName_a : IsTopicName [0x61] :=
  ⟨⟨by decide +kernel, by decide +kernel, by decide +kernel⟩, by decide +kernel⟩

/-- The filter of the client is well formed. -/
private theorem isTopicFilter_belowA :
    ∀ sub ∈ belowA.subscribed_topics.toList, IsTopicFilter sub.1 := by
  intro sub hsub
  obtain rfl := List.mem_singleton.mp hsub
  exact ⟨⟨by decide +kernel, by decide +kernel, by decide +kernel⟩, by decide +kernel,
    by decide +kernel, by decide +kernel⟩

/-- `a/#` matches `a`, but is not taken for it. -/
theorem parent_not_taken :
    IsTopicName [0x61] ∧ (∀ sub ∈ belowA.subscribed_topics.toList, IsTopicFilter sub.1) ∧
      ¬ FollowsRule belowA [0x61] := by
  refine ⟨isTopicName_a, isTopicFilter_belowA, ?_⟩
  rintro ⟨r, hr, hrule⟩
  have hanswer : belowA.checkWildCards [0x61] = .ok (false, 0) := by decide +kernel
  obtain rfl := Except.ok.inj (hr.symm.trans hanswer)
  have hlevels : levels [0x61, 0x2F, 0x23] = [[0x61], multiLevel] := by decide +kernel
  have hmatches : Matches (levels [0x61, 0x2F, 0x23]) (levels [0x61]) := by
    rw [hlevels]
    exact .level (by decide) (by decide) .multi
  exact absurd (hrule.mpr ⟨_, .head _, hmatches⟩) (by decide)

/-- A client subscribed to `a/#` gets what is published under `a/b`. -/
theorem wildcards_follow_rule_below : FollowsRule belowA [0x61, 0x2F, 0x62] := by
  have hlevels : levels [0x61, 0x2F, 0x23] = [[0x61], multiLevel] := by decide +kernel
  have hname : levels [0x61, 0x2F, 0x62] = [[0x61], [0x62]] := by decide +kernel
  have hmatches : Accepts (levels [0x61, 0x2F, 0x23]) (levels [0x61, 0x2F, 0x62]) := by
    rw [hlevels, hname]
    -- `a` passes itself and `#` takes the rest
    exact .cons (.inr ⟨by decide, rfl⟩) .multi
  have hplain : IsTopicName [0x61, 0x2F, 0x62] :=
    ⟨⟨by decide +kernel, by decide +kernel, by decide +kernel⟩, by decide +kernel⟩
  refine (wildcards_follow_rule_iff hplain isTopicFilter_belowA).mpr
    ⟨fun pre sub post heq _ => ?_, fun _ => ⟨_, .head _, ?_⟩⟩
  · obtain rfl : sub = ([0x61, 0x2F, 0x23], 0) := by
      have hmem : sub ∈ belowA.subscribed_topics.toList := by rw [heq]; simp
      exact List.mem_singleton.mp hmem
    exact hmatches.not_overruns
  · exact ⟨(matches_iff (by decide +kernel) (levels_ne_nil _)).mpr (.inl hmatches),
      fun hparent => hparent.not_accepts hmatches⟩

end Mqtt.Spec
