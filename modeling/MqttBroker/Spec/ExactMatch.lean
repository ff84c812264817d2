import MqttBroker.Spec.RetainedMatch

/-!
# Filters without wildcards

Without wildcards a filter accepts the rows of levels that equal its own, and the two loops
read past a row that is a proper prefix of the other. Rows of levels are not names, though:
names that are told apart only by their separators have the same levels, and a name of
nothing but separators has none.
-/

namespace Mqtt.Spec

open Mqtt.Native Mqtt.Native.Client Mqtt.Native.TopicStorage

/-- A name without `+` and `#`. -/
def WildcardFree (name : Bytes) : Prop := ∀ c ∈ name, c ≠ 0x2B ∧ c ≠ 0x23

/-- Levels that are no wildcards. -/
def Literal (fs : List Bytes) : Prop := ∀ f ∈ fs, f ≠ singleLevel ∧ f ≠ multiLevel

/-! ## Levels -/

/-- The levels of a name have its characters only. -/
theorem mem_of_mem_splitOnP {p : UInt8 → Bool} {name l : Bytes} {c : UInt8}
    (hl : l ∈ name.splitOnP p) (hc : c ∈ l) : c ∈ name := by
  -- Induction on the name
  induction name generalizing l with
  | nil =>
    rw [List.splitOnP_nil, List.mem_singleton] at hl
    rwa [hl] at hc
  | cons a name ih =>
    rw [List.splitOnP_cons_eq_if_modifyHead] at hl
    split at hl
    · rcases List.mem_cons.mp hl with rfl | hl
      · cases hc
      · exact .tail _ (ih hl hc)
    · -- the character goes to the front of the first part
      obtain ⟨first, rest, hparts⟩ := List.exists_cons_of_ne_nil (List.splitOnP_ne_nil p name)
      rw [hparts, List.modifyHead_cons] at hl
      rcases List.mem_cons.mp hl with rfl | hl
      · rcases List.mem_cons.mp hc with rfl | hc
        · exact .head _
        · exact .tail _ (ih (by rw [hparts]; exact .head _) hc)
      · exact .tail _ (ih (by rw [hparts]; exact .tail _ hl) hc)

/-- No level of a filter without wildcards is one. -/
theorem WildcardFree.literal {name : Bytes} (h : WildcardFree name) : Literal (tokenize name) := by
  intro l hl
  have hchars : ∀ c ∈ l, c ∈ name := fun c hc => mem_of_mem_splitOnP (List.mem_filter.mp hl).1 hc
  constructor
  · rintro rfl
    exact (h 0x2B (hchars _ (.head _))).1 rfl
  · rintro rfl
    exact (h 0x23 (hchars _ (.head _))).2 rfl

/-- A name without wildcards is none of the filters that are looked for first. -/
theorem WildcardFree.ne_multiLevel {name : Bytes} (h : WildcardFree name) : name ≠ multiLevel := by
  rintro rfl
  exact (h 0x23 (.head _)).2 rfl

/-- `/#` has a wildcard. -/
theorem WildcardFree.ne_rootMultiLevel {name : Bytes} (h : WildcardFree name) :
    name ≠ rootMultiLevel := by
  rintro rfl
  exact (h 0x23 (.tail _ (.head _))).2 rfl

section Levels

variable {fs : List Bytes} (h : Literal fs)
include h

/-- A level that is no wildcard lets itself pass only. -/
theorem Literal.passes_iff {f w : Bytes} (hf : f ∈ fs) : Passes f w ↔ f = w := by
  obtain ⟨hsingle, hmulti⟩ := h f hf
  rw [Passes]
  simp only [hsingle, hmulti, ne_eq, not_false_eq_true, true_and, false_or]

/-- Levels that are no wildcards accept themselves only. -/
theorem Literal.accepts_iff {ws : List Bytes} : Accepts fs ws ↔ fs = ws ∧ fs ≠ [] := by
  constructor
  · intro hacc
    -- a literal level passes itself alone
    induction hacc with
    | multi => exact absurd rfl (h multiLevel (.head _)).2
    | last hp =>
      rw [(h.passes_iff (.head _)).mp hp]
      exact ⟨rfl, nofun⟩
    | cons hp _ ih =>
      have hrest := ih fun f hf => h f (.tail _ hf)
      rw [(h.passes_iff (.head _)).mp hp, hrest.1]
      exact ⟨rfl, nofun⟩
  · rintro ⟨rfl, hne⟩
    exact accepts_self hne

/-- Literal levels are overrun by the names that go on behind them. -/
theorem Literal.overruns_iff {ws : List Bytes} : Overruns fs ws ↔ fs <+: ws ∧ fs ≠ ws := by
  constructor
  · intro hover
    induction hover with
    | nil => exact ⟨List.nil_prefix, nofun⟩
    | cons hp _ ih =>
      obtain ⟨hstarts, hne⟩ := ih fun f hf => h f (.tail _ hf)
      -- a literal level passes itself alone
      obtain rfl := (h.passes_iff (.head _)).mp hp
      refine ⟨(List.prefix_cons_inj _).mpr hstarts, fun heq => hne (List.cons.inj heq).2⟩
  · rintro ⟨⟨ws', rfl⟩, hne⟩
    -- the row that is left over when the filter has run out is not empty
    induction fs with
    | nil =>
      cases ws' with
      | nil => exact absurd rfl hne
      | cons w ws' => exact .nil
    | cons f fs ih =>
      refine .cons ((h.passes_iff (.head _)).mpr rfl) (ih (fun g hg => h g (.tail _ hg)) ?_)
      exact fun heq => hne (congrArg (f :: ·) heq)

/-- Literal levels outrun the names that stop before them. -/
theorem Literal.outruns_iff {ts : List Bytes} : Outruns fs ts ↔ ts <+: fs ∧ ts ≠ fs := by
  constructor
  · intro hout
    induction hout with
    | stop => exact ⟨List.nil_prefix, nofun⟩
    | skip => exact absurd rfl (h singleLevel (.head _)).1
    | level _ _ ih =>
      obtain ⟨hstarts, hne⟩ := ih fun f hf => h f (.tail _ hf)
      exact ⟨(List.prefix_cons_inj _).mpr hstarts, fun heq => hne (List.cons.inj heq).2⟩
  · rintro ⟨⟨fs', rfl⟩, hne⟩
    -- here it is the stored name that runs out, and a level of the filter is left
    induction ts with
    | nil =>
      cases fs' with
      | nil => exact absurd rfl hne
      | cons f fs' => exact .stop (h f (.head _)).1
    | cons t ts ih =>
      refine .level (h t (.head _)).1 (ih (fun g hg => h g (.tail _ hg)) ?_)
      exact fun heq => hne (congrArg (t :: ·) heq)

end Levels

/-! ## Names -/

/-- The only subscription of a client is compared without a fault unless it is too short. -/
theorem checkWildCards_singleton_ok_iff {c : Client} {filter topic_name : Bytes} {options : UInt8}
    (hsub : c.subscribed_topics.toList = [(filter, options)]) :
    (∃ r, c.checkWildCards topic_name = .ok r) ↔ ¬ TooShort filter topic_name := by
  rw [checkWildCards, hsub, checkSubscriptions_ok_iff]
  constructor
  · exact fun hall => hall [] (filter, options) [] rfl (by simp)
  · intro hshort pre sub post heq _
    cases pre with
    | nil =>
      obtain ⟨rfl, -⟩ := List.cons.inj heq
      exact hshort
    | cons e pre =>
      have hlen := congrArg List.length heq
      simp at hlen

/-- `MyTopic` of a client with one subscription is equality with its filter. -/
def MatchesExactly (c : Client) (filter topic_name : Bytes) : Prop :=
  ∃ found o, c.checkWildCards topic_name = .ok (found, o) ∧ (found = true ↔ topic_name = filter)

/-- `GetMatchedTopics` finds the retained topic that is named like the filter, and no other. -/
def FindsExactly (s : TopicStorage) (filter : Bytes) : Prop :=
  ∃ matched, s.getMatchedTopics filter = .ok matched ∧
    ∀ topic_name, HasName s.topics topic_name →
      (HasName matched topic_name ↔ topic_name = filter)

/-- A client with one filter takes exactly the equal name when the filter is not too short for
    it and selects nothing else. -/
theorem matchesExactly_iff_selects {c : Client} {filter topic_name : Bytes} {options : UInt8}
    (hsub : c.subscribed_topics.toList = [(filter, options)]) :
    MatchesExactly c filter topic_name ↔ ¬ TooShort filter topic_name ∧
      (Selects filter topic_name ↔ topic_name = filter) := by
  rw [← checkWildCards_singleton_ok_iff hsub]
  constructor
  · rintro ⟨found, o, hr, hiff⟩
    exact ⟨⟨_, hr⟩, (checkWildCards_singleton hsub hr).symm.trans hiff⟩
  · rintro ⟨⟨⟨found, o⟩, hr⟩, hiff⟩
    exact ⟨found, o, hr, (checkWildCards_singleton hsub hr).trans hiff⟩

/-- `GetMatchedTopics` finds exactly the equal name when no stored name is too short and the
    matching loop accepts no other. -/
theorem findsExactly_iff_accepts {s : TopicStorage} {filter : Bytes}
    (hfilter : WildcardFree filter) :
    FindsExactly s filter ↔ ∀ topic_name, HasName s.topics topic_name →
      ¬ Outruns (tokenize filter) (tokenize topic_name) ∧
        (Accepts (tokenize filter) (tokenize topic_name) ↔ topic_name = filter) := by
  have hmulti := hfilter.ne_multiLevel
  have hroot := hfilter.ne_rootMultiLevel
  -- the filters that get every topic have a wildcard, so the tokens decide
  -- the search fails exactly when the filter outruns a stored name
  have hok : (∃ r, s.getMatchedTopics filter = .ok r) ↔ ∀ topic_name, HasName s.topics topic_name →
      ¬ Outruns (tokenize filter) (tokenize topic_name) := by
    rw [getMatchedTopics, if_neg (by simp only [hmulti, hroot, or_self, not_false_eq_true]),
      matchStoredTopics_ok_iff]
    constructor
    · rintro hall topic_name ⟨topic, hmem, rfl⟩
      exact hall topic hmem
    · exact fun hall topic hmem => hall topic.name ⟨topic, hmem, rfl⟩
  have hfinds : ∀ {matched topic_name}, s.getMatchedTopics filter = .ok matched →
      HasName s.topics topic_name →
        (HasName matched topic_name ↔ Accepts (tokenize filter) (tokenize topic_name)) := by
    intro matched topic_name h hstored
    rw [hasName_getMatchedTopics hstored h]
    simp only [hmulti, hroot, false_or]
  constructor
  · rintro ⟨matched, h, hiff⟩ topic_name hstored
    exact ⟨hok.mp ⟨matched, h⟩ topic_name hstored,
      (hfinds h hstored).symm.trans (hiff topic_name hstored)⟩
  · intro hall
    obtain ⟨matched, h⟩ := hok.mpr fun topic_name hstored => (hall topic_name hstored).1
    exact ⟨matched, h, fun topic_name hstored =>
      (hfinds h hstored).trans (hall topic_name hstored).2⟩

/-- A row of levels is read past only if it is the start of a longer one. -/
theorem not_confused_iff {as bs : List Bytes} :
    (as <+: bs → as = bs) ∧ (as = bs → bs = []) ↔ bs = [] ∨ ¬ as <+: bs := by
  constructor
  · rintro ⟨hstarts, hnil⟩
    by_cases hprefix : as <+: bs
    · exact .inl (hnil (hstarts hprefix))
    · exact .inr hprefix
  · rintro (rfl | hnot)
    · exact ⟨List.prefix_nil.mp, fun _ => rfl⟩
    · exact ⟨fun hprefix => absurd hprefix hnot, fun heq => absurd (heq ▸ List.prefix_rfl) hnot⟩

/-- A filter without wildcards is matched exactly unless the name goes on behind it. -/
theorem matchesExactly_iff {c : Client} {filter topic_name : Bytes} {options : UInt8}
    (hfilter : WildcardFree filter)
    (hsub : c.subscribed_topics.toList = [(filter, options)]) :
    MatchesExactly c filter topic_name ↔
      topic_name = filter ∨ tokenize topic_name = [] ∨ ¬ tokenize filter <+: tokenize topic_name := by
  rw [matchesExactly_iff_selects hsub, Selects, TooShort, hfilter.literal.accepts_iff,
    hfilter.literal.overruns_iff, ← not_confused_iff]
  simp only [hfilter.ne_multiLevel, ne_eq, not_false_eq_true, true_and, false_or]
  by_cases hsame : topic_name = filter
  · simp only [hsame, not_true_eq_false, false_and, not_false_eq_true, true_or, true_and]
  · simp only [hsame, not_false_eq_true, true_and, false_or, iff_false, not_and, not_not]
    exact and_congr_right fun _ => forall_congr' fun heq => by rw [heq]

/-- A filter without wildcards finds exactly the equal name unless a stored one stops before it. -/
theorem findsExactly_iff {s : TopicStorage} {filter : Bytes} (hfilter : WildcardFree filter) :
    FindsExactly s filter ↔ ∀ topic_name, HasName s.topics topic_name →
      if topic_name = filter then tokenize filter ≠ []
      else tokenize filter = [] ∨ ¬ tokenize topic_name <+: tokenize filter := by
  rw [findsExactly_iff_accepts hfilter]
  refine forall_congr' fun topic_name => imp_congr_right fun _ => ?_
  rw [hfilter.literal.accepts_iff, hfilter.literal.outruns_iff, ← not_confused_iff]
  split
  · rename_i hsame
    simp only [hsame, List.prefix_rfl, not_true_eq_false, and_false, not_false_eq_true, true_and,
      iff_true, ne_eq]
  · rename_i hne
    simp only [hne, iff_false, not_and, not_not, ne_eq]
    exact and_congr_right fun _ => imp_congr_left eq_comm

/-- Without wildcards matching is equality exactly when: on the live path the levels of the
    filter do not start those of another topic name, and among the retained topics no levels
    start those of the filter, unless they belong to the topic of that name. -/
theorem exact_match_iff {c : Client} {filter topic_name : Bytes} {options : UInt8}
    (hfilter : WildcardFree filter)
    (hsub : c.subscribed_topics.toList = [(filter, options)]) (s : TopicStorage) :
    (MatchesExactly c filter topic_name ↔ topic_name = filter ∨ tokenize topic_name = [] ∨
      ¬ tokenize filter <+: tokenize topic_name) ∧
    (FindsExactly s filter ↔ ∀ stored, HasName s.topics stored →
      if stored = filter then tokenize filter ≠ []
      else tokenize filter = [] ∨ ¬ tokenize stored <+: tokenize filter) :=
  ⟨matchesExactly_iff hfilter hsub, findsExactly_iff hfilter⟩

/-- A client subscribed to `a b` gets what is published under `a/b`, and its subscription finds
    the retained topic of that name. -/
theorem space_matches_slash : WildcardFree [0x61, 0x20, 0x62] ∧ WildcardFree [0x61, 0x2F, 0x62] ∧
    ¬ MatchesExactly (onlySubscribed [0x61, 0x20, 0x62]) [0x61, 0x20, 0x62] [0x61, 0x2F, 0x62] ∧
    ¬ FindsExactly (retainedTopic [0x61, 0x2F, 0x62]) [0x61, 0x20, 0x62] := by
  refine ⟨by simp [WildcardFree], by simp [WildcardFree], ?_, ?_⟩
  · rintro ⟨found, o, h, hiff⟩
    have hlive : (onlySubscribed [0x61, 0x20, 0x62]).checkWildCards [0x61, 0x2F, 0x62] =
        .ok (true, 0) := by decide +kernel
    obtain ⟨rfl, rfl⟩ := Prod.mk.inj (Except.ok.inj (h.symm.trans hlive))
    exact absurd (hiff.mp rfl) (by decide)
  · rintro ⟨matched, h, hiff⟩
    have hretained : (retainedTopic [0x61, 0x2F, 0x62]).getMatchedTopics [0x61, 0x20, 0x62] =
        .ok (OrderedSet.empty.insert ⟨0, 0, [0x61, 0x2F, 0x62], none⟩) := by decide +kernel
    obtain rfl := Except.ok.inj (h.symm.trans hretained)
    exact absurd ((hiff _ ⟨_, .head _, rfl⟩).mp ⟨_, .head _, rfl⟩) (by decide)

/-- The filter `a`, and the topic name `b`. -/
theorem exact_match_level : MatchesExactly (onlySubscribed [0x61]) [0x61] [0x62] ∧
    FindsExactly (retainedTopic [0x62]) [0x61] := by
  have hfree : WildcardFree [0x61] := by simp [WildcardFree]
  have hexact := @exact_match_iff (onlySubscribed [0x61]) [0x61] [0x62] 0 hfree rfl
    (retainedTopic [0x62])
  refine ⟨hexact.1.mpr (.inr (.inr (by decide +kernel))), hexact.2.mpr ?_⟩
  rintro stored ⟨topic, hmem, rfl⟩
  obtain rfl := List.mem_singleton.mp hmem
  rw [if_neg (by decide)]
  exact .inr (by decide +kernel)

end Mqtt.Spec
