import Mathlib.Data.List.Induction

/-!
# Labelled transition systems

Finite runs of a labelled transition system, and the one induction every
safety statement about them uses: a property that holds initially and that no
step destroys holds after every run. `restrict` keeps only the steps that meet
a guard, so that "every run all of whose steps meet a condition" is a run of
another system; `observe` adds a history variable that changes no run, and `timed` a clock.
-/

/-- A labelled transition system with initial states. -/
structure LTS (σ ε : Type*) where
  Init : σ → Prop
  Step : σ → ε → σ → Prop

namespace LTS

variable {σ ε σ' ε' : Type*} {M : LTS σ ε} {M' : LTS σ' ε'}

/-- A finite run, with its labels in order. -/
inductive Run (M : LTS σ ε) (s : σ) : List ε → σ → Prop
  | nil : Run M s [] s
  | snoc {es : List ε} {e : ε} {t u : σ} : Run M s es t → M.Step t e u → Run M s (es ++ [e]) u

/-- The states some run from an initial state ends in. -/
def Reachable (M : LTS σ ε) (t : σ) : Prop := ∃ s es, M.Init s ∧ M.Run s es t

/-- The system whose steps are those that meet a guard. -/
def restrict (M : LTS σ ε) (G : σ → ε → Prop) : LTS σ ε where
  Init := M.Init
  Step s e t := G s e ∧ M.Step s e t

/-- Where a function computes steps, folding it over labels computes runs. -/
theorem run_of_foldlM {f : σ → ε → Option σ} (hf : ∀ {s e t}, f s e = some t → M.Step s e t)
    {s t : σ} {es : List ε} (h : es.foldlM f s = some t) : M.Run s es t := by
  induction es using List.reverseRecOn generalizing t with
  | nil =>
    obtain rfl := Option.some.inj h
    exact .nil
  | append_singleton es e ih =>
    simp only [List.foldlM_append, List.foldlM_cons, List.foldlM_nil, bind_pure] at h
    obtain ⟨u, hu, hstep⟩ := Option.bind_eq_some_iff.mp h
    exact (ih hu).snoc (hf hstep)

/-- A property that no step destroys is kept by every run. -/
theorem Run.preserves {P : σ → Prop} (hstep : ∀ {s e t}, P s → M.Step s e t → P t)
    {s t : σ} {es : List ε} (h : M.Run s es t) (hs : P s) : P t := by
  induction h with
  | nil => exact hs
  | snoc _ hlast ih => exact hstep ih hlast

/-- A property of states and of the labels before them that no step destroys. -/
theorem Run.preserves_labels {P : σ → List ε → Prop}
    (hstep : ∀ {s es e t}, P s es → M.Step s e t → P t (es ++ [e])) {s t : σ} {es : List ε}
    (h : M.Run s es t) (hs : P s []) : P t es := by
  induction h with
  | nil => exact hs
  | snoc _ hlast ih => exact hstep ih hlast

/-- A run can be cut at any of its labels. -/
theorem Run.cut {s t : σ} {es : List ε} (h : M.Run s es t) {before after : List ε} {e : ε}
    (heq : es = before ++ e :: after) : ∃ u v, M.Run s before u ∧ M.Step u e v := by
  induction h generalizing after with
  | nil => simp at heq
  | @snoc es₀ e₀ u v hrun hlast ih =>
    obtain rfl | ⟨after, last, rfl⟩ := List.eq_nil_or_concat after
    · obtain ⟨rfl, hlast'⟩ := List.append_inj' heq rfl
      obtain rfl := (List.cons.inj hlast').1
      exact ⟨u, v, hrun, hlast⟩
    · rw [List.concat_eq_append, ← List.cons_append, ← List.append_assoc] at heq
      exact ih (List.append_inj' heq rfl).1

/-- A property that holds initially and that no step destroys holds of every
    reachable state. -/
theorem Reachable.invariant {P : σ → Prop} (hinit : ∀ {s}, M.Init s → P s)
    (hstep : ∀ {s e t}, P s → M.Step s e t → P t) {t : σ} (h : M.Reachable t) : P t := by
  obtain ⟨s, es, hs, hrun⟩ := h
  exact hrun.preserves hstep (hinit hs)

/-- Initial states are reachable. -/
theorem Reachable.init {s : σ} (h : M.Init s) : M.Reachable s := ⟨s, [], h, .nil⟩

/-- A step from a reachable state leads to one. -/
theorem Reachable.step {s t : σ} {e : ε} (h : M.Reachable s) (ht : M.Step s e t) :
    M.Reachable t := by
  obtain ⟨s₀, es, hs₀, hrun⟩ := h
  exact ⟨s₀, es ++ [e], hs₀, hrun.snoc ht⟩

/-- A map of states under which each step of one system is a step of another, or no
    step at all. -/
theorem Reachable.simulate_stutter {f : σ → σ'} (hinit : ∀ {s}, M.Init s → M'.Init (f s))
    (hstep : ∀ {s e t}, M.Step s e t → f t = f s ∨ ∃ e', M'.Step (f s) e' (f t)) {t : σ}
    (h : M.Reachable t) : M'.Reachable (f t) := by
  refine h.invariant (P := fun t => M'.Reachable (f t)) (fun hs => .init (hinit hs)) ?_
  intro s e t hs hst
  obtain hsame | ⟨e', hst'⟩ := hstep hst
  · rw [hsame]
    exact hs
  · exact hs.step hst'

/-- A map of states under which each step of one system is a step of another. -/
theorem Reachable.simulate {f : σ → σ'} (hinit : ∀ {s}, M.Init s → M'.Init (f s))
    (hstep : ∀ {s e t}, M.Step s e t → ∃ e', M'.Step (f s) e' (f t)) {t : σ}
    (h : M.Reachable t) : M'.Reachable (f t) :=
  h.simulate_stutter hinit fun hst => .inr (hstep hst)

/-- A run of the restricted system is a run of the system. -/
theorem Run.of_restrict {G : σ → ε → Prop} {s t : σ} {es : List ε}
    (h : (M.restrict G).Run s es t) : M.Run s es t := by
  induction h with
  | nil => exact .nil
  | snoc _ hlast ih => exact ih.snoc hlast.2

/-- What is reachable by some of the steps is reachable. -/
theorem Reachable.of_restrict {G : σ → ε → Prop} {t : σ} (h : (M.restrict G).Reachable t) :
    M.Reachable t := by
  obtain ⟨s, es, hs, hrun⟩ := h
  exact ⟨s, es, hs, hrun.of_restrict⟩

/-- Every run meets the guard that is always met. -/
theorem Reachable.restrict_true {t : σ} (h : M.Reachable t) :
    (M.restrict fun _ _ => True).Reachable t := by
  refine h.invariant (P := (M.restrict fun _ _ => True).Reachable) ?_ ?_
  · intro s hs
    exact .init hs
  · intro s e t ht hst
    exact ht.step ⟨trivial, hst⟩

/-! ## History variables -/

/-- The system with a variable in which every step notes something. -/
def observe {γ : Type*} (M : LTS σ ε) (note : σ → ε → σ → γ → γ) (g₀ : γ) : LTS (σ × γ) ε where
  Init x := M.Init x.1 ∧ x.2 = g₀
  Step x e y := M.Step x.1 e y.1 ∧ y.2 = note x.1 e y.1 x.2

variable {γ : Type*} {note : σ → ε → σ → γ → γ} {g₀ : γ}

/-- Every run can be observed. -/
theorem Reachable.observe {s : σ} (h : M.Reachable s) (note : σ → ε → σ → γ → γ) (g₀ : γ) :
    ∃ g, (M.observe note g₀).Reachable (s, g) := by
  refine h.invariant (P := fun s => ∃ g, (M.observe note g₀).Reachable (s, g)) ?_ ?_
  · intro s hinit
    exact ⟨g₀, .init ⟨hinit, rfl⟩⟩
  · rintro s e t ⟨g, hg⟩ hstep
    exact ⟨note s e t g, hg.step ⟨hstep, rfl⟩⟩

/-- An invariant of the state and its history, for the runs that meet a guard. -/
theorem Reachable.observe_restrict_invariant {P : σ → γ → Prop} {G : σ × γ → ε → Prop}
    (hinit : ∀ {s}, M.Init s → P s g₀)
    (hstep : ∀ {s g e t}, P s g → G (s, g) e → M.Step s e t → P t (note s e t g)) {x : σ × γ}
    (h : ((M.observe note g₀).restrict G).Reachable x) : P x.1 x.2 := by
  refine h.invariant (P := fun x => P x.1 x.2) ?_ ?_
  · rintro ⟨s, g⟩ ⟨hs, hg⟩
    obtain rfl : g = g₀ := hg
    exact hinit hs
  · rintro ⟨s, g⟩ e ⟨t, g'⟩ hinv ⟨hguard, hst, hnote⟩
    obtain rfl : g' = note s e t g := hnote
    exact hstep hinv hguard hst

/-- An invariant of the state and its history. -/
theorem Reachable.observe_invariant {P : σ → γ → Prop} (hinit : ∀ {s}, M.Init s → P s g₀)
    (hstep : ∀ {s g e t}, P s g → M.Step s e t → P t (note s e t g)) {x : σ × γ}
    (h : (M.observe note g₀).Reachable x) : P x.1 x.2 :=
  h.restrict_true.observe_restrict_invariant hinit fun hinv _ hst => hstep hinv hst

/-- Where a function computes steps, it computes observed steps with what they note. -/
theorem observe_step_of_map {f : σ → ε → Option σ} (hf : ∀ {s e t}, f s e = some t → M.Step s e t)
    {x y : σ × γ} {e : ε} (h : (f x.1 e).map (fun t => (t, note x.1 e t x.2)) = some y) :
    (M.observe note g₀).Step x e y := by
  obtain ⟨t, ht, rfl⟩ := Option.map_eq_some_iff.mp h
  exact ⟨hf ht, rfl⟩

/-! ## Clocks -/

/-- The system with a clock in seconds that never goes back. Time passes between steps; what a
    step reads of the clock is bound by `reads`. -/
def timed (M : LTS σ ε) (reads : Int → ε → Prop) : LTS (σ × Int) (Nat ⊕ ε) where
  Init x := M.Init x.1
  Step x e y :=
    match e with
    | .inl seconds => y = (x.1, x.2 + seconds)
    | .inr e => M.Step x.1 e y.1 ∧ reads x.2 e ∧ y.2 = x.2

/-! ## Runs that end -/

/-- No step is possible. -/
def Stuck (M : LTS σ ε) (s : σ) : Prop := ∀ e t, ¬ M.Step s e t

/-- Where every step makes a measure smaller, every state can be run to its end. -/
theorem Reachable.exists_stuck {m : σ → Nat} (hm : ∀ {s e t}, M.Step s e t → m t < m s) {s : σ}
    (h : M.Reachable s) : ∃ t, M.Reachable t ∧ M.Stuck t := by
  induction hn : m s using Nat.strongRecOn generalizing s with
  | _ n ih =>
    by_cases hs : M.Stuck s
    · exact ⟨s, h, hs⟩
    · simp only [Stuck, not_forall, not_not] at hs
      obtain ⟨e, t, hstep⟩ := hs
      exact ih (m t) (hn ▸ hm hstep) (h.step hstep) rfl

/-- Where the steps of one kind make a measure smaller and no others make it larger, until a goal
    is reached, a run comes to the goal or has no more steps of the kind than the measure. -/
theorem Run.reaches_or_bounded {s t : σ} {es : List ε} (h : M.Run s es t) (goal : σ → Prop)
    (kind : ε → Bool) (m : σ → Nat)
    (hkind : ∀ {s e t}, ¬ goal s → M.Step s e t → kind e → m t < m s)
    (hother : ∀ {s e t}, ¬ goal s → M.Step s e t → m t ≤ m s) :
    (∃ before u, before <+: es ∧ M.Run s before u ∧ goal u) ∨ es.countP kind + m t ≤ m s := by
  -- Induction on the run: until it reaches the goal, every step of the kind uses up the measure
  induction h with
  | nil => exact .inr (by simp)
  | @snoc es e t u hrun hlast ih =>
    obtain ⟨before, v, hprefix, hbefore, hgoal⟩ | hbound := ih
    · exact .inl ⟨before, v, hprefix.trans (List.prefix_append es [e]), hbefore, hgoal⟩
    · -- the run has reached the goal only now, or not yet
      by_cases hgoal : goal t
      · exact .inl ⟨es, t, List.prefix_append es [e], hrun, hgoal⟩
      · right
        have hle := hother hgoal hlast
        rw [List.countP_append, List.countP_singleton]
        split
        · rename_i he
          have hlt := hkind hgoal hlast he
          omega
        · omega

end LTS
