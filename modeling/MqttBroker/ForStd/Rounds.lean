import Mathlib.Data.Fintype.Card

/-!
# Loops that come to an end

A deterministic loop is a partial function from a state to the next one. A loop
that comes to an end is in no state twice, so the number of its rounds is bounded
by the number of states it can be in.
-/

variable {σ : Type*}

/-- `Rounds step n s`: from the state `s`, `n` rounds are made before the loop ends. -/
inductive Rounds (step : σ → Option σ) : Nat → σ → Prop
  | last {s : σ} : step s = none → Rounds step 0 s
  | next {s s' : σ} {n : Nat} : step s = some s' → Rounds step n s' → Rounds step (n + 1) s

namespace Rounds

variable {step : σ → Option σ} {n : Nat} {s : σ}

/-- A loop stops after one number of rounds only. -/
theorem unique (h : Rounds step n s) {m : Nat} (h' : Rounds step m s) : n = m := by
  induction h generalizing m with
  | last hnone =>
    cases h' with
    | last => rfl
    | next hsome => simp [hnone] at hsome
  | next hsome _ ih =>
    cases h' with
    | last hnone => simp [hnone] at hsome
    | next hsome' h' =>
      obtain rfl := Option.some.inj (hsome.symm.trans hsome')
      rw [ih h']

/-- The states of the loop, by the number of rounds that are left. -/
theorem exists_state {P : σ → Prop} (hstep : ∀ {s s'}, P s → step s = some s' → P s')
    (h : Rounds step n s) (hs : P s) {i : Nat} (hi : i < n) :
    ∃ t t', P t ∧ Rounds step (i + 1) t ∧ step t = some t' := by
  induction h with
  | last => omega
  | @next s s' n hsome hrest ih =>
    rcases Nat.eq_or_lt_of_le (Nat.le_of_lt_succ hi) with rfl | hlt
    · exact ⟨s, s', hs, hrest.next hsome, hsome⟩
    · exact ih (hstep hs hsome) hlt

/-- A loop whose states are told apart by a number below `b` makes at most `b` rounds. -/
theorem le_of_key (P : σ → Prop) (key : σ → Nat) {b : Nat}
    (hstep : ∀ {s s'}, P s → step s = some s' → P s')
    (hinj : ∀ {s t}, P s → P t → key s = key t → s = t)
    (hkey : ∀ {s s'}, P s → step s = some s' → key s < b)
    (h : Rounds step n s) (hs : P s) : n ≤ b := by
  have hstates : ∀ i : Fin n, ∃ t t', P t ∧ Rounds step (i.val + 1) t ∧ step t = some t' :=
    fun i => h.exists_state hstep hs i.isLt
  choose state next hP hrounds hsome using hstates
  -- two moments with the same key are the same moment
  have hinjective : Function.Injective
      fun i : Fin n => (⟨key (state i), hkey (hP i) (hsome i)⟩ : Fin b) := by
    intro i j heq
    have hstate := hinj (hP i) (hP j) (Fin.mk.inj heq)
    have hlen := (hstate ▸ hrounds i).unique (hrounds j)
    exact Fin.ext (by omega)
  simpa using Fintype.card_le_of_injective _ hinjective

end Rounds
