import Mathlib.Data.List.Basic

/-!
# Bounded buffers

A buffer of fixed size is a list; a read or a write that does not fit gives
`none`. `overwrite` is the effect of a block copy on the destination, and the
lemmas below say how block copies at consecutive positions compose, which is
all a proof about a writer with a running offset needs.
-/

namespace List

variable {α : Type*}

/-- The `n` elements from index `i` on, when the buffer has them. -/
def readSlice? (l : List α) (i n : Nat) : Option (List α) :=
  if i + n ≤ l.length then some ((l.drop i).take n) else none

/-- The buffer after a block copy of `xs` to index `i`. -/
def overwrite (l : List α) (i : Nat) (xs : List α) : List α :=
  l.take i ++ xs ++ l.drop (i + xs.length)

/-- A block copy of `xs` to index `i`, when it fits. -/
def writeSlice? (l : List α) (i : Nat) (xs : List α) : Option (List α) :=
  if i + xs.length ≤ l.length then some (l.overwrite i xs) else none

/-- `readSlice?` succeeds exactly inside of the list, with the elements that stand there. -/
theorem readSlice?_eq_some_iff {l : List α} {i n : Nat} {xs : List α} :
    l.readSlice? i n = some xs ↔ i + n ≤ l.length ∧ (l.drop i).take n = xs := by
  simp only [readSlice?, Option.ite_none_right_eq_some, Option.some.injEq]

/-- A copy that fits leaves the length of the list alone. -/
theorem length_overwrite {l : List α} {i : Nat} {xs : List α} (h : i + xs.length ≤ l.length) :
    (l.overwrite i xs).length = l.length := by
  simp only [overwrite, length_append, length_take, length_drop]
  omega

/-- An empty copy changes nothing. -/
@[simp] theorem overwrite_nil (l : List α) (i : Nat) : l.overwrite i [] = l := by
  simp [overwrite]

/-- A copy to the front stands before what is left of the list. -/
@[simp] theorem overwrite_zero (l : List α) (xs : List α) :
    l.overwrite 0 xs = xs ++ l.drop xs.length := by
  simp [overwrite]

/-- A block copy over the whole buffer. -/
theorem overwrite_all {l xs : List α} (h : xs.length = l.length) : l.overwrite 0 xs = xs := by
  rw [overwrite_zero, h, drop_length, append_nil]

/-- Two block copies, the second right behind the first, are one. -/
theorem overwrite_overwrite {l : List α} {i : Nat} {xs ys : List α}
    (h : i + xs.length + ys.length ≤ l.length) :
    (l.overwrite i xs).overwrite (i + xs.length) ys = l.overwrite i (xs ++ ys) := by
  have hpre : (l.take i ++ xs).length = i + xs.length := by
    rw [length_append, length_take]; omega
  rw [overwrite, overwrite, overwrite, take_left' hpre, length_append, ← drop_drop,
    drop_left' hpre, drop_drop, append_assoc (l.take i) xs ys, Nat.add_assoc]

/-- What stands from the position of a block copy on. -/
theorem drop_overwrite {l : List α} {i : Nat} {xs : List α} (h : i ≤ l.length) :
    (l.overwrite i xs).drop i = xs ++ l.drop (i + xs.length) := by
  rw [overwrite, append_assoc, drop_left' (by rw [length_take]; omega)]

/-- `writeSlice?` is `overwrite` where the copy fits. -/
theorem writeSlice?_eq_some {l : List α} {i : Nat} {xs : List α} (h : i + xs.length ≤ l.length) :
    l.writeSlice? i xs = some (l.overwrite i xs) := if_pos h

/-! ## Traces of block copies -/

/-- What the block copies of a trace write, in order. A block copy is the index it
    writes to and what it writes there. -/
def written (copies : List (Nat × List α)) : List α := copies.flatMap Prod.snd

/-- How many of the block copies of a trace write index `j`. -/
def timesWritten (copies : List (Nat × List α)) (j : Nat) : Nat :=
  copies.countP fun c => c.1 ≤ j ∧ j < c.1 + c.2.length

/-- Block copies from index `i` on, each of them right behind the one before. -/
inductive Consecutive : Nat → List (Nat × List α) → Prop
  | nil {i : Nat} : Consecutive i []
  | cons {i : Nat} {xs : List α} {copies : List (Nat × List α)} :
      Consecutive (i + xs.length) copies → Consecutive i ((i, xs) :: copies)

@[simp] theorem written_nil : written ([] : List (Nat × List α)) = [] := rfl

@[simp] theorem written_cons (c : Nat × List α) (copies : List (Nat × List α)) :
    written (c :: copies) = c.2 ++ written copies := rfl

/-- What two traces write, one behind the other. -/
@[simp] theorem written_append (copies copies' : List (Nat × List α)) :
    written (copies ++ copies') = written copies ++ written copies' := flatMap_append

/-- A single copy is consecutive from its own position on. -/
theorem consecutive_singleton (i : Nat) (xs : List α) : Consecutive i [(i, xs)] := .cons .nil

/-- A trace that goes on where another one ends. -/
theorem Consecutive.append {i : Nat} {copies copies' : List (Nat × List α)}
    (h : Consecutive i copies) (h' : Consecutive (i + (written copies).length) copies') :
    Consecutive i (copies ++ copies') := by
  induction h with
  | nil => exact h'
  | @cons i xs copies _ ih =>
    rw [written_cons, length_append, ← Nat.add_assoc] at h'
    exact .cons (ih h')

/-- Consecutive block copies write every index of their range once, and no other. -/
theorem Consecutive.timesWritten {i : Nat} {copies : List (Nat × List α)}
    (h : Consecutive i copies) (j : Nat) :
    timesWritten copies j = if i ≤ j ∧ j < i + (written copies).length then 1 else 0 := by
  induction h with
  | nil =>
    rw [if_neg (by simp only [written_nil, length_nil]; omega)]
    rfl
  | @cons i xs copies _ ih =>
    rw [List.timesWritten] at ih
    simp only [List.timesWritten, countP_cons, ih, written_cons, length_append, decide_eq_true_eq]
    -- the index is in the first block, behind it or outside of both
    by_cases hfirst : i ≤ j ∧ j < i + xs.length
    · rw [if_neg (by omega), if_pos hfirst, if_pos (by omega)]
    · rw [if_neg hfirst, Nat.add_zero]
      by_cases hrest : i + xs.length ≤ j ∧ j < i + xs.length + (written copies).length
      · rw [if_pos hrest, if_pos (by omega)]
      · rw [if_neg hrest, if_neg (by omega)]

end List
