import MqttBroker.ForStd.Except

/-!
# Rows of records

A buffer that holds records of different lengths one after the other is read in a loop
with a running position. A reader `Reads` a code when it finds a record exactly where the
code of one stands, and goes behind it. The loop then comes to the end of the buffer
exactly when the rest of the buffer is a row of codes, and returns that row.
-/

namespace Records

universe u v w

variable {ε : Type u} {α : Type v} {β : Type w}

/-- Reads records from `i` on, as long as the position is below `n`; `stop` is the error of a loop
    without fuel. -/
def readAll (read : Nat → Except ε (α × Nat)) (stop : ε) (n : Nat) :
    (fuel : Nat) → (i : Nat) → Except ε (List α × Nat)
  | 0, _ => .error stop
  | fuel + 1, i =>
    if i < n then
      match read i with
      | .ok (a, j) => (readAll read stop n fuel j).map fun r => (a :: r.1, r.2)
      | .error e => .error e
    else .ok ([], i)

/-- The record at `i` is one that `encode` has put there, and it is not empty. -/
structure Reads (read : Nat → Except ε (α × Nat)) (encode : α → List β) (valid : α → Prop)
    (l : List β) : Prop where
  read_eq_ok_iff : ∀ {i j : Nat} {a : α}, read i = .ok (a, j) ↔
    valid a ∧ j = i + (encode a).length ∧ ∃ rest, l.drop i = encode a ++ rest
  length_pos : ∀ a, 0 < (encode a).length

variable {read : Nat → Except ε (α × Nat)} {encode : α → List β} {valid : α → Prop} {l : List β}

/-- A round of `readAll` that reads a record goes on behind it. -/
theorem readAll_of_lt {stop : ε} {n fuel i j : Nat} {a : α} (hi : i < n)
    (hread : read i = .ok (a, j)) : readAll read stop n (fuel + 1) i =
      (readAll read stop n fuel j).map fun r => (a :: r.1, r.2) := by
  rw [readAll, if_pos hi, hread]

/-- What is left of the buffer behind a record. -/
theorem drop_of_code {i : Nat} {code rest : List β} (h : l.drop i = code ++ rest) :
    l.drop (i + code.length) = rest := by
  rw [← List.drop_drop, h, List.drop_left]

/-- A record and what is behind it make up the rest of the list. -/
theorem length_of_code {i : Nat} {code rest : List β} (h : l.drop i = code ++ rest) :
    l.length - i = code.length + rest.length := by
  rw [← List.length_drop, h, List.length_append]

/-- A row that is read is all that was left of the buffer. -/
theorem Reads.of_readAll (h : Reads read encode valid l) {stop : ε} {fuel : Nat} :
    ∀ {i k : Nat} {as : List α}, i ≤ l.length → readAll read stop l.length fuel i = .ok (as, k) →
      (∀ a ∈ as, valid a) ∧ l.drop i = as.flatMap encode ∧ k = l.length := by
  induction fuel with
  | zero =>
    intro i k as _ hall
    cases hall
  | succ fuel ih =>
    intro i k as hi hall
    -- the induction is on the fuel: a record and the row behind it, or the end
    by_cases hlt : i < l.length
    · cases hread : read i with
      | error e =>
        rw [readAll, if_pos hlt, hread] at hall
        cases hall
      | ok field =>
        obtain ⟨a, j⟩ := field
        rw [readAll_of_lt hlt hread] at hall
        obtain ⟨hvalid, rfl, rest, hdrop⟩ := h.read_eq_ok_iff.mp hread
        have hlen := length_of_code hdrop
        cases hrest : readAll read stop l.length fuel (i + (encode a).length) with
        | error e =>
          rw [hrest] at hall
          cases hall
        | ok r =>
          obtain ⟨as', k'⟩ := r
          rw [hrest] at hall
          obtain ⟨rfl, rfl⟩ := Prod.mk.inj (Except.ok.inj hall)
          -- the row behind the record is what the rest of the loop reads
          obtain ⟨hvalid', hdrop', rfl⟩ := ih (by omega) hrest
          refine ⟨List.forall_mem_cons.mpr ⟨hvalid, hvalid'⟩, ?_, rfl⟩
          rw [hdrop, List.flatMap_cons, ← hdrop', drop_of_code hdrop]
    · rw [readAll, if_neg hlt] at hall
      obtain ⟨rfl, rfl⟩ := Prod.mk.inj (Except.ok.inj hall)
      exact ⟨by simp, List.drop_eq_nil_of_le (by omega), by omega⟩

/-- A row of records that is all that is left of the buffer is read. -/
theorem Reads.readAll_of_row (h : Reads read encode valid l) {stop : ε} {fuel : Nat} :
    ∀ {i : Nat} {as : List α}, i ≤ l.length → l.length - i < fuel → (∀ a ∈ as, valid a) →
      l.drop i = as.flatMap encode → readAll read stop l.length fuel i = .ok (as, l.length) := by
  induction fuel with
  | zero => intro i as _ hfuel; omega
  | succ fuel ih =>
    intro i as hi hfuel hvalid hdrop
    cases as with
    | nil =>
      -- no record is left, and the loop is at its end
      have hend : ¬ i < l.length := Nat.not_lt.mpr (List.drop_eq_nil_iff.mp hdrop)
      rw [readAll, if_neg hend, Nat.le_antisymm hi (Nat.not_lt.mp hend)]
    | cons a as =>
      rw [List.flatMap_cons] at hdrop
      obtain ⟨hhead, htail⟩ := List.forall_mem_cons.mp hvalid
      have hpos := h.length_pos a
      have hlen := length_of_code hdrop
      have hread := h.read_eq_ok_iff.mpr ⟨hhead, rfl, _, hdrop⟩
      -- a record is not empty, so the fuel lasts for what is behind it
      have hrest := ih (by omega) (by omega) htail (drop_of_code hdrop)
      rw [readAll_of_lt (by omega) hread, hrest]
      rfl

/-- A row of records is read to the end exactly when it is all that is left of the buffer. -/
theorem Reads.readAll_eq_ok_iff (h : Reads read encode valid l) {stop : ε} {fuel i k : Nat}
    {as : List α} (hi : i ≤ l.length) (hfuel : l.length - i < fuel) :
    readAll read stop l.length fuel i = .ok (as, k) ↔
      (∀ a ∈ as, valid a) ∧ l.drop i = as.flatMap encode ∧ k = l.length := by
  constructor
  · exact h.of_readAll hi
  · rintro ⟨hvalid, hdrop, rfl⟩
    exact h.readAll_of_row hi hfuel hvalid hdrop

end Records
