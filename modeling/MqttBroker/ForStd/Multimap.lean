import Mathlib.Data.Multiset.Filter
import MqttBroker.ForStd.UnorderedMap

/-!
# Multimaps as maps of groups

A hash map of lists keeps the entries of a multimap in groups, one for each key. What it
holds, whatever the order of the groups and of the entries in them, is a multiset, and a
change of one group adds an entry to it or takes one away.
-/

/-- `eraseP` takes out the element that `find?` finds. -/
theorem List.perm_cons_eraseP {α : Type*} {p : α → Bool} {l : List α} {a : α}
    (h : l.find? p = some a) : l.Perm (a :: l.eraseP p) := by
  induction l with
  | nil => cases h
  | cons b l ih =>
    by_cases hb : p b
    · rw [List.find?_cons_of_pos hb] at h
      obtain rfl := Option.some.inj h
      rw [List.eraseP_cons_of_pos hb]
    · rw [List.find?_cons_of_neg hb] at h
      rw [List.eraseP_cons_of_neg hb]
      exact ((ih h).cons b).trans (.swap a b _)

namespace UnorderedMap

variable {κ ν : Type*}

/-- The entries of a multimap. -/
def elements (m : UnorderedMap κ (List ν)) : Multiset (κ × ν) :=
  ↑(m.toList.flatMap fun e => e.2.map (Prod.mk e.1))

variable [DecidableEq κ]

/-- The values under a key of a multimap. -/
def group (m : UnorderedMap κ (List ν)) (k : κ) : List ν := (m.lookup k).getD []

variable [DecidableEq ν]

/-- Paired with a key, the values count under that key only. -/
theorem count_map_mk (k k' : κ) (vs : Multiset ν) (v : ν) :
    (Multiset.map (Prod.mk k') vs).count (k, v) = if k = k' then vs.count v else 0 := by
  split
  · rename_i hk
    rw [hk]
    exact Multiset.count_map_eq_count' _ vs (Prod.mk_right_injective k') v
  · rename_i hk
    refine Multiset.count_eq_zero.mpr fun hmem => ?_
    obtain ⟨v', -, heq⟩ := Multiset.mem_map.mp hmem
    exact hk (Prod.mk.inj heq).1.symm

/-- Keys are not repeated, so a key is found in its group only. -/
theorem count_elements (m : UnorderedMap κ (List ν)) (k : κ) (v : ν) :
    m.elements.count (k, v) = Multiset.count v (m.group k) := by
  show Multiset.count (k, v) ↑((m.entries.map fun e => (e.1, e.2)).flatMap fun e =>
      e.2.map (Prod.mk e.1)) = Multiset.count v ↑((List.dlookup k m.entries).getD [])
  have hnodup : m.entries.NodupKeys := m.nodupKeys
  generalize m.entries = es at hnodup
  -- one group at a time; only that of the key counts
  induction es with
  | nil => rfl
  | cons e es ih =>
    obtain ⟨k', vs⟩ := e
    obtain ⟨hnotMem, hnodup⟩ := List.nodupKeys_cons.mp hnodup
    rw [List.map_cons, List.flatMap_cons, ← Multiset.coe_add, Multiset.count_add, ih hnodup,
      ← Multiset.map_coe, count_map_mk]
    by_cases hk : k = k'
    · subst hk
      rw [if_pos rfl, List.dlookup_cons_eq, List.dlookup_eq_none.mpr hnotMem]
      rfl
    · -- another key has none of the elements
      rw [if_neg hk, List.dlookup_cons_ne _ _ hk, Nat.zero_add]

/-- The elements are the values with the key of their group. -/
theorem mem_elements {m : UnorderedMap κ (List ν)} {k : κ} {v : ν} :
    (k, v) ∈ m.elements ↔ v ∈ m.group k := by
  rw [← Multiset.count_pos, count_elements, Multiset.count_pos, Multiset.mem_coe]

/-- Multimaps that agree outside of one key, where one has a value more. -/
theorem elements_eq_cons {m m' : UnorderedMap κ (List ν)} {k : κ} {v : ν}
    (hself : (m'.group k).Perm (v :: m.group k)) (hne : ∀ k' ≠ k, m'.group k' = m.group k') :
    m'.elements = (k, v) ::ₘ m.elements := by
  ext ⟨k', v'⟩
  rw [count_elements]
  by_cases hk : k' = k
  · subst hk
    rw [Multiset.coe_eq_coe.mpr hself, ← Multiset.cons_coe]
    by_cases hv : v' = v
    · rw [hv, Multiset.count_cons_self, Multiset.count_cons_self, count_elements]
    · rw [Multiset.count_cons_of_ne hv, Multiset.count_cons_of_ne (by simpa using hv),
        count_elements]
  · rw [hne k' hk, Multiset.count_cons_of_ne (by simp [hk]), count_elements]

/-- Maps with the same groups have the same elements. -/
theorem elements_congr {m m' : UnorderedMap κ (List ν)} (h : ∀ k, m'.group k = m.group k) :
    m'.elements = m.elements := by
  ext ⟨k, v⟩
  rw [count_elements, count_elements, h]

end UnorderedMap
