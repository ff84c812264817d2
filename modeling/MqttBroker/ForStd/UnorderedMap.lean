import Mathlib.Data.List.AList

/-!
# Hash maps as association lists

An `AList` lists the entries of a hash map in iteration order. The additions
here are the operations of a hash map that an `AList` does not have: an
insertion that leaves a present key alone, the values, and maps that differ
only in their iteration order.
-/

/-- A hash map, its entries in iteration order. -/
abbrev UnorderedMap (κ : Type*) (ν : Type*) := AList fun _ : κ => ν

namespace UnorderedMap

variable {κ ν : Type*}

/-- The entries in iteration order. -/
def toList (m : UnorderedMap κ ν) : List (κ × ν) := m.entries.map fun e => (e.1, e.2)

/-- The keys, in the order in which the map is gone through. -/
theorem keys_eq_map_toList (m : UnorderedMap κ ν) : m.toList.map Prod.fst = m.keys := by
  simp [toList, AList.keys, List.keys]

/-- Going through a map, no key comes twice. -/
theorem nodup_toList (m : UnorderedMap κ ν) : (m.toList.map Prod.fst).Nodup := by
  rw [keys_eq_map_toList]
  exact m.nodupKeys

/-- Two maps with the same entries, in whatever order. -/
def Reordered (m m' : UnorderedMap κ ν) : Prop := m.entries.Perm m'.entries

variable [DecidableEq κ]

/-- Going through a map one meets the entries that `lookup` finds. -/
theorem mem_toList_iff {m : UnorderedMap κ ν} {k : κ} {v : ν} :
    (k, v) ∈ m.toList ↔ m.lookup k = some v := by
  rw [← Option.mem_def, AList.mem_lookup_iff]
  simp only [toList, List.mem_map, Prod.mk.injEq]
  constructor
  · rintro ⟨⟨k', v'⟩, he, rfl, rfl⟩
    exact he
  · exact fun he => ⟨⟨k, v⟩, he, rfl, rfl⟩

/-- Insert unless the key is present. -/
def insertNew (k : κ) (v : ν) (m : UnorderedMap κ ν) : UnorderedMap κ ν :=
  if k ∈ m then m else m.insert k v

/-- `insertNew` changes no other entry. -/
theorem lookup_insertNew_ne {k k' : κ} {v : ν} {m : UnorderedMap κ ν} (h : k' ≠ k) :
    (m.insertNew k v).lookup k' = m.lookup k' := by
  rw [insertNew]
  split
  · rfl
  · exact AList.lookup_insert_ne h

/-- `insertNew` leaves a present entry alone. -/
theorem lookup_insertNew_self {k : κ} {v : ν} {m : UnorderedMap κ ν} :
    (m.insertNew k v).lookup k = some ((m.lookup k).getD v) := by
  rw [insertNew]
  split
  · rename_i hk
    obtain ⟨w, hw⟩ := Option.isSome_iff_exists.mp (AList.lookup_isSome.mpr hk)
    rw [hw]; rfl
  · rename_i hk
    rw [AList.lookup_eq_none.mpr hk, AList.lookup_insert]; rfl

/-- `replace` changes no other entry. -/
theorem lookup_replace_ne {k k' : κ} {v : ν} {m : UnorderedMap κ ν} (h : k' ≠ k) :
    (m.replace k v).lookup k' = m.lookup k' := by
  show List.dlookup k' (List.kreplace k v m.entries) = List.dlookup k' m.entries
  -- Induction on the entries; the one that is replaced has the other key
  induction m.entries with
  | nil => rfl
  | cons e entries ih =>
    obtain ⟨k₀, w⟩ := e
    by_cases hk : k = k₀
    · subst hk
      have hcons : List.kreplace k v (⟨k, w⟩ :: entries) = ⟨k, v⟩ :: entries :=
        List.lookmap_cons_some _ _ (if_pos rfl)
      rw [hcons, List.dlookup_cons_ne _ _ h, List.dlookup_cons_ne _ _ h]
    · have hcons : List.kreplace k v (⟨k₀, w⟩ :: entries) =
          ⟨k₀, w⟩ :: List.kreplace k v entries := List.lookmap_cons_none _ _ (if_neg hk)
      rw [hcons]
      -- an entry in front of it stays
      by_cases hk' : k' = k₀
      · subst hk'
        rw [List.dlookup_cons_eq, List.dlookup_cons_eq]
      · rw [List.dlookup_cons_ne _ _ hk', List.dlookup_cons_ne _ _ hk']
        exact ih

/-- The order of a map does not matter to `lookup`. -/
theorem lookup_eq_of_reordered {m m' : UnorderedMap κ ν} (h : Reordered m m') (k : κ) :
    m.lookup k = m'.lookup k := AList.perm_lookup h

/-- Two orders of one map have the same entries. -/
theorem mem_toList_of_reordered {m m' : UnorderedMap κ ν} (h : Reordered m m') {e : κ × ν} :
    e ∈ m.toList ↔ e ∈ m'.toList := by
  obtain ⟨k, v⟩ := e
  rw [mem_toList_iff, mem_toList_iff, lookup_eq_of_reordered h]

/-- Every entry comes first in some order. -/
theorem exists_reordered_cons {m : UnorderedMap κ ν} {e : κ × ν} (h : e ∈ m.toList) :
    ∃ m' rest, Reordered m m' ∧ m'.toList = e :: rest := by
  obtain ⟨k, v⟩ := e
  have hlookup := mem_toList_iff.mp h
  have hnotMem : k ∉ m.erase k := by
    rw [← AList.lookup_eq_none, AList.lookup_erase]
  -- an entry that is erased and inserted again stands in front
  refine ⟨(m.erase k).insert k v, toList (m.erase k), ?_, ?_⟩
  · refine List.lookup_ext m.nodupKeys (AList.nodupKeys _) fun k' w => ?_
    show w ∈ m.lookup k' ↔ w ∈ ((m.erase k).insert k v).lookup k'
    by_cases hk : k' = k
    · subst hk
      rw [AList.lookup_insert, hlookup]
    · rw [AList.lookup_insert_ne hk, AList.lookup_erase_ne hk]
  · rw [toList, AList.entries_insert_of_notMem hnotMem]
    rfl

/-! ## A row of entries that is inserted -/

/-- The entries of a row are inserted one after the other, unless their key is present. -/
def insertAllNew (m : UnorderedMap κ ν) (es : List (κ × ν)) : UnorderedMap κ ν :=
  es.foldl (fun m e => m.insertNew e.1 e.2) m

/-- A key keeps its value, and a new key gets the first one of the row. -/
theorem lookup_insertAllNew (m : UnorderedMap κ ν) (es : List (κ × ν)) (k : κ) :
    (m.insertAllNew es).lookup k =
      (m.lookup k).or ((es.find? fun e => e.1 = k).map Prod.snd) := by
  induction es generalizing m with
  | nil => exact Option.or_none.symm
  | cons e es ih =>
    rw [insertAllNew, List.foldl_cons, ← insertAllNew, ih]
    by_cases hk : e.1 = k
    · rw [List.find?_cons_of_pos (by simpa using hk), ← hk, lookup_insertNew_self]
      cases m.lookup e.1 <;> rfl
    · rw [List.find?_cons_of_neg (by simpa using hk), lookup_insertNew_ne (Ne.symm hk)]

/-- The keys behind a row of insertions are the old ones and those of the row. -/
theorem mem_insertAllNew {m : UnorderedMap κ ν} {es : List (κ × ν)} {k : κ} :
    k ∈ m.insertAllNew es ↔ k ∈ m ∨ k ∈ es.map Prod.fst := by
  rw [← AList.lookup_isSome, lookup_insertAllNew, Option.isSome_or, Bool.or_eq_true,
    AList.lookup_isSome, Option.isSome_map, List.find?_isSome]
  simp

/-! ## A row of keys that is erased -/

/-- The keys of a row are erased one after the other. -/
def eraseAll (m : UnorderedMap κ ν) (ks : List κ) : UnorderedMap κ ν :=
  ks.foldl (fun m k => m.erase k) m

/-- Whether each key of a row was there when its turn came. -/
def erased (m : UnorderedMap κ ν) : List κ → List Bool
  | [] => []
  | k :: ks => (m.lookup k).isSome :: erased (m.erase k) ks

/-- `erased` has an answer for each key of the row. -/
theorem length_erased (m : UnorderedMap κ ν) (ks : List κ) : (m.erased ks).length = ks.length := by
  induction ks generalizing m with
  | nil => rfl
  | cons k ks ih => rw [erased, List.length_cons, List.length_cons, ih]

/-- The first occurrence of a key finds what the map has, and the others find nothing. -/
theorem getElem?_erased (m : UnorderedMap κ ν) (ks : List κ) (i : Nat) :
    (m.erased ks)[i]? = ks[i]?.map fun k => decide (k ∈ m ∧ k ∉ ks.take i) := by
  -- Induction on the row; a key before the `i`th is not in the map any more
  induction ks generalizing m i with
  | nil => rfl
  | cons k ks ih =>
    cases i with
    | zero =>
      rw [erased, List.getElem?_cons_zero, List.getElem?_cons_zero, Option.map_some,
        List.take_zero, Option.some_inj, Bool.eq_iff_iff, AList.lookup_isSome]
      simp
    | succ i =>
      rw [erased, List.getElem?_cons_succ, List.getElem?_cons_succ, ih, List.take_succ_cons]
      congr 1
      funext k'
      rw [Bool.eq_iff_iff, decide_eq_true_eq, decide_eq_true_eq, AList.mem_erase, List.mem_cons]
      tauto

/-- Behind a row of erasures the keys of the row have no entry. -/
theorem lookup_eraseAll (m : UnorderedMap κ ν) (ks : List κ) (k : κ) :
    (m.eraseAll ks).lookup k = if k ∈ ks then none else m.lookup k := by
  induction ks generalizing m with
  | nil => rfl
  | cons k₀ ks ih =>
    rw [eraseAll, List.foldl_cons, ← eraseAll, ih]
    by_cases hk : k = k₀
    · subst hk
      rw [AList.lookup_erase, ite_self, if_pos (.head _)]
    · rw [AList.lookup_erase_ne hk]
      simp only [List.mem_cons, hk, false_or]

end UnorderedMap
