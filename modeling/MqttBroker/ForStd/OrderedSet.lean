import Mathlib.Data.List.Nodup

/-!
# Sets ordered by a key

`OrderedSet key` is a list whose elements have strictly increasing keys, the
iteration order of an ordered set or of an ordered map whose values know their
key. The order is carried as a proof field, so an unsorted or repeating set
cannot be built. `insert` never replaces an element whose key is present.
-/

/-- Elements with strictly increasing keys. -/
structure OrderedSet {α κ : Type*} [LT κ] (key : α → κ) where
  toList : List α
  sorted : toList.Pairwise fun a b => key a < key b

namespace OrderedSet

variable {α κ : Type*} [LT κ] {key : α → κ}

@[ext] theorem ext {s t : OrderedSet key} (h : s.toList = t.toList) : s = t := by
  cases s; cases t; cases h; rfl

instance [DecidableEq α] : DecidableEq (OrderedSet key) := fun s t =>
  decidable_of_iff (s.toList = t.toList) ⟨ext, congrArg toList⟩

/-- The set without elements. -/
def empty : OrderedSet key := ⟨[], .nil⟩

instance : Inhabited (OrderedSet key) := ⟨empty⟩

/-- `empty` has no elements. -/
@[simp] theorem toList_empty : (empty : OrderedSet key).toList = [] := rfl

/-- Remove the element with a key. -/
def erase [DecidableEq κ] (k : κ) (s : OrderedSet key) : OrderedSet key :=
  ⟨s.toList.filter fun a => key a ≠ k, s.sorted.filter _⟩

/-- `erase` takes out the elements with the key. -/
theorem mem_erase [DecidableEq κ] {k : κ} {c : α} {s : OrderedSet key} :
    c ∈ (s.erase k).toList ↔ c ∈ s.toList ∧ key c ≠ k := by
  simp [erase, List.mem_filter]

/-- The element with a key. -/
def find? [DecidableEq κ] (k : κ) (s : OrderedSet key) : Option α :=
  s.toList.find? fun a => key a = k

/-- No key is repeated. -/
theorem nodup_keys [Std.Irrefl (α := κ) (· < ·)] (s : OrderedSet key) :
    (s.toList.map key).Nodup := by
  have hne : ∀ {a b : α}, key a < key b → key a ≠ key b := by
    intro a b hlt heq
    rw [heq] at hlt
    exact Std.Irrefl.irrefl _ hlt
  rw [List.nodup_iff_pairwise_ne, List.pairwise_map]
  exact s.sorted.imp fun hlt => hne hlt

/-- The only element with a key is found. -/
theorem find?_eq_some_iff [DecidableEq κ] [Std.Irrefl (α := κ) (· < ·)] {k : κ} {a : α}
    {s : OrderedSet key} : s.find? k = some a ↔ a ∈ s.toList ∧ key a = k := by
  constructor
  · intro h
    exact ⟨List.mem_of_find?_eq_some h, by simpa using List.find?_some h⟩
  · rintro ⟨hmem, hkey⟩
    cases hfind : s.find? k with
    | none => exact absurd hkey (by simpa using List.find?_eq_none.mp hfind a hmem)
    | some b =>
      have hb : key b = k := by simpa using List.find?_some hfind
      rw [List.inj_on_of_nodup_map s.nodup_keys (List.mem_of_find?_eq_some hfind) hmem
        (hb.trans hkey.symm)]

variable [DecidableLT κ]

/-- Insertion into a list sorted by key; a present key keeps its element. -/
def insertList (key : α → κ) (a : α) : List α → List α
  | [] => [a]
  | b :: bs =>
    if key a < key b then a :: b :: bs
    else if key b < key a then b :: insertList key a bs
    else b :: bs

/-- `insertList` adds no element but the given one. -/
theorem mem_insertList {a c : α} {l : List α} (h : c ∈ insertList key a l) : c = a ∨ c ∈ l := by
  induction l with
  | nil => simpa [insertList] using h
  | cons b bs ih =>
    simp only [insertList] at h
    split at h
    · simpa using h
    · split at h
      · rcases List.mem_cons.mp h with rfl | h
        · exact .inr (.head _)
        · exact (ih h).imp_right (.tail _)
      · exact .inr h

/-- `insertList` keeps a list sorted. -/
theorem sorted_insertList [Trans (α := κ) (· < ·) (· < ·) (· < ·)] {a : α} {l : List α}
    (h : l.Pairwise fun a b => key a < key b) :
    (insertList key a l).Pairwise fun a b => key a < key b := by
  -- the element goes in front of the first larger key, or is dropped at its own
  induction l with
  | nil => simp [insertList]
  | cons b bs ih =>
    obtain ⟨hb, hbs⟩ := List.pairwise_cons.mp h
    simp only [insertList]
    split
    · rename_i hab
      refine List.pairwise_cons.mpr ⟨fun c hc => ?_, h⟩
      rcases List.mem_cons.mp hc with rfl | hc
      · exact hab
      · exact Trans.trans hab (hb c hc)
    · split
      · -- a smaller element stays in front
        rename_i hba
        refine List.pairwise_cons.mpr ⟨fun c hc => ?_, ih hbs⟩
        rcases mem_insertList hc with rfl | hc
        · exact hba
        · exact hb c hc
      · exact h

/-- Insert an element unless its key is present. -/
def insert [Trans (α := κ) (· < ·) (· < ·) (· < ·)] (a : α) (s : OrderedSet key) :
    OrderedSet key :=
  ⟨insertList key a s.toList, sorted_insertList s.sorted⟩

section Lemmas

variable [Trans (α := κ) (· < ·) (· < ·) (· < ·)]

/-- `insert` adds no element but the given one. -/
theorem mem_insert {a c : α} {s : OrderedSet key} (h : c ∈ (s.insert a).toList) :
    c = a ∨ c ∈ s.toList := mem_insertList h

/-- The keys of a set after an insertion. -/
theorem exists_key_insert [Std.Trichotomous (α := κ) (· < ·)] {a : α} {k : κ}
    {s : OrderedSet key} :
    (∃ c ∈ (s.insert a).toList, key c = k) ↔ key a = k ∨ ∃ c ∈ s.toList, key c = k := by
  suffices ∀ l : List α, (∃ c ∈ insertList key a l, key c = k) ↔ key a = k ∨ ∃ c ∈ l, key c = k from
    this s.toList
  intro l
  induction l with
  | nil => simp [insertList]
  | cons b bs ih =>
    rw [insertList]
    split
    · simp
    · rename_i hab
      split
      · simp only [List.mem_cons, exists_eq_or_imp, ih]
        exact or_left_comm
      · rename_i hba
        -- the keys are the same, and the element that is there stays
        have heq : key a = key b := Std.Trichotomous.trichotomous _ _ hab hba
        rw [heq]
        simp

/-- Inserted into the empty set, an element is the only one. -/
@[simp] theorem toList_insert_empty (a : α) : ((empty : OrderedSet key).insert a).toList = [a] :=
  rfl

/-- An element above all others goes to the end. -/
theorem toList_insert_of_forall_lt [Std.Asymm (α := κ) (· < ·)] {a : α} {s : OrderedSet key}
    (h : ∀ b ∈ s.toList, key b < key a) : (s.insert a).toList = s.toList ++ [a] := by
  suffices ∀ l : List α, (∀ b ∈ l, key b < key a) → insertList key a l = l ++ [a] from this _ h
  intro l hl
  induction l with
  | nil => rfl
  | cons b bs ih =>
    have hba : key b < key a := hl b (.head _)
    have hab : ¬ key a < key b := Std.Asymm.asymm _ _ hba
    simp only [insertList, if_neg hab, if_pos hba, List.cons_append,
      ih fun c hc => hl c (.tail _ hc)]

/-- Inserting the elements of a set in order builds the set. -/
theorem foldl_insert_empty [Std.Asymm (α := κ) (· < ·)] (s : OrderedSet key) :
    s.toList.foldl (fun acc a => acc.insert a) empty = s := by
  suffices ∀ (l : List α) (acc : OrderedSet key),
      (acc.toList ++ l).Pairwise (fun a b => key a < key b) →
      (l.foldl (fun acc a => acc.insert a) acc).toList = acc.toList ++ l from
    ext (this s.toList empty s.sorted)
  -- each element of the row is behind all that were inserted before it
  intro l
  induction l with
  | nil => exact fun acc _ => (List.append_nil _).symm
  | cons a l ih =>
    intro acc h
    have hlt : ∀ b ∈ acc.toList, key b < key a := fun b hb =>
      (List.pairwise_append.mp h).2.2 b hb a (.head _)
    have hins : (acc.insert a).toList = acc.toList ++ [a] := toList_insert_of_forall_lt hlt
    rw [List.foldl_cons, ih (acc.insert a) (by rw [hins]; simpa using h), hins, List.append_assoc]
    rfl

/-- A row of insertions adds no element that is not in the row. -/
theorem mem_foldl_insert {c : α} {l : List α} : ∀ {acc : OrderedSet key},
    c ∈ (l.foldl (fun acc a => acc.insert a) acc).toList → c ∈ acc.toList ∨ c ∈ l := by
  induction l with
  | nil => exact .inl
  | cons a l ih =>
    intro acc h
    rcases ih h with h | h
    · rcases mem_insert h with rfl | h
      · exact .inr (.head _)
      · exact .inl h
    · exact .inr (.tail _ h)

/-- Every key of the list is found afterwards. -/
theorem exists_key_foldl_insert [Std.Trichotomous (α := κ) (· < ·)] {k : κ} {l : List α} :
    ∀ {acc : OrderedSet key}, (∃ c ∈ (l.foldl (fun acc a => acc.insert a) acc).toList, key c = k) ↔
      (∃ c ∈ acc.toList, key c = k) ∨ ∃ c ∈ l, key c = k := by
  induction l with
  | nil => simp
  | cons a l ih =>
    intro acc
    rw [List.foldl_cons, ih, exists_key_insert]
    simp only [List.mem_cons, exists_eq_or_imp, or_assoc]
    exact or_left_comm

/-- An element with a new key is added. -/
theorem perm_insert [Std.Trichotomous (α := κ) (· < ·)] {a : α} {s : OrderedSet key}
    (h : ∀ b ∈ s.toList, key b ≠ key a) : (s.insert a).toList.Perm (a :: s.toList) := by
  suffices ∀ l : List α, (∀ b ∈ l, key b ≠ key a) → (insertList key a l).Perm (a :: l) from
    this s.toList h
  intro l hl
  -- as the key is new, none of the three branches drops the element
  induction l with
  | nil => exact .refl _
  | cons b bs ih =>
    rw [insertList]
    split
    · exact .refl _
    · rename_i hab
      split
      · exact ((ih fun c hc => hl c (.tail _ hc)).cons b).trans (.swap a b bs)
      · rename_i hba
        exact absurd (Std.Trichotomous.trichotomous _ _ hba hab) (hl b (.head _))

/-- An element takes the place of the one with its key. -/
theorem mem_insert_erase [DecidableEq κ] [Std.Trichotomous (α := κ) (· < ·)] {a c : α}
    {s : OrderedSet key} :
    c ∈ ((s.erase (key a)).insert a).toList ↔ c = a ∨ (c ∈ s.toList ∧ key c ≠ key a) := by
  have hperm := perm_insert (a := a) (s := s.erase (key a)) fun b hb => (mem_erase.mp hb).2
  rw [hperm.mem_iff, List.mem_cons, mem_erase]

/-- No element is lost exactly when the keys are different. -/
theorem perm_foldl_insert_iff [Std.Trichotomous (α := κ) (· < ·)] [Std.Irrefl (α := κ) (· < ·)]
    {l : List α} :
    (l.foldl (fun acc a => acc.insert a) (empty : OrderedSet key)).toList.Perm l ↔
      (l.map key).Nodup := by
  constructor
  · -- a set has no key twice
    intro h
    exact (h.map key).nodup_iff.mp (nodup_keys _)
  · -- the set that is inserted into has none of the keys
    suffices ∀ (l : List α) (acc : OrderedSet key), (l.map key).Nodup →
        (∀ b ∈ acc.toList, ∀ a ∈ l, key b ≠ key a) →
        (l.foldl (fun acc a => acc.insert a) acc).toList.Perm (acc.toList ++ l) from
      fun hnodup => this l empty hnodup (by simp)
    intro l
    induction l with
    | nil =>
      intro acc _ _
      rw [List.append_nil]
      exact .refl _
    | cons a l ih =>
      intro acc hnodup hnew
      rw [List.map_cons, List.nodup_cons] at hnodup
      have hinsert : (acc.insert a).toList.Perm (a :: acc.toList) :=
        perm_insert fun b hb => hnew b hb a (.head _)
      refine (ih (acc.insert a) hnodup.2 fun b hb c hc => ?_).trans ?_
      · rcases mem_insert hb with rfl | hb
        · exact fun heq => hnodup.1 (heq ▸ List.mem_map_of_mem hc)
        · exact hnew b hb c (.tail _ hc)
      · exact (hinsert.append_right l).trans List.perm_middle.symm

end Lemmas

end OrderedSet
