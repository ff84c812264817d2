import Mathlib.Data.List.DropRight
import MqttBroker.ForStd.UnorderedMap

/-!
# Logs of requests to a hash map

A log asks a map to put keys and to take them out again. `latest` is what the last request
for a key asks for. A map that leaves a present key alone keeps something else: the value
of the first `put` since the last `take`. Both know the same keys.
-/

namespace RequestLog

universe u v

variable {κ : Type u} {ν : Type v}

/-- A request to a map. -/
inductive Request (κ : Type u) (ν : Type v) where
  | put (key : κ) (value : ν)
  | take (key : κ)

namespace Request

/-- The key a request names. -/
def key : Request κ ν → κ
  | put k _ => k
  | take k => k

/-- What a request asks the map to have under its key. -/
def value? : Request κ ν → Option ν
  | put _ v => some v
  | take _ => none

variable [DecidableEq κ]

/-- The map after a request; a present key is not put again. -/
def apply (m : UnorderedMap κ ν) : Request κ ν → UnorderedMap κ ν
  | put k v => m.insertNew k v
  | take k => m.erase k

end Request

variable [DecidableEq κ]

/-- The requests that name a key. -/
def naming (k : κ) (log : List (Request κ ν)) : List (Request κ ν) := log.filter (·.key = k)

/-- What the last request that names a key asks for. -/
def latest (k : κ) (log : List (Request κ ν)) : Option ν :=
  (naming k log).getLast?.bind Request.value?

/-- What the first `put` of a key behind its last `take` asks for. -/
def kept (k : κ) (log : List (Request κ ν)) : Option ν :=
  ((naming k log).rtakeWhile (·.value?.isSome)).head?.bind Request.value?

variable {k : κ} {log : List (Request κ ν)} {r : Request κ ν}

/-- A request that names the key comes last among those that do. -/
theorem naming_concat_of_eq (h : r.key = k) : naming k (log ++ [r]) = naming k log ++ [r] := by
  simp only [naming, List.filter_append, List.filter_singleton, h, decide_true, cond_true]

/-- A request for another key does not count. -/
theorem naming_concat_of_ne (h : r.key ≠ k) : naming k (log ++ [r]) = naming k log := by
  simp only [naming, List.filter_append, List.filter_singleton, h, decide_false, cond_false,
    List.append_nil]

/-- The latest request is the last one that names the key. -/
theorem latest_concat : latest k (log ++ [r]) = if r.key = k then r.value? else latest k log := by
  split
  · rename_i h
    rw [latest, naming_concat_of_eq h, List.getLast?_concat]
    rfl
  · rename_i h
    rw [latest, naming_concat_of_ne h]
    rfl

/-- A `put` counts if no other is kept; a `take` ends what is kept. -/
theorem kept_concat : kept k (log ++ [r]) =
    if r.key = k then r.value?.map (kept k log).getD else kept k log := by
  split
  · rename_i h
    -- a `take` leaves no value; a `put` stays behind an earlier one
    cases hr : r.value? with
    | none =>
      rw [kept, naming_concat_of_eq h, List.rtakeWhile_concat_neg _ _ _ (by simp [hr])]
      rfl
    | some v =>
      rw [kept, naming_concat_of_eq h, List.rtakeWhile_concat_pos _ _ _ (by simp [hr]), kept]
      cases hhead : ((naming k log).rtakeWhile (·.value?.isSome)).head? with
      | none =>
        rw [List.head?_append, hhead]
        exact hr
      | some first =>
        -- everything behind the last `take` is a `put`
        have hfirst := List.mem_rtakeWhile_imp (List.mem_of_head? hhead)
        obtain ⟨w, hw⟩ := Option.isSome_iff_exists.mp hfirst
        rw [List.head?_append, hhead]
        simp [hw]
  · rename_i h
    rw [kept, naming_concat_of_ne h]
    rfl

/-- A key is kept exactly when the last request for it is a `put`. -/
theorem isSome_kept (k : κ) (log : List (Request κ ν)) :
    (kept k log).isSome = (latest k log).isSome := by
  -- the log grows at its end, where the latest request is
  induction log using List.reverseRecOn with
  | nil => rfl
  | append_singleton log r ih =>
    rw [kept_concat, latest_concat]
    split
    · exact Option.isSome_map
    · exact ih

/-- A request changes the entry of its own key: `put` fills an empty one, `take` clears it. -/
theorem Request.lookup_apply (m : UnorderedMap κ ν) (r : Request κ ν) (k : κ) :
    (apply m r).lookup k =
      if r.key = k then r.value?.map (m.lookup k).getD else m.lookup k := by
  -- `insertNew` keeps the value of a present key
  cases r with
  | put k' v =>
    split
    · rename_i h
      subst h
      exact UnorderedMap.lookup_insertNew_self
    · rename_i h
      exact UnorderedMap.lookup_insertNew_ne (Ne.symm h)
  | take k' =>
    split
    · rename_i h
      subst h
      exact AList.lookup_erase k' m
    · rename_i h
      exact AList.lookup_erase_ne (Ne.symm h)

/-- A map that has what the log keeps has it after more requests. -/
theorem lookup_foldl_apply {m : UnorderedMap κ ν} (h : m.lookup k = kept k log)
    (rs : List (Request κ ν)) :
    (rs.foldl Request.apply m).lookup k = kept k (log ++ rs) := by
  -- each request goes from the row that is left to the log
  induction rs generalizing m log with
  | nil => rw [List.append_nil]; exact h
  | cons r rs ih =>
    have hr : (Request.apply m r).lookup k = kept k (log ++ [r]) := by
      rw [Request.lookup_apply, kept_concat, h]
    rw [List.foldl_cons, ih hr, List.append_assoc, List.singleton_append]

end RequestLog
