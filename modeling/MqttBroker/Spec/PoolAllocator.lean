import Mathlib.Data.Set.Basic
import Mathlib.Algebra.BigOperators.Group.List.Basic
import Mathlib.Data.List.Pairwise
import MqttBroker.ForStd.Transition
import MqttBroker.Native.PoolAllocator

/-!
# Runs of the pool allocator

A default-constructed allocator gets any sequence of allocations of no more elements than a
pool has, and any live block can be given back. Then the count of a pool is the number of its
elements that are live, and all live blocks are inside pools.
-/

namespace Mqtt.Spec

open Mqtt.Native Mqtt.Native.PoolAllocator

variable {sizeofT : Nat} {num : Int32}

/-- The addresses from one on up to another. -/
def between (start stop : Ptr) : Set Ptr := {addr | start ≤ addr ∧ addr < stop}

/-- Two ranges have no address in common. -/
def Apart (s t : Set Ptr) : Prop := ∀ addr ∈ s, addr ∉ t

/-- A block that `allocate(n)` has returned. -/
structure Block where
  pointer : Ptr
  n : UInt64
deriving DecidableEq, Repr

/-- The address behind a block. -/
def Block.stop (sizeofT : Nat) (b : Block) : Ptr := b.pointer + b.n.toNat * sizeofT

/-- The bytes of a block. -/
def Block.bytes (sizeofT : Nat) (b : Block) : Set Ptr := between b.pointer (b.stop sizeofT)

/-- The bytes of a pool. -/
def poolMemory (sizeofT : Nat) (num : Int32) (pool : Ptr) : Set Ptr :=
  between pool (pool + poolBytes sizeofT (sizeT num).toUInt32)

/-- An allocator, and the blocks it has returned that are not given back. -/
structure PoolUse (sizeofT : Nat) (num : Int32) where
  allocator : PoolAllocator sizeofT num := default
  live : List Block := []
deriving DecidableEq, Repr

/-- The calls of a pool; with `allocate` comes what `operator new` returns if it is asked. -/
inductive PoolEvent where
  | allocate (n : UInt64) (fresh : Option Ptr)
  | deallocate (block : Block)
deriving DecidableEq, Repr

/-- `operator new` returns memory that is in no pool. -/
structure FromOperatorNew (a : PoolAllocator sizeofT num) (fresh : Ptr) : Prop where
  positive : 0 < fresh
  apart : ∀ pd ∈ a.pools, Apart (poolMemory sizeofT num pd.pool) (poolMemory sizeofT num fresh)

/-- The calls a default-constructed allocator can get. -/
def poolUse (sizeofT : Nat) (num : Int32) : LTS (PoolUse sizeofT num) PoolEvent where
  Init x := x = {}
  Step x e y := match e with
    | .allocate n fresh => 0 < n.toNat ∧ (n.toNat : Int) ≤ num.toInt ∧
        (∀ p ∈ fresh, FromOperatorNew x.allocator p) ∧
        y = match x.allocator.allocate n fresh with
          | some (allocator, pointer) => { allocator, live := ⟨pointer, n⟩ :: x.live }
          | none => x
    | .deallocate block => block ∈ x.live ∧
        y = { allocator := x.allocator.deallocate block.pointer block.n
              live := x.live.erase block }

/-- The block of `n` elements at the count of a pool. -/
def nextBlock (sizeofT : Nat) (pd : PoolData) (n : UInt64) : Block :=
  ⟨pd.pool + pd.used_elements.toInt * sizeofT, n⟩

/-! ## Counts -/

/-- A count that is not negative keeps its value as a `size_t`. -/
theorem toNat_sizeT {i : Int32} (h : 0 ≤ i.toInt) : ((sizeT i).toNat : Int) = i.toInt := by
  have hi : (0 : Int64) ≤ i.toInt64 := Int64.le_iff_toInt_le.mpr (by simpa using h)
  rw [sizeT, Int64.toNat_toUInt64_of_le hi, Int64.cast_toNatClampNeg _ hi, Int32.toInt_toInt64]

/-- A `size_t` below 2^31 keeps its value as an `int`. -/
theorem toInt_int32T {n : UInt64} (h : n.toNat < 2 ^ 31) : (int32T n).toInt = n.toNat := by
  have h32 : n.toUInt32.toNat = n.toNat := by
    rw [UInt64.toNat_toUInt32, Nat.mod_eq_of_lt (by omega)]
  have hint : int32T n = Int32.ofNat n.toNat := by
    rw [int32T, ← h32, ← UInt32.toInt32_ofNat', UInt32.ofNat_toNat]
  rw [hint, Int32.toInt_ofNat_of_lt h]

/-- `used_elements + n` is added as a `size_t`. -/
theorem toNat_add_elements (used : Int32) (n : UInt64) (h : 0 ≤ used.toInt)
    (hn : n.toNat < 2 ^ 31) : ((sizeT used + n).toNat : Int) = used.toInt + n.toNat := by
  have hsize := toNat_sizeT h
  have hlt := used.toInt_lt
  -- both are below 2^31, so the sum does not wrap
  rw [UInt64.toNat_add, Nat.mod_eq_of_lt (by omega)]
  omega

/-- `used_elements += n` does not wrap below 2^31. -/
theorem toInt_add_elements (used : Int32) (n : UInt64) (h : 0 ≤ used.toInt)
    (hn : used.toInt + n.toNat < 2 ^ 31) :
    (int32T (sizeT used + n)).toInt = used.toInt + n.toNat := by
  have hsum := toNat_add_elements used n h (by omega)
  rw [toInt_int32T (by omega), hsum]

/-- `used_elements -= n` does not wrap when as many were in use. -/
theorem toInt_sub_elements (used : Int32) (n : UInt64) (hn : (n.toNat : Int) ≤ used.toInt) :
    (int32T (sizeT used - n)).toInt = used.toInt - n.toNat := by
  have hsize := toNat_sizeT (i := used) (by omega)
  have hlt := used.toInt_lt
  have hdiff : (sizeT used - n).toNat = (sizeT used).toNat - n.toNat :=
    UInt64.toNat_sub_of_le _ _ (UInt64.le_iff_toNat_le.mpr (by omega))
  rw [toInt_int32T (by omega), hdiff]
  omega

/-- How many elements of a pool a block takes. -/
def Block.heldIn (sizeofT : Nat) (num : Int32) (pool : Ptr) (b : Block) : Nat :=
  haveI : Decidable (b.pointer ∈ poolMemory sizeofT num pool) := inferInstanceAs (Decidable (_ ∧ _))
  if b.pointer ∈ poolMemory sizeofT num pool then b.n.toNat else 0

/-- How many elements of a pool are live. -/
def held (sizeofT : Nat) (num : Int32) (pool : Ptr) (live : List Block) : Nat :=
  (live.map (Block.heldIn sizeofT num pool)).sum

section held

variable {pool : Ptr} {b : Block} {live : List Block}

theorem heldIn_of_mem (h : b.pointer ∈ poolMemory sizeofT num pool) :
    b.heldIn sizeofT num pool = b.n.toNat := if_pos h

theorem heldIn_of_notMem (h : b.pointer ∉ poolMemory sizeofT num pool) :
    b.heldIn sizeofT num pool = 0 := if_neg h

/-- A block more takes its elements more. -/
theorem held_cons : held sizeofT num pool (b :: live) =
    b.heldIn sizeofT num pool + held sizeofT num pool live := by
  rw [held, held, List.map_cons, List.sum_cons]

/-- A block that goes gives its elements back. -/
theorem held_erase (h : b ∈ live) : b.heldIn sizeofT num pool +
    held sizeofT num pool (live.erase b) = held sizeofT num pool live :=
  List.sum_map_erase (Block.heldIn sizeofT num pool) h

/-- A pool without live blocks has no live elements. -/
theorem held_eq_zero (h : ∀ b ∈ live, b.pointer ∉ poolMemory sizeofT num pool) :
    held sizeofT num pool live = 0 := by
  refine List.sum_eq_zero fun n hn => ?_
  obtain ⟨b, hb, rfl⟩ := List.mem_map.mp hn
  exact heldIn_of_notMem (h b hb)

/-- A live block takes at most the elements of its pool that are live. -/
theorem le_held (h : b ∈ live) (hpool : b.pointer ∈ poolMemory sizeofT num pool) :
    b.n.toNat ≤ held sizeofT num pool live := by
  rw [← held_erase h, heldIn_of_mem hpool]
  exact Nat.le_add_right _ _

end held

/-! ## The pools -/

/-- The addresses of the pools. -/
def poolAddresses (pools : List PoolData) : List Ptr := pools.map (·.pool)

/-- What every call keeps: a count is the number of live elements of its pool, the memory of
    the pools is disjoint, and there are no live blocks elsewhere. -/
structure PoolInv (x : PoolUse sizeofT num) : Prop where
  pool_size : x.allocator.pool_size = sizeT num
  positive : ∀ p ∈ poolAddresses x.allocator.pools, 0 < p
  apart : (poolAddresses x.allocator.pools).Pairwise fun p q =>
    Apart (poolMemory sizeofT num p) (poolMemory sizeofT num q)
  current : ∀ p ∈ (poolAddresses x.allocator.pools).getLast?, x.allocator.cur_pointer = p
  counted : ∀ pd ∈ x.allocator.pools,
    pd.used_elements.toInt = held sizeofT num pd.pool x.live
  bounded : ∀ pd ∈ x.allocator.pools, pd.used_elements.toInt ≤ num.toInt
  inside : ∀ b ∈ x.live, 0 < b.n.toNat ∧
    ∃ p ∈ poolAddresses x.allocator.pools, b.bytes sizeofT ⊆ poolMemory sizeofT num p

/-- An allocator without pools keeps the invariant. -/
theorem poolInv_init : PoolInv ({} : PoolUse sizeofT num) where
  pool_size := rfl
  positive := List.forall_mem_nil _
  apart := .nil
  current := nofun
  counted := List.forall_mem_nil _
  bounded := List.forall_mem_nil _
  inside := List.forall_mem_nil _

/-- The bytes of a pool are those of `num` elements, when these fit into the address space. -/
theorem poolMemory_eq (hfits : num.toInt * sizeofT < 2 ^ 64) (hnum : 0 ≤ num.toInt) (pool : Ptr) :
    poolMemory sizeofT num pool = between pool (pool + num.toInt * sizeofT) := by
  have hsize := toNat_sizeT hnum
  have hlt := num.toInt_lt
  have h32 : ((sizeT num).toUInt32.toNat : Int) = num.toInt := by
    rw [UInt64.toNat_toUInt32, Nat.mod_eq_of_lt (by omega), hsize]
  have hbytes : (poolBytes sizeofT (sizeT num).toUInt32 : Int) = num.toInt * sizeofT := by
    rw [poolBytes, Nat.mod_eq_of_lt, Int.natCast_mul, h32]
    rw [← h32] at hfits
    exact_mod_cast hfits
  rw [poolMemory, hbytes]

theorem Apart.symm {s t : Set Ptr} (h : Apart s t) : Apart t s :=
  fun addr ht hs => h addr hs ht

theorem Apart.mono {s s' t t' : Set Ptr} (h : Apart s t) (hs : s' ⊆ s) (ht : t' ⊆ t) :
    Apart s' t' := fun addr hs' ht' => h addr (hs hs') (ht ht')

/-- A range with both ends in another one is part of it. -/
theorem between_subset {a b c d : Ptr} (hstart : c ≤ a) (hstop : b ≤ d) :
    between a b ⊆ between c d := fun _ h => ⟨hstart.trans h.1, h.2.trans_le hstop⟩

/-- A block of at least one element has its end behind its start. -/
theorem Block.pointer_lt_stop {b : Block} (hsize : 0 < sizeofT) (hn : 0 < b.n.toNat) :
    b.pointer < b.stop sizeofT := by
  have hbytes : (0 : Int) < b.n.toNat * sizeofT := by exact_mod_cast Nat.mul_pos hn hsize
  exact Int.lt_add_of_pos_right _ hbytes

/-- A block begins with its first byte. -/
theorem Block.pointer_mem_bytes {b : Block} (hsize : 0 < sizeofT) (hn : 0 < b.n.toNat) :
    b.pointer ∈ b.bytes sizeofT := ⟨le_refl _, b.pointer_lt_stop hsize hn⟩

section pools

variable {x : PoolUse sizeofT num} {n : UInt64}

variable {l r : List PoolData} {pd : PoolData}

/-- What holds of all pools holds of one of them and of the others. -/
theorem forall_mem_middle {P : PoolData → Prop} :
    (∀ it ∈ l ++ pd :: r, P it) ↔ P pd ∧ ∀ it ∈ l ++ r, P it := by
  simp only [List.perm_middle.mem_iff, List.forall_mem_cons]

/-- The other pools are pools of the allocator. -/
theorem mem_of_others (hpools : x.allocator.pools = l ++ pd :: r) {it : PoolData}
    (hit : it ∈ l ++ r) : it ∈ x.allocator.pools := by
  rw [hpools]
  exact (forall_mem_middle.mp fun it hit => hit).2 it hit

/-- Two pools at different addresses are disjoint, in whichever order they were added. -/
theorem PoolInv.apart_of_ne (h : PoolInv x) {p q : Ptr} (hp : p ∈ poolAddresses x.allocator.pools)
    (hq : q ∈ poolAddresses x.allocator.pools) (hne : p ≠ q) :
    Apart (poolMemory sizeofT num p) (poolMemory sizeofT num q) := by
  have hsymm : Std.Symm fun p q =>
    Apart (poolMemory sizeofT num p) (poolMemory sizeofT num q) := ⟨fun _ _ h => h.symm⟩
  exact h.apart.forall hp hq hne

/-- An address is in one pool only. -/
theorem PoolInv.others (h : PoolInv x) (hpools : x.allocator.pools = l ++ pd :: r) {addr : Ptr}
    (hmem : addr ∈ poolMemory sizeofT num pd.pool) :
    ∀ it ∈ l ++ r, addr ∉ poolMemory sizeofT num it.pool := by
  intro it hit
  have hapart := List.pairwise_map.mp h.apart
  rw [hpools, List.perm_middle.pairwise_iff fun h => h.symm] at hapart
  exact (List.pairwise_cons.mp hapart).1 it hit addr hmem

/-- The count of one pool is made the number of its live elements. -/
theorem PoolInv.update (h : PoolInv x) (hpools : x.allocator.pools = l ++ pd :: r)
    {used_elements : Int32} {live : List Block}
    (hcounted : used_elements.toInt = held sizeofT num pd.pool live)
    (hbounded : used_elements.toInt ≤ num.toInt)
    (hothers : ∀ it ∈ l ++ r, held sizeofT num it.pool live = held sizeofT num it.pool x.live)
    (hinside : ∀ b ∈ live, 0 < b.n.toNat ∧
      ∃ p ∈ poolAddresses x.allocator.pools, b.bytes sizeofT ⊆ poolMemory sizeofT num p) :
    PoolInv ({
      allocator := { x.allocator with pools := l ++ { pd with used_elements } :: r }, live } :
        PoolUse sizeofT num) := by
  have haddresses : poolAddresses (l ++ { pd with used_elements } :: r) =
      poolAddresses x.allocator.pools := by
    rw [hpools, poolAddresses, poolAddresses, List.map_append, List.map_append]
    rfl
  have hcounts := h.counted
  have hbounds := h.bounded
  -- the pool that changes, and the others
  rw [hpools, forall_mem_middle] at hcounts hbounds
  constructor
  case pool_size => exact h.pool_size
  case positive => exact haddresses ▸ h.positive
  case apart => exact haddresses ▸ h.apart
  case current => exact haddresses ▸ h.current
  case counted =>
    refine forall_mem_middle.mpr ⟨hcounted, fun it hit => ?_⟩
    rw [hothers it hit]
    exact hcounts.2 it hit
  case bounded => exact forall_mem_middle.mpr ⟨hbounded, hbounds.2⟩
  case inside => exact haddresses ▸ hinside

/-- No live block is in a pool whose count is zero. -/
theorem PoolInv.notMem_of_unused (h : PoolInv x) (hpd : pd ∈ x.allocator.pools)
    (hzero : pd.used_elements.toInt = 0) {b : Block} (hb : b ∈ x.live) :
    b.pointer ∉ poolMemory sizeofT num pd.pool := by
  intro hmem
  have hcounted := h.counted pd hpd
  have hle := le_held hb hmem
  have hpos := (h.inside b hb).1
  omega

/-- Each live block lies in a pool of the allocator. -/
theorem PoolInv.inside_pool (h : PoolInv x) : ∀ b ∈ x.live, ∃ pd ∈ x.allocator.pools,
    b.bytes sizeofT ⊆ poolMemory sizeofT num pd.pool := by
  intro b hb
  obtain ⟨-, p, hp, hsubset⟩ := h.inside b hb
  obtain ⟨pd, hpd, rfl⟩ := List.mem_map.mp hp
  exact ⟨pd, hpd, hsubset⟩

/-! ## Allocation -/

/-- A pool that `operator new` has returned starts without live blocks. -/
theorem PoolInv.allocateNewPool (h : PoolInv x) (hsize : 0 < sizeofT) (hnum : 0 ≤ num.toInt)
    {fresh : Ptr} (hfresh : FromOperatorNew x.allocator fresh) :
    PoolInv { x with allocator := x.allocator.allocateNewPool fresh } := by
  have haddresses : poolAddresses (x.allocator.allocateNewPool fresh).pools =
      poolAddresses x.allocator.pools ++ [fresh] := List.map_append
  have hapart : ∀ p ∈ poolAddresses x.allocator.pools,
      Apart (poolMemory sizeofT num p) (poolMemory sizeofT num fresh) := by
    intro p hp
    obtain ⟨pd, hpd, rfl⟩ := List.mem_map.mp hp
    exact hfresh.apart pd hpd
  have hempty : held sizeofT num fresh x.live = 0 := by
    -- a live block is inside one of the pools there were
    refine held_eq_zero fun b hb hmem => ?_
    obtain ⟨hn, p, hp, hsubset⟩ := h.inside b hb
    exact hapart p hp b.pointer (hsubset (b.pointer_mem_bytes hsize hn)) hmem
  constructor
  case pool_size => exact h.pool_size
  case positive =>
    rw [haddresses]
    exact List.forall_mem_append.mpr ⟨h.positive, List.forall_mem_singleton.mpr hfresh.positive⟩
  case apart =>
    rw [haddresses]
    -- the new pool is behind the others and apart from each of them
    refine List.pairwise_append.mpr ⟨h.apart, List.pairwise_singleton _ _, fun p hp q hq => ?_⟩
    obtain rfl := List.mem_singleton.mp hq
    exact hapart p hp
  case current =>
    rw [haddresses, List.getLast?_concat]
    intro p hp
    exact Option.mem_some.mp hp
  case counted =>
    -- its count is 0, and so is what is live in it
    refine List.forall_mem_append.mpr ⟨h.counted, List.forall_mem_singleton.mpr ?_⟩
    rw [hempty]
    rfl
  case bounded => exact List.forall_mem_append.mpr ⟨h.bounded, List.forall_mem_singleton.mpr hnum⟩
  case inside =>
    intro b hb
    obtain ⟨hn, p, hp, hsubset⟩ := h.inside b hb
    exact ⟨hn, p, haddresses ▸ List.mem_append_left _ hp, hsubset⟩

variable {rest : List PoolData} {back : PoolData}

/-- The elements behind the count of a pool are in the pool. -/
theorem PoolInv.nextBlock_subset (h : PoolInv x) (hfits : num.toInt * sizeofT < 2 ^ 64)
    (hback : back ∈ x.allocator.pools) (hroom : back.used_elements.toInt + n.toNat ≤ num.toInt) :
    (nextBlock sizeofT back n).bytes sizeofT ⊆ poolMemory sizeofT num back.pool := by
  have hcounted := h.counted back hback
  have hcount : (0 : Int) ≤ back.used_elements.toInt * sizeofT :=
    Int.mul_nonneg (by omega) (Int.natCast_nonneg _)
  have hend := Int.mul_le_mul_of_nonneg_right hroom (Int.natCast_nonneg sizeofT)
  rw [Int.add_mul] at hend
  rw [poolMemory_eq hfits (by omega)]
  refine between_subset (Int.le_add_of_nonneg_right hcount) ?_
  rw [nextBlock, Block.stop, Int.add_assoc]
  exact Int.add_le_add_left hend _

/-- What an allocation of `n` elements of the last pool leaves. -/
inductive Took (x : PoolUse sizeofT num) (n : UInt64) (back : PoolData) :
    PoolUse sizeofT num → Prop
  | intro {rest : List PoolData} {used_elements : Int32}
      (hpools : x.allocator.pools = rest ++ [back])
      (hroom : back.used_elements.toInt + n.toNat ≤ num.toInt)
      (hused : used_elements.toInt = back.used_elements.toInt + n.toNat) :
      Took x n back {
        allocator := { x.allocator with pools := rest ++ [{ back with used_elements }] }
        live := nextBlock sizeofT back n :: x.live }

/-- `takeElements` serves an allocation for which the last pool has room. -/
theorem PoolInv.takeElements (h : PoolInv x) (hpools : x.allocator.pools = rest ++ [back])
    (hroom : back.used_elements.toInt + n.toNat ≤ num.toInt) :
    ∃ allocator pointer, x.allocator.takeElements n = some (allocator, pointer) ∧
      Took x n back { allocator, live := ⟨pointer, n⟩ :: x.live } := by
  have hback : back ∈ x.allocator.pools := by rw [hpools]; exact List.mem_concat_self
  have hcounted := h.counted back hback
  have hlt := num.toInt_lt
  have hadd := toInt_add_elements back.used_elements n (by omega) (by omega)
  -- `cur_pointer` is the last pool, so the block starts at its count
  have hcurrent : x.allocator.cur_pointer = back.pool := by
    refine h.current _ ?_
    rw [poolAddresses, hpools, List.map_append]
    exact List.getLast?_concat
  refine ⟨_, (nextBlock sizeofT back n).pointer, ?_, .intro hpools hroom hadd⟩
  rw [PoolAllocator.takeElements, hpools, List.getLast?_concat, List.dropLast_concat,
    Option.map_some]
  dsimp only
  rw [hadd, hcurrent, Int.add_mul, ← Int.add_assoc, Int.add_sub_cancel, nextBlock]

/-- The pool that serves is a pool of the allocator. -/
theorem Took.mem {y : PoolUse sizeofT num} (htook : Took x n back y) :
    back ∈ x.allocator.pools := by
  cases htook with
  | intro hpools => rw [hpools]; exact List.mem_concat_self

/-- The pool the elements were taken from had room for them. -/
theorem Took.room {y : PoolUse sizeofT num} (htook : Took x n back y) :
    back.used_elements.toInt + n.toNat ≤ num.toInt := by
  cases htook with
  | intro _ hroom => exact hroom

/-- Elements are taken from the last pool. -/
theorem Took.getLast? {y : PoolUse sizeofT num} (htook : Took x n back y) :
    x.allocator.pools.getLast? = some back := by
  cases htook with
  | intro hpools => rw [hpools, List.getLast?_concat]

/-- The block at its count becomes live. -/
theorem Took.live {y : PoolUse sizeofT num} (htook : Took x n back y) :
    y.live = nextBlock sizeofT back n :: x.live := by
  cases htook with
  | intro => rfl

/-- An allocation from the last pool keeps the invariant. -/
theorem Took.poolInv {y : PoolUse sizeofT num} (htook : Took x n back y) (h : PoolInv x)
    (hsize : 0 < sizeofT) (hfits : num.toInt * sizeofT < 2 ^ 64) (hn : 0 < n.toNat) :
    PoolInv y := by
  have hback := htook.mem
  have hsubset := h.nextBlock_subset hfits hback htook.room
  have hmem := hsubset ((nextBlock sizeofT back n).pointer_mem_bytes hsize hn)
  cases htook with
  | @intro rest used_elements hpools hroom hused =>
    -- only the last pool has one block more
    refine h.update hpools ?_ (hused ▸ hroom) (fun it hit => ?_) ?_
    · rw [held_cons, heldIn_of_mem hmem, hused, h.counted back hback, Int.natCast_add,
        Int.add_comm]
      rfl
    · rw [held_cons, heldIn_of_notMem (h.others hpools hmem it hit), Nat.zero_add]
    · refine List.forall_mem_cons.mpr ⟨?_, h.inside⟩
      exact ⟨hn, back.pool, List.mem_map_of_mem hback, hsubset⟩

/-! ## Deallocation -/

/-- The loop of `deallocate` passes by the pools the pointer is not in. -/
theorem deallocateLoop_append {pool_size : UInt64} {p : Ptr}
    (h : ∀ it ∈ l, ¬(it.pool ≤ p ∧ p < it.pool + pool_size.toNat * sizeofT)) :
    deallocateLoop sizeofT pool_size p n (l ++ r) =
      (l ++ (deallocateLoop sizeofT pool_size p n r).1,
        (deallocateLoop sizeofT pool_size p n r).2) := by
  -- on the pools that are passed by
  induction l with
  | nil => rfl
  | cons it l ih =>
    rw [List.forall_mem_cons] at h
    rw [List.cons_append, deallocateLoop, if_neg h.1, ih h.2]
    rfl

/-- The pool the pointer is in loses the elements, and goes away with the last of them. -/
theorem deallocateLoop_eq {pool_size : UInt64} {p : Ptr}
    (hothers : ∀ it ∈ l ++ r, ¬(it.pool ≤ p ∧ p < it.pool + pool_size.toNat * sizeofT))
    (hpd : pd.pool ≤ p ∧ p < pd.pool + pool_size.toNat * sizeofT) {used_elements : Int32}
    (hused : used_elements = int32T (sizeT pd.used_elements - n)) :
    deallocateLoop sizeofT pool_size p n (l ++ pd :: r) =
      if used_elements = 0 then (l ++ r, true)
      else (l ++ { pd with used_elements } :: r, false) := by
  rw [List.forall_mem_append] at hothers
  have hrest : deallocateLoop sizeofT pool_size p n r = (r, false) := by
    simpa only [List.append_nil, deallocateLoop] using
      deallocateLoop_append (n := n) (r := []) hothers.2
  rw [deallocateLoop_append hothers.1, deallocateLoop, if_pos hpd, ← hused, hrest]
  by_cases hzero : used_elements = 0
  · simp only [if_pos hzero]
  · simp only [if_neg hzero]

/-- What `deallocate` does about a block. -/
inductive Deallocated (x : PoolUse sizeofT num) (b : Block) :
    PoolAllocator sizeofT num → Prop
  | kept {l r : List PoolData} {pd : PoolData} {used_elements : Int32}
      (hpools : x.allocator.pools = l ++ pd :: r)
      (hmem : b.pointer ∈ poolMemory sizeofT num pd.pool)
      (hused : used_elements.toInt = pd.used_elements.toInt - b.n.toNat) :
      Deallocated x b { x.allocator with pools := l ++ { pd with used_elements } :: r }
  | released {l r : List PoolData} {pd : PoolData} {cur_pointer : Ptr}
      (hpools : x.allocator.pools = l ++ pd :: r)
      (hmem : b.pointer ∈ poolMemory sizeofT num pd.pool)
      (hused : pd.used_elements.toInt = b.n.toNat)
      (hcurrent : ∀ p ∈ (poolAddresses (l ++ r)).getLast?, cur_pointer = p) :
      Deallocated x b { x.allocator with pools := l ++ r, cur_pointer }

/-- The loop of `deallocate` finds a block by the addresses of its pool. -/
theorem PoolInv.finds_iff (h : PoolInv x) (hfits : num.toInt * sizeofT < 2 ^ 64)
    (hnum : 0 ≤ num.toInt) {p : Ptr} (it : PoolData) :
    (it.pool ≤ p ∧ p < it.pool + x.allocator.pool_size.toNat * sizeofT) ↔
      p ∈ poolMemory sizeofT num it.pool := by
  rw [h.pool_size, toNat_sizeT hnum, poolMemory_eq hfits hnum]
  rfl

/-- `deallocate` finds the pool of a live block. -/
theorem PoolInv.deallocated (h : PoolInv x) (hsize : 0 < sizeofT)
    (hfits : num.toInt * sizeofT < 2 ^ 64) {b : Block} (hb : b ∈ x.live) :
    Deallocated x b (x.allocator.deallocate b.pointer b.n) := by
  obtain ⟨hn, p, hp, hsubset⟩ := h.inside b hb
  have hmem := hsubset (b.pointer_mem_bytes hsize hn)
  have hpointer : b.pointer ≠ 0 := (lt_of_lt_of_le (h.positive p hp) hmem.1).ne'
  have hn0 : b.n ≠ 0 := fun hzero => absurd (congrArg UInt64.toNat hzero) (Nat.ne_of_gt hn)
  obtain ⟨pd, hpd, rfl⟩ := List.mem_map.mp hp
  obtain ⟨l, r, hpools⟩ := List.append_of_mem hpd
  have hcounted := h.counted pd hpd
  have hbounded := h.bounded pd hpd
  have hle := le_held hb hmem
  -- the loop finds this pool and no other one
  have hfinds := h.finds_iff hfits (p := b.pointer) (by omega)
  have hloop := deallocateLoop_eq
    (fun it hit hfound => h.others hpools hmem it hit ((hfinds it).mp hfound))
    ((hfinds pd).mpr hmem) (n := b.n) rfl
  -- the block is counted, so the count does not go below zero
  have hused := toInt_sub_elements pd.used_elements b.n (by omega)
  rw [PoolAllocator.deallocate, if_neg hn0, if_neg hpointer, hpools, hloop]
  by_cases hzero : int32T (sizeT pd.used_elements - b.n) = 0
  · rw [if_pos hzero]
    rw [hzero] at hused
    refine .released hpools hmem (Int.eq_of_sub_eq_zero hused.symm) fun p hp => ?_
    rw [poolAddresses, List.getLast?_map, Option.mem_def] at hp
    rw [if_pos rfl, hp, Option.getD_some]
  · rw [if_neg hzero]
    exact .kept hpools hmem hused

/-- `deallocate` keeps the invariant. -/
theorem Deallocated.poolInv {b : Block} {allocator : PoolAllocator sizeofT num}
    (hdone : Deallocated x b allocator) (h : PoolInv x) (hsize : 0 < sizeofT) (hb : b ∈ x.live) :
    PoolInv { allocator, live := x.live.erase b } := by
  have herase : ∀ pool, b.heldIn sizeofT num pool + held sizeofT num pool (x.live.erase b) =
      held sizeofT num pool x.live := fun _ => held_erase hb
  cases hdone with
  | @kept l r pd used_elements hpools hmem hused =>
    have hpd : pd ∈ x.allocator.pools := by rw [hpools]; exact List.mem_append_cons_self
    have hheld := herase pd.pool
    rw [heldIn_of_mem hmem] at hheld
    have hcounted := h.counted pd hpd
    have hbounded := h.bounded pd hpd
    -- only the count of the block's pool has changed
    refine h.update hpools (by omega) (by omega) (fun it hit => ?_) fun b' hb' => ?_
    · rw [← herase, heldIn_of_notMem (h.others hpools hmem it hit), Nat.zero_add]
    · exact h.inside b' (List.mem_of_mem_erase hb')
  | @released l r pd cur_pointer hpools hmem hused hcurrent =>
    have hpd : pd ∈ x.allocator.pools := by rw [hpools]; exact List.mem_append_cons_self
    -- the block was the last one of the pool
    have hnone : held sizeofT num pd.pool (x.live.erase b) = 0 := by
      have hheld := herase pd.pool
      rw [heldIn_of_mem hmem] at hheld
      have hcounted := h.counted pd hpd
      omega
    have hsublist : (poolAddresses (l ++ r)).Sublist (poolAddresses x.allocator.pools) := by
      rw [hpools]
      exact (List.sublist_cons_self pd r |>.append_left l).map _
    constructor
    case pool_size => exact h.pool_size
    case positive => exact fun p hp => h.positive p (hsublist.mem hp)
    case apart => exact h.apart.sublist hsublist
    case current => exact hcurrent
    case counted =>
      intro it hit
      rw [h.counted it (mem_of_others hpools hit), ← herase,
        heldIn_of_notMem (h.others hpools hmem it hit), Nat.zero_add]
    case bounded => exact fun it hit => h.bounded it (mem_of_others hpools hit)
    case inside =>
      intro b' hb'
      obtain ⟨hn, p, hp, hsubset⟩ := h.inside b' (List.mem_of_mem_erase hb')
      refine ⟨hn, p, ?_, hsubset⟩
      -- no other block can be in the pool that goes away
      rw [hpools, poolAddresses, List.map_append, List.map_cons, List.perm_middle.mem_iff,
        List.mem_cons, ← List.map_append] at hp
      obtain rfl | hp := hp
      · have hle := (le_held hb' (hsubset (b'.pointer_mem_bytes hsize hn))).trans_eq hnone
        omega
      · exact hp

/-! ## Steps -/

/-- The last pool serves an allocation exactly when it has room. -/
theorem PoolInv.needsNewPool_iff (h : PoolInv x) (hle : (n.toNat : Int) ≤ num.toInt)
    (hpools : x.allocator.pools = rest ++ [back]) : x.allocator.needsNewPool n = false ↔
      back.used_elements.toInt + n.toNat ≤ num.toInt := by
  have hback : back ∈ x.allocator.pools := by rw [hpools]; exact List.mem_concat_self
  have hcounted := h.counted back hback
  have hlt := num.toInt_lt
  -- nothing wraps in the comparison of `allocate`
  have hsum := toNat_add_elements back.used_elements n (by omega) (by omega)
  have hnum := toNat_sizeT (i := num) (by omega)
  rw [needsNewPool, hpools, List.getLast?_concat]
  dsimp only
  rw [decide_eq_false_iff_not, UInt64.lt_iff_toNat_lt]
  omega

/-- An allocation without a new pool is served by a last one. -/
theorem exists_last_of_served (hneeds : x.allocator.needsNewPool n = false) :
    ∃ rest back, x.allocator.pools = rest ++ [back] := by
  rw [needsNewPool] at hneeds
  split at hneeds
  · cases hneeds
  · rename_i back hlast
    obtain ⟨rest, hpools⟩ := List.getLast?_eq_some_iff.mp hlast
    exact ⟨rest, back, hpools⟩

/-- The steps, as they are from a state that keeps the invariant. -/
inductive PoolCase (x : PoolUse sizeofT num) : PoolEvent → PoolUse sizeofT num → Prop
  | thrown {n : UInt64} (hneeds : x.allocator.needsNewPool n = true) :
      PoolCase x (.allocate n none) x
  | served {n : UInt64} {fresh : Option Ptr} {back : PoolData} {y : PoolUse sizeofT num}
      (hneeds : x.allocator.needsNewPool n = false) (hn : 0 < n.toNat)
      (htook : Took x n back y) : PoolCase x (.allocate n fresh) y
  | grown {n : UInt64} {p : Ptr} {y : PoolUse sizeofT num}
      (hneeds : x.allocator.needsNewPool n = true) (hn : 0 < n.toNat)
      (hgrown : PoolInv { x with allocator := x.allocator.allocateNewPool p })
      (htook : Took { x with allocator := x.allocator.allocateNewPool p } n ⟨p, 0⟩ y) :
      PoolCase x (.allocate n (some p)) y
  | deallocate {block : Block} {allocator : PoolAllocator sizeofT num} (hblock : block ∈ x.live)
      (hdone : Deallocated x block allocator) :
      PoolCase x (.deallocate block) { allocator, live := x.live.erase block }

/-- What `allocate` does from a state that keeps the invariant. -/
theorem PoolInv.allocate_cases (h : PoolInv x) (hsize : 0 < sizeofT) {fresh : Option Ptr}
    (hn : 0 < n.toNat) (hle : (n.toNat : Int) ≤ num.toInt)
    (hfresh : ∀ p ∈ fresh, FromOperatorNew x.allocator p) :
    PoolCase x (.allocate n fresh) (match x.allocator.allocate n fresh with
      | some (allocator, pointer) => { allocator, live := ⟨pointer, n⟩ :: x.live }
      | none => x) := by
  have hnum : 0 ≤ num.toInt := by omega
  have hsizeT := toNat_sizeT hnum
  have hfits : ¬ x.allocator.pool_size < n := by
    rw [h.pool_size, UInt64.lt_iff_toNat_lt]
    omega
  rw [PoolAllocator.allocate, if_neg hfits]
  -- the last pool serves, or a new one does if `operator new` does not throw
  cases hneeds : x.allocator.needsNewPool n with
  | false =>
    rw [if_neg Bool.false_ne_true]
    obtain ⟨rest, back, hpools⟩ := exists_last_of_served hneeds
    have hroom := (h.needsNewPool_iff hle hpools).mp hneeds
    obtain ⟨allocator, pointer, htaken, htook⟩ := h.takeElements hpools hroom
    rw [htaken]
    exact .served hneeds hn htook
  | true =>
    rw [if_pos rfl]
    cases fresh with
    | none => exact .thrown hneeds
    | some p =>
      have hgrown := h.allocateNewPool hsize hnum (hfresh p rfl)
      obtain ⟨allocator, pointer, htaken, htook⟩ :=
        hgrown.takeElements (n := n) rfl (by simpa using hle)
      rw [Option.bind_some, htaken]
      exact .grown hneeds hn hgrown htook

/-- Each step from a state that keeps the invariant is one of the cases. -/
theorem PoolInv.cases (h : PoolInv x) (hsize : 0 < sizeofT)
    (hfits : num.toInt * sizeofT < 2 ^ 64) {e : PoolEvent} {y : PoolUse sizeofT num}
    (hstep : (poolUse sizeofT num).Step x e y) : PoolCase x e y := by
  cases e with
  | allocate n fresh =>
    obtain ⟨hn, hle, hfresh, rfl⟩ := hstep
    exact h.allocate_cases hsize hn hle hfresh
  | deallocate block =>
    obtain ⟨hblock, rfl⟩ := hstep
    exact .deallocate hblock (h.deallocated hsize hfits hblock)

/-- Each case keeps the invariant. -/
theorem PoolInv.step (h : PoolInv x) (hsize : 0 < sizeofT)
    (hfits : num.toInt * sizeofT < 2 ^ 64) {e : PoolEvent} {y : PoolUse sizeofT num}
    (hcase : PoolCase x e y) : PoolInv y := by
  cases hcase with
  | thrown => exact h
  | served _ hn htook => exact htook.poolInv h hsize hfits hn
  | grown _ hn hgrown htook => exact htook.poolInv hgrown hsize hfits hn
  | deallocate hblock hdone => exact hdone.poolInv h hsize hblock

/-- Every run of calls keeps the invariant. -/
theorem poolInv_of_reachable (hsize : 0 < sizeofT) (hfits : num.toInt * sizeofT < 2 ^ 64)
    (h : (poolUse sizeofT num).Reachable x) : PoolInv x := by
  refine h.invariant (P := PoolInv) ?_ ?_
  · rintro x rfl
    exact poolInv_init
  · intro x e y hinv hstep
    exact hinv.step hsize hfits (hinv.cases hsize hfits hstep)

/-- Every live block is inside a pool that has not been released, in all runs. -/
theorem live_inside (hsize : 0 < sizeofT) (hfits : num.toInt * sizeofT < 2 ^ 64)
    (h : (poolUse sizeofT num).Reachable x) : ∀ b ∈ x.live, ∃ pd ∈ x.allocator.pools,
      b.bytes sizeofT ⊆ poolMemory sizeofT num pd.pool := by
  exact (poolInv_of_reachable hsize hfits h).inside_pool

end pools

end Mqtt.Spec
