import MqttBroker.Spec.PoolAllocator

/-!
# Blocks of the pool allocator

A new block is put at the place the count of the last pool stands for, whichever elements of
the pool are live. So the live blocks keep apart as long as none of them lies there, which is
so when the blocks of a pool are given back in the order opposite to their allocation.
-/

namespace Mqtt.Spec

open Mqtt.Native Mqtt.Native.PoolAllocator

variable {sizeofT : Nat} {num : Int32}

/-- The live blocks are disjoint ranges, each inside a pool that has not been released. -/
structure BlocksApart (x : PoolUse sizeofT num) : Prop where
  apart : x.live.Pairwise fun b c => Apart (b.bytes sizeofT) (c.bytes sizeofT)
  inside : ∀ b ∈ x.live, ∃ pd ∈ x.allocator.pools,
    b.bytes sizeofT ⊆ poolMemory sizeofT num pd.pool

/-- Where the last pool serves an allocation, a live block that reaches over the count of the
    pool leaves room for the allocation between them. -/
def MeetsPool (x : PoolUse sizeofT num) : PoolEvent → Prop
  | .allocate n _ => ∀ back ∈ x.allocator.pools.getLast?, x.allocator.needsNewPool n = false →
      ∀ b ∈ x.live, b.pointer ∈ poolMemory sizeofT num back.pool →
        (nextBlock sizeofT back n).pointer < b.stop sizeofT →
        (nextBlock sizeofT back n).stop sizeofT ≤ b.pointer
  | .deallocate _ => True

section apart

variable {x : PoolUse sizeofT num} {n : UInt64} {back : PoolData}

/-- Live blocks are always inside pools; what can fail is that they are disjoint. -/
theorem PoolInv.blocksApart_iff (h : PoolInv x) : BlocksApart x ↔
    x.live.Pairwise fun b c => Apart (b.bytes sizeofT) (c.bytes sizeofT) :=
  ⟨fun hapart => hapart.apart, fun hapart => ⟨hapart, h.inside_pool⟩⟩

/-- A new pool has no live blocks to meet. -/
theorem meetsPool_of_needsNewPool {fresh : Option Ptr}
    (hneeds : x.allocator.needsNewPool n = true) : MeetsPool x (.allocate n fresh) := by
  intro _ _ hserved
  rw [hneeds] at hserved
  cases hserved

/-- Two ranges are disjoint when one ends before the other begins. -/
theorem apart_between_iff {a b c d : Ptr} (hab : a < b) (hcd : c < d) :
    Apart (between a b) (between c d) ↔ b ≤ c ∨ d ≤ a := by
  refine ⟨fun h => ?_, fun h addr hab hcd => ?_⟩
  · by_contra hover
    rw [not_or, not_le, not_le] at hover
    -- the later beginning is in both
    obtain hac | hca := le_total a c
    · exact h c ⟨hac, hover.1⟩ ⟨le_refl c, hcd⟩
    · exact h a ⟨le_refl a, hab⟩ ⟨hca, hover.2⟩
  · obtain hbc | hda := h
    · exact absurd (hab.2.trans_le hbc) (not_lt.mpr hcd.1)
    · exact absurd (hcd.2.trans_le hda) (not_lt.mpr hab.1)

/-- The elements at the count of a pool are apart from a live block exactly when the block ends
    before them, or begins behind them. -/
theorem PoolInv.nextBlock_apart_iff (h : PoolInv x) (hsize : 0 < sizeofT)
    (hfits : num.toInt * sizeofT < 2 ^ 64) (hback : back ∈ x.allocator.pools)
    (hn : 0 < n.toNat) (hroom : back.used_elements.toInt + n.toNat ≤ num.toInt) {b : Block}
    (hb : b ∈ x.live) :
    Apart ((nextBlock sizeofT back n).bytes sizeofT) (b.bytes sizeofT) ↔
      (b.pointer ∈ poolMemory sizeofT num back.pool →
        (nextBlock sizeofT back n).pointer < b.stop sizeofT →
        (nextBlock sizeofT back n).stop sizeofT ≤ b.pointer) := by
  obtain ⟨hn', p, hp, hsubset⟩ := h.inside b hb
  by_cases hmem : b.pointer ∈ poolMemory sizeofT num back.pool
  · rw [Block.bytes, Block.bytes, imp_iff_right hmem, imp_iff_not_or, not_lt, or_comm]
    exact apart_between_iff (Block.pointer_lt_stop hsize hn) (b.pointer_lt_stop hsize hn')
  · -- a block of another pool
    refine iff_of_true ?_ fun h => absurd h hmem
    have hne : back.pool ≠ p := by
      rintro rfl
      exact hmem (hsubset (b.pointer_mem_bytes hsize hn'))
    exact (h.apart_of_ne (List.mem_map_of_mem hback) hp hne).mono
      (h.nextBlock_subset hfits hback hroom) hsubset

/-- A new block is apart from the live ones when no live one reaches into it. -/
theorem Took.blocksApart_iff {y : PoolUse sizeofT num} (htook : Took x n back y) (h : PoolInv x)
    (hsize : 0 < sizeofT) (hfits : num.toInt * sizeofT < 2 ^ 64) (hn : 0 < n.toNat)
    (hapart : BlocksApart x) :
    BlocksApart y ↔ ∀ b ∈ x.live, b.pointer ∈ poolMemory sizeofT num back.pool →
      (nextBlock sizeofT back n).pointer < b.stop sizeofT →
      (nextBlock sizeofT back n).stop sizeofT ≤ b.pointer := by
  rw [(htook.poolInv h hsize hfits hn).blocksApart_iff, htook.live, List.pairwise_cons,
    and_iff_left hapart.apart]
  exact forall₂_congr fun b hb => h.nextBlock_apart_iff hsize hfits htook.mem hn htook.room hb

/-- A step keeps the blocks apart exactly when it meets the pool. -/
theorem BlocksApart.step_iff (hapart : BlocksApart x) (h : PoolInv x) (hsize : 0 < sizeofT)
    (hfits : num.toInt * sizeofT < 2 ^ 64) {e : PoolEvent} {y : PoolUse sizeofT num}
    (hcase : PoolCase x e y) : BlocksApart y ↔ MeetsPool x e := by
  have hinv := h.step hsize hfits hcase
  cases hcase with
  | thrown hneeds => exact iff_of_true hapart (meetsPool_of_needsNewPool hneeds)
  | served hneeds hn htook =>
    rw [htook.blocksApart_iff h hsize hfits hn hapart]
    refine ⟨fun hroom back' hback' _ => ?_, fun hmeets => hmeets _ htook.getLast? hneeds⟩
    obtain rfl := Option.some.inj (htook.getLast?.symm.trans hback')
    exact hroom
  | grown hneeds hn hgrown htook =>
    refine iff_of_true ?_ (meetsPool_of_needsNewPool hneeds)
    have hapart' := hgrown.blocksApart_iff.mpr hapart.apart
    refine (htook.blocksApart_iff hgrown hsize hfits hn hapart').mpr fun b hb hmem => ?_
    -- there is no live block in the new pool
    exact absurd hmem (hgrown.notMem_of_unused htook.mem rfl hb)
  | @deallocate block allocator =>
    exact iff_of_true (hinv.blocksApart_iff.mpr (hapart.apart.erase block)) trivial

/-- In runs under a guard that makes the steps meet the pool, be it with another invariant. -/
theorem blocksApart_of_guard {G : PoolUse sizeofT num → PoolEvent → Prop}
    {P : PoolUse sizeofT num → Prop} (hsize : 0 < sizeofT)
    (hfits : num.toInt * sizeofT < 2 ^ 64) (hinit : P {})
    (hguard : ∀ {x e y}, PoolInv x → P x → G x e → (poolUse sizeofT num).Step x e y →
      MeetsPool x e ∧ P y)
    (h : ((poolUse sizeofT num).restrict G).Reachable x) : PoolInv x ∧ BlocksApart x ∧ P x := by
  refine h.invariant (P := fun x => PoolInv x ∧ BlocksApart x ∧ P x) ?_ ?_
  · rintro x rfl
    exact ⟨poolInv_init, poolInv_init.blocksApart_iff.mpr .nil, hinit⟩
  · -- the counts are right after any step, the blocks apart after one that meets the pool
    rintro x e y ⟨hinv, hapart, hp⟩ ⟨hmet, hstep⟩
    have hcase := hinv.cases hsize hfits hstep
    obtain ⟨hmeets, hp'⟩ := hguard hinv hp hmet hstep
    exact ⟨hinv.step hsize hfits hcase, (hapart.step_iff hinv hsize hfits hcase).mpr hmeets, hp'⟩

end apart

/-- The live blocks keep apart in every run whose allocations meet the pool. The first
    allocation that does not makes two of them overlap, and no other call does. -/
theorem blocks_apart_step_iff {x : PoolUse sizeofT num} (hsize : 0 < sizeofT)
    (hfits : num.toInt * sizeofT < 2 ^ 64)
    (h : ((poolUse sizeofT num).restrict MeetsPool).Reachable x) :
    BlocksApart x ∧ ∀ e y, (poolUse sizeofT num).Step x e y → (BlocksApart y ↔ MeetsPool x e) := by
  obtain ⟨hinv, hapart, -⟩ := blocksApart_of_guard (P := fun _ => True) hsize hfits trivial
    (fun _ _ hmeets _ => ⟨hmeets, trivial⟩) h
  exact ⟨hapart, fun e y hstep => hapart.step_iff hinv hsize hfits (hinv.cases hsize hfits hstep)⟩

/-- A pool for two elements of four bytes at address 1000, and blocks of it. -/
def onePool (used_elements : Int32) (live : List Block) : PoolUse 4 2 where
  allocator := { pools := [⟨1000, used_elements⟩], cur_pointer := 1000 }
  live := live

/-- Of two blocks the first one has been given back. -/
theorem reachable_onePool :
    ((poolUse 4 2).restrict MeetsPool).Reachable (onePool 1 [⟨1004, 1⟩]) := by
  have hinit : ((poolUse 4 2).restrict MeetsPool).Reachable {} := .init rfl
  have hfresh : FromOperatorNew ({} : PoolUse 4 2).allocator 1000 :=
    ⟨by decide, List.forall_mem_nil _⟩
  -- two blocks are taken and the first one comes back
  have hone : (poolUse 4 2).Step {} (.allocate 1 (some 1000)) (onePool 1 [⟨1000, 1⟩]) :=
    ⟨by decide, by decide, fun p hp => Option.some.inj hp ▸ hfresh, by decide⟩
  have htwo : (poolUse 4 2).Step (onePool 1 [⟨1000, 1⟩]) (.allocate 1 none)
      (onePool 2 [⟨1004, 1⟩, ⟨1000, 1⟩]) := ⟨by decide, by decide, nofun, by decide⟩
  have hback : (poolUse 4 2).Step (onePool 2 [⟨1004, 1⟩, ⟨1000, 1⟩]) (.deallocate ⟨1000, 1⟩)
      (onePool 1 [⟨1004, 1⟩]) := ⟨by decide, by decide⟩
  -- no step meets a live block: the first pool is empty, and the second block is behind the first
  have hempty : MeetsPool ({} : PoolUse 4 2) (.allocate 1 (some 1000)) := fun back hback =>
    absurd hback (Option.not_mem_none back)
  have hmeets : MeetsPool (onePool 1 [⟨1000, 1⟩]) (.allocate 1 none) := by
    intro back hback _ b hb _ hover
    obtain rfl := Option.some.inj hback
    obtain rfl := List.mem_singleton.mp hb
    exact absurd hover (by decide)
  have htaken := (hinit.step ⟨hempty, hone⟩).step ⟨hmeets, htwo⟩
  exact htaken.step (e := .deallocate ⟨1000, 1⟩) ⟨trivial, hback⟩

/-- The pool, and a second one at address 2000 that is full. -/
def secondPool : PoolUse 4 2 where
  allocator := { pools := [⟨1000, 1⟩, ⟨2000, 2⟩], cur_pointer := 2000 }
  live := [⟨2000, 2⟩, ⟨1004, 1⟩]

/-- Two elements do not fit into what is left of the first pool, and keep apart from it. -/
theorem blocks_apart_step_second_pool :
    BlocksApart (onePool 1 [⟨1004, 1⟩]) ∧ BlocksApart secondPool := by
  obtain ⟨hapart, hiff⟩ := blocks_apart_step_iff (by decide) (by decide) reachable_onePool
  have hfresh : FromOperatorNew (onePool 1 [⟨1004, 1⟩]).allocator 2000 := by
    refine ⟨by decide, fun pd hpd => ?_⟩
    obtain rfl := List.mem_singleton.mp hpd
    exact (apart_between_iff (by decide) (by decide)).mpr (by decide)
  have hstep : (poolUse 4 2).Step (onePool 1 [⟨1004, 1⟩]) (.allocate 2 (some 2000)) secondPool :=
    ⟨by decide, by decide, fun p hp => Option.some.inj hp ▸ hfresh, by decide⟩
  refine ⟨hapart, (hiff _ _ hstep).mpr fun _ _ hserved => ?_⟩
  exact absurd hserved (by decide)

/-- A block of one element, so large that four of them have 2^64 bytes. -/
def hugePool : PoolUse (2 ^ 62) 4 where
  allocator := { pools := [⟨1000, 1⟩], cur_pointer := 1000 }
  live := [⟨1000, 1⟩]

/-- One allocation leads to it. -/
theorem reachable_hugePool : (poolUse (2 ^ 62) 4).Reachable hugePool := by
  have hinit : (poolUse (2 ^ 62) 4).Reachable {} := .init rfl
  have hfresh : FromOperatorNew ({} : PoolUse (2 ^ 62) 4).allocator 1000 :=
    ⟨by decide, List.forall_mem_nil _⟩
  have hstep : (poolUse (2 ^ 62) 4).Step {} (.allocate 1 (some 1000)) hugePool :=
    ⟨by decide, by decide, fun p hp => Option.some.inj hp ▸ hfresh, by decide +kernel⟩
  exact hinit.step hstep

/-- A place that is in use is given out once more when an earlier block has come back; and a
    pool whose size in bytes does not fit into a `size_t` has no room for its blocks. -/
theorem block_taken_twice :
    ((poolUse 4 2).Reachable (onePool 2 [⟨1004, 1⟩, ⟨1004, 1⟩]) ∧
      ¬ BlocksApart (onePool 2 [⟨1004, 1⟩, ⟨1004, 1⟩])) ∧
    (poolUse (2 ^ 62) 4).Reachable hugePool ∧ ¬ BlocksApart hugePool := by
  refine ⟨⟨?_, fun hapart => ?_⟩, reachable_hugePool, fun hapart => ?_⟩
  · have htwice : (poolUse 4 2).Step (onePool 1 [⟨1004, 1⟩]) (.allocate 1 none)
        (onePool 2 [⟨1004, 1⟩, ⟨1004, 1⟩]) := ⟨by decide, by decide, nofun, by decide⟩
    exact reachable_onePool.of_restrict.step htwice
  · have htwice := (List.pairwise_cons.mp hapart.apart).1 _ (.head _)
    have hmem : 1004 ∈ Block.bytes 4 ⟨1004, 1⟩ := ⟨by decide, by decide⟩
    exact htwice 1004 hmem hmem
  · obtain ⟨pd, hpd, hsubset⟩ := hapart.inside ⟨1000, 1⟩ (.head _)
    obtain rfl := List.mem_singleton.mp hpd
    -- the pool has no byte
    have hmem : 1000 ∈ poolMemory (2 ^ 62) 4 1000 := hsubset ⟨by decide, by decide⟩
    exact absurd hmem.2 (by decide)

/-! ## Pools of one element -/

section elements

variable {x : PoolUse sizeofT num}

/-- A pool for one element serves no second allocation. -/
theorem PoolInv.meetsPool_of_one (h : PoolInv x) (hone : num.toInt ≤ 1) {e : PoolEvent}
    {y : PoolUse sizeofT num} (hstep : (poolUse sizeofT num).Step x e y) : MeetsPool x e := by
  cases e with
  | deallocate => trivial
  | allocate n fresh =>
    obtain ⟨hn, hle, -⟩ := hstep
    intro back hback hserved b hb hmem
    obtain ⟨rest, hpools⟩ := List.getLast?_eq_some_iff.mp hback
    have hroom := (h.needsNewPool_iff hle hpools).mp hserved
    have hcounted := h.counted back (List.mem_of_getLast? hback)
    exact absurd hmem (h.notMem_of_unused (List.mem_of_getLast? hback) (by omega) hb)

/-- A pool at address 1, and blocks of it. -/
def poolAtOne (sizeofT : Nat) (num used_elements : Int32) (live : List Block) :
    PoolUse sizeofT num where
  allocator := { pools := [⟨1, used_elements⟩], cur_pointer := 1 }
  live := live

variable {used_elements : Int32} {live : List Block}

/-- An allocation from the pool at address 1 leaves a pool at address 1. -/
theorem Took.eq_poolAtOne {back : PoolData} {n : UInt64} {y : PoolUse sizeofT num}
    (htook : Took (poolAtOne sizeofT num used_elements live) n back y) :
    ∃ used : Int32, used.toInt = used_elements.toInt + n.toNat ∧
      y = poolAtOne sizeofT num used (nextBlock sizeofT ⟨1, used_elements⟩ n :: live) := by
  cases htook with
  | @intro rest used hpools hroom hused =>
    have hsplit : [] ++ [⟨1, used_elements⟩] = rest ++ [back] := hpools
    obtain ⟨rfl, hback⟩ := List.append_inj' hsplit rfl
    obtain rfl := List.singleton_inj.mp hback
    exact ⟨used, hused, rfl⟩

/-- The next element of the pool is taken. -/
theorem reachable_taken (hsize : 0 < sizeofT) (hfits : num.toInt * sizeofT < 2 ^ 64)
    (h : (poolUse sizeofT num).Reachable (poolAtOne sizeofT num used_elements live))
    (hroom : used_elements.toInt + 1 ≤ num.toInt) :
    ∃ used : Int32, used.toInt = used_elements.toInt + 1 ∧ (poolUse sizeofT num).Reachable
      (poolAtOne sizeofT num used (nextBlock sizeofT ⟨1, used_elements⟩ 1 :: live)) := by
  have hinv := poolInv_of_reachable hsize hfits h
  have hcounted : used_elements.toInt = held sizeofT num 1 live :=
    hinv.counted ⟨1, used_elements⟩ (.head _)
  have hle : ((1 : UInt64).toNat : Int) ≤ num.toInt := by
    have hone : (1 : UInt64).toNat = 1 := rfl
    omega
  have hpools : (poolAtOne sizeofT num used_elements live).allocator.pools =
    [] ++ [⟨1, used_elements⟩] := rfl
  have hserved := (hinv.needsNewPool_iff hle hpools).mpr hroom
  obtain ⟨y, hstep⟩ : ∃ y, (poolUse sizeofT num).Step (poolAtOne sizeofT num used_elements live)
      (.allocate 1 none) y := ⟨_, by decide, hle, nofun, rfl⟩
  have hy := h.step hstep
  -- the pool has room, so that it serves
  cases hinv.cases hsize hfits hstep with
  | thrown hneeds => exact absurd (hneeds.symm.trans hserved) (by decide)
  | served _ _ htook =>
    obtain ⟨used, hused, rfl⟩ := htook.eq_poolAtOne
    exact ⟨used, hused, hy⟩

/-- A run that takes one block from a pool at address 1. -/
theorem reachable_first (hsize : 0 < sizeofT) (hfits : num.toInt * sizeofT < 2 ^ 64)
    (hnum : 1 ≤ num.toInt) : ∃ used : Int32, used.toInt = 1 ∧
      (poolUse sizeofT num).Reachable
        (poolAtOne sizeofT num used [nextBlock sizeofT ⟨1, 0⟩ 1]) := by
  have hfresh : FromOperatorNew ({} : PoolUse sizeofT num).allocator 1 :=
    ⟨by decide, List.forall_mem_nil _⟩
  obtain ⟨y, hstep⟩ : ∃ y, (poolUse sizeofT num).Step {} (.allocate 1 (some 1)) y :=
    ⟨_, by decide, hnum, fun p hp => Option.some.inj hp ▸ hfresh, rfl⟩
  have hinit : (poolUse sizeofT num).Reachable {} := .init rfl
  have hy := hinit.step hstep
  cases poolInv_init.cases hsize hfits hstep with
  | served hneeds => cases hneeds
  -- there was no pool, so one is made
  | grown _ _ _ htook =>
    have htook : Took (poolAtOne sizeofT num 0 []) 1 ⟨1, 0⟩ y := htook
    obtain ⟨used, hused, rfl⟩ := htook.eq_poolAtOne
    exact ⟨used, hused, hy⟩

/-- A block that is not the only one of the pool is given back. -/
theorem reachable_given_back (hsize : 0 < sizeofT) (hfits : num.toInt * sizeofT < 2 ^ 64)
    (h : (poolUse sizeofT num).Reachable (poolAtOne sizeofT num used_elements live))
    {block : Block} (hblock : block ∈ live) (hmore : (block.n.toNat : Int) < used_elements.toInt) :
    ∃ used : Int32, used.toInt = used_elements.toInt - block.n.toNat ∧
      (poolUse sizeofT num).Reachable (poolAtOne sizeofT num used (live.erase block)) := by
  have hinv := poolInv_of_reachable hsize hfits h
  obtain ⟨y, hstep⟩ : ∃ y, (poolUse sizeofT num).Step (poolAtOne sizeofT num used_elements live)
      (.deallocate block) y := ⟨_, hblock, rfl⟩
  have hy := h.step hstep
  cases hinv.cases hsize hfits hstep with
  | deallocate _ hdone =>
    -- the other block keeps the pool
    cases hdone with
    | @kept l r pd used hpools _ hused =>
      obtain ⟨rfl, hpd⟩ | ⟨-, hnil⟩ := List.singleton_eq_append_iff.mp hpools
      · obtain ⟨rfl, rfl⟩ := List.cons.inj hpd
        exact ⟨used, hused, hy⟩
      · cases hnil
    | @released l r pd cur_pointer hpools _ hused =>
      have hpd : pd ∈ (poolAtOne sizeofT num used_elements live).allocator.pools := by
        rw [hpools]
        exact List.mem_append_cons_self
      obtain rfl := List.mem_singleton.mp hpd
      exact absurd hused (Int.ne_of_gt hmore)

/-- Two blocks overlap after four calls, whatever the type of the elements, unless a pool has room
    for one element only. -/
theorem always_apart_iff (hsize : 0 < sizeofT) (hfits : num.toInt * sizeofT < 2 ^ 64) :
    (∀ x, (poolUse sizeofT num).Reachable x → BlocksApart x) ↔ num.toInt ≤ 1 := by
  refine ⟨fun hall => ?_, fun hone x h => ?_⟩
  · by_contra hmore
    -- take two blocks, give the first one back and take one more
    obtain ⟨one, hone, hfirst⟩ := reachable_first hsize hfits (by omega)
    obtain ⟨two, htwo, hsecond⟩ := reachable_taken hsize hfits hfirst (by omega)
    have hzero : (0 : Int32).toInt = 0 := rfl
    have hn : (1 : UInt64).toNat = 1 := rfl
    have hne : nextBlock sizeofT ⟨1, one⟩ 1 ≠ nextBlock sizeofT ⟨1, 0⟩ 1 := by
      intro heq
      have hpointer : 1 + one.toInt * sizeofT = 1 + (0 : Int32).toInt * sizeofT :=
        congrArg Block.pointer heq
      rw [hone, hzero] at hpointer
      omega
    have hlt : ((1 : UInt64).toNat : Int) < two.toInt := by omega
    obtain ⟨back, hback, hthird⟩ := reachable_given_back hsize hfits hsecond
      (.tail _ (.head _)) hlt
    rw [List.erase_cons_tail (by simpa using hne), List.erase_cons_head] at hthird
    -- the count is what it was when the second block was taken
    have hback : back.toInt = two.toInt - (1 : UInt64).toNat := hback
    obtain rfl : back = one := Int32.toInt_inj.mp (by omega)
    obtain ⟨used, -, hfourth⟩ := reachable_taken hsize hfits hthird (by omega)
    have htwice := (List.pairwise_cons.mp (hall _ hfourth).apart).1 _ (.head _)
    -- so the last block is the second one
    have hpos : 0 < (1 : UInt64).toNat := by decide
    have hmem := (nextBlock sizeofT ⟨1, back⟩ 1).pointer_mem_bytes hsize hpos
    exact htwice _ hmem hmem
  · exact (blocksApart_of_guard (P := fun _ => True) hsize hfits trivial
      (fun hinv _ _ hstep => ⟨hinv.meetsPool_of_one hone hstep, trivial⟩) h.restrict_true).2.1

end elements

/-! ## Giving back in the opposite order -/

/-- No live block reaches over the count of its pool. -/
def Packed (x : PoolUse sizeofT num) : Prop :=
  ∀ pd ∈ x.allocator.pools, ∀ b ∈ x.live, b.pointer ∈ poolMemory sizeofT num pd.pool →
    b.stop sizeofT ≤ pd.pool + pd.used_elements.toInt * sizeofT

/-- A block that is given back lies behind all other live blocks of its pool. -/
def GivesBackLast (x : PoolUse sizeofT num) : PoolEvent → Prop
  | .allocate _ _ => True
  | .deallocate block => ∀ pd ∈ x.allocator.pools,
      block.pointer ∈ poolMemory sizeofT num pd.pool →
      ∀ b ∈ x.live.erase block, b.pointer ∈ poolMemory sizeofT num pd.pool →
        b.stop sizeofT ≤ block.pointer

section packed

variable {x : PoolUse sizeofT num} {n : UInt64}

/-- No live block reaches over the count of the last pool, where the next one starts. -/
theorem Packed.meetsPool (h : Packed x) (e : PoolEvent) : MeetsPool x e := by
  cases e with
  | deallocate => trivial
  | allocate n fresh =>
    intro back hback _ b hb hmem hover
    exact absurd hover (not_lt.mpr (h back (List.mem_of_getLast? hback) b hb hmem))

/-- A new pool has no live blocks. -/
theorem Packed.allocateNewPool (h : Packed x) {p : Ptr}
    (hinv : PoolInv { x with allocator := x.allocator.allocateNewPool p }) :
    Packed { x with allocator := x.allocator.allocateNewPool p } := by
  intro pd hpd b hb hmem
  obtain hpd | hpd := List.mem_append.mp hpd
  · exact h pd hpd b hb hmem
  · obtain rfl := List.mem_singleton.mp hpd
    exact absurd hmem (hinv.notMem_of_unused List.mem_concat_self rfl hb)

/-- The new block ends at the new count. -/
theorem Packed.took {y : PoolUse sizeofT num} {back : PoolData} (h : Packed x) (hinv : PoolInv x)
    (hsize : 0 < sizeofT) (hfits : num.toInt * sizeofT < 2 ^ 64) (hn : 0 < n.toNat)
    (htook : Took x n back y) : Packed y := by
  have hsubset := hinv.nextBlock_subset hfits htook.mem htook.room
  have hnext := hsubset ((nextBlock sizeofT back n).pointer_mem_bytes hsize hn)
  have hback := h back htook.mem
  cases htook with
  | @intro rest used_elements hpools hroom hused =>
    -- the new block ends where the new count points to
    have hstop : back.pool + used_elements.toInt * sizeofT =
        (nextBlock sizeofT back n).stop sizeofT := by
      rw [hused, Int.add_mul, ← Int.add_assoc]
      rfl
    refine forall_mem_middle.mpr ⟨?_, fun pd hpd => ?_⟩
    · rw [List.forall_mem_cons, hstop]
      refine ⟨fun _ => le_refl _, fun b hb hmem => (hback b hb hmem).trans ?_⟩
      exact (Block.pointer_lt_stop hsize hn).le
    · refine List.forall_mem_cons.mpr ⟨fun hmem => ?_, h pd (mem_of_others hpools hpd)⟩
      exact absurd hmem (hinv.others hpools hnext pd hpd)

/-- The count goes back to the start of the last block. -/
theorem Packed.deallocated {block : Block} {allocator : PoolAllocator sizeofT num}
    (h : Packed x) (hdone : Deallocated x block allocator) (hblock : block ∈ x.live)
    (hlast : GivesBackLast x (.deallocate block)) :
    Packed { allocator, live := x.live.erase block } := by
  cases hdone with
  | @released l r pd cur_pointer hpools =>
    intro it hit b hb hmem
    exact h it (mem_of_others hpools hit) b (List.mem_of_mem_erase hb) hmem
  | @kept l r pd used_elements hpools hblockmem hused =>
    have hold := h
    rw [Packed, hpools, forall_mem_middle] at hold
    refine forall_mem_middle.mpr ⟨fun b hb hmem => ?_, fun it hit b hb hmem => ?_⟩
    · have hpd : pd ∈ x.allocator.pools := by rw [hpools]; exact List.mem_append_cons_self
      -- what is left ends before the block, and the count goes down by its elements
      have hblockstop := hold.1 block hblock hblockmem
      refine (hlast pd hpd hblockmem b hb hmem).trans ?_
      rw [hused, Int.sub_mul, ← Int.add_sub_assoc]
      exact Int.le_sub_right_of_add_le hblockstop
    · exact hold.2 it hit b (List.mem_of_mem_erase hb) hmem

/-- Giving back the last block first keeps the pools packed. -/
theorem Packed.step {y : PoolUse sizeofT num} {e : PoolEvent} (h : Packed x) (hinv : PoolInv x)
    (hsize : 0 < sizeofT) (hfits : num.toInt * sizeofT < 2 ^ 64) (hlast : GivesBackLast x e)
    (hcase : PoolCase x e y) : Packed y := by
  cases hcase with
  | thrown => exact h
  | served _ hn htook => exact h.took hinv hsize hfits hn htook
  | grown _ hn hgrown htook => exact (h.allocateNewPool hgrown).took hgrown hsize hfits hn htook
  | deallocate hblock hdone => exact h.deallocated hdone hblock hlast

/-- The live blocks keep apart when the blocks of a pool are given back in the order opposite to
    their allocation. -/
theorem blocksApart_of_givesBackLast (hsize : 0 < sizeofT)
    (hfits : num.toInt * sizeofT < 2 ^ 64)
    (h : ((poolUse sizeofT num).restrict GivesBackLast).Reachable x) : BlocksApart x := by
  refine (blocksApart_of_guard (P := Packed) hsize hfits (List.forall_mem_nil _) ?_ h).2.1
  intro x e y hinv hpacked hlast hstep
  exact ⟨hpacked.meetsPool e,
    hpacked.step hinv hsize hfits hlast (hinv.cases hsize hfits hstep)⟩

end packed

end Mqtt.Spec
