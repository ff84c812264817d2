import MqttBroker.Native.Basic

/-!
# The pool allocator

`PoolData<T>` and `PoolAllocator<T, num>` of `functions.h`: elements are handed out from
pools with room for `num` of them, and a pool is released when its count comes to zero. Of
the type `T` only its size matters. What `operator new` returns is given from outside.
-/

namespace Mqtt.Native

/-- An address, in bytes; `nullptr` is 0. -/
abbrev Ptr := Int

/-- An `int` as a `size_t`. -/
def sizeT (i : Int32) : UInt64 := i.toInt64.toUInt64

/-- A `size_t` as an `int32_t`. -/
def int32T (n : UInt64) : Int32 := n.toUInt32.toInt32

/-- `PoolData<T>`: the memory of a pool, and how many of its elements are in use. -/
structure PoolData where
  pool : Ptr
  used_elements : Int32
deriving DecidableEq, Repr

/-- `PoolAllocator<T, num>`, where `sizeofT` is `sizeof(T)`. -/
structure PoolAllocator (sizeofT : Nat) (num : Int32) where
  pools : List PoolData := []
  pool_size : UInt64 := sizeT num
  cur_pointer : Ptr := 0
deriving DecidableEq, Repr

namespace PoolAllocator

variable {sizeofT : Nat} {num : Int32}

/-- The default constructor. -/
instance : Inhabited (PoolAllocator sizeofT num) := ⟨{}⟩

/-- How many bytes `PoolData(num_elements)` asks `operator new` for. -/
def poolBytes (sizeofT : Nat) (num_elements : UInt32) : Nat :=
  num_elements.toNat * sizeofT % 2 ^ 64

/-- `AllocateNewPool`, where `operator new` returns `fresh`. -/
def allocateNewPool (a : PoolAllocator sizeofT num) (fresh : Ptr) : PoolAllocator sizeofT num :=
  { a with pools := a.pools ++ [⟨fresh, 0⟩], cur_pointer := fresh }

/-- Whether `allocate(n)` is not served by the last pool. -/
def needsNewPool (a : PoolAllocator sizeofT num) (n : UInt64) : Bool :=
  match a.pools.getLast? with
  | none => true
  | some back => sizeT num < sizeT back.used_elements + n

/-- The end of `allocate(n)`: the next `n` elements of the last pool. -/
def takeElements (a : PoolAllocator sizeofT num) (n : UInt64) :
    Option (PoolAllocator sizeofT num × Ptr) :=
  a.pools.getLast?.map fun back =>
    let used_elements := int32T (sizeT back.used_elements + n)
    ({ a with pools := a.pools.dropLast ++ [{ back with used_elements }] },
      a.cur_pointer + used_elements.toInt * sizeofT - n.toNat * sizeofT)

/-- `allocate(n)`: the pointer, or none for `bad_alloc`. `fresh` is what `operator new` returns
    if a pool is needed, and none if it throws. -/
def allocate (a : PoolAllocator sizeofT num) (n : UInt64) (fresh : Option Ptr) :
    Option (PoolAllocator sizeofT num × Ptr) :=
  if a.pool_size < n then none
  else if a.needsNewPool n then fresh.bind fun fresh => (a.allocateNewPool fresh).takeElements n
  else a.takeElements n

/-- The loop of `deallocate(p, n)` over the pools, and whether it has erased one. It goes on
    behind a pool that is not empty yet. -/
def deallocateLoop (sizeofT : Nat) (pool_size : UInt64) (p : Ptr) (n : UInt64) :
    List PoolData → List PoolData × Bool
  | [] => ([], false)
  | it :: rest =>
    if it.pool ≤ p ∧ p < it.pool + pool_size.toNat * sizeofT then
      let used_elements := int32T (sizeT it.used_elements - n)
      if used_elements = 0 then (rest, true)
      else
        let (rest, erased) := deallocateLoop sizeofT pool_size p n rest
        ({ it with used_elements } :: rest, erased)
    else
      let (rest, erased) := deallocateLoop sizeofT pool_size p n rest
      (it :: rest, erased)

/-- `deallocate(p, n)`. -/
def deallocate (a : PoolAllocator sizeofT num) (p : Ptr) (n : UInt64) :
    PoolAllocator sizeofT num :=
  if n = 0 then a
  else if p = 0 then a
  else
    let (pools, erased) := deallocateLoop sizeofT a.pool_size p n a.pools
    let cur_pointer :=
      if erased then (pools.getLast?.map (·.pool)).getD a.cur_pointer else a.cur_pointer
    { a with pools, cur_pointer }

end PoolAllocator

end Mqtt.Native
