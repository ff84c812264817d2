import MqttBroker.Native.PropertyChain
import MqttBroker.Spec.PropertyWire

/-!
# What the writers write

Every `Serialize` of the broker makes a row of block copies, each right behind the
one before, and advances the running offset by their length. `Makes` states this
once, with the copies of each writer as a trace; `Writes` is what it comes to when
there is room: a byte string, the encoding of the value, is put to its position. A
packet is the concatenation of the encodings of its parts.
-/

namespace Mqtt.Spec

open Mqtt.Native

/-- A `memcpy` into a buffer: the index it writes to and the bytes. -/
abbrev Copy := Nat × Bytes

/-- Copies that are made one after the other. -/
def replay : List Copy → Bytes → Exec Bytes
  | [], dst => .ok dst
  | copy :: copies, dst => do
    let dst ← writeBytes dst copy.1 copy.2
    replay copies dst

/-- A writer that makes the copies of a trace and no others, whatever the buffer is.
    They are consecutive and write `bs` altogether. -/
structure Makes (write : Bytes → Nat → Nat → Exec (Bytes × Nat)) (copies : Nat → List Copy)
    (bs : Bytes) : Prop where
  eq_replay : ∀ dst pos offset, write dst pos offset = (do
    let dst ← replay (copies pos) dst
    return (dst, offset + bs.length))
  consecutive : ∀ pos, List.Consecutive pos (copies pos)
  written : ∀ pos, List.written (copies pos) = bs

/-- A writer that puts `bs` where it is told to, when there is room. -/
def Writes (write : Bytes → Nat → Nat → Exec (Bytes × Nat)) (bs : Bytes) : Prop :=
  ∀ dst pos offset, pos + bs.length ≤ dst.length →
    write dst pos offset = .ok (dst.overwrite pos bs, offset + bs.length)

/-- `writeBytes` overwrites the buffer where the bytes fit in. -/
theorem writeBytes_eq_ok {dst bs : Bytes} {i : Nat} (h : i + bs.length ≤ dst.length) :
    writeBytes dst i bs = .ok (dst.overwrite i bs) := by
  rw [writeBytes, List.writeSlice?_eq_some h]

/-- Two traces are replayed one behind the other. -/
theorem replay_append (copies copies' : List Copy) (dst : Bytes) :
    replay (copies ++ copies') dst = replay copies dst >>= replay copies' := by
  induction copies generalizing dst with
  | nil => rfl
  | cons copy copies ih => simp only [List.cons_append, replay, ih, bind_assoc]

/-- Consecutive copies that fit are one block copy. -/
theorem replay_of_consecutive {i : Nat} {copies : List Copy} (h : List.Consecutive i copies) :
    ∀ {dst : Bytes}, i + (List.written copies).length ≤ dst.length →
      replay copies dst = .ok (dst.overwrite i (List.written copies)) := by
  -- Induction on the trace: the first copy is right in front of the rest, and the two make one
  -- block
  induction h with
  | nil =>
    intro dst _
    rw [replay, List.written_nil, List.overwrite_nil]
  | @cons i xs copies _ ih =>
    intro dst hroom
    rw [List.written_cons, List.length_append, ← Nat.add_assoc] at hroom
    change i + xs.length + (List.written copies).length ≤ dst.length at hroom
    have hlen : (dst.overwrite i xs).length = dst.length := List.length_overwrite (by omega)
    simp only [replay, List.written_cons]
    rw [writeBytes_eq_ok (by omega), Except.ok_bind, ih (by omega),
      List.overwrite_overwrite hroom]

namespace Makes

variable {write second : Bytes → Nat → Nat → Exec (Bytes × Nat)} {copies copies' : Nat → List Copy}
  {xs ys : Bytes}

/-- A writer that makes copies writes what they write. -/
theorem writes (h : Makes write copies xs) : Writes write xs := by
  intro dst pos offset hroom
  have hreplay := @replay_of_consecutive _ _ (h.consecutive pos) dst
  rw [h.written] at hreplay
  rw [h.eq_replay, hreplay hroom, Except.ok_bind, Except.pure_eq_ok]

/-- A writer that does the same makes the same copies. -/
theorem of_eq (h : Makes write copies xs)
    (heq : ∀ dst pos offset, second dst pos offset = write dst pos offset) :
    Makes second copies xs :=
  ⟨fun dst pos offset => (heq dst pos offset).trans (h.eq_replay dst pos offset), h.consecutive,
    h.written⟩

/-- A writer right behind another one. -/
theorem seq (h : Makes write copies xs) (h' : Makes second copies' ys) :
    Makes (fun dst pos offset => do
      let (dst, offset) ← write dst pos offset
      second dst (pos + xs.length) offset)
      (fun pos => copies pos ++ copies' (pos + xs.length)) (xs ++ ys) where
  eq_replay dst pos offset := by
    simp only [h.eq_replay, h'.eq_replay, bind_assoc, pure_bind, replay_append, List.length_append,
      Nat.add_assoc]
  consecutive pos := by
    apply (h.consecutive pos).append
    rw [h.written]
    exact h'.consecutive _
  written pos := by rw [List.written_append, h.written, h'.written]

end Makes

/-- What a writer writes is determined by it. -/
theorem Writes.unique {write : Bytes → Nat → Nat → Exec (Bytes × Nat)} {xs ys : Bytes}
    (hxs : Writes write xs) (hys : Writes write ys) : xs = ys := by
  have hx := hxs (List.replicate (xs.length + ys.length) 0) 0 0
    (by rw [List.length_replicate]; omega)
  rw [hys _ 0 0 (by rw [List.length_replicate]; omega)] at hx
  simp only [Except.ok.injEq, Prod.mk.injEq, Nat.zero_add] at hx
  have hlen : ys.length = xs.length := hx.2
  -- now a buffer that is filled
  have hfull := hxs (List.replicate xs.length 0) 0 0 (by rw [List.length_replicate]; omega)
  rw [hys _ 0 0 (by rw [List.length_replicate]; omega)] at hfull
  simp only [Except.ok.injEq, Prod.mk.injEq] at hfull
  have hbytes := hfull.1
  rw [List.overwrite_all (by rw [List.length_replicate, hlen]),
    List.overwrite_all (by rw [List.length_replicate])] at hbytes
  exact hbytes.symm

/-- The writer that is one block copy. -/
theorem makes_bytes (bs : Bytes) : Makes (fun dst pos offset => do
    let dst ← writeBytes dst pos bs
    return (dst, offset + bs.length)) (fun pos => [(pos, bs)]) bs where
  eq_replay dst pos offset := by simp only [replay, bind_assoc, Except.ok_bind]
  consecutive pos := List.consecutive_singleton pos bs
  written pos := List.append_nil bs

/-! ## Values -/

/-- The bytes of a string. -/
def encodeString (data : Bytes) : Bytes := htons data.length ++ data

/-- The bytes a value is written as. -/
def encodeEntity : MqttEntity → Bytes
  | .byte data => [data]
  | .twoByte data => htons data.toNat
  | .fourByte data => htonl data.toNat
  | .mqttString data => encodeString data
  | .binaryData entity => encodeString entity.data
  | .mqttStringPair first second => encodeString first ++ encodeString second
  | .variableInt data => codeVarInt data

/-- The copies of a string: its length and its characters. -/
def stringCopies (data : Bytes) (pos : Nat) : List Copy :=
  [(pos, htons data.length), (pos + 2, data)]

/-- The copies of a value. -/
def entityCopies : MqttEntity → (pos : Nat) → List Copy
  | .byte data, pos => [(pos, [data])]
  | .twoByte data, pos => [(pos, htons data.toNat)]
  | .fourByte data, pos => [(pos, htonl data.toNat)]
  | .mqttString data, pos => stringCopies data pos
  | .binaryData entity, pos => stringCopies entity.data pos
  | .mqttStringPair first second, pos =>
    stringCopies first pos ++ stringCopies second (pos + MqttStringEntity.size first)
  | .variableInt data, pos => [(pos, codeVarInt data)]

/-- A string takes what `Size` says. -/
theorem length_encodeString (data : Bytes) :
    (encodeString data).length = MqttStringEntity.size data := by
  rw [encodeString, List.length_append, length_htons, MqttStringEntity.size]

/-- `Size` is the number of bytes written. -/
theorem length_encodeEntity (entity : MqttEntity) :
    (encodeEntity entity).length = entity.size := by
  cases entity with
  | byte | twoByte | fourByte => rfl
  | mqttString data => exact length_encodeString data
  | binaryData entity => exact length_encodeString entity.data
  | mqttStringPair first second =>
    rw [encodeEntity, List.length_append, length_encodeString, length_encodeString]
    rfl
  | variableInt data => exact length_codeVarInt data

/-- `MqttStringEntity::Serialize` copies the length and the bytes. -/
theorem makes_string (data : Bytes) :
    Makes (MqttStringEntity.serialize data) (stringCopies data) (encodeString data) := by
  have hseq := (makes_bytes (htons data.length)).seq (makes_bytes data)
  refine ⟨fun dst pos offset => ?_, hseq.consecutive, hseq.written⟩
  have heq := hseq.eq_replay dst pos offset
  simp only [bind_assoc, pure_bind, length_htons, List.length_append, Nat.add_assoc] at heq
  simp only [MqttStringEntity.serialize, MqttStringEntity.size, encodeString, List.length_append,
    length_htons]
  exact heq

/-- `SerializeWithoutLen` writes the bytes alone. -/
theorem writes_binaryDataWithoutLen (entity : MqttBinaryDataEntity) :
    Writes entity.serializeWithoutLen entity.data := by
  intro dst pos offset h
  rw [MqttBinaryDataEntity.serializeWithoutLen, writeBytes_eq_ok h, Except.ok_bind,
    MqttBinaryDataEntity.size, Nat.add_sub_cancel_left]
  rfl

/-- `MqttEntity::Serialize` makes the copies of the value. -/
theorem makes_entity (entity : MqttEntity) :
    Makes (fun dst pos offset => entity.serialize dst pos offset) (entityCopies entity)
      (encodeEntity entity) := by
  cases entity with
  | byte data => exact makes_bytes [data]
  | twoByte data => exact makes_bytes (htons data.toNat)
  | fourByte data => exact makes_bytes (htonl data.toNat)
  | mqttString data => exact makes_string data
  | binaryData entity => exact makes_string entity.data
  | mqttStringPair first second =>
    have hseq := (makes_string first).seq (makes_string second)
    rw [length_encodeString] at hseq
    exact hseq
  | variableInt data => exact makes_bytes (codeVarInt data)

/-! ## Properties -/

/-- The bytes a property is written as. -/
def encodeProperty (p : MqttProperty) : Bytes := p.id :: encodeEntity p.property

/-- The bytes a list of properties is written as. -/
def encodeProperties : List MqttProperty → Bytes
  | [] => []
  | p :: ps => encodeProperty p ++ encodeProperties ps

/-- The bytes a property chain is written as. -/
def encodeChain (chain : MqttPropertyChain) : Bytes :=
  codeVarInt (UInt32.ofNat chain.getSize) ++ encodeProperties chain.toList

/-- The copies of a property: its identifier and its value. -/
def propertyCopies (p : MqttProperty) (pos : Nat) : List Copy :=
  (pos, [p.id]) :: entityCopies p.property (pos + 1)

/-- The copies of a list of properties. -/
def propertiesCopies : List MqttProperty → (pos : Nat) → List Copy
  | [], _ => []
  | p :: ps, pos => propertyCopies p pos ++ propertiesCopies ps (pos + (p.size + 1))

/-- The copies of a property chain: its length field and its properties. -/
def chainCopies (chain : MqttPropertyChain) (pos : Nat) : List Copy :=
  let p_len := codeVarInt (UInt32.ofNat chain.getSize)
  (pos, p_len) :: propertiesCopies chain.toList (pos + p_len.length)

/-- A property takes its size and the identifier byte. -/
theorem length_encodeProperty (p : MqttProperty) : (encodeProperty p).length = p.size + 1 := by
  rw [encodeProperty, List.length_cons, length_encodeEntity, MqttProperty.size]

/-- Properties take the sum of what each of them takes. -/
theorem length_encodeProperties (ps : List MqttProperty) :
    (encodeProperties ps).length = (ps.map fun p => p.size + 1).sum := by
  induction ps with
  | nil => rfl
  | cons p ps ih =>
    rw [encodeProperties, List.length_append, length_encodeProperty, ih, List.map_cons,
      List.sum_cons]

/-- `GetSize` is exact in its range. -/
theorem getSize_of_total_le {chain : MqttPropertyChain}
    (h : (chain.toList.map fun p => p.size + 1).sum ≤ 65535) :
    chain.getSize = (encodeProperties chain.toList).length := by
  have hmod : ∀ (ps : List MqttProperty) (n : Nat),
      ps.foldl (fun size it => (size + (it.size + 1)) % 2 ^ 16) (n % 2 ^ 16) =
        (n + (ps.map fun p => p.size + 1).sum) % 2 ^ 16 := by
    intro ps
    induction ps with
    | nil => intro n; rfl
    | cons p ps ih =>
      intro n
      rw [List.foldl_cons, Nat.mod_add_mod, ih, List.map_cons, List.sum_cons, Nat.add_assoc]
  rw [length_encodeProperties, MqttPropertyChain.getSize]
  exact (hmod chain.toList 0).trans (by rw [Nat.zero_add]; exact Nat.mod_eq_of_lt (by omega))

/-- A chain is written in the size its header announces. -/
theorem length_encodeChain {chain : MqttPropertyChain}
    (h : (chain.toList.map fun p => p.size + 1).sum ≤ 65535) :
    (encodeChain chain).length =
      chain.getSize + getVarIntSize (UInt32.ofNat chain.getSize) := by
  rw [encodeChain, List.length_append, length_codeVarInt, ← getSize_of_total_le h, Nat.add_comm]

/-- `MqttProperty::Serialize` copies the identifier and the value behind it. -/
theorem makes_property (p : MqttProperty) :
    Makes p.serialize (propertyCopies p) (encodeProperty p) := by
  have hseq := (makes_bytes [p.id]).seq (makes_entity p.property)
  refine ⟨fun dst pos offset => ?_, hseq.consecutive, hseq.written⟩
  have heq := hseq.eq_replay dst pos offset
  simp only [bind_assoc, pure_bind] at heq
  exact heq

/-- The loop of `MqttPropertyChain::Serialize`, `size` bytes behind its buffer. -/
theorem makes_serializeLoop (ps : List MqttProperty) (pos size : Nat) :
    (∀ dst offset, MqttPropertyChain.serializeLoop pos ps dst size offset = (do
      let dst ← replay (propertiesCopies ps (pos + size)) dst
      return (dst, offset + (encodeProperties ps).length))) ∧
    List.Consecutive (pos + size) (propertiesCopies ps (pos + size)) ∧
    List.written (propertiesCopies ps (pos + size)) = encodeProperties ps := by
  -- Induction on the properties; `size` is where the next one goes
  induction ps generalizing size with
  | nil => exact ⟨fun _ _ => rfl, .nil, rfl⟩
  | cons p ps ih =>
    obtain ⟨hloop, hcons, hwritten⟩ := ih (size + (p.size + 1))
    have hp := makes_property p
    refine ⟨fun dst offset => ?_, ?_, ?_⟩
    · simp only [MqttPropertyChain.serializeLoop, hp.eq_replay, hloop, propertiesCopies,
        encodeProperties, replay_append, bind_assoc, pure_bind, List.length_append, Nat.add_assoc]
    · apply (hp.consecutive (pos + size)).append
      rw [hp.written, length_encodeProperty, Nat.add_assoc]
      exact hcons
    · rw [propertiesCopies, List.written_append, hp.written, Nat.add_assoc, hwritten,
        encodeProperties]

/-- `MqttPropertyChain::Serialize` makes the copies of the chain. -/
theorem makes_chain (chain : MqttPropertyChain) :
    Makes chain.serialize (chainCopies chain) (encodeChain chain) := by
  have hloop := fun pos => makes_serializeLoop chain.toList pos
    (codeVarInt (UInt32.ofNat chain.getSize)).length
  refine ⟨fun dst pos offset => ?_, fun pos => .cons (hloop pos).2.1, fun pos => ?_⟩
  · simp only [MqttPropertyChain.serialize, (hloop pos).1, chainCopies, encodeChain, replay,
      bind_assoc, List.length_append, Nat.add_assoc]
  · rw [chainCopies, List.written_cons, (hloop pos).2.2, encodeChain]

/-- `MqttPropertyChain::Serialize` writes the encoding of the chain. -/
theorem writes_chain (chain : MqttPropertyChain) : Writes chain.serialize (encodeChain chain) :=
  (makes_chain chain).writes

end Mqtt.Spec
