import MqttBroker.ForStd.OrderedSet
import MqttBroker.Native.Entity

/-!
# Properties and property chains

`MqttProperty`, `CreateProperty` and `MqttPropertyChain`. The chain is a
`std::map` from the identifier to the property, so it is ordered by identifier
and `AddProperty` leaves a present identifier alone.
-/

namespace Mqtt.Native

/-- `MqttProperty`. -/
structure MqttProperty where
  id : UInt8
  property : MqttEntity
deriving DecidableEq

/-- `MqttProperty::Size`; the identifier byte is not counted. -/
def MqttProperty.size (p : MqttProperty) : Nat := p.property.size

/-- `MqttProperty::Serialize`. -/
def MqttProperty.serialize (p : MqttProperty) (dst : Bytes) (pos offset : Nat) :
    Exec (Bytes × Nat) := do
  let dst ← writeBytes dst pos [p.id]
  let offset := offset + 1
  p.property.serialize dst (pos + 1) offset

/-- `CreateProperty(buf, size)`: the property, if there is one, and the value left
    in the `uint8_t` `size`. A null `buf` does not occur. -/
def createProperty (buf : Bytes) : Exec (Option MqttProperty × Nat) := do
  let id ← readByte buf 0
  let size := 1
  match (MqttPropertyId.ofCode id).map MqttPropertyId.dataType with
  | some .byte =>
    let val ← readByte buf 1
    return (some ⟨id, .byte val⟩, (size + 1) % 256)
  | some .twoByte =>
    let val ← convertToHost2Bytes buf 1
    return (some ⟨id, .twoByte val⟩, (size + 2) % 256)
  | some .fourByte =>
    let val ← convertToHost4Bytes buf 1
    return (some ⟨id, .fourByte val⟩, (size + 4) % 256)
  | some .mqttString =>
    let len ← convertToHost2Bytes buf 1
    let size := (size + 2) % 256
    let offset := size
    let size := (size + len.toNat) % 256
    let data ← readBytes buf offset len.toNat
    return (some ⟨id, .mqttString data⟩, size)
  | some .binaryData =>
    let len ← convertToHost2Bytes buf 1
    let size := (size + 2) % 256
    let offset := size
    let size := (size + len.toNat) % 256
    let entity ← MqttBinaryDataEntity.ofBuf len buf offset
    return (some ⟨id, .binaryData entity⟩, size)
  | some .mqttStringPair =>
    let len_1 ← convertToHost2Bytes buf 1
    let size := (size + 2) % 256
    -- the second length stands behind the first string
    let len_2 ← convertToHost2Bytes buf (size + len_1.toNat)
    let size := (size + len_1.toNat) % 256
    let size := (size + 2) % 256
    let size := (size + len_2.toNat) % 256
    let first ← readBytes buf (1 + 2) len_1.toNat
    let second ← readBytes buf (1 + 2 + len_1.toNat + 2) len_2.toNat
    return (some ⟨id, .mqttStringPair first second⟩, size)
  | some .variableInt =>
    match ← deCodeVarInt (buf.drop 1) with
    | some (val, vint_size) =>
      return (some ⟨id, .variableInt (UInt32.ofNat val)⟩, (size + vint_size) % 256)
    | none => return (none, 0)
  | none => return (none, 0)

/-- `MqttPropertyChain`: the values of its map, in the order of the keys. -/
abbrev MqttPropertyChain := OrderedSet MqttProperty.id

namespace MqttPropertyChain

/-- `AddProperty`. -/
def addProperty (chain : MqttPropertyChain) (entity : MqttProperty) : MqttPropertyChain :=
  chain.insert entity

/-- `GetSize`; the running sum is a `uint16_t`. -/
def getSize (chain : MqttPropertyChain) : Nat :=
  chain.toList.foldl (fun size it => (size + (it.size + 1)) % 2 ^ 16) 0

/-- The loop of `Serialize`: `size` is the index behind `buf`, `offset` the
    caller's counter. -/
def serializeLoop (pos : Nat) :
    List MqttProperty → (dst : Bytes) → (size offset : Nat) → Exec (Bytes × Nat)
  | [], dst, _, offset => .ok (dst, offset)
  | it :: rest, dst, size, offset => do
    let (dst, offset) ← it.serialize dst (pos + size) offset
    serializeLoop pos rest dst (size + (it.size + 1)) offset

/-- `Serialize(buf, offset)`, `buf` pointing to index `pos` of `dst`. -/
def serialize (chain : MqttPropertyChain) (dst : Bytes) (pos offset : Nat) :
    Exec (Bytes × Nat) := do
  let p_len := UInt32.ofNat chain.getSize
  let dst ← writeBytes dst pos (codeVarInt p_len)
  let size := (codeVarInt p_len).length
  serializeLoop pos chain.toList dst size (offset + size)

/-- The result of `Create`: the error, the value left in `size` and the chain. -/
structure Created where
  err : MqttErr
  size : Nat
  chain : MqttPropertyChain
deriving DecidableEq

/-- The `while` loop of `Create`; `p_len` and `size` are `uint32_t`. -/
def createLoop (buf : Bytes) :
    Nat → (p_len size : Nat) → (chain : MqttPropertyChain) → Exec Created
  | 0, _, _, _ => .error .endless
  | fuel + 1, p_len, size, chain =>
    if p_len > 0 then do
      match ← createProperty (buf.drop size) with
      | (none, _) => return ⟨.mqttPropertyErr, size, chain⟩
      | (some property, size_property) =>
        -- a property may be longer than what is left of the section, and the count then wraps
        createLoop buf fuel ((p_len + 2 ^ 32 - size_property) % 2 ^ 32)
          ((size + size_property) % 2 ^ 32) (addProperty chain property)
    else return ⟨.ok, size, chain⟩

/-- `Create`, its loop cut off after `fuel` rounds. -/
def createFuel (fuel : Nat) (chain : MqttPropertyChain) (buf : Bytes) : Exec Created := do
  match ← deCodeVarInt buf with
  | some (properties_len, properties_len_size) =>
    let size := properties_len_size
    if properties_len > 0 then createLoop buf fuel properties_len size OrderedSet.empty
    -- an empty section does not clear the chain
    else return ⟨.ok, size, chain⟩
  | none => return ⟨.varIntErr, 0, chain⟩

/-- `Create(buf, size)` called on `chain`. A round that does not fault takes at
    least one byte of the buffer or none for ever, so a loop still running after
    this many rounds never ends. -/
def create (chain : MqttPropertyChain) (buf : Bytes) : Exec Created :=
  createFuel (buf.length + 1) chain buf

end MqttPropertyChain

/-- `CreateMqttStringEntity(buf, size)`. -/
def createMqttStringEntity (buf : Bytes) : Exec (Option Bytes × Nat) := do
  let len ← convertToHost2Bytes buf 0
  if len = 0 then return (none, 0)
  let data ← readBytes buf 2 len.toNat
  return (some data, (2 + len.toNat) % 256)

/-- `CreateMqttBinaryDataEntity(buf, size)`. -/
def createMqttBinaryDataEntity (buf : Bytes) : Exec (Option MqttBinaryDataEntity × Nat) := do
  let len ← convertToHost2Bytes buf 0
  if len = 0 then return (none, 0)
  let entity ← MqttBinaryDataEntity.ofBuf len buf 2
  return (some entity, (2 + len.toNat) % 256)

end Mqtt.Native
