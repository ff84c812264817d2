import MqttBroker.Native.VarInt

/-!
# Entities

The seven `MqttEntity` classes of `mqtt_protocol.cpp`: their values, `Size` and
`Serialize`. A writer gets the buffer, the index its `dst_buf` points to and
the running `offset` it has to advance; the two counters are kept apart as in
the source.
-/

namespace Mqtt.Native

/-- `MqttBinaryDataEntity`. Its `size` member is a `uint16_t`, which bounds the
    data. -/
structure MqttBinaryDataEntity where
  data : Bytes
  size_lt : data.length < 2 ^ 16
deriving DecidableEq

/-- The value behind an `MqttEntity` pointer. -/
inductive MqttEntity where
  | byte (data : UInt8)
  | twoByte (data : UInt16)
  | fourByte (data : UInt32)
  | mqttString (data : Bytes)
  | binaryData (entity : MqttBinaryDataEntity)
  | mqttStringPair (first second : Bytes)
  | variableInt (data : UInt32)
deriving DecidableEq

namespace MqttStringEntity

/-- `MqttStringEntity::Size`. -/
def size (data : Bytes) : Nat := 2 + data.length

/-- `MqttStringEntity::Serialize`. -/
def serialize (data dst : Bytes) (pos offset : Nat) : Exec (Bytes × Nat) := do
  let dst ← writeBytes dst pos (htons data.length)
  let dst ← writeBytes dst (pos + 2) data
  return (dst, offset + size data)

end MqttStringEntity

namespace MqttBinaryDataEntity

instance : Inhabited MqttBinaryDataEntity := ⟨[], by decide⟩

/-- `MqttBinaryDataEntity(_len, buf + i)`. -/
def ofBuf (len : UInt16) (buf : Bytes) (i : Nat) : Exec MqttBinaryDataEntity :=
  match h : buf.readSlice? i len.toNat with
  | some bs => .ok ⟨bs, by
      have hlen := (List.readSlice?_eq_some_iff.mp h).2
      rw [← hlen, List.length_take]
      exact Nat.lt_of_le_of_lt (Nat.min_le_left _ _) len.toNat_lt⟩
  | none => .error .outOfBounds

/-- `MqttBinaryDataEntity::Size`. -/
def size (entity : MqttBinaryDataEntity) : Nat := 2 + entity.data.length

/-- `MqttBinaryDataEntity::Serialize`. -/
def serialize (entity : MqttBinaryDataEntity) (dst : Bytes) (pos offset : Nat) :
    Exec (Bytes × Nat) := do
  let dst ← writeBytes dst pos (htons entity.data.length)
  let dst ← writeBytes dst (pos + 2) entity.data
  return (dst, offset + entity.size)

/-- `MqttBinaryDataEntity::SerializeWithoutLen`. -/
def serializeWithoutLen (entity : MqttBinaryDataEntity) (dst : Bytes) (pos offset : Nat) :
    Exec (Bytes × Nat) := do
  let dst ← writeBytes dst pos entity.data
  return (dst, offset + (entity.size - 2))

end MqttBinaryDataEntity

namespace MqttEntity

/-- `GetType`. -/
def getType : MqttEntity → MqttDataType
  | byte _ => .byte
  | twoByte _ => .twoByte
  | fourByte _ => .fourByte
  | mqttString _ => .mqttString
  | binaryData _ => .binaryData
  | mqttStringPair _ _ => .mqttStringPair
  | variableInt _ => .variableInt

/-- `Size`. -/
def size : MqttEntity → Nat
  | byte _ => 1
  | twoByte _ => 2
  | fourByte _ => 4
  | mqttString data => MqttStringEntity.size data
  | binaryData entity => entity.size
  | mqttStringPair first second => MqttStringEntity.size first + MqttStringEntity.size second
  | variableInt data => getVarIntSize data

/-- `Serialize(dst_buf, offset)`, `dst_buf` pointing to index `pos` of `dst`. -/
def serialize (dst : Bytes) (pos offset : Nat) : MqttEntity → Exec (Bytes × Nat)
  | byte data => do
    let dst ← writeBytes dst pos [data]
    return (dst, offset + 1)
  | twoByte data => do
    let dst ← writeBytes dst pos (htons data.toNat)
    return (dst, offset + 2)
  | fourByte data => do
    let dst ← writeBytes dst pos (htonl data.toNat)
    return (dst, offset + 4)
  | mqttString data => MqttStringEntity.serialize data dst pos offset
  | binaryData entity => entity.serialize dst pos offset
  | mqttStringPair first second => do
    let (dst, offset) ← MqttStringEntity.serialize first dst pos offset
    MqttStringEntity.serialize second dst (pos + MqttStringEntity.size first) offset
  | variableInt data => do
    let dst ← writeBytes dst pos (codeVarInt data)
    return (dst, offset + (codeVarInt data).length)

end MqttEntity

end Mqtt.Native
