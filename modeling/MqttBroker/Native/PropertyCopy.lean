import MqttBroker.Native.PropertyChain

/-!
# Copies of property chains

The accessors of the `MqttEntity` classes, and the copy constructor and the copy
assignment of `MqttPropertyChain` that go through them. A chain that is assigned
to is an object with an address: it is cleared before the source is looked at,
and both may be the same.
-/

namespace Mqtt.Native

/-- The `n` bytes of a number in the memory of the host, the lowest one first. -/
def hostOrder : (n : Nat) → (value : Nat) → Bytes
  | 0, _ => []
  | n + 1, value => UInt8.ofNat value :: hostOrder n (value / 256)

/-- The number in some bytes of the memory of the host. -/
def ofHostOrder : Bytes → Nat
  | [] => 0
  | b :: bs => b.toNat + 256 * ofHostOrder bs

namespace MqttEntity

/-- `GetUint`. -/
def getUint : MqttEntity → UInt32
  | byte data => data.toUInt32
  | twoByte data => data.toUInt32
  | fourByte data => data
  | variableInt data => data
  | _ => 0

/-- `GetString`. -/
def getString : MqttEntity → Bytes
  | mqttString data => data
  | binaryData entity => entity.data
  | _ => []

/-- `GetPair`. -/
def getPair : MqttEntity → Option (Bytes × Bytes)
  | mqttStringPair first second => some (first, second)
  | _ => none

/-- The memory that `GetData` points to. -/
def getData : MqttEntity → Bytes
  | byte data => [data]
  | twoByte data => hostOrder 2 data.toNat
  | fourByte data => hostOrder 4 data.toNat
  | mqttString data => data
  | binaryData entity => entity.data
  | mqttStringPair first _ => first
  | variableInt data => hostOrder 4 data.toNat

/-- The `switch` of both copies: a new entity by the type of an old one. -/
def rebuild (entity : MqttEntity) : Exec MqttEntity :=
  match entity.getType with
  | .byte => return .byte entity.getUint.toUInt8
  | .twoByte => return .twoByte entity.getUint.toUInt16
  | .fourByte => return .fourByte entity.getUint
  | .mqttString => return .mqttString entity.getString
  | .mqttStringPair => do
    match entity.getPair with
    | some (first, second) => return .mqttStringPair first second
    | none => throw .nullData
  | .variableInt => do
    -- the constructor copies a `uint32_t` from the pointer
    let data ← readBytes entity.getData 0 4
    return .variableInt (UInt32.ofNat (ofHostOrder data))
  | .binaryData => do
    -- `Size` counts the length field, `GetData` points behind it
    let entity ← MqttBinaryDataEntity.ofBuf (UInt16.ofNat entity.size) entity.getData 0
    return .binaryData entity

end MqttEntity

namespace MqttPropertyChain

/-- The loop of both copies over the properties of the source. -/
def copyLoop : List MqttProperty → MqttPropertyChain → Exec MqttPropertyChain
  | [], properties => .ok properties
  | it :: rest, properties => do
    let entity ← it.property.rebuild
    let p : MqttProperty := ⟨it.id, entity⟩
    if p.id = 0 then throw .assertFailed
    copyLoop rest (addProperty properties p)

/-- `MqttPropertyChain(const MqttPropertyChain &)`. -/
def copyConstruct (_chain : MqttPropertyChain) : Exec MqttPropertyChain :=
  copyLoop _chain.toList OrderedSet.empty

/-- Chains by their addresses. -/
abbrev Chains := Nat → MqttPropertyChain

/-- `operator=(const MqttPropertyChain &)` of the chain at `this` with the one at `_chain`. -/
def copyAssign (chains : Chains) (this _chain : Nat) : Exec Chains := do
  -- `properties.clear()` comes first, and empties `_chain` too if it is `*this`
  let chains := Function.update chains this OrderedSet.empty
  let properties ← copyLoop (chains _chain).toList (chains this)
  return Function.update chains this properties

end MqttPropertyChain

end Mqtt.Native
