import MqttBroker.Native.TopicStorage

/-!
# Headers and packets

`FixedHeader`, `FHBuilder`, the variable headers the broker reads and sends, and
the three overloads of `CreateMqttPacket`. A packet is written into a fresh
buffer of the size its parts announce; a part that writes more or less is a
fault, as in the assertion of the source. `uint32_t` sizes are natural numbers:
everything that is summed up here came out of packets shorter than `2 ^ 28`.
-/

namespace Mqtt.Native

/-- `FixedHeader`. -/
structure FixedHeader where
  first : UInt8
  remaining_len : Nat
deriving DecidableEq

namespace FixedHeader

def qoS (fh : FixedHeader) : UInt8 := (fh.first &&& 0x06) >>> 1
def isRETAIN (fh : FixedHeader) : Bool := fh.first &&& 0x01 != 0
def getType (fh : FixedHeader) : UInt8 := fh.first >>> 4

/-- `Serialize`. -/
def serialize (fh : FixedHeader) (dst : Bytes) (pos offset : Nat) : Exec (Bytes × Nat) := do
  let remaining_len := codeVarInt (UInt32.ofNat fh.remaining_len)
  let dst ← writeBytes dst pos [fh.first]
  let dst ← writeBytes dst (pos + 1) remaining_len
  return (dst, offset + (1 + remaining_len.length))

/-- `Size`. -/
def size (fh : FixedHeader) : Nat := getVarIntSize (UInt32.ofNat fh.remaining_len) + 1

end FixedHeader

/-- `FHBuilder`. -/
structure FHBuilder where
  first : UInt8 := 0

namespace FHBuilder

def packetType (b : FHBuilder) (type : PackType) : FHBuilder := ⟨b.first ||| type.code <<< 4⟩
def withDup (b : FHBuilder) : FHBuilder := ⟨b.first ||| 0x08⟩
def withQoS (b : FHBuilder) (qos : UInt8) : FHBuilder := ⟨b.first ||| qos <<< 1⟩
def build (b : FHBuilder) : UInt8 := b.first

end FHBuilder

/-- `FHBuilder().PacketType(type).Build()`. -/
def packetByte (type : PackType) : UInt8 := (FHBuilder.packetType {} type).build

/-! ## Variable headers -/

/-- `IVariableHeader`, the part that writes. -/
class IVariableHeader (α : Type) where
  getSize : α → Nat
  serialize : α → (dst : Bytes) → (pos offset : Nat) → Exec (Bytes × Nat)

/-- The size of a property chain with its length field. -/
def chainSize (p_chain : MqttPropertyChain) : Nat :=
  p_chain.getSize + getVarIntSize (UInt32.ofNat p_chain.getSize)

/-- `ConnactVH`. -/
structure ConnactVH where
  conn_acknowledge_flags : UInt8
  reason_code : UInt8
  p_chain : MqttPropertyChain

instance : IVariableHeader ConnactVH where
  getSize vh := 1 + 1 + chainSize vh.p_chain
  serialize vh dst pos offset := do
    let local_offset := 0
    let dst ← writeBytes dst pos [vh.conn_acknowledge_flags]
    let local_offset := local_offset + 1
    let dst ← writeBytes dst (pos + local_offset) [vh.reason_code]
    let local_offset := local_offset + 1
    let offset := offset + local_offset
    vh.p_chain.serialize dst (pos + local_offset) offset

/-- `DisconnectVH`. -/
structure DisconnectVH where
  reason_code : UInt8
  p_chain : MqttPropertyChain

instance : IVariableHeader DisconnectVH where
  getSize vh := 1 + chainSize vh.p_chain
  serialize vh dst pos offset := do
    let local_offset := 0
    let dst ← writeBytes dst pos [vh.reason_code]
    let local_offset := local_offset + 1
    let (dst, local_offset) ← vh.p_chain.serialize dst (pos + local_offset) local_offset
    return (dst, offset + local_offset)

/-- `PublishVH`. -/
structure PublishVH where
  topic_name : Bytes
  packet_id : UInt16
  p_chain : MqttPropertyChain

instance : IVariableHeader PublishVH where
  getSize vh := MqttStringEntity.size vh.topic_name + 2 + chainSize vh.p_chain
  serialize vh dst pos offset := do
    let (dst, local_offset) ← MqttStringEntity.serialize vh.topic_name dst pos 0
    let offset := offset + local_offset
    if vh.packet_id ≠ 0 then
      let dst ← writeBytes dst (pos + local_offset) (htons vh.packet_id.toNat)
      let offset := offset + 2
      let local_offset := local_offset + 2
      vh.p_chain.serialize dst (pos + local_offset) offset
    else vh.p_chain.serialize dst (pos + local_offset) offset

/-- `PubackVH`, and `TypicalVH`, which derives from it. -/
structure PubackVH where
  packet_id : UInt16
  reason_code : UInt8
  p_chain : MqttPropertyChain

abbrev TypicalVH := PubackVH

instance : IVariableHeader PubackVH where
  getSize vh := 2 + 1 + chainSize vh.p_chain
  serialize vh dst pos offset := do
    let local_offset := 0
    let dst ← writeBytes dst pos (htons vh.packet_id.toNat)
    let local_offset := local_offset + 2
    let dst ← writeBytes dst (pos + local_offset) [vh.reason_code]
    let local_offset := local_offset + 1
    let (dst, local_offset) ← vh.p_chain.serialize dst (pos + local_offset) local_offset
    return (dst, offset + local_offset)

/-- The loop over the reason codes in `SubackVH::Serialize` and
    `UnsubAckVH::Serialize`. -/
def serializeReasonCodes (pos : Nat) :
    List UInt8 → (dst : Bytes) → (local_offset : Nat) → Exec (Bytes × Nat)
  | [], dst, local_offset => .ok (dst, local_offset)
  | reason_code :: rest, dst, local_offset => do
    let dst ← writeBytes dst (pos + local_offset) [reason_code]
    serializeReasonCodes pos rest dst (local_offset + 1)

/-- A packet id, properties and reason codes, the body of two headers. -/
def serializeReasons (packet_id : UInt16) (p_chain : MqttPropertyChain)
    (reason_codes : List UInt8) (dst : Bytes) (pos offset : Nat) : Exec (Bytes × Nat) := do
  let local_offset := 0
  let dst ← writeBytes dst pos (htons packet_id.toNat)
  let local_offset := local_offset + 2
  let (dst, local_offset) ← p_chain.serialize dst (pos + local_offset) local_offset
  let (dst, local_offset) ← serializeReasonCodes pos reason_codes dst local_offset
  return (dst, offset + local_offset)

/-- `SubackVH`. -/
structure SubackVH where
  packet_id : UInt16
  p_chain : MqttPropertyChain
  reason_codes : List UInt8

instance : IVariableHeader SubackVH where
  getSize vh := 2 + chainSize vh.p_chain + vh.reason_codes.length
  serialize vh := serializeReasons vh.packet_id vh.p_chain vh.reason_codes

/-- `UnsubAckVH`. -/
structure UnsubAckVH where
  packet_id : UInt16
  p_chain : MqttPropertyChain
  reason_codes : List UInt8

instance : IVariableHeader UnsubAckVH where
  getSize vh := 2 + chainSize vh.p_chain + vh.reason_codes.length
  serialize vh := serializeReasons vh.packet_id vh.p_chain vh.reason_codes

/-! ## Packets -/

/-- `CreateMqttPacket(pack_type, size)`. -/
def createMqttPacketEmpty (pack_type : UInt8) : Exec Bytes := do
  let fh : FixedHeader := ⟨pack_type, 0⟩
  let (dst, _) ← fh.serialize (List.replicate fh.size 0) 0 0
  return dst

/-- `CreateMqttPacket(pack_type, vh, size)`. -/
def createMqttPacket {α : Type} [IVariableHeader α] (pack_type : UInt8) (vh : α) :
    Exec Bytes := do
  let size := IVariableHeader.getSize vh
  let fh : FixedHeader := ⟨pack_type, size⟩
  let size := size + fh.size
  let (dst, offset) ← fh.serialize (List.replicate size 0) 0 0
  let (dst, offset) ← IVariableHeader.serialize vh dst offset offset
  if size ≠ offset then throw .assertFailed
  return dst

/-- `CreateMqttPacket(pack_type, vh, message, size)`. -/
def createMqttPacketMessage {α : Type} [IVariableHeader α] (pack_type : UInt8) (vh : α)
    (message : Option MqttBinaryDataEntity) : Exec Bytes := do
  match message with
  | none => throw .nullData
  | some message =>
    let size := IVariableHeader.getSize vh + message.size - 2
    let fh : FixedHeader := ⟨pack_type, size⟩
    let size := if fh.qoS = 0 then size - 2 else size
    let fh : FixedHeader := ⟨pack_type, size⟩
    let size := size + fh.size
    let (dst, offset) ← fh.serialize (List.replicate size 0) 0 0
    let (dst, offset) ← IVariableHeader.serialize vh dst offset offset
    let (dst, offset) ← message.serializeWithoutLen dst offset offset
    if size ≠ offset then throw .assertFailed
    return dst

/-! ## Reading -/

/-- `ConnectVH`. -/
structure ConnectVH where
  prot_name_len : UInt16
  name : Bytes
  version : UInt8
  conn_flags : UInt8
  alive : UInt16

/-- `ConnectVH::ReadFromBuf` and the offset behind it. -/
def ConnectVH.readFromBuf (buf : Bytes) : Exec (ConnectVH × Nat) := do
  let prot_name_len ← convertToHost2Bytes buf 0
  let name ← readBytes buf 2 4
  let version ← readByte buf 6
  let conn_flags ← readByte buf 7
  let alive ← convertToHost2Bytes buf 8
  return (⟨prot_name_len, name, version, conn_flags, alive⟩, 10)

/-- The string `string((char *) (buf + i), n)`, `n` from the two bytes before. -/
def readString (buf : Bytes) (offset : Nat) : Exec (Bytes × Nat) := do
  let len ← convertToHost2Bytes buf offset
  let offset := offset + 2
  let data ← readBytes buf offset len.toNat
  return (data, offset + len.toNat)

/-- `PublishVH(is_packet_id_present, buf, offset)`; an error of the property chain
    is not looked at. -/
def PublishVH.ofBuf (is_packet_id_present : Bool) (buf : Bytes) : Exec (PublishVH × Nat) := do
  let (topic_name, offset) ← readString buf 0
  let (packet_id, offset) ← if is_packet_id_present then do
      let packet_id ← convertToHost2Bytes buf offset
      pure (packet_id, offset + 2)
    else pure (0, offset)
  let created ← MqttPropertyChain.create OrderedSet.empty (buf.drop offset)
  return (⟨topic_name, packet_id, created.chain⟩, offset + created.size)

/-- Copy assignment of a property: a binary value is copied by its `Size`, which
    counts its length field. -/
def MqttProperty.copy (p : MqttProperty) : Exec MqttProperty :=
  match p.property with
  | .binaryData entity => do
    let entity ← MqttBinaryDataEntity.ofBuf (UInt16.ofNat entity.size) entity.data 0
    return ⟨p.id, .binaryData entity⟩
  | _ => .ok p

/-- Copy assignment of a property chain. -/
def MqttPropertyChain.copy (chain : MqttPropertyChain) : Exec MqttPropertyChain :=
  chain.toList.foldlM (fun properties it => do
    let p ← it.copy
    if p.id = 0 then throw .assertFailed
    return MqttPropertyChain.addProperty properties p) OrderedSet.empty

/-- A packet id and properties: the packet id and the offset behind them. What
    becomes of the properties is only logged. -/
def readIdAndProperties (buf : Bytes) : Exec (UInt16 × Nat) := do
  let packet_id ← convertToHost2Bytes buf 0
  let created ← MqttPropertyChain.create OrderedSet.empty (buf.drop 2)
  return (packet_id, 2 + created.size)

/-- `SubscribeVH(buf, offset)`. -/
def SubscribeVH.ofBuf (buf : Bytes) : Exec (UInt16 × Nat) := readIdAndProperties buf

/-- `UnsubscribeVH::ReadFromBuf`. -/
def UnsubscribeVH.readFromBuf (buf : Bytes) : Exec (UInt16 × Nat) := readIdAndProperties buf

/-- `PubackVH::ReadFromBuf`: the packet id. -/
def PubackVH.readFromBuf (buf : Bytes) : Exec UInt16 := convertToHost2Bytes buf 0

end Mqtt.Native
