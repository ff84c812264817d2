import MqttBroker.Native.Packet

/-!
# Variable headers, both ways

The headers of `mqtt_variable_header.cpp` that can be written and read back, as far as
`Native.Packet` has only one direction of them. `buf` and `dst_buf` point to the header
itself, while `offset` counts on from what the caller has there; each method keeps the
two apart in a way of its own.
-/

namespace Mqtt.Native

/-- `IVariableHeader`, the part that reads: `ReadFromBuf(buf, offset)` of an object, with
    the object and the offset afterwards. -/
class IVariableHeaderReader (α : Type) where
  readFromBuf : α → (buf : Bytes) → (offset : Nat) → Exec (α × Nat)

/-! ## CONNECT, CONNACK and DISCONNECT -/

instance : IVariableHeader ConnectVH where
  getSize _ := 2 + 1 + 4 + 1 + 2
  serialize vh dst pos offset := do
    let local_offset := 0
    let dst ← writeBytes dst (pos + local_offset) (htons vh.prot_name_len.toNat)
    let local_offset := local_offset + 2
    let dst ← writeBytes dst (pos + local_offset) vh.name
    let local_offset := local_offset + 4
    let dst ← writeBytes dst (pos + local_offset) [vh.version]
    let local_offset := local_offset + 1
    let dst ← writeBytes dst (pos + local_offset) [vh.conn_flags]
    let local_offset := local_offset + 1
    let dst ← writeBytes dst (pos + local_offset) (htons vh.alive.toNat)
    let local_offset := local_offset + 2
    return (dst, offset + local_offset)

instance : IVariableHeaderReader ConnectVH where
  readFromBuf _ buf offset := do
    let (vh, size) ← ConnectVH.readFromBuf buf
    return (vh, offset + size)

instance : IVariableHeaderReader ConnactVH where
  readFromBuf vh buf offset := do
    let local_offset := 0
    let conn_acknowledge_flags ← readByte buf local_offset
    let local_offset := local_offset + 1
    let reason_code ← readByte buf local_offset
    let local_offset := local_offset + 1
    let offset := offset + local_offset
    let created ← vh.p_chain.create (buf.drop local_offset)
    return (⟨conn_acknowledge_flags, reason_code, created.chain⟩, offset + created.size)

instance : IVariableHeaderReader DisconnectVH where
  readFromBuf vh buf offset := do
    let reason_code ← readByte buf 0
    let offset := offset + 1
    let created ← vh.p_chain.create (buf.drop 1)
    return (⟨reason_code, created.chain⟩, offset + created.size)

/-! ## PUBACK and the other three of its shape -/

/-- `PubackVH::ReadFromBuf` clears the properties and reads the packet id; the reason code
    stays what it was in the object. -/
instance : IVariableHeaderReader PubackVH where
  readFromBuf vh buf offset := do
    let p_chain : MqttPropertyChain := OrderedSet.empty
    let local_offset := 0
    let packet_id ← convertToHost2Bytes buf local_offset
    let local_offset := local_offset + 2
    return (⟨packet_id, vh.reason_code, p_chain⟩, offset + local_offset)

/-- The handlers look at the packet id only. -/
theorem PubackVH.readFromBuf_eq (vh : PubackVH) (buf : Bytes) : PubackVH.readFromBuf buf = (do
    let (t_vh, _) ← IVariableHeaderReader.readFromBuf vh buf 0
    return t_vh.packet_id) := by
  simp only [PubackVH.readFromBuf, IVariableHeaderReader.readFromBuf, bind_assoc, pure_bind,
    bind_pure]

/-! ## SUBSCRIBE and UNSUBSCRIBE -/

/-- `SubscribeVH`. -/
structure SubscribeVH where
  packet_id : UInt16
  p_chain : MqttPropertyChain

instance : IVariableHeader SubscribeVH where
  getSize vh := 2 + vh.p_chain.getSize
  serialize vh dst pos offset := do
    let local_offset := 0
    if vh.packet_id ≠ 0 then
      let dst ← writeBytes dst pos (htons vh.packet_id.toNat)
      let offset := offset + 2
      let local_offset := local_offset + 2
      vh.p_chain.serialize dst (pos + local_offset) offset
    else vh.p_chain.serialize dst (pos + local_offset) offset

/-- `UnsubscribeVH`. -/
structure UnsubscribeVH where
  packet_id : UInt16
  p_chain : MqttPropertyChain

instance : IVariableHeader UnsubscribeVH where
  getSize vh := 2 + chainSize vh.p_chain
  serialize vh dst pos offset := do
    let local_offset := 0
    let dst ← writeBytes dst pos (htons vh.packet_id.toNat)
    let local_offset := local_offset + 2
    let (dst, local_offset) ← vh.p_chain.serialize dst (pos + local_offset) local_offset
    return (dst, offset + local_offset)

/-- A packet id and properties, the body of two `ReadFromBuf`; the properties that were
    there are cleared. -/
def readIdAndChain (buf : Bytes) (offset : Nat) :
    Exec (UInt16 × MqttPropertyChain × Nat) := do
  let p_chain : MqttPropertyChain := OrderedSet.empty
  let local_offset := 0
  let packet_id ← convertToHost2Bytes buf local_offset
  let local_offset := local_offset + 2
  let offset := offset + local_offset
  let created ← p_chain.create (buf.drop local_offset)
  return (packet_id, created.chain, offset + created.size)

instance : IVariableHeaderReader SubscribeVH where
  readFromBuf _ buf offset := do
    let (packet_id, p_chain, offset) ← readIdAndChain buf offset
    return (⟨packet_id, p_chain⟩, offset)

instance : IVariableHeaderReader UnsubscribeVH where
  readFromBuf _ buf offset := do
    let (packet_id, p_chain, offset) ← readIdAndChain buf offset
    return (⟨packet_id, p_chain⟩, offset)

/-- The handlers look at the packet id only. -/
theorem readIdAndProperties_eq (buf : Bytes) : readIdAndProperties buf = (do
    let (packet_id, _, offset) ← readIdAndChain buf 0
    return (packet_id, offset)) := by
  simp only [readIdAndProperties, readIdAndChain, bind_assoc, pure_bind, Nat.zero_add]

/-! ## Version 3 -/

/-- `TypicalV3VH`. -/
structure TypicalV3VH where
  packet_id : UInt16

instance : IVariableHeader TypicalV3VH where
  getSize _ := 2
  serialize vh dst pos offset := do
    let local_offset := 0
    let dst ← writeBytes dst pos (htons vh.packet_id.toNat)
    let local_offset := local_offset + 2
    return (dst, offset + local_offset)

instance : IVariableHeaderReader TypicalV3VH where
  readFromBuf _ buf offset := do
    let local_offset := 0
    let packet_id ← convertToHost2Bytes buf local_offset
    let local_offset := local_offset + 2
    return (⟨packet_id⟩, offset + local_offset)

/-- `PublishV3VH`. -/
structure PublishV3VH where
  topic_name : Bytes
  packet_id : UInt16

instance : IVariableHeader PublishV3VH where
  getSize vh := MqttStringEntity.size vh.topic_name + 2
  serialize vh dst pos offset := do
    let (dst, local_offset) ← MqttStringEntity.serialize vh.topic_name dst pos 0
    let offset := offset + local_offset
    if vh.packet_id ≠ 0 then
      let dst ← writeBytes dst (pos + local_offset) (htons vh.packet_id.toNat)
      return (dst, offset + 2)
    else return (dst, offset)

/-- `PublishV3VH(is_packet_id_present, buf, offset)`. -/
def PublishV3VH.ofBuf (is_packet_id_present : Bool) (buf : Bytes) : Exec (PublishV3VH × Nat) := do
  let (topic_name, offset) ← readString buf 0
  if is_packet_id_present then
    let packet_id ← convertToHost2Bytes buf offset
    return (⟨topic_name, packet_id⟩, offset + 2)
  else return (⟨topic_name, 0⟩, offset)

end Mqtt.Native
