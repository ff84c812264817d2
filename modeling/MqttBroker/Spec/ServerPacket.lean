import MqttBroker.Spec.HandsOut
import MqttBroker.Spec.SystemStep

/-!
# The packets of the broker

What the broker sends, as values: `ServerPacket` with the bytes of each. Whatever a handler
makes with `CreateMqttPacket` is the encoding of one of them, so the command queue grows by
encodings, and the fixed-header reader of a client gets each of them back.
-/

namespace Mqtt.Spec

open Mqtt.Native Mqtt.Native.Broker

/-- A packet that the broker sends. -/
inductive ServerPacket where
  | connack (flags reason_code : UInt8) (properties : MqttPropertyChain)
  /-- The QoS bits come from the subscription's `options`. -/
  | publish (options : UInt8) (packet_id : UInt16) (name : Bytes) (message : MqttBinaryDataEntity)
  | puback (packet_id : UInt16)
  | pubrec (packet_id : UInt16)
  | pubrel (packet_id : UInt16)
  | pubcomp (packet_id : UInt16)
  | suback (packet_id : UInt16) (reason_codes : List UInt8)
  | unsuback (packet_id : UInt16) (reason_codes : List UInt8)
  | pingresp
  | disconnect (reason_code : UInt8)

namespace ServerPacket

/-- The first byte. -/
def first : ServerPacket → UInt8
  | connack _ _ _ => packetByte .CONNACK
  | publish options _ _ _ => publishFirst options
  | puback _ => packetByte .PUBACK
  | pubrec _ => packetByte .PUBREC
  | pubrel _ => packetByte .PUBREL ||| 0x02
  | pubcomp _ => packetByte .PUBCOMP
  | suback _ _ => packetByte .SUBACK
  | unsuback _ _ => packetByte .UNSUBACK
  | pingresp => packetByte .PINGRESP
  | disconnect _ => packetByte .DISCONNECT

/-- What stands behind the fixed header. -/
def body : ServerPacket → Bytes
  | connack flags reason_code properties => flags :: reason_code :: encodeChain properties
  | publish _ packet_id name message => encodePublish name packet_id ++ message.data
  | puback packet_id | pubrec packet_id | pubrel packet_id | pubcomp packet_id =>
    htons packet_id.toNat ++ [ReasonCode.success.code, 0]
  | suback packet_id reason_codes | unsuback packet_id reason_codes =>
    htons packet_id.toNat ++ 0 :: reason_codes
  | pingresp => []
  | disconnect reason_code => [reason_code, 0]

/-- The bytes of a packet. -/
def encode (p : ServerPacket) : Bytes := packetBytes p.first p.body

end ServerPacket

/-! ## What `CreateMqttPacket` makes -/

/-- Where the assertion of `CreateMqttPacket` holds, the packet is made of the header. -/
theorem createMqttPacket_eq_ok {first : UInt8} {vh : AnswerHeader} {packet : Bytes}
    (h : createMqttPacket first vh = .ok packet) :
    packet = packetBytes first (encodeHeader vh) := by
  have hsize : IVariableHeader.getSize vh = (encodeHeader vh).length := by
    -- the offset that the assertion compares is that of the bytes that were written
    rw [createMqttPacket_eq_writePacket, writePacket_eq_replay] at h
    obtain ⟨⟨dst, offset⟩, hwrite, h⟩ := Except.bind_eq_ok_iff.mp h
    obtain ⟨_, -, hoffset⟩ := Except.bind_eq_ok_iff.mp hwrite
    obtain ⟨-, rfl⟩ := Prod.mk.inj (Except.ok.inj hoffset)
    dsimp only at h
    split at h
    · cases h
    · rename_i hassert
      rw [packetSize] at hassert
      omega
  have hcreate := createMqttPacket_eq (makes_header vh).writes hsize first
  exact (Except.ok.inj (hcreate.symm.trans h)).symm

/-- The CONNACK that is made. -/
theorem createMqttPacket_connack {flags reason_code : UInt8} {properties : MqttPropertyChain}
    {packet : Bytes}
    (h : createMqttPacket (packetByte .CONNACK) (ConnactVH.mk flags reason_code properties) =
      .ok packet) : packet = (ServerPacket.connack flags reason_code properties).encode :=
  @createMqttPacket_eq_ok _ (.connact ⟨flags, reason_code, properties⟩) _ h

/-- The DISCONNECT that is made. -/
theorem createMqttPacket_disconnect {reason_code : UInt8} {packet : Bytes}
    (h : createMqttPacket (packetByte .DISCONNECT) (DisconnectVH.mk reason_code OrderedSet.empty) =
      .ok packet) : packet = (ServerPacket.disconnect reason_code).encode := by
  rw [@createMqttPacket_eq_ok _ (.disconnect ⟨reason_code, OrderedSet.empty⟩) _ h, encodeHeader,
    encodeChain_empty]
  rfl

/-- The packets that hold a packet id and a reason code have one shape. -/
theorem createMqttPacket_ack {first : UInt8} {packet_id : UInt16} {packet : Bytes}
    (h : createMqttPacket first
      (PubackVH.mk packet_id ReasonCode.success.code OrderedSet.empty) = .ok packet) :
    packet = packetBytes first (htons packet_id.toNat ++ [ReasonCode.success.code, 0]) := by
  rw [@createMqttPacket_eq_ok _ (.puback ⟨packet_id, ReasonCode.success.code, OrderedSet.empty⟩) _ h,
    encodeHeader, encodeChain_empty]

/-- The PINGRESP that is made. -/
theorem createMqttPacket_pingresp {packet : Bytes}
    (h : createMqttPacketEmpty (packetByte .PINGRESP) = .ok packet) :
    packet = ServerPacket.pingresp.encode := by
  have hping : createMqttPacketEmpty (packetByte .PINGRESP) = .ok [0xD0, 0] := by decide
  exact Except.ok.inj (h.symm.trans hping)

/-- A packet that is handed out and not kept is the encoding of a PUBLISH. -/
theorem Carries.encode {b : Broker} {name : Bytes} {message : MqttBinaryDataEntity} {h : HandOut}
    (hcarries : Carries b name message h) (hkept : h.kept = false) :
    h.packet = (ServerPacket.publish h.qos h.packet_id name message).encode := by
  rw [hcarries.packet, hkept]
  rfl

/-! ## What is queued -/

/-- A packet for a socket. -/
abbrev Outgoing := Fd × ServerPacket

/-- The command that writes a packet to its socket. -/
def command (o : Outgoing) : FdWriteCommand := ⟨o.1, o.2.encode⟩

/-- What goes to a socket, in order. -/
def outTo (fd : Fd) (out : List Outgoing) : List ServerPacket :=
  (out.filter fun o => o.1 = fd).map Prod.snd

@[simp] theorem outTo_nil (fd : Fd) : outTo fd [] = [] := rfl

/-- What goes to a socket, one row behind the other. -/
@[simp] theorem outTo_append (fd : Fd) (out out' : List Outgoing) :
    outTo fd (out ++ out') = outTo fd out ++ outTo fd out' := by
  simp [outTo]

/-- The packets `out` are queued, behind what is there. -/
def Emits (b b' : Broker) (out : List Outgoing) : Prop :=
  b'.commands = b.commands ++ out.map command

namespace Emits

variable {b b' b'' : Broker} {out out' : List Outgoing}

/-- Nothing is queued when the queue stays as it is. -/
theorem of_eq (h : b'.commands = b.commands) : Emits b b' [] := by
  rw [Emits, h, List.map_nil, List.append_nil]

theorem trans (h : Emits b b' out) (h' : Emits b' b'' out') : Emits b b'' (out ++ out') := by
  rw [Emits, h', h, List.map_append, List.append_assoc]

/-- `AddCommand` queues one packet. -/
theorem addCommand (b : Broker) (fd : Fd) {p : ServerPacket} {answer : Bytes}
    (h : answer = p.encode) : Emits b (b.addCommand fd answer) [(fd, p)] := by
  rw [h]
  rfl

end Emits

/-- A packet handed out is queued when no other waits for its client. -/
theorem emits_apply {b : Broker} {name : Bytes} {message : MqttBinaryDataEntity} {h : HandOut}
    (hcarries : Carries b name message h) (hkept : h.kept = false) :
    Emits b (h.apply b) [(h.fd, .publish h.qos h.packet_id name message)] := by
  rw [Emits, HandOut.apply_commands, hkept, hcarries.encode hkept]
  rfl

end Mqtt.Spec
