import Mathlib.Algebra.Ring.Nat
import MqttBroker.ForStd.Except
import MqttBroker.ForStd.Buffer

/-!
# Protocol enumerations and raw buffers

The enumerations of `mqtt_protocol.h`, and the reads and writes of raw memory
that the rest of the broker is written with. A pointer into a buffer is the
suffix of the buffer that starts there (`buf + n` is `buf.drop n`), so a read
that leaves the buffer is visible as `Fault.outOfBounds`.
-/

namespace Mqtt.Native

/-- A byte string: a raw buffer or the contents of a `std::string`. -/
abbrev Bytes := List UInt8

/-- The orders of the identifiers and of the descriptors the maps are sorted by. -/
instance transUInt8 : Trans (α := UInt8) (· < ·) (· < ·) (· < ·) := ⟨fun h h' => UInt8.lt_trans h h'⟩

instance transBytes : Trans (α := Bytes) (· < ·) (· < ·) (· < ·) := ⟨fun h h' => List.lt_trans h h'⟩

/-- A file descriptor. -/
abbrev Fd := Int

/-- The ways in which the C++ leaves defined behaviour or never returns. -/
inductive Fault where
  | outOfBounds
  | nullClient
  | nullData
  | assertFailed
  | endless
deriving DecidableEq, Repr

/-- A computation that may fault. -/
abbrev Exec := Except Fault

/-- `mqtt_pack_type_enum`. -/
inductive PackType where
  | RESERVED | CONNECT | CONNACK | PUBLISH | PUBACK | PUBREC | PUBREL | PUBCOMP
  | SUBSCRIBE | SUBACK | UNSUBSCRIBE | UNSUBACK | PINGREQ | PINGRESP | DISCONNECT | AUTH
deriving DecidableEq, Repr

/-- The number of a control packet type, as it stands in the upper half of the
    first byte. -/
def PackType.code : PackType → UInt8
  | RESERVED => 0 | CONNECT => 1 | CONNACK => 2 | PUBLISH => 3
  | PUBACK => 4 | PUBREC => 5 | PUBREL => 6 | PUBCOMP => 7
  | SUBSCRIBE => 8 | SUBACK => 9 | UNSUBSCRIBE => 10 | UNSUBACK => 11
  | PINGREQ => 12 | PINGRESP => 13 | DISCONNECT => 14 | AUTH => 15

/-- `mqtt_err`. -/
inductive MqttErr where
  | ok | readErr | varIntErr | mqttPropertyErr | disconnect | handleError
  | protocolVersionErr | duplicateClientId | userNameErr | authFail
deriving DecidableEq, Repr

/-- The members of `mqtt_reason_code` the broker sends. -/
inductive ReasonCode where
  | success | noSubscriptionExisted | unsupportedProtocolVersion
  | clientIdentifierNotValid | keepAliveTimeout
deriving DecidableEq, Repr

def ReasonCode.code : ReasonCode → UInt8
  | success => 0x00 | noSubscriptionExisted => 0x11 | unsupportedProtocolVersion => 0x84
  | clientIdentifierNotValid => 0x85 | keepAliveTimeout => 0x8D

/-- `mqtt_data_type`, without `undefined`. -/
inductive MqttDataType where
  | byte | twoByte | fourByte | mqttString | binaryData | mqttStringPair | variableInt
deriving DecidableEq, Repr

/-- `mqtt_property_id`. -/
inductive MqttPropertyId where
  | payloadFormatIndicator | messageExpiryInterval | contentType | responseTopic
  | correlationData | subscriptionIdentifier | sessionExpiryInterval
  | assignedClientIdentifier | serverKeepAlive | authenticationMethod | authenticationData
  | requestProblemInformation | willDelayInterval | requestResponseInformation
  | responseInformation | serverReference | reasonString | receiveMaximum | topicAliasMaximum
  | topicAlias | maximumQos | retainAvailable | userProperty | maximumPacketSize
  | wildcardSubscriptionAvailable | subscriptionIdentifierAvailable
  | sharedSubscriptionAvailable
deriving DecidableEq, Repr

namespace MqttPropertyId

/-- The identifier byte of a property. -/
def code : MqttPropertyId → UInt8
  | payloadFormatIndicator => 0x01 | messageExpiryInterval => 0x02 | contentType => 0x03
  | responseTopic => 0x08 | correlationData => 0x09 | subscriptionIdentifier => 0x0B
  | sessionExpiryInterval => 0x11 | assignedClientIdentifier => 0x12 | serverKeepAlive => 0x13
  | authenticationMethod => 0x15 | authenticationData => 0x16
  | requestProblemInformation => 0x17 | willDelayInterval => 0x18
  | requestResponseInformation => 0x19 | responseInformation => 0x1A | serverReference => 0x1C
  | reasonString => 0x1F | receiveMaximum => 0x21 | topicAliasMaximum => 0x22
  | topicAlias => 0x23 | maximumQos => 0x24 | retainAvailable => 0x25 | userProperty => 0x26
  | maximumPacketSize => 0x27 | wildcardSubscriptionAvailable => 0x28
  | subscriptionIdentifierAvailable => 0x29 | sharedSubscriptionAvailable => 0x2A

def all : List MqttPropertyId :=
  [payloadFormatIndicator, messageExpiryInterval, contentType, responseTopic, correlationData,
    subscriptionIdentifier, sessionExpiryInterval, assignedClientIdentifier, serverKeepAlive,
    authenticationMethod, authenticationData, requestProblemInformation, willDelayInterval,
    requestResponseInformation, responseInformation, serverReference, reasonString,
    receiveMaximum, topicAliasMaximum, topicAlias, maximumQos, retainAvailable, userProperty,
    maximumPacketSize, wildcardSubscriptionAvailable, subscriptionIdentifierAvailable,
    sharedSubscriptionAvailable]

/-- The property an identifier byte names. -/
def ofCode (id : UInt8) : Option MqttPropertyId := all.find? fun p => p.code = id

/-- `ofCode` finds the identifier of a code. -/
theorem ofCode_code (p : MqttPropertyId) : ofCode p.code = some p := by
  cases p <;> rfl

/-- What `ofCode` finds has the code that was looked for. -/
theorem code_of_ofCode {id : UInt8} {p : MqttPropertyId} (h : ofCode id = some p) :
    p.code = id := by
  simpa using List.find?_some h

/-- The groups of cases of the `switch` in `CreateProperty`. -/
def dataType : MqttPropertyId → MqttDataType
  | payloadFormatIndicator | requestProblemInformation | requestResponseInformation
  | maximumQos | retainAvailable | wildcardSubscriptionAvailable
  | subscriptionIdentifierAvailable | sharedSubscriptionAvailable => .byte
  | serverKeepAlive | receiveMaximum | topicAliasMaximum | topicAlias => .twoByte
  | messageExpiryInterval | sessionExpiryInterval | willDelayInterval
  | maximumPacketSize => .fourByte
  | contentType | responseTopic | assignedClientIdentifier | authenticationMethod
  | responseInformation | serverReference | reasonString => .mqttString
  | correlationData | authenticationData => .binaryData
  | userProperty => .mqttStringPair
  | subscriptionIdentifier => .variableInt

end MqttPropertyId

/-! ## Raw memory -/

/-- `*(buf + i)`. -/
def readByte (buf : Bytes) (i : Nat) : Exec UInt8 :=
  match buf[i]? with
  | some b => .ok b
  | none => .error .outOfBounds

/-- `memcpy` of `n` bytes out of `buf + i`. -/
def readBytes (buf : Bytes) (i n : Nat) : Exec Bytes :=
  match buf.readSlice? i n with
  | some bs => .ok bs
  | none => .error .outOfBounds

/-- `memcpy` of `bs` to `dst + i`. -/
def writeBytes (dst : Bytes) (i : Nat) (bs : Bytes) : Exec Bytes :=
  match dst.writeSlice? i bs with
  | some dst => .ok dst
  | none => .error .outOfBounds

/-- `ConvertToHost2Bytes(buf + i)`. -/
def convertToHost2Bytes (buf : Bytes) (i : Nat) : Exec UInt16 := do
  let hi ← readByte buf i
  let lo ← readByte buf (i + 1)
  return UInt16.ofNat (hi.toNat * 256 + lo.toNat)

/-- `ConvertToHost4Bytes(buf + i)`. -/
def convertToHost4Bytes (buf : Bytes) (i : Nat) : Exec UInt32 := do
  let b0 ← readByte buf i
  let b1 ← readByte buf (i + 1)
  let b2 ← readByte buf (i + 2)
  let b3 ← readByte buf (i + 3)
  return UInt32.ofNat (((b0.toNat * 256 + b1.toNat) * 256 + b2.toNat) * 256 + b3.toNat)

/-- The two bytes of `htons(n)`; a wider `n` is cut to sixteen bits. -/
def htons (n : Nat) : Bytes := [UInt8.ofNat (n / 256), UInt8.ofNat n]

/-- The four bytes of `htonl(n)`. -/
def htonl (n : Nat) : Bytes :=
  [UInt8.ofNat (n / 256 ^ 3), UInt8.ofNat (n / 256 ^ 2), UInt8.ofNat (n / 256), UInt8.ofNat n]

end Mqtt.Native
