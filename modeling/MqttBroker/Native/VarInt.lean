import MqttBroker.Native.Basic

/-!
# Variable-length integers

`DeCodeVarInt`, `CodeVarInt` and `GetVarIntSize`. The three loops of the source
have no counter of their own; each carries fuel here, one step more than a
32-bit value can need.
-/

namespace Mqtt.Native

/-- The loop of `DeCodeVarInt`: `none` is `var_int_err`, `some (value, size)` is
    `ok`. The fifth byte is always the last one looked at. -/
def deCodeVarIntLoop (buf : Bytes) :
    Nat → (value multiplayer offset : Nat) → Exec (Option (Nat × Nat))
  | 0, _, _, _ => .error .endless
  | fuel + 1, value, multiplayer, offset => do
    let single_byte ← readByte buf offset
    let value := (value + (single_byte &&& 0x7F).toNat * multiplayer) % 2 ^ 32
    if multiplayer > 128 ^ 3 then return none
    let multiplayer := multiplayer * 128 % 2 ^ 32
    let offset := (offset + 1) % 256
    if single_byte &&& 0x80 = 0 then return some (value, offset)
    deCodeVarIntLoop buf fuel value multiplayer offset

/-- `DeCodeVarInt(buf, value, size)`. -/
def deCodeVarInt (buf : Bytes) : Exec (Option (Nat × Nat)) := deCodeVarIntLoop buf 5 0 1 0

/-- The loop of `CodeVarInt`. -/
def codeVarIntLoop : Nat → Nat → Bytes
  | 0, _ => []
  | fuel + 1, value =>
    let single_byte := UInt8.ofNat (value % 0x80)
    let value := value / 0x80
    if value > 0 then (single_byte ||| 0x80) :: codeVarIntLoop fuel value
    else [single_byte]

/-- The bytes `CodeVarInt(buf, value, size)` writes; `size` is their number. -/
def codeVarInt (value : UInt32) : Bytes := codeVarIntLoop 5 value.toNat

/-- The loop of `GetVarIntSize`. -/
def getVarIntSizeLoop : Nat → (value count : Nat) → Nat
  | 0, _, count => count
  | fuel + 1, value, count =>
    if value > 0 then getVarIntSizeLoop fuel (value / 0x80) (count + 1) else count

/-- `GetVarIntSize(value)`. -/
def getVarIntSize (value : UInt32) : Nat :=
  if value = 0 then 1 else getVarIntSizeLoop 5 value.toNat 0

end Mqtt.Native
