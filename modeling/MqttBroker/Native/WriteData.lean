import MqttBroker.Native.Basic

/-!
# Writing to a descriptor

`WriteData` over whatever its calls of `write` return. The operating system takes the
first bytes of what a call gives it; they are recorded with their place in the buffer, for
the specification only.
-/

namespace Mqtt.Native

/-- What `write` returns to each call of `WriteData`, by the number of the call and the
    bytes it is given. -/
abbrev WriteResults := (call : Nat) → (buf : Bytes) → Int32

/-- What the calls of `write` have taken: the place in the buffer, and the bytes. -/
abbrev Taken := List (Nat × Bytes)

/-- The loop of `WriteData`. -/
def writeDataLoop (write : WriteResults) (data : Bytes) (size : UInt32) :
    (fuel call : Nat) → (sent_bytes : UInt32) → Taken → Exec (Int32 × Taken)
  | 0, _, _, _ => .error .endless
  | fuel + 1, call, sent_bytes, taken =>
    if sent_bytes < size then do
      let buf ← readBytes data sent_bytes.toNat (size - sent_bytes).toNat
      let res := write call buf
      if res ≤ 0 then return (-1, taken)
      else
        writeDataLoop write data size fuel (call + 1) (sent_bytes + res.toUInt32)
          (taken ++ [(sent_bytes.toNat, buf.take res.toNatClampNeg)])
    else .ok (sent_bytes.toInt32, taken)

/-- `WriteData(fd, data, size)`; a round that goes on has sent a byte at least. -/
def writeData (write : WriteResults) (data : Bytes) (size : UInt32) : Exec (Int32 × Taken) :=
  writeDataLoop write data size (size.toNat + 1) 0 0 []

end Mqtt.Native
