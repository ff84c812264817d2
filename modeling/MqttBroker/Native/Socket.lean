import MqttBroker.Native.Packet

/-!
# Reading from a socket

`ReadVariableInt` and `ReadFixedHeader` on the bytes a socket has to give, and the
read path of `ServerThread` with `ReadData` as a state machine, one call of
`poll`, `select` or `read` a step, over a socket whose bytes arrive when they
like. Which packets the handlers accept is a parameter of the machine.
-/

namespace Mqtt.Native

/-- `broker_err`, the members `ReadFixedHeader` returns beside `ok`. -/
inductive BrokerErr where
  | readErr | mqttErr
deriving DecidableEq, Repr

/-! ## The fixed header -/

/-- How a round of the loop in `ReadVariableInt` ends. -/
inductive VarIntRound where
  | err
  | done (value : Nat)
  | next (value multiplayer : Nat)

/-- A round of the loop in `ReadVariableInt`, behind its `read`. -/
def readVariableIntRound (single_byte : UInt8) (value multiplayer : Nat) : VarIntRound :=
  let value := (value + (single_byte &&& 0x7F).toNat * multiplayer) % 2 ^ 32
  if multiplayer > 128 ^ 3 then .err
  else
    let multiplayer := multiplayer * 128 % 2 ^ 32
    if single_byte &&& 0x80 = 0 then .done value else .next value multiplayer

/-- The loop of `ReadVariableInt`: the value and what is left of the stream. Behind
    the end of the stream `read` fails. -/
def readVariableIntLoop : (stream : Bytes) → (value multiplayer : Nat) →
    Except MqttErr (Nat × Bytes)
  | [], _, _ => .error .readErr
  | single_byte :: stream, value, multiplayer =>
    match readVariableIntRound single_byte value multiplayer with
    | .err => .error .varIntErr
    | .done value => .ok (value, stream)
    | .next value multiplayer => readVariableIntLoop stream value multiplayer

/-- `ReadVariableInt(fd, value)`. -/
def readVariableInt (stream : Bytes) : Except MqttErr (Nat × Bytes) :=
  readVariableIntLoop stream 0 1

/-- `ReadFixedHeader(fd, f_hed)`, with what is left of the stream. -/
def readFixedHeader (stream : Bytes) : Except BrokerErr (FixedHeader × Bytes) :=
  match stream with
  | [] => .error .readErr
  | first :: stream =>
    match readVariableInt stream with
    | .ok (remaining_len, rest) => .ok (⟨first, remaining_len⟩, rest)
    | .error .readErr => .error .readErr
    | .error _ => .error .mqttErr

/-! ## The read path -/

/-- Why a client is put into `fd_to_delete`. -/
inductive DropReason where
  /-- No fixed header could be read. -/
  | headerError
  /-- `ReadData` came back with less than the announced length. -/
  | short
  /-- `HandlePacket` did not return `ok`. -/
  | refused
deriving DecidableEq, Repr

/-- Where the read path is with a client. -/
inductive ReadPc where
  /-- Before `poll`. -/
  | poll
  /-- In `ReadFixedHeader`, before the first byte is read. -/
  | first
  /-- In `ReadVariableInt`, before its `read`. -/
  | variableInt (first : UInt8) (value multiplayer : Nat)
  /-- In `ReadData`, before `select`; `data` has been read. -/
  | select (f_head : FixedHeader) (data : Bytes)
  /-- In `ReadData`, before `read`. -/
  | read (f_head : FixedHeader) (data : Bytes)
  | dropped (reason : DropReason)
deriving DecidableEq

/-- The read path with the socket of a client that keeps its connection open:
    `coming` has been sent and is on its way, `arrived` can be read. -/
structure ReadPath where
  coming : Bytes
  arrived : Bytes := []
  pc : ReadPc := .poll
  /-- What `HandlePacket` has been called with. -/
  handled : List (FixedHeader × Bytes) := []
deriving DecidableEq

/-- The label of a step. -/
inductive ReadEvent where
  /-- The next `n` bytes arrive. -/
  | arrive (n : Nat)
  | poll
  /-- `read` of one byte, for the fixed header. -/
  | readByte
  | select
  /-- `read` in `ReadData`, which returns `n`. -/
  | read (n : Nat)
deriving DecidableEq

namespace ReadPath

variable (accepts : List (FixedHeader × Bytes) → Bool)

/-- Behind `ReadData`, which has read `data`. -/
def afterData (s : ReadPath) (f_head : FixedHeader) (data : Bytes) : ReadPath :=
  if data.length ≠ f_head.remaining_len then { s with pc := .dropped .short }
  else
    let handled := s.handled ++ [(f_head, data)]
    { s with handled, pc := if accepts handled then .poll else .dropped .refused }

/-- Behind `ReadFixedHeader`; `ReadData` returns at once when there is nothing to
    read. -/
def afterHeader (s : ReadPath) (f_head : FixedHeader) : ReadPath :=
  if f_head.remaining_len = 0 then s.afterData accepts f_head []
  else { s with pc := .select f_head [] }

/-- A byte of the fixed header has been read. -/
def headerByte (s : ReadPath) (single_byte : UInt8) : Option ReadPath :=
  match s.pc with
  | .first => some { s with pc := .variableInt single_byte 0 1 }
  | .variableInt first value multiplayer =>
    match readVariableIntRound single_byte value multiplayer with
    | .err => some { s with pc := .dropped .headerError }
    | .done value => some (s.afterHeader accepts ⟨first, value⟩)
    | .next value multiplayer => some { s with pc := .variableInt first value multiplayer }
  | _ => none

/-- One step, when the event is possible. A `read` of the fixed header waits for a
    byte, `select` does not. -/
def step (s : ReadPath) : ReadEvent → Option ReadPath
  | .arrive n =>
    if 0 < n ∧ n ≤ s.coming.length then
      some { s with coming := s.coming.drop n, arrived := s.arrived ++ s.coming.take n }
    else none
  | .poll => if s.pc = .poll ∧ s.arrived ≠ [] then some { s with pc := .first } else none
  | .readByte =>
    match s.arrived with
    | [] => none
    | single_byte :: arrived => { s with arrived }.headerByte accepts single_byte
  | .select =>
    match s.pc with
    | .select f_head data =>
      if s.arrived = [] then some (s.afterData accepts f_head data)
      else some { s with pc := .read f_head data }
    | _ => none
  | .read n =>
    match s.pc with
    | .read f_head data =>
      if 0 < n ∧ n ≤ f_head.remaining_len - data.length ∧ n ≤ s.arrived.length then
        let data := data ++ s.arrived.take n
        let s := { s with arrived := s.arrived.drop n }
        if data.length ≥ f_head.remaining_len then some (s.afterData accepts f_head data)
        else some { s with pc := .select f_head data }
      else none
    | _ => none

end ReadPath

end Mqtt.Native
