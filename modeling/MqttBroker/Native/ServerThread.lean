import MqttBroker.Native.Handlers

/-!
# The server thread

`Broker::ServerThread` as a state machine. One step is one round of the outer
loop, one socket of the scan in `wait_state`, or one connection to close after
it. What `poll`, `accept` and `read` return is the label of the step.
-/

namespace Mqtt.Native

/-- What `ReadFixedHeader` and `ReadData` get from a readable client socket. -/
inductive ClientInput where
  /-- No fixed header could be read. -/
  | headerError
  /-- Less than the announced length could be read. -/
  | short
  /-- A whole packet; `random` is what `GenRandom` returns while it is handled. -/
  | packet (first : UInt8) (data random : Bytes)

/-- `revents` of one socket. -/
inductive SocketEvent where
  | idle
  /-- `POLLIN`: on the control socket, whether the command is `ADD`; else what is
      read. -/
  | pollin (add : Bool) (input : ClientInput)
  /-- Anything else than `POLLIN`, as `POLLHUP` or `POLLNVAL`. -/
  | hangup

/-- Where the thread is. -/
inductive ServerPc where
  /-- Before `switch (broker.state)`. -/
  | loop
  /-- In the scan, before index `i`. -/
  | scan (client_num i : Nat) (current_time : Time) (fd_to_delete : List Fd)
  /-- In the loop over `fd_to_delete`. -/
  | close (fd_to_delete : List Fd)
  | returned

/-- `ServerThread` with the broker. -/
structure ServerThread where
  broker : Broker
  vec_fds : List Fd := []
  pc : ServerPc := .loop

/-- The label of a step. -/
inductive ServerEvent where
  /-- A round of the outer loop; in `wait_state`, whether `poll` failed and the
      time after it. -/
  | round (poll_error : Bool) (now : Time)
  /-- The next socket of the scan. -/
  | socket (event : SocketEvent)
  /-- The end of the scan, or the next connection to close. -/
  | next

/-- How the scan goes on behind a socket. -/
inductive ScanNext where
  | keep
  | delete
  | stop
deriving DecidableEq

namespace Broker

/-- `if (pClient->isWillFlag()) NotifyClients(pClient->will_topic)`. -/
def sendWill (b : Broker) (pClient : ClientRef) : Exec Broker :=
  if (b.heap pClient).isWillFlag then b.notifyWill pClient else .ok b

/-- The scan, a client socket with input. -/
def readClient (b : Broker) (fd : Fd) (current_time : Time) (input : ClientInput) :
    Exec (Broker × ScanNext) := do
  let (b, pClient) ← b.derefAt fd
  let b := b.setClient pClient { b.heap pClient with time_last_packet := current_time }
  match input with
  | .headerError =>
    let b ← b.sendWill pClient
    return (b, .delete)
  -- half a packet closes the connection without the will
  | .short => return (b, .delete)
  | .packet first data random =>
    let (b, handle_stat) ← b.handlePacket ⟨first, data.length⟩ data fd random
    if handle_stat ≠ .ok then
      let b ← b.handleError handle_stat fd
      return (b, .delete)
    else return (b, .keep)

/-- The scan, a client socket without input. -/
def checkTimeout (b : Broker) (fd : Fd) (current_time : Time) : Exec (Broker × ScanNext) := do
  let (b, pClient) ← b.derefAt fd
  let c := b.heap pClient
  if current_time - c.time_last_packet ≥ c.alive.toNat + 5 then
    let answer_vh : DisconnectVH := ⟨ReasonCode.keepAliveTimeout.code, OrderedSet.empty⟩
    let answer ← createMqttPacket (packetByte .DISCONNECT) answer_vh
    let b ← (b.addCommand fd answer).sendWill pClient
    return (b, .delete)
  else return (b, .keep)

/-- The body of the scan for one socket. -/
def scanSocket (b : Broker) (fd : Fd) (current_time : Time) (event : SocketEvent) :
    Exec (Broker × ScanNext) :=
  match event with
  | .pollin add input =>
    if fd = b.control_sock then
      if add then .ok (b.setState .started, .stop) else .ok (b, .keep)
    else b.readClient fd current_time input
  | .hangup => do
    let (b, pClient) ← b.derefAt fd
    let b ← b.sendWill pClient
    return (b, .delete)
  | .idle =>
    if fd ≠ b.control_sock then b.checkTimeout fd current_time else .ok (b, .keep)

end Broker

namespace ServerThread

/-- `case broker_states::started`; the thread returns when there are no clients. -/
def started (s : ServerThread) : ServerThread :=
  if s.broker.getClientCount = 0 then
    { s with broker := s.broker.setState .init, vec_fds := [], pc := .returned }
  else
    let vec_fds := s.broker.clients.toList.map Prod.fst ++ [s.broker.control_sock]
    { s with broker := s.broker.setState .wait_state, vec_fds }

/-- `case broker_states::wait_state`, up to the scan. -/
def waitState (s : ServerThread) (poll_error : Bool) (now : Time) : ServerThread :=
  let client_num := s.broker.getClientCount + 1
  -- the scan follows in any case, over the old `vec_fds`
  let broker := if poll_error then s.broker.setState .started else s.broker
  { s with broker, pc := .scan client_num 0 now [] }

/-- The socket at index `i` of the scan. -/
def scanAt (s : ServerThread) (client_num i : Nat) (current_time : Time) (fd_to_delete : List Fd)
    (event : SocketEvent) : Exec ServerThread := do
  match s.vec_fds[i]? with
  | none => throw .outOfBounds
  | some fd =>
    let (broker, next) ← s.broker.scanSocket fd current_time event
    match next with
    | .keep => return { s with broker, pc := .scan client_num (i + 1) current_time fd_to_delete }
    | .delete =>
      return { s with broker, pc := .scan client_num (i + 1) current_time (fd_to_delete ++ [fd]) }
    -- `ADD` leaves the loop, and the sockets behind it are not looked at
    | .stop => return { s with broker, pc := .scan client_num client_num current_time fd_to_delete }

/-- The end of the scan. -/
def scanEnd (s : ServerThread) (fd_to_delete : List Fd) : ServerThread :=
  let broker := if fd_to_delete.isEmpty then s.broker else s.broker.setState .started
  { s with broker, pc := .close fd_to_delete }

/-- One connection to close. -/
def closeNext (s : ServerThread) (it : Fd) (rest : List Fd) : Exec ServerThread := do
  let (broker, _) ← s.broker.derefAt it
  return { s with broker := broker.closeConnection it, pc := .close rest }

/-- One step, when the event fits where the thread is. -/
def step (s : ServerThread) (event : ServerEvent) : Exec (Option ServerThread) :=
  match s.pc, event with
  | .loop, .round poll_error now =>
    match s.broker.state with
    | .init => .ok (some s)
    | .started => .ok (some s.started)
    | .wait_state => .ok (some (s.waitState poll_error now))
  | .scan client_num i current_time fd_to_delete, .socket e =>
    if i < client_num then some <$> s.scanAt client_num i current_time fd_to_delete e else .ok none
  | .scan client_num i _ fd_to_delete, .next =>
    if i < client_num then .ok none else .ok (some (s.scanEnd fd_to_delete))
  | .close (it :: rest), .next => some <$> s.closeNext it rest
  | .close [], .next => .ok (some { s with pc := .loop })
  | _, _ => .ok none

end ServerThread

end Mqtt.Native
