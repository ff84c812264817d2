import MqttBroker.Native.Broker

/-!
# The sender threads

`Commands::Execute` and `WriteData` as the sender threads run them, one call of
`write` a step, with the connections the operating system has open. A connection
has a number of its own, which its descriptor does not say.

The main thread accepts a connection in one step and adds the client in another, and
the server thread closes a descriptor before it deletes the client; the sender threads
write in between. What a command was queued for, whose connection a client is and what
was written is recorded for the specification only.
-/

namespace Mqtt.Native

/-- A connection, as the operating system tells them apart. -/
abbrev Connection := Nat

/-- A command with the connection of the client it was added for. -/
structure QueuedCommand where
  command : FdWriteCommand
  queued_for : Option Connection
deriving DecidableEq

/-- A sender thread. -/
inductive Sender where
  /-- In `Execute`, before a command is taken. -/
  | waiting
  /-- In `WriteData`, before the condition of its loop. -/
  | writing (p : QueuedCommand) (sent_bytes : Nat)

/-- One successful call of `write`. -/
structure WriteCall where
  command : QueuedCommand
  connection : Connection
  data : Bytes
deriving DecidableEq

/-- The main thread in its loop. -/
inductive Acceptor where
  /-- In `WaitForClient`. -/
  | waiting
  /-- Before `AddClient(newsock_fd, ip)`. -/
  | accepted (newsock_fd : Fd) (ip : Bytes)
  /-- Before `close(newsock_fd)`, for a socket that `AddClient` has refused. -/
  | refused (newsock_fd : Fd)

/-- The broker with its threads and the connections behind it. -/
structure Output (τ : Type) where
  broker : Broker
  senders : τ → Sender
  main : Acceptor
  /-- The server thread is in `CloseConnection(fd)`, behind `close(fd)`. -/
  closing : Option Fd
  /-- The descriptors of the control connections that are open. -/
  control : List Fd
  sockets : Fd → Option Connection
  next_connection : Connection
  /-- The connection a client was added with. -/
  client_connection : Fd → Option Connection
  /-- The queue of the broker, with what its commands were queued for. -/
  queued : List QueuedCommand
  queued_eq : queued.map QueuedCommand.command = broker.commands
  added : List QueuedCommand
  writes : List WriteCall

/-- A step of one of the threads. -/
inductive OutputEvent (τ : Type) where
  | addCommand (fd : Fd) (cmd : Bytes)
  /-- `close(fd)` in `CloseConnection(fd)`. -/
  | close (fd : Fd)
  /-- `DelClient(fd)` behind it. -/
  | delClient
  /-- `WaitForClient`, in which `accept` returns a descriptor. -/
  | accept (newsock_fd : Fd) (ip : Bytes)
  /-- `AddClient(newsock_fd, ip)`. -/
  | addClient (now : Time)
  /-- `close(newsock_fd)` in `main`. -/
  | closeRefused
  /-- `socket` in `SendCommand`, or `accept` of the server thread. -/
  | openControl (data_socket : Fd)
  /-- `close(data_socket)`, in either of them. -/
  | closeControl (data_socket : Fd)
  /-- The locked part of `Execute`. -/
  | execute (id : τ)
  /-- A round of the loop in `WriteData`; `res` is what `write` returns. -/
  | write (id : τ) (res : Int)

namespace Output

variable {τ : Type}

/-- No connection has been accepted yet. -/
def start (broker : Broker) (h : broker.commands = []) : Output τ where
  broker := broker
  senders _ := .waiting
  main := .waiting
  closing := none
  control := []
  sockets _ := none
  next_connection := 0
  client_connection _ := none
  queued := []
  queued_eq := h.symm
  added := []
  writes := []

/-- `AddCommand(fd, cmd)`. -/
def addCommand (s : Output τ) (fd : Fd) (cmd : Bytes) : Output τ :=
  let command : QueuedCommand := ⟨⟨fd, cmd⟩, s.client_connection fd⟩
  { s with
    broker := s.broker.addCommand fd cmd
    queued := s.queued ++ [command]
    queued_eq := by rw [List.map_append, s.queued_eq]; rfl
    added := s.added ++ [command] }

/-- The operating system gives out a descriptor that is not in use. -/
def openFd (s : Output τ) (fd : Fd) : Option (Output τ) :=
  if 0 ≤ fd ∧ s.sockets fd = none then some { s with
    sockets := Function.update s.sockets fd (some s.next_connection)
    next_connection := s.next_connection + 1 }
  else none

/-- `close(fd)`. -/
def closeFd (s : Output τ) (fd : Fd) : Output τ :=
  { s with sockets := Function.update s.sockets fd none }

/-- The server thread enters `CloseConnection(fd)` and calls `close(fd)`. -/
def close (s : Output τ) (fd : Fd) : Option (Output τ) :=
  match s.closing with
  | none => some { s.closeFd fd with closing := some fd }
  | some _ => none

/-- `CloseConnection(fd)` goes on with `DelClient(fd)`. -/
def delClient (s : Output τ) : Option (Output τ) :=
  match s.closing with
  | some fd => some { s with
    broker := s.broker.closeConnection fd
    closing := none
    client_connection := Function.update s.client_connection fd none
    queued_eq := s.queued_eq }
  | none => none

/-- `WaitForClient`; `main` goes on with a descriptor above 0 only. -/
def accept (s : Output τ) (newsock_fd : Fd) (ip : Bytes) : Option (Output τ) :=
  match s.main with
  | .waiting => (s.openFd newsock_fd).map fun s =>
    { s with main := if newsock_fd > 0 then .accepted newsock_fd ip else .waiting }
  | _ => none

/-- `AddClient(newsock_fd, ip)`, which refuses a descriptor that still has a client. -/
def addClient (s : Output τ) (now : Time) : Option (Output τ) :=
  match s.main with
  | .accepted newsock_fd ip =>
    let added := s.broker.addClient newsock_fd ip now
    let s := { s with broker := added.1, queued_eq := s.queued_eq }
    if added.2 then some { s with
      main := .waiting
      client_connection :=
        Function.update s.client_connection newsock_fd (s.sockets newsock_fd) }
    else some { s with main := .refused newsock_fd }
  | _ => none

/-- `main` closes a descriptor that was refused. -/
def closeRefused (s : Output τ) : Option (Output τ) :=
  match s.main with
  | .refused newsock_fd => some { s.closeFd newsock_fd with main := .waiting }
  | _ => none

/-- A descriptor for a control connection. -/
def openControl (s : Output τ) (data_socket : Fd) : Option (Output τ) :=
  (s.openFd data_socket).map fun s => { s with control := data_socket :: s.control }

def closeControl (s : Output τ) (data_socket : Fd) : Option (Output τ) :=
  if data_socket ∈ s.control then
    some { s.closeFd data_socket with control := s.control.erase data_socket }
  else none

variable [DecidableEq τ]

/-- A sender thread takes the first command. -/
def execute (s : Output τ) (id : τ) : Option (Output τ) :=
  match s.senders id, s.queued with
  | .waiting, p :: queued => some { s with
    broker := { s.broker with commands := queued.map QueuedCommand.command }
    senders := Function.update s.senders id (.writing p 0)
    queued
    queued_eq := rfl }
  | _, _ => none

/-- A round of `WriteData`. A write to a closed descriptor fails, another one takes
    at most what it is given. -/
def write (s : Output τ) (id : τ) (res : Int) : Option (Output τ) :=
  match s.senders id with
  | .waiting => none
  | .writing p sent_bytes =>
    let data := p.command.cmd
    let waiting := { s with senders := Function.update s.senders id .waiting }
    if sent_bytes < data.length then
      if res ≤ 0 then some waiting
      else match s.sockets p.command.fd with
        | none => none
        | some connection =>
          if sent_bytes + res.toNat ≤ data.length then some { s with
            senders := Function.update s.senders id (.writing p (sent_bytes + res.toNat))
            writes := s.writes ++ [⟨p, connection, (data.drop sent_bytes).take res.toNat⟩] }
          else none
    else some waiting

/-- One step, when the event is possible. -/
def step (s : Output τ) : OutputEvent τ → Option (Output τ)
  | .addCommand fd cmd => some (s.addCommand fd cmd)
  | .close fd => s.close fd
  | .delClient => s.delClient
  | .accept newsock_fd ip => s.accept newsock_fd ip
  | .addClient now => s.addClient now
  | .closeRefused => s.closeRefused
  | .openControl data_socket => s.openControl data_socket
  | .closeControl data_socket => s.closeControl data_socket
  | .execute id => s.execute id
  | .write id res => s.write id res

end Output

end Mqtt.Native
