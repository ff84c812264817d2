import MqttBroker.Native.Client
import MqttBroker.Native.Packet

/-!
# The broker

`Broker` and its operations on clients, subscribers, postponed events and the
command queue. Client objects live in a heap and are shared by reference, as
through `std::shared_ptr`; the map `clients` may hold a null pointer, which
`operator[]` leaves there for a missing key. `calls` records what the broker was
asked and what it sent, for the specification only: no function reads it.
-/

namespace Mqtt.Native

/-- `broker_states`. -/
inductive BrokerState where
  | init | started | wait_state
deriving DecidableEq, Repr

/-- A pointer to a `Client`. -/
abbrev ClientRef := Nat

/-- `mqtt_packet`; `data_len` is the length of the data. -/
structure PostponedPacket where
  pData : Bytes
  packet_id : UInt16
deriving DecidableEq

/-- `FdWriteCommand`. -/
structure FdWriteCommand where
  fd : Fd
  cmd : Bytes
deriving DecidableEq

/-- What is recorded in `calls`. -/
inductive Call where
  /-- `NotifyClients(topic)`; from a PUBREL handler with the client id and packet
      id it was called for. -/
  | notifyClients (released : Option (Bytes × UInt16)) (topic : MqttTopic)
  /-- A PUBLISH packet was handed out for a client. -/
  | publish (fd : Fd) (client : ClientRef) (qos : UInt8) (packet_id : UInt16) (packet : Bytes)
  /-- A QoS 2 PUBLISH of a client was handled. -/
  | received (client_id : Bytes) (topic : MqttTopic)
  /-- A PUBREL of a client was handled. -/
  | pubrel (client_id : Bytes) (packet_id : UInt16)
  /-- A PUBACK or a PUBREC of a client was handled. -/
  | acknowledged (client : ClientRef) (type : PackType) (packet_id : UInt16)
  /-- A packet was written past the command queue. -/
  | wrote (fd : Fd) (packet : Bytes)
deriving DecidableEq

/-- `Broker`, with the `Commands` and `CTopicStorage` it derives from. -/
structure Broker where
  heap : ClientRef → Client := fun _ => default
  next_ref : ClientRef := 0
  clients : UnorderedMap Fd (Option ClientRef) := ∅
  subscribed_clients : UnorderedMap Fd ClientRef := ∅
  current_clients : UInt32 := 0
  state : BrokerState := .init
  control_sock : Fd := -1
  postponed_events : UnorderedMap Bytes (List PostponedPacket) := ∅
  storage : TopicStorage := ⟨OrderedSet.empty, ∅⟩
  commands : List FdWriteCommand := []
  calls : List Call := []

namespace Broker

/-- An assignment to a member of a client object. -/
def setClient (b : Broker) (ref : ClientRef) (c : Client) : Broker :=
  { b with heap := Function.update b.heap ref c }

/-- The client that was set is the one in the heap. -/
@[simp] theorem heap_setClient_self (b : Broker) (ref : ClientRef) (c : Client) :
    (b.setClient ref c).heap ref = c := Function.update_self ..

/-- `setClient` leaves the other clients alone. -/
theorem heap_setClient_ne {b : Broker} {ref ref' : ClientRef} {c : Client} (h : ref' ≠ ref) :
    (b.setClient ref c).heap ref' = b.heap ref' := Function.update_of_ne h ..

/-- Note a call of another object, for the record of what the broker does. -/
def record (b : Broker) (call : Call) : Broker := { b with calls := b.calls ++ [call] }

/-- `SetState`. -/
def setState (b : Broker) (state : BrokerState) : Broker := { b with state }

/-- `AddCommand`. -/
def addCommand (b : Broker) (fd : Fd) (cmd : Bytes) : Broker :=
  { b with commands := b.commands ++ [⟨fd, cmd⟩] }

/-! ## Clients -/

/-- `AddClient(sock, _ip)` at time `now`: whether the socket was new. The control
    command it sends in `wait_state` is a step of the server thread. -/
def addClient (b : Broker) (sock : Fd) (ip : Bytes) (now : Time) : Broker × Bool :=
  let new_client := b.next_ref
  let b := { b with current_clients := b.current_clients + 1, next_ref := b.next_ref + 1 }
  let b := b.setClient new_client { ip, time_last_packet := now }
  ({ b with clients := b.clients.insertNew sock (some new_client) },
    (b.clients.lookup sock).isNone)

/-- `DelClient`. -/
def delClient (b : Broker) (sock : Fd) : Broker :=
  { b with
    current_clients := b.current_clients - 1
    clients := b.clients.erase sock
    subscribed_clients := b.subscribed_clients.erase sock }

/-- `CloseConnection`; `close(fd)` is left to the environment. -/
def closeConnection (b : Broker) (fd : Fd) : Broker := b.delClient fd

/-- `clients[fd]`: a missing key is bound to null. -/
def clientAt (b : Broker) (fd : Fd) : Broker × Option ClientRef :=
  ({ b with clients := b.clients.insertNew fd none }, (b.clients.lookup fd).join)

/-- `clients[fd]` of a connected client. -/
theorem clientAt_eq {b : Broker} {fd : Fd} {pClient : ClientRef}
    (h : b.clients.lookup fd = some (some pClient)) : b.clientAt fd = (b, some pClient) := by
  have hmem : fd ∈ b.clients := AList.lookup_isSome.mp (by rw [h]; rfl)
  simp only [clientAt, UnorderedMap.insertNew, if_pos hmem, h]
  rfl

/-- `pClient->`. -/
def deref (pClient : Option ClientRef) : Exec ClientRef :=
  match pClient with
  | some ref => .ok ref
  | none => .error .nullClient

/-- `clients[fd]->`. -/
def derefAt (b : Broker) (fd : Fd) : Exec (Broker × ClientRef) := do
  let (b, pClient) := b.clientAt fd
  let ref ← deref pClient
  return (b, ref)

/-- `GetClientCount`. -/
def getClientCount (b : Broker) : Nat := b.clients.toList.length

/-- The loop of `GetClientFd`. -/
def findClientFd (b : Broker) (client_id : Bytes) : List (Fd × Option ClientRef) → Exec Fd
  | [] => .ok (-1)
  | it :: rest => do
    let ref ← deref it.2
    if (b.heap ref).client_id = client_id then return it.1
    b.findClientFd client_id rest

/-- `GetClientFd`. -/
def getClientFd (b : Broker) (client_id : Bytes) : Exec Fd :=
  b.findClientFd client_id b.clients.toList

/-- `AddSubscribedClient`. -/
def addSubscribedClient (b : Broker) (sock : Fd) (pClient : ClientRef) : Broker :=
  { b with subscribed_clients := b.subscribed_clients.insertNew sock pClient }

/-- `lock()` of a weak pointer succeeds as long as `clients` owns the object. -/
def alive (b : Broker) (ref : ClientRef) : Bool := b.clients.toList.any fun it => it.2 = some ref

/-! ## Postponed events -/

/-- `AddQosEvent`. -/
def addQosEvent (b : Broker) (client_id : Bytes) (mqtt_message : PostponedPacket) : Broker :=
  let group := (b.postponed_events.lookup client_id).getD []
  { b with postponed_events := b.postponed_events.insert client_id (group ++ [mqtt_message]) }

/-- `DelQosEvent`. -/
def delQosEvent (b : Broker) (client_id : Bytes) (packet_id : UInt16) : Broker :=
  match b.postponed_events.lookup client_id with
  | some group =>
    let group := group.filter fun packet => packet.packet_id ≠ packet_id
    { b with postponed_events := b.postponed_events.replace client_id group }
  | none => b

/-- `CheckIfMoreMessages`. -/
def checkIfMoreMessages (b : Broker) (client_id : Bytes) : Bool :=
  match b.postponed_events.lookup client_id with
  | some group => !group.isEmpty
  | none => false

/-- `GetPacket`; `front()` of an empty list is undefined. -/
def getPacket (b : Broker) (client_id : Bytes) : Exec (Option Bytes) :=
  match b.postponed_events.lookup client_id with
  | some (packet :: _) => .ok (some packet.pData)
  | some [] => .error .outOfBounds
  | none => .ok none

/-- `CheckIfMoreMessages`, `GetPacket` and `AddCommand`, as three handlers do. -/
def sendKeptMessage (b : Broker) (fd : Fd) (client_id : Bytes) : Exec Broker := do
  if b.checkIfMoreMessages client_id then
    match ← b.getPacket client_id with
    | some data => return b.addCommand fd data
    | none => return b
  else return b

/-! ## Notification -/

/-- The PUBLISH packet for a topic: `CreateMqttPacket` with the `FHBuilder` and the
    `PublishVH` of the notifying functions. -/
def createPublish (topic : MqttTopic) (dup : Bool) : Exec Bytes :=
  let answer_vh : PublishVH := ⟨topic.name, topic.id, OrderedSet.empty⟩
  let builder := (FHBuilder.packetType {} .PUBLISH).withQoS topic.qos
  let builder := if dup then builder.withDup else builder
  createMqttPacketMessage builder.build answer_vh topic.data

/-- The second half of `NotifyClients` and `NotifyClient`: a topic with its QoS and
    packet id is sent or postponed. -/
def sendTopic (b : Broker) (fd : Fd) (pClient : ClientRef) (topic : MqttTopic) : Exec Broker := do
  let handOut (data : Bytes) : Call :=
    .publish fd pClient ((FixedHeader.mk (data.headD 0) 0).qoS) topic.id data
  let client_id := (b.heap pClient).client_id
  if topic.qos > 0 then
    if !b.checkIfMoreMessages client_id then
      let data ← createPublish topic false
      return (b.addCommand fd data).record (handOut data)
    else
      let data ← createPublish topic true
      return (b.addQosEvent client_id ⟨data, topic.id⟩).record (handOut data)
  else
    let data ← createPublish topic false
    return (b.addCommand fd data).record (handOut data)

/-- The packet id for a topic with its QoS: none, or the client's next one. -/
def assignPacketID (b : Broker) (pClient : ClientRef) (topic : MqttTopic) : Broker × MqttTopic :=
  if topic.qos = 0 then (b, topic.setPacketID 0)
  else
    let (c, id) := (b.heap pClient).genPacketID
    (b.setClient pClient c, topic.setPacketID id)

/-- The loop body of `NotifyClients` for one subscriber. -/
def notifySubscriber (b : Broker) (topic : MqttTopic) (fd : Fd) (pClient : ClientRef) :
    Exec (Broker × MqttTopic) := do
  if !b.alive pClient then return (b, topic)
  let (found, options) ← (b.heap pClient).checkWildCards topic.name
  if found then
    let topic := topic.setQos (options &&& 0x03)
    let (b, topic) := b.assignPacketID pClient topic
    let b ← b.sendTopic fd pClient topic
    return (b, topic)
  else return (b, topic)

/-- The loop of `NotifyClients`; the topic is changed on the way. -/
def notifySubscribers (topic : MqttTopic) :
    List (Fd × ClientRef) → Broker → Exec (Broker × MqttTopic)
  | [], b => .ok (b, topic)
  | it :: rest, b => do
    let (b, topic) ← b.notifySubscriber topic it.1 it.2
    notifySubscribers topic rest b

/-- `NotifyClients(topic)`, with what `topic` is afterwards. -/
def notifyClients (b : Broker) (topic : MqttTopic) (released : Option (Bytes × UInt16)) :
    Exec (Broker × MqttTopic) :=
  notifySubscribers topic b.subscribed_clients.toList (b.record (.notifyClients released topic))

/-- `NotifyClients(pClient->will_topic)`, which changes the will topic. -/
def notifyWill (b : Broker) (pClient : ClientRef) : Exec Broker := do
  let (b, topic) ← b.notifyClients (b.heap pClient).will_topic none
  return b.setClient pClient { b.heap pClient with will_topic := topic }

/-- `NotifyClient(fd, topic)`. -/
def notifyClient (b : Broker) (fd : Fd) (topic : MqttTopic) : Exec Broker := do
  let (b, pClient) ← b.derefAt fd
  let (b, topic) := b.assignPacketID pClient topic
  b.sendTopic fd pClient topic

/-! ## Threads -/

/-- The clients by socket, with their ids, as `QoSThread` collects them. -/
def clientIds (b : Broker) :
    List (Fd × Option ClientRef) → Exec (OrderedSet (Prod.fst : Fd × Bytes → Fd))
  | [] => .ok OrderedSet.empty
  | it :: rest => do
    let ref ← deref it.2
    let ids ← b.clientIds rest
    return ids.insert (it.1, (b.heap ref).client_id)

/-- One round of `QoSThread`. -/
def qosThread (b : Broker) : Exec Broker := do
  if b.postponed_events.toList.isEmpty then return b
  let ids ← b.clientIds b.clients.toList
  return ids.toList.foldl (fun b' it =>
    match b.postponed_events.lookup it.2 with
    | some (packet :: _) => b'.addCommand it.1 packet.pData
    | _ => b') b

end Broker

end Mqtt.Native
