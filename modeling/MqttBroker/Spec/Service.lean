import MqttBroker.Spec.ClearedTopics
import MqttBroker.Spec.ServerPacket

/-!
# The publish/subscribe service

What the broker is for, apart from how it is built: sessions on connections, retained
messages, and messages that are held until their PUBREL. There are no client objects, no hash
maps, no command queue and no passes of a server thread here. A step is one packet, or one
connection that comes or goes, with the packets it makes the service send.
-/

namespace Mqtt.Spec

open Mqtt.Native Mqtt.Native.Broker

/-- A packet of a client, as it is understood. -/
inductive ClientPacket where
  /-- A CONNECT that is accepted; without an id the service makes one up. -/
  | connect (id : Option Bytes) (clean : Bool) (alive : UInt16) (will : Option Message)
  /-- A CONNECT that is refused. -/
  | badConnect
  | publish (qos : UInt8) (retain : Bool) (packet_id : UInt16) (message : Message)
  | puback (packet_id : UInt16)
  | pubrec (packet_id : UInt16)
  | pubrel (packet_id : UInt16)
  | pubcomp (packet_id : UInt16)
  | subscribe (packet_id : UInt16) (records : List (Bytes × UInt8))
  | unsubscribe (packet_id : UInt16) (filters : List Bytes)
  | pingreq
  | disconnect
  /-- A packet that no client sends. -/
  | other

namespace Service

/-! ## Sessions -/

/-- The client on a connection. -/
structure Session where
  client_id : Bytes := []
  /-- The id was made up by the service. -/
  generated : Bool := false
  /-- The options by filter. -/
  filters : Bytes → Option UInt8 := fun _ => none
  /-- A SUBSCRIBE was handled. -/
  subscribed : Bool := false
  will : Option Message := none
  alive : UInt16 := 0
  /-- When the last packet was read. -/
  last : Time
  /-- The next packet id. -/
  next_id : UInt16 := 1

namespace Session

/-- The packet id of a PUBLISH: none with QoS 0. -/
def packetId (σ : Session) (options : UInt8) : UInt16 := if options = 0 then 0 else σ.next_id

/-- A PUBLISH uses up its packet id. -/
def number (σ : Session) (options : UInt8) : Session :=
  if options = 0 then σ else { σ with next_id := σ.next_id + 1 }

/-- A PUBLISH for the session. -/
def publish (σ : Session) (options : UInt8) (m : Message) : ServerPacket :=
  .publish options (σ.packetId options) m.1 m.2

/-- There is a packet id exactly with QoS 1 and 2. -/
def Numbered (σ : Session) (options : UInt8) : Prop :=
  options &&& 3 = 0 ↔ σ.packetId options = 0

/-- A topic with a message comes to a session: it gets one PUBLISH if a filter takes the name,
    and nothing if none does. Where filters overlap, one of them decides. -/
inductive Gets (name : Bytes) (data : Option MqttBinaryDataEntity) (σ : Session) :
    Session → List ServerPacket → Prop
  | nothing : (σ.subscribed → ∀ f, (σ.filters f).isSome → ¬ Selects f name) → Gets name data σ σ []
  | publish {f : Bytes} {options : UInt8} {message : MqttBinaryDataEntity} : σ.subscribed →
      σ.filters f = some options → Selects f name → data = some message →
      σ.Numbered (options &&& 3) → Gets name data σ (σ.number (options &&& 3))
        [σ.publish (options &&& 3) (name, message)]

/-- Retained messages are sent, one after the other. -/
inductive Sends (options : UInt8) : Session → List Message → Session → List ServerPacket → Prop
  | nil {σ : Session} : Sends options σ [] σ []
  | cons {σ σ' : Session} {m : Message} {ms : List Message} {ps : List ServerPacket} :
      σ.Numbered options → Sends options (σ.number options) ms σ' ps →
      Sends options σ (m :: ms) σ' (σ.publish options m :: ps)

/-- The messages of `retained` that a filter takes, in the order of their names. -/
def Takes (retained : Bytes → Option MqttBinaryDataEntity) (filter : Bytes) (ms : List Message) :
    Prop :=
  (ms.Pairwise fun m m' => m.1 < m'.1) ∧
    ∀ m, m ∈ ms ↔ retained m.1 = some m.2 ∧ TakesName filter m.1

/-- Each new subscription gets the retained messages that its filter takes. -/
inductive SendsRetained (retained : Bytes → Option MqttBinaryDataEntity) :
    Session → List (Bytes × UInt8) → Session → List ServerPacket → Prop
  | nil {σ : Session} : SendsRetained retained σ [] σ []
  | cons {σ σ₁ σ₂ : Session} {record : Bytes × UInt8} {records : List (Bytes × UInt8)}
      {ms : List Message} {ps ps' : List ServerPacket} : Takes retained record.1 ms →
      Sends record.2 σ ms σ₁ ps → SendsRetained retained σ₁ records σ₂ ps' →
      SendsRetained retained σ (record :: records) σ₂ (ps ++ ps')

/-- The filters with new ones; what is there stays. -/
def filtersWith (table : Bytes → Option UInt8) (records : List (Bytes × UInt8)) (f : Bytes) :
    Option UInt8 :=
  (table f).or ((records.find? fun record => record.1 = f).map Prod.snd)

/-- Filters are taken out. -/
def filtersWithout (table : Bytes → Option UInt8) (filters : List Bytes) (f : Bytes) :
    Option UInt8 :=
  if f ∈ filters then none else table f

/-- The filters of the records, with the options that come first. -/
def subscribe (σ : Session) (records : List (Bytes × UInt8)) : Session :=
  { σ with filters := filtersWith σ.filters records }

/-- The filters, less those of the packet. -/
def unsubscribe (σ : Session) (filters : List Bytes) : Session :=
  { σ with filters := filtersWithout σ.filters filters }

/-- The answers to filters that are taken out in turn. -/
def unsubscribeCodes (table : Bytes → Option UInt8) : List Bytes → List UInt8
  | [] => []
  | f :: rest =>
    (if (table f).isSome then ReasonCode.success.code
      else ReasonCode.noSubscriptionExisted.code) ::
        unsubscribeCodes (Function.update table f none) rest

/-- A CONNACK that accepts. -/
def connack (σ : Session) (clean : Bool) : ServerPacket :=
  .connack (if clean then 0 else 1) ReasonCode.success.code (connackProperties
    { ip := [], time_last_packet := 0, client_id := σ.client_id,
      id_was_random_generated := σ.generated })

/-- A refused CONNECT may leave behind its will and its keep-alive. -/
def LeftBy (σ σ' : Session) : Prop := σ' = { σ with will := σ'.will, alive := σ'.alive }

end Session

end Service

/-! ## The service -/

/-- The state of the service. -/
structure Service where
  sessions : Fd → Option Service.Session := fun _ => none
  /-- The retained messages by topic name. -/
  retained : Bytes → Option MqttBinaryDataEntity := fun _ => none
  /-- The QoS 2 messages that wait for their PUBREL, by client id. -/
  held : Bytes → List MqttTopic := fun _ => []
  /-- The connections that are to be closed. -/
  ending : List Fd := []

namespace Service

/-- A change of one session. -/
def edit (S : Service) (fd : Fd) (f : Session → Session) : Service :=
  { S with sessions := Function.update S.sessions fd ((S.sessions fd).map f) }

/-- A session goes. -/
def drop (S : Service) (fd : Fd) : Service :=
  { S with sessions := Function.update S.sessions fd none }

/-- A packet of the connection is read. -/
def touch (S : Service) (fd : Fd) (now : Time) : Service :=
  S.edit fd fun σ => { σ with last := now }

/-- The connection is to be closed behind the pass. -/
def finish (S : Service) (fd : Fd) : Service := { S with ending := S.ending ++ [fd] }

/-- A message is retained, whatever it is. -/
def retain (S : Service) (retain : Bool) (m : Message) : Service :=
  if retain then { S with retained := Function.update S.retained m.1 (some m.2) } else S

/-- A message waits for its PUBREL, in front of others with its id. -/
def hold (S : Service) (client_id : Bytes) (topic : MqttTopic) : Service :=
  { S with held := Function.update S.held client_id (topic :: S.held client_id) }

/-- The message that a PUBREL is for. -/
def heldFor (S : Service) (client_id : Bytes) (packet_id : UInt16) : Option MqttTopic :=
  (S.held client_id).find? fun topic => topic.id = packet_id

/-- The first held message with this packet id goes. -/
def release (S : Service) (client_id : Bytes) (packet_id : UInt16) : Service :=
  { S with
    held := Function.update S.held client_id
      ((S.held client_id).eraseP fun topic => topic.id = packet_id) }

/-- A topic with a message comes to all sessions at once; in which order the packets go out is
    left open. -/
structure Notifies (S : Service) (name : Bytes) (data : Option MqttBinaryDataEntity)
    (out : List Outgoing) (S' : Service) : Prop where
  others : S' = { S with sessions := S'.sessions }
  absent : ∀ fd, S.sessions fd = none → S'.sessions fd = none ∧ outTo fd out = []
  present : ∀ fd σ, S.sessions fd = some σ →
    ∃ σ', S'.sessions fd = some σ' ∧ σ.Gets name data σ' (outTo fd out)

/-- The will of a session that ends without DISCONNECT is sent, if it has one. -/
inductive SendsWill (S : Service) : Option Message → List Outgoing → Service → Prop
  | nothing : SendsWill S none [] S
  | sent {m : Message} {out : List Outgoing} {S' : Service} : S.Notifies m.1 (some m.2) out S' →
      SendsWill S (some m) out S'

/-- The session `σ` of `fd` is given an id and becomes `σ'`. Another session with the id has to
    go, and so has the session itself if it is its own. -/
inductive TakesId (S : Service) (fd : Fd) (σ : Session) (clean : Bool) :
    Option Bytes → Session → Service → Prop
  | unused {id : Bytes} : (∀ fd' σ', S.sessions fd' = some σ' → σ'.client_id ≠ id) →
      TakesId S fd σ clean (some id) { σ with client_id := id }
        (S.edit fd fun σ => { σ with client_id := id })
  | takenOver {id : Bytes} {fd' : Fd} {σ' : Session} : S.sessions fd' = some σ' →
      σ'.client_id = id → clean →
      TakesId S fd σ clean (some id) { σ with client_id := id }
        ((S.edit fd fun σ => { σ with client_id := id }).drop fd')
  | generated {random : Bytes} :
      TakesId S fd σ clean none { σ with client_id := random, generated := true }
        (S.edit fd fun σ => { σ with client_id := random, generated := true })

/-- What a packet of the connection `fd` with the session `σ` makes the service do: what it
    queues, what it writes at once, whether the connection stays, and the state afterwards. -/
inductive Handles (S : Service) (fd : Fd) (σ : Session) :
    ClientPacket → List Outgoing → List Outgoing → Bool → Service → Prop
  /-- The session that is left, which may be none, has the will and the keep-alive. -/
  | connect {id : Option Bytes} {clean : Bool} {alive : UInt16} {will : Option Message}
      {σ' : Session} {S' : Service} : S.TakesId fd σ clean id σ' S' →
      Handles S fd σ (.connect id clean alive will) [(fd, σ'.connack clean)] [] true
        (S'.edit fd fun σ => { σ with will, alive })
  /-- The id may have been taken before the rest is refused. -/
  | badConnect {S' : Service} {f : Session → Session} {written : List Outgoing} :
      S' = S ∨ (∃ clean id σ', S.TakesId fd σ clean id σ' S') → (∀ σ : Session, σ.LeftBy (f σ)) →
      (written = [] ∨ ∃ reason_code, written = [(fd, .connack 0 reason_code OrderedSet.empty)]) →
      Handles S fd σ .badConnect [] written false (S'.edit fd f)
  | publish {qos : UInt8} {retain : Bool} {packet_id : UInt16} {m : Message}
      {out : List Outgoing} {S' : Service} : qos ≠ 2 →
      (S.retain retain m).Notifies m.1 (some m.2) out S' →
      Handles S fd σ (.publish qos retain packet_id m)
        ((if qos = 1 then [(fd, .puback packet_id)] else []) ++ out) [] true S'
  | hold {retain : Bool} {packet_id : UInt16} {m : Message} :
      Handles S fd σ (.publish 2 retain packet_id m) [(fd, .pubrec packet_id)] [] true
        ((S.retain retain m).hold σ.client_id ⟨2, packet_id, m.1, some m.2⟩)
  | puback {packet_id : UInt16} : Handles S fd σ (.puback packet_id) [] [] true S
  | pubrec {packet_id : UInt16} :
      Handles S fd σ (.pubrec packet_id) [(fd, .pubrel packet_id)] [] true S
  | release {packet_id : UInt16} {topic : MqttTopic} {out : List Outgoing} {S' : Service} :
      S.heldFor σ.client_id packet_id = some topic → S.Notifies topic.name topic.data out S' →
      Handles S fd σ (.pubrel packet_id) ((fd, .pubcomp packet_id) :: out) [] true
        (S'.release σ.client_id packet_id)
  | unknown {packet_id : UInt16} : S.heldFor σ.client_id packet_id = none →
      Handles S fd σ (.pubrel packet_id) [(fd, .pubcomp packet_id)] [] true S
  | pubcomp {packet_id : UInt16} : Handles S fd σ (.pubcomp packet_id) [] [] true S
  | subscribe {packet_id : UInt16} {records : List (Bytes × UInt8)} {σ' : Session}
      {ps : List ServerPacket} : (σ.subscribe records).SendsRetained S.retained records σ' ps →
      Handles S fd σ (.subscribe packet_id records)
        ((fd, .suback packet_id (List.replicate records.length 2)) :: ps.map fun p => (fd, p)) []
        true (S.edit fd fun _ => { σ' with subscribed := true })
  | unsubscribe {packet_id : UInt16} {filters : List Bytes} :
      Handles S fd σ (.unsubscribe packet_id filters)
        [(fd, .unsuback packet_id (Session.unsubscribeCodes σ.filters filters))] [] true
        (S.edit fd fun σ => σ.unsubscribe filters)
  | pingreq : Handles S fd σ .pingreq [(fd, .pingresp)] [] true S
  | disconnect : Handles S fd σ .disconnect [] [] false S
  | other : Handles S fd σ .other [] [] false S

/-! ## Steps -/

/-- What happens to the service. -/
inductive Action where
  | accept (fd : Fd) (now : Time)
  | packet (fd : Fd) (now : Time) (p : ClientPacket)
  /-- The connection breaks between two packets: there is nothing to read, or it is gone. -/
  | lost (fd : Fd) (now : Option Time)
  /-- It breaks within a packet. -/
  | short (fd : Fd) (now : Time)
  | timeout (fd : Fd) (now : Time)
  | close (fd : Fd)
  /-- The service does something of its own. -/
  | silent

/-- The label of a step: an action with the packets that are queued, and with those that are
    written past the queue. -/
structure Label where
  action : Action
  queued : List Outgoing := []
  written : List Outgoing := []

/-- The connection `fd` has the session `σ`, and is not to be closed. -/
def Open (S : Service) (fd : Fd) (σ : Session) : Prop :=
  S.sessions fd = some σ ∧ fd ∉ S.ending

/-- What the service does under a label. -/
inductive Step (S : Service) : Label → Service → Prop
  | accept {fd : Fd} {now : Time} : S.sessions fd = none →
      Step S ⟨.accept fd now, [], []⟩
        { S with sessions := Function.update S.sessions fd (some { last := now }) }
  | packet {fd : Fd} {σ : Session} {now : Time} {p : ClientPacket} {queued written : List Outgoing}
      {S' : Service} : S.Open fd σ →
      (S.touch fd now).Handles fd { σ with last := now } p queued written true S' →
      Step S ⟨.packet fd now p, queued, written⟩ S'
  | lastPacket {fd : Fd} {σ : Session} {now : Time} {p : ClientPacket}
      {queued written : List Outgoing} {S' : Service} : S.Open fd σ →
      (S.touch fd now).Handles fd { σ with last := now } p queued written false S' →
      Step S ⟨.packet fd now p, queued, written⟩ (S'.finish fd)
  | lost {fd : Fd} {σ : Session} {now : Option Time} {out : List Outgoing} {S₁ S' : Service} :
      S.Open fd σ → S₁ = now.elim S (S.touch fd) → S₁.SendsWill σ.will out S' →
      Step S ⟨.lost fd now, out, []⟩ (S'.finish fd)
  | short {fd : Fd} {σ : Session} {now : Time} : S.Open fd σ →
      Step S ⟨.short fd now, [], []⟩ ((S.touch fd now).finish fd)
  | timeout {fd : Fd} {σ : Session} {now : Time} {out : List Outgoing} {S' : Service} :
      S.Open fd σ → now - σ.last ≥ σ.alive.toNat + 5 → S.SendsWill σ.will out S' →
      Step S ⟨.timeout fd now, (fd, .disconnect ReasonCode.keepAliveTimeout.code) :: out, []⟩
        (S'.finish fd)
  | close {fd : Fd} {rest : List Fd} {σ : Session} : S.ending = fd :: rest →
      S.sessions fd = some σ → Step S ⟨.close fd, [], []⟩ { S.drop fd with ending := rest }
  | silent : Step S ⟨.silent, [], []⟩ S

/-- The service from its start on. -/
def machine : LTS Service Label where
  Init S := S = {}
  Step := Step

end Service

end Mqtt.Spec
