import MqttBroker.Native.ServerThread

/-!
# What the handlers are made of

Every handler but that of CONNECT is a row of elementary operations on the broker:
a command is queued, a packet id counted up, a subscription entered. `Does A` says
that a broker is the outcome of operations from a set `A`. What a handler leaves
alone is read off the set of its operations, one operation at a time.
-/

namespace Mqtt.Spec

open Mqtt.Native Mqtt.Native.Broker

/-- An elementary operation on the broker. -/
inductive Op where
  | addCommand (fd : Fd) (cmd : Bytes)
  | record (call : Call)
  /-- The packet-id counter of a client is counted up. -/
  | genPacketID (ref : ClientRef)
  | addQosEvent (client_id : Bytes) (packet : PostponedPacket)
  | delQosEvent (client_id : Bytes) (packet_id : UInt16)
  | setSubscriptions (ref : ClientRef) (topics : UnorderedMap Bytes UInt8)
  | addSubscribedClient (sock : Fd) (ref : ClientRef)
  | storeTopicValue (qos : UInt8) (id : UInt16) (topic_name : Bytes)
      (data : Option MqttBinaryDataEntity)
  | addQoSTopic (client_id : Bytes) (topic : MqttTopic)
  | delQoSTopic (client_id : Bytes) (packet_id : UInt16)
  | setWillTopic (ref : ClientRef) (topic : MqttTopic)
  | setLastTime (ref : ClientRef) (time : Time)

namespace Op

/-- The broker after an operation. -/
def apply (b : Broker) : Op → Broker
  | addCommand fd cmd => b.addCommand fd cmd
  | record call => b.record call
  | genPacketID ref => b.setClient ref (b.heap ref).genPacketID.1
  | addQosEvent client_id packet => b.addQosEvent client_id packet
  | delQosEvent client_id packet_id => b.delQosEvent client_id packet_id
  | setSubscriptions ref topics => b.setClient ref { b.heap ref with subscribed_topics := topics }
  | addSubscribedClient sock ref => b.addSubscribedClient sock ref
  | storeTopicValue qos id topic_name data =>
    { b with storage := b.storage.storeTopicValue qos id topic_name data }
  | addQoSTopic client_id topic => { b with storage := b.storage.addQoSTopic client_id topic }
  | delQoSTopic client_id packet_id =>
    { b with storage := b.storage.delQoSTopic client_id packet_id }
  | setWillTopic ref topic => b.setClient ref { b.heap ref with will_topic := topic }
  | setLastTime ref time => b.setClient ref { b.heap ref with time_last_packet := time }

/-- Packets are postponed only behind others. -/
def Enabled (b : Broker) : Op → Prop
  | addQosEvent client_id _ => b.checkIfMoreMessages client_id = true
  | _ => True

end Op

/-- The broker `b'` comes out of `b` by operations from the set `A`. -/
inductive Does (A : Op → Prop) (b : Broker) : Broker → Prop
  | refl : Does A b b
  | snoc {b' : Broker} (op : Op) : Does A b b' → A op → op.Enabled b' → Does A b (op.apply b')

namespace Does

variable {A B : Op → Prop} {b b' b'' : Broker}

theorem trans (h : Does A b b') (h' : Does A b' b'') : Does A b b'' := by
  induction h' with
  | refl => exact h
  | snoc op _ hop hen ih => exact ih.snoc op hop hen

theorem mono (h : Does A b b') (hA : ∀ op, A op → B op) : Does B b b' := by
  induction h with
  | refl => exact .refl
  | snoc op _ hop hen ih => exact ih.snoc op (hA op hop) hen

/-- One operation. -/
theorem one (op : Op) (hop : A op) (hen : op.Enabled b) : Does A b (op.apply b) :=
  .snoc op .refl hop hen

/-- `AddCommand` is one operation. -/
theorem addCommand (fd : Fd) (cmd : Bytes) (h : A (.addCommand fd cmd)) :
    Does A b (b.addCommand fd cmd) := .one _ h trivial

/-- A call that is noted is one operation. -/
theorem record (call : Call) (h : A (.record call)) : Does A b (b.record call) := .one _ h trivial

/-- Steps one after the other, for the elements of a list. -/
theorem foldl {ι : Type*} {f : Broker → ι → Broker} (hf : ∀ b i, Does A b (f b i)) (is : List ι) :
    Does A b (is.foldl f b) := by
  induction is generalizing b with
  | nil => exact .refl
  | cons i is ih => exact (hf b i).trans ih

/-- A preorder that holds across each operation holds across all of them. -/
theorem rel {R : Broker → Broker → Prop} (hrefl : ∀ b, R b b)
    (htrans : ∀ {b b' b''}, R b b' → R b' b'' → R b b'')
    (hop : ∀ b op, A op → op.Enabled b → R b (op.apply b)) (h : Does A b b') : R b b' := by
  induction h with
  | refl => exact hrefl b
  | snoc op _ ha hen ih => exact htrans ih (hop _ op ha hen)

/-- What no operation changes stays as it is. -/
theorem eq_of_forall {α : Sort*} {f : Broker → α}
    (hop : ∀ b op, A op → op.Enabled b → f (op.apply b) = f b) (h : Does A b b') : f b' = f b :=
  h.rel (R := fun b b' => f b' = f b) (fun _ => rfl) (fun h h' => h'.trans h) hop

end Does

/-! ## What no operation changes -/

/-- The part of the broker that is about its connections. -/
def connections (b : Broker) :
    UnorderedMap Fd (Option ClientRef) × ClientRef × UInt32 × BrokerState × Fd :=
  (b.clients, b.next_ref, b.current_clients, b.state, b.control_sock)

/-- The members of a client that only CONNECT sets. -/
def connectData (c : Client) : Client :=
  { c with
    will_topic := default
    subscribed_topics := ∅
    time_last_packet := 0
    packet_id_gen := 0 }

/-- `delQosEvent` changes nothing but `postponed_events`. -/
theorem delQosEvent_eq (b : Broker) (client_id : Bytes) (packet_id : UInt16) :
    ∃ postponed_events, b.delQosEvent client_id packet_id = { b with postponed_events } := by
  unfold delQosEvent
  split
  · exact ⟨_, rfl⟩
  · exact ⟨b.postponed_events, rfl⟩

/-- What `setClient` leaves alone of its client it leaves alone of all clients. -/
theorem heap_setClient_congr {α : Type*} {f : Client → α} {b : Broker} {ref : ClientRef}
    {c : Client} (h : f c = f (b.heap ref)) (ref' : ClientRef) :
    f ((b.setClient ref c).heap ref') = f (b.heap ref') := by
  by_cases href : ref' = ref
  · rw [href, heap_setClient_self, h]
  · rw [heap_setClient_ne href]

namespace Does

variable {A : Op → Prop} {b b' : Broker}

/-- No operation changes who is connected, the state or the control socket. -/
theorem connections_eq (h : Does A b b') : connections b' = connections b := by
  refine h.eq_of_forall fun b op _ _ => ?_
  cases op with
  | delQosEvent client_id packet_id =>
    obtain ⟨_, heq⟩ := delQosEvent_eq b client_id packet_id
    rw [Op.apply, heq]
    rfl
  | _ => rfl

/-- No operation changes `clients`. -/
theorem clients_eq (h : Does A b b') : b'.clients = b.clients := congrArg (·.1) h.connections_eq

/-- No operation makes a client. -/
theorem next_ref_eq (h : Does A b b') : b'.next_ref = b.next_ref :=
  congrArg (·.2.1) h.connections_eq

/-- No operation changes the state. -/
theorem state_eq (h : Does A b b') : b'.state = b.state := congrArg (·.2.2.2.1) h.connections_eq

/-- No operation changes the control socket. -/
theorem control_sock_eq (h : Does A b b') : b'.control_sock = b.control_sock :=
  congrArg (·.2.2.2.2) h.connections_eq

/-- No operation changes what a CONNECT has written to a client. -/
theorem connectData_eq (h : Does A b b') (ref : ClientRef) :
    connectData (b'.heap ref) = connectData (b.heap ref) := by
  refine h.eq_of_forall (f := fun b => connectData (b.heap ref)) fun b op _ _ => ?_
  cases op with
  | genPacketID | setSubscriptions | setWillTopic | setLastTime =>
    apply heap_setClient_congr (f := connectData)
    rfl
  | delQosEvent client_id packet_id =>
    obtain ⟨_, heq⟩ := delQosEvent_eq b client_id packet_id
    rw [Op.apply, heq]
  | _ => rfl

/-- No operation changes the id of a client. -/
theorem client_id_eq (h : Does A b b') (ref : ClientRef) :
    (b'.heap ref).client_id = (b.heap ref).client_id := by
  have hdata := congrArg Client.client_id (h.connectData_eq ref)
  exact hdata

/-- No operation changes the flags of a client. -/
theorem flags_eq (h : Does A b b') (ref : ClientRef) :
    (b'.heap ref).flags = (b.heap ref).flags := by
  have hdata := congrArg Client.flags (h.connectData_eq ref)
  exact hdata

end Does

/-! ## What an operation changes -/

/-- A PUBLISH that is handed out. -/
def isPublish : Call → Bool
  | .publish _ _ _ _ _ => true
  | _ => false

/-- The PUBLISH packets handed out so far. -/
def handedOut (b : Broker) : List Call := b.calls.filter isPublish

/-- A part of the broker that packets of clients change. -/
inductive Part where
  | topics
  | qos_2_topics
  | subscribed_clients
  | subscribed_topics (ref : ClientRef)
  | handedOut

/-- A part is the same in two brokers. -/
def Part.Same (b b' : Broker) : Part → Prop
  | topics => b'.storage.topics = b.storage.topics
  | qos_2_topics => b'.storage.qos_2_topics = b.storage.qos_2_topics
  | subscribed_clients => b'.subscribed_clients = b.subscribed_clients
  | subscribed_topics ref => (b'.heap ref).subscribed_topics = (b.heap ref).subscribed_topics
  | handedOut => Spec.handedOut b' = Spec.handedOut b

/-- The part an operation changes. -/
def Op.Writes : Op → Part → Prop
  | storeTopicValue _ _ _ _, part => part = .topics
  | addQoSTopic _ _, part | delQoSTopic _ _, part => part = .qos_2_topics
  | addSubscribedClient _ _, part => part = .subscribed_clients
  | setSubscriptions ref _, part => part = .subscribed_topics ref
  | record call, part => isPublish call ∧ part = .handedOut
  | _, _ => False

theorem Part.Same.refl (b : Broker) (part : Part) : part.Same b b := by
  cases part <;> rfl

theorem Part.Same.trans {b b' b'' : Broker} {part : Part} (h : part.Same b b')
    (h' : part.Same b' b'') : part.Same b b'' := by
  cases part <;> exact Eq.trans h' h

/-- An operation leaves alone what it does not change. -/
theorem Op.same {b : Broker} {op : Op} {part : Part} (h : ¬ op.Writes part) :
    part.Same b (op.apply b) := by
  -- one case for each operation, with those parts apart that it writes
  cases op with
  | addCommand | addQosEvent => exact .refl b part
  | record call =>
    cases part with
    | handedOut =>
      have hcall : isPublish call = false := by simpa [Writes] using h
      simp [Part.Same, Spec.handedOut, apply, Broker.record, hcall]
    | _ => rfl
  | genPacketID | setWillTopic | setLastTime =>
    cases part with
    | subscribed_topics ref =>
      apply heap_setClient_congr (f := Client.subscribed_topics)
      rfl
    | _ => rfl
  -- only the subscriptions of the one client are written
  | setSubscriptions ref topics =>
    cases part with
    | subscribed_topics ref' =>
      have href : ref' ≠ ref := by simpa [Writes] using h
      exact congrArg Client.subscribed_topics (heap_setClient_ne href)
    | _ => rfl
  | delQosEvent client_id packet_id =>
    obtain ⟨_, heq⟩ := delQosEvent_eq b client_id packet_id
    rw [apply, heq]
    cases part <;> rfl
  -- `insert` of an entry writes to its own map alone
  | addSubscribedClient sock ref =>
    cases part with
    | subscribed_clients => exact absurd rfl h
    | _ => rfl
  | storeTopicValue =>
    cases part with
    | topics => exact absurd rfl h
    | _ => rfl
  | addQoSTopic =>
    cases part with
    | qos_2_topics => exact absurd rfl h
    | _ => rfl
  | delQoSTopic client_id packet_id =>
    cases part with
    | qos_2_topics => exact absurd rfl h
    | topics =>
      simp only [Part.Same, apply, TopicStorage.delQoSTopic]
      split <;> rfl
    | _ => rfl

/-- Operations that leave a part alone. -/
theorem Does.same {A : Op → Prop} {b b' : Broker} {part : Part} (h : Does A b b')
    (hA : ∀ op, A op → ¬ op.Writes part) : part.Same b b' :=
  h.rel (R := fun b b' => part.Same b b') (fun b => .refl b part) Part.Same.trans
    fun _ op hop _ => Op.same (hA op hop)

/-! ## The operations of the handlers -/

/-- The operations by which topics are sent. -/
def Sends : Op → Prop
  | .addCommand _ _ | .genPacketID _ | .addQosEvent _ _ => True
  | .record (.publish _ _ _ _ _) => True
  | _ => False

/-- The operations of a client's will. -/
def SendsWill (pClient : ClientRef) : Op → Prop
  | .setWillTopic ref _ => ref = pClient
  | .record (.notifyClients none _) => True
  | op => Sends op

/-- The operations of PUBACK, PUBREC, PUBCOMP, PINGREQ and DISCONNECT. -/
def Answers (pClient : ClientRef) (client_id : Bytes) : Op → Prop
  | .addCommand _ _ => True
  | .delQosEvent c _ => c = client_id
  | .record (.acknowledged ref _ _) => ref = pClient
  | _ => False

/-- The operations of UNSUBSCRIBE; subscriptions are set if there is one to delete. -/
def Unsubscribes (found : Prop) (pClient : ClientRef) : Op → Prop
  | .addCommand _ _ => True
  | .setSubscriptions ref _ => ref = pClient ∧ found
  | _ => False

/-- The operations of SUBSCRIBE. -/
def Subscribes (fd : Fd) (pClient : ClientRef) : Op → Prop
  | .setSubscriptions ref _ => ref = pClient
  | .addSubscribedClient sock ref => sock = fd ∧ ref = pClient
  | op => Sends op

/-- The operations of PUBLISH: topics are stored and sent as its fixed header says. -/
def Stores (fh : FixedHeader) (client_id : Bytes) : Op → Prop
  | .addCommand _ _ | .addQosEvent _ _ => True
  | .storeTopicValue _ _ _ _ => fh.isRETAIN
  | .addQoSTopic c _ => c = client_id ∧ fh.qoS = 2
  | .genPacketID _ => fh.qoS ≠ 2
  | .record call =>
    match call with
    | .received c _ => c = client_id ∧ fh.qoS = 2
    | .notifyClients none _ | .publish _ _ _ _ _ => fh.qoS ≠ 2
    | _ => False
  | _ => False

/-- The operations of PUBREL; a topic is released if one is found. -/
def FreesTopic (found : Prop) (client_id : Bytes) : Op → Prop
  | .addCommand _ _ => True
  | .delQosEvent c _ => c = client_id
  | .delQoSTopic c _ => c = client_id ∧ found
  | .genPacketID _ | .addQosEvent _ _ => found
  | .record call =>
    match call with
    | .pubrel c _ => c = client_id
    | .notifyClients (some key) _ => key.1 = client_id ∧ found
    | .publish _ _ _ _ _ => found
    | _ => False
  | _ => False

/-- The operations of a packet that is no CONNECT, for a client and its socket. -/
inductive Serves (fh : FixedHeader) (fd : Fd) (pClient : ClientRef) (client_id : Bytes)
    (op : Op) : Prop
  | answers : Answers pClient client_id op → Serves fh fd pClient client_id op
  | unsubscribes {found : Prop} : Unsubscribes found pClient op → Serves fh fd pClient client_id op
  | subscribes : Subscribes fd pClient op → Serves fh fd pClient client_id op
  | stores : fh.getType = PackType.PUBLISH.code → Stores fh client_id op →
      Serves fh fd pClient client_id op
  | freesTopic {found : Prop} : FreesTopic found client_id op → Serves fh fd pClient client_id op

end Mqtt.Spec
