import MqttBroker.Native.TopicStorage

/-!
# Clients

`Client`, with the matching of a topic name against its subscriptions.
-/

namespace Mqtt.Native

/-- Seconds of `time_t`. -/
abbrev Time := Int

/-- `Client`. -/
structure Client where
  ip : Bytes
  conn_properties : MqttPropertyChain := OrderedSet.empty
  will_properties : MqttPropertyChain := OrderedSet.empty
  will_topic : MqttTopic := default
  client_id : Bytes := []
  subscribed_topics : UnorderedMap Bytes UInt8 := ∅
  user_name : Option Bytes := none
  pwd : Option MqttBinaryDataEntity := none
  flags : UInt8 := 0
  alive : UInt16 := 0
  time_last_packet : Time
  packet_id_gen : UInt16 := 1
  id_was_random_generated : Bool := false
  mqtt_version : UInt8 := 0

namespace Client

instance : Inhabited Client := ⟨{ ip := [], time_last_packet := 0 }⟩

def isUserNameFlag (c : Client) : Bool := c.flags &&& 0x80 != 0
def isPwdFlag (c : Client) : Bool := c.flags &&& 0x40 != 0
def willQoSFlag (c : Client) : UInt8 := (c.flags &&& 0x18) >>> 3
def isWillFlag (c : Client) : Bool := c.flags &&& 0x4 != 0
def isCleanFlag (c : Client) : Bool := c.flags &&& 0x2 != 0

/-- `AddSubscription`; a present name keeps its options. -/
def addSubscription (c : Client) (topic_name : Bytes) (options : UInt8) : Client :=
  { c with subscribed_topics := c.subscribed_topics.insertNew topic_name options }

/-- `DelSubscription`: whether there was one. -/
def delSubscription (c : Client) (topic_name : Bytes) : Client × Bool :=
  ({ c with subscribed_topics := c.subscribed_topics.erase topic_name },
    (c.subscribed_topics.lookup topic_name).isSome)

/-- `GenPacketID`. -/
def genPacketID (c : Client) : Client × UInt16 :=
  ({ c with packet_id_gen := c.packet_id_gen + 1 }, c.packet_id_gen)

/-- The inner loop of `checkWildCards`, from index `i` on: whether it returns a
    match. -/
def matchSubscribedTopic (tokenized_topic_name tokenized_subscribed_topic : List Bytes) :
    List Bytes → (i : Nat) → Exec Bool
  | [], _ => .ok false
  | level :: rest, i => do
    let last := i + 1 = tokenized_topic_name.length ∧ i + 1 = tokenized_subscribed_topic.length
    -- the subscription may have no token at `i`
    let subscribed ← token tokenized_subscribed_topic i
    if subscribed = singleLevel then
      if last then return true
      matchSubscribedTopic tokenized_topic_name tokenized_subscribed_topic rest (i + 1)
    else if subscribed = multiLevel then return true
    else if level ≠ subscribed then return false
    else if last then return true
    else matchSubscribedTopic tokenized_topic_name tokenized_subscribed_topic rest (i + 1)

/-- The outer loop of `checkWildCards`. -/
def checkSubscriptions (topic_name : Bytes) : List (Bytes × UInt8) → Exec (Bool × UInt8)
  | [] => .ok (false, 0)
  | it :: rest => do
    if it.1 = multiLevel then return (true, it.2)
    if topic_name = it.1 then return (true, it.2)
    if ← matchSubscribedTopic (tokenize topic_name) (tokenize it.1) (tokenize topic_name) 0 then
      return (true, it.2)
    checkSubscriptions topic_name rest

/-- `checkWildCards`. -/
def checkWildCards (c : Client) (topic_name : Bytes) : Exec (Bool × UInt8) :=
  checkSubscriptions topic_name c.subscribed_topics.toList

end Client

end Mqtt.Native
