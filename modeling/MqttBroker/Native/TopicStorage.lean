import MqttBroker.ForStd.UnorderedMap
import MqttBroker.Native.PropertyChain

/-!
# Topics and the topic storage

`MqttTopic`, `tokenize` and `CTopicStorage`. The retained topics are a
`std::set` ordered by name. The QoS 2 store is an `unordered_multimap`: a group
of topics for each client id, a new topic at the front of its group.
-/

namespace Mqtt.Native

/-- `MqttTopic`; `data` is a shared pointer. -/
structure MqttTopic where
  qos : UInt8
  id : UInt16
  name : Bytes
  data : Option MqttBinaryDataEntity
deriving DecidableEq

namespace MqttTopic

instance : Inhabited MqttTopic := ⟨⟨0, 0, [], none⟩⟩

/-- `MqttTopic(_qos, _id, _name, _data)`. -/
def new (qos : UInt8) (id : UInt16) (name : Bytes) (data : Option MqttBinaryDataEntity) :
    MqttTopic :=
  ⟨if qos > 2 then 0 else qos, id, name, data⟩

/-- `SetQos`. -/
def setQos (topic : MqttTopic) (qos : UInt8) : MqttTopic := { topic with qos }

/-- `SetPacketID`. -/
def setPacketID (topic : MqttTopic) (new_id : UInt16) : MqttTopic := { topic with id := new_id }

/-- `GetValue`. -/
def getValue (topic : MqttTopic) : Exec MqttBinaryDataEntity :=
  match topic.data with
  | some data => .ok data
  | none => .error .nullData

/-- `GetPtr`. -/
def getPtr (topic : MqttTopic) : Option MqttBinaryDataEntity := topic.data

end MqttTopic

/-! ## Topic levels -/

/-- The characters of `[\s|/]`. -/
def isSeparator (c : UInt8) : Bool :=
  c == 0x20 || (0x09 ≤ c && c ≤ 0x0D) || c == 0x7C || c == 0x2F

/-- `tokenize(str, re)` with the separators `[\s|/]+`. -/
def tokenize (str : Bytes) : List Bytes := (str.splitOnP isSeparator).filter (· ≠ [])

/-- `tokenized[i]` of a vector of tokens. -/
def token (tokens : List Bytes) (i : Nat) : Exec Bytes :=
  match tokens[i]? with
  | some t => .ok t
  | none => .error .outOfBounds

/-- `"#"`, `"+"` and `"/#"`. -/
def multiLevel : Bytes := [0x23]
def singleLevel : Bytes := [0x2B]
def rootMultiLevel : Bytes := [0x2F, 0x23]

/-! ## Storage -/

/-- `CTopicStorage`. -/
structure TopicStorage where
  topics : OrderedSet MqttTopic.name
  qos_2_topics : UnorderedMap Bytes (List MqttTopic)

namespace TopicStorage

/-- `StoreTopicValue(qos, id, topic_name, data)`. -/
def storeTopicValue (s : TopicStorage) (qos : UInt8) (id : UInt16) (topic_name : Bytes)
    (data : Option MqttBinaryDataEntity) : TopicStorage :=
  let topic := MqttTopic.new qos id topic_name data
  { s with topics := (s.topics.erase topic.name).insert topic }

/-- `StoreTopicValue(topic)`. -/
def storeTopic (s : TopicStorage) (topic : MqttTopic) : TopicStorage :=
  { s with topics := (s.topics.erase topic.name).insert topic }

/-- `DeleteTopicValue`. -/
def deleteTopicValue (s : TopicStorage) (_topic : MqttTopic) : TopicStorage :=
  { s with topics := s.topics.erase _topic.name }

/-- `topics.find` of a topic that has only a name. -/
def findTopic (s : TopicStorage) (topic_name : Bytes) : Option MqttTopic :=
  let tmp_topic := MqttTopic.new 0 0 topic_name none
  s.topics.find? tmp_topic.name

/-- `GetStoredValue`, with `found`. -/
def getStoredValue (s : TopicStorage) (topic_name : Bytes) :
    Exec (MqttBinaryDataEntity × Bool) := do
  match s.findTopic topic_name with
  | some it => return (← it.getValue, true)
  | none => return (default, false)

/-- `GetStoredValuePtr`. -/
def getStoredValuePtr (s : TopicStorage) (topic_name : Bytes) : Option MqttBinaryDataEntity :=
  match s.findTopic topic_name with
  | some it => it.getPtr
  | none => none

/-- `GetTopic`, with `found`. -/
def getTopic (s : TopicStorage) (topic_name : Bytes) : MqttTopic × Bool :=
  match s.findTopic topic_name with
  | some it => (it, true)
  | none => (MqttTopic.new 0 0 topic_name none, false)

/-- The inner loop of `GetMatchedTopics`, from index `i` on; `tokenized_stored_topic`
    belongs to the topic `it`. -/
def matchStoredTopic (tokenized_topic_name tokenized_stored_topic : List Bytes) (it : MqttTopic) :
    List Bytes → (i : Nat) → OrderedSet MqttTopic.name → Exec (OrderedSet MqttTopic.name)
  | [], _, matched_topics => .ok matched_topics
  | level :: rest, i, matched_topics =>
    let last := i + 1 = tokenized_topic_name.length ∧ i + 1 = tokenized_stored_topic.length
    if level = singleLevel then
      let matched_topics := if last then matched_topics.insert it else matched_topics
      matchStoredTopic tokenized_topic_name tokenized_stored_topic it rest (i + 1) matched_topics
    else do
      let matched_topics := if level = multiLevel then matched_topics.insert it else matched_topics
      -- the stored topic may have no token at `i`; a `#` has been inserted already
      let stored ← token tokenized_stored_topic i
      if level ≠ stored then return matched_topics
      let matched_topics := if last then matched_topics.insert it else matched_topics
      matchStoredTopic tokenized_topic_name tokenized_stored_topic it rest (i + 1) matched_topics

/-- The outer loop of `GetMatchedTopics`. -/
def matchStoredTopics (tokenized_topic_name : List Bytes) :
    List MqttTopic → OrderedSet MqttTopic.name → Exec (OrderedSet MqttTopic.name)
  | [], matched_topics => .ok matched_topics
  | it :: rest, matched_topics => do
    let matched_topics ← matchStoredTopic tokenized_topic_name (tokenize it.name) it
      tokenized_topic_name 0 matched_topics
    matchStoredTopics tokenized_topic_name rest matched_topics

/-- `GetMatchedTopics`. -/
def getMatchedTopics (s : TopicStorage) (topic_name : Bytes) : Exec (OrderedSet MqttTopic.name) :=
  if topic_name = multiLevel ∨ topic_name = rootMultiLevel then .ok s.topics
  else matchStoredTopics (tokenize topic_name) s.topics.toList OrderedSet.empty

/-- The topics stored for a client. -/
def qosGroup (s : TopicStorage) (client_id : Bytes) : List MqttTopic :=
  (s.qos_2_topics.lookup client_id).getD []

/-- `AddQoSTopic`. -/
def addQoSTopic (s : TopicStorage) (client_id : Bytes) (topic : MqttTopic) : TopicStorage :=
  { s with qos_2_topics := s.qos_2_topics.insert client_id (topic :: s.qosGroup client_id) }

/-- `GetQoSTopic`: the first topic of the client with the packet id. -/
def getQoSTopic (s : TopicStorage) (client_id : Bytes) (packet_id : UInt16) : Option MqttTopic :=
  (s.qosGroup client_id).find? fun topic => topic.id = packet_id

/-- `DelQoSTopic`: the first topic of the client with the packet id is erased. -/
def delQoSTopic (s : TopicStorage) (client_id : Bytes) (packet_id : UInt16) : TopicStorage :=
  match s.qos_2_topics.lookup client_id with
  | some group =>
    let group := group.eraseP fun topic => topic.id = packet_id
    { s with qos_2_topics := s.qos_2_topics.insert client_id group }
  | none => s

end TopicStorage

end Mqtt.Native
