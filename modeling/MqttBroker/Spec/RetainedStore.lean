import MqttBroker.ForStd.RequestLog
import MqttBroker.Native.TopicStorage

/-!
# The retained topics as a map

`CTopicStorage` overwrites by erasing and inserting again, in a set that is ordered by name
only, and finds a name with a topic that has nothing else. After any calls a name has the
topic of the last one that stored it, unless it was deleted since.
-/

namespace Mqtt.Spec

open Mqtt.Native RequestLog

/-- A call that changes the retained topics. -/
inductive StorageCall where
  | storeTopicValue (qos : UInt8) (id : UInt16) (topic_name : Bytes)
      (data : Option MqttBinaryDataEntity)
  | storeTopic (topic : MqttTopic)
  | deleteTopicValue (topic : MqttTopic)

namespace StorageCall

/-- The storage after a call. -/
def apply (s : TopicStorage) : StorageCall → TopicStorage
  | storeTopicValue qos id topic_name data => s.storeTopicValue qos id topic_name data
  | storeTopic topic => s.storeTopic topic
  | deleteTopicValue topic => s.deleteTopicValue topic

/-- What a call asks a map of names to topics for. -/
def request : StorageCall → Request Bytes MqttTopic
  | storeTopicValue qos id topic_name data =>
    .put topic_name (MqttTopic.new qos id topic_name data)
  | storeTopic topic => .put topic.name topic
  | deleteTopicValue topic => .take topic.name

/-- The name a call is about. -/
def name (call : StorageCall) : Bytes := call.request.key

end StorageCall

/-! ## Found topics -/

/-- `FindTopic` finds the topic of a name. -/
theorem findTopic_eq_some_iff {s : TopicStorage} {name : Bytes} {topic : MqttTopic} :
    s.findTopic name = some topic ↔ topic ∈ s.topics.toList ∧ topic.name = name :=
  OrderedSet.find?_eq_some_iff

/-- A stored topic is found under its name. -/
theorem mem_topics_iff {s : TopicStorage} {topic : MqttTopic} :
    topic ∈ s.topics.toList ↔ s.findTopic topic.name = some topic := by
  rw [findTopic_eq_some_iff, and_iff_left rfl]

/-- A name has the topic that is stored under it, whatever it had before, and the other names
    have what they had. -/
theorem findTopic_storeTopic (s : TopicStorage) (topic : MqttTopic) (name : Bytes) :
    (s.storeTopic topic).findTopic name =
      if topic.name = name then some topic else s.findTopic name := by
  refine Option.ext fun found => ?_
  rw [findTopic_eq_some_iff]
  show found ∈ ((s.topics.erase topic.name).insert topic).toList ∧ found.name = name ↔ _
  rw [OrderedSet.mem_insert_erase]
  split
  · -- the set is ordered by name: what had the name before is erased
    -- a topic of another name is untouched
    rename_i hname
    rw [Option.some_inj]
    constructor
    · rintro ⟨rfl | ⟨-, hne⟩, hfound⟩
      · rfl
      · exact absurd (hfound.trans hname.symm) hne
    · rintro rfl
      exact ⟨.inl rfl, hname⟩
  · rename_i hname
    rw [findTopic_eq_some_iff]
    constructor
    · rintro ⟨rfl | ⟨hmem, -⟩, hfound⟩
      · exact absurd hfound hname
      · exact ⟨hmem, hfound⟩
    · rintro ⟨hmem, hfound⟩
      exact ⟨.inr ⟨hmem, fun heq => hname (heq.symm.trans hfound)⟩, hfound⟩

/-- A deleted name is not found, and no other name is affected. -/
theorem findTopic_deleteTopicValue (s : TopicStorage) (topic : MqttTopic) (name : Bytes) :
    (s.deleteTopicValue topic).findTopic name =
      if topic.name = name then none else s.findTopic name := by
  refine Option.ext fun found => ?_
  rw [findTopic_eq_some_iff]
  show found ∈ (s.topics.erase topic.name).toList ∧ found.name = name ↔ _
  rw [OrderedSet.mem_erase]
  split
  · rename_i hname
    simp only [reduceCtorEq, iff_false]
    exact fun h => h.1.2 (h.2.trans hname.symm)
  · rename_i hname
    rw [findTopic_eq_some_iff]
    exact ⟨fun h => ⟨h.1.1, h.2⟩, fun h => ⟨⟨h.1, fun heq => hname (heq.symm.trans h.2)⟩, h.2⟩⟩

/-- The last call decides, or is about another name. -/
theorem findTopic_apply (s : TopicStorage) (call : StorageCall) (name : Bytes) :
    (call.apply s).findTopic name =
      if call.name = name then call.request.value? else s.findTopic name := by
  cases call with
  | storeTopicValue qos id topic_name data =>
    exact findTopic_storeTopic s (MqttTopic.new qos id topic_name data) name
  | storeTopic topic => exact findTopic_storeTopic s topic name
  | deleteTopicValue topic => exact findTopic_deleteTopicValue s topic name

/-! ## Rows of calls -/

/-- The storage without topics. -/
def emptyStorage : TopicStorage := ⟨OrderedSet.empty, ∅⟩

/-- The storage after a row of calls. -/
def afterCalls (s : TopicStorage) (calls : List StorageCall) : TopicStorage :=
  calls.foldl StorageCall.apply s

/-- The topic that the last call about a name has stored, if it did store one. -/
def lastStored (calls : List StorageCall) (name : Bytes) : Option MqttTopic :=
  latest name (calls.map StorageCall.request)

/-- The last call decides about its name. -/
theorem lastStored_concat (calls : List StorageCall) (call : StorageCall) (name : Bytes) :
    lastStored (calls ++ [call]) name =
      if call.name = name then call.request.value? else lastStored calls name := by
  rw [lastStored, List.map_append]
  exact latest_concat

/-- What is found is what the last call for the name has stored. -/
theorem findTopic_afterCalls (calls : List StorageCall) (name : Bytes) :
    (afterCalls emptyStorage calls).findTopic name = lastStored calls name := by
  -- on the last call, which is the one that decides
  induction calls using List.reverseRecOn with
  | nil => rfl
  | append_singleton calls call ih =>
    rw [afterCalls, List.foldl_append, ← afterCalls, lastStored_concat, ← ih]
    exact findTopic_apply _ call name

/-- The answers of the three lookups for a name with this topic. -/
structure FindsTopic (s : TopicStorage) (name : Bytes) (found : Option MqttTopic) : Prop where
  getTopic : s.getTopic name =
    found.elim (MqttTopic.new 0 0 name none, false) fun topic => (topic, true)
  getStoredValuePtr : s.getStoredValuePtr name = found.bind MqttTopic.data
  getStoredValue : s.getStoredValue name =
    found.elim (.ok (default, false)) fun topic => topic.getValue.map fun value => (value, true)

/-- The lookups see nothing but the topic that is found. -/
theorem findsTopic_of_eq {s : TopicStorage} {name : Bytes} {found : Option MqttTopic}
    (h : s.findTopic name = found) : FindsTopic s name found := by
  subst h
  refine ⟨?_, ?_, ?_⟩
  · unfold TopicStorage.getTopic
    cases s.findTopic name <;> rfl
  · unfold TopicStorage.getStoredValuePtr
    cases s.findTopic name <;> rfl
  · unfold TopicStorage.getStoredValue
    cases s.findTopic name with
    | none => rfl
    | some topic =>
      show (do return (← topic.getValue, true) : Exec _) = topic.getValue.map _
      cases topic.getValue <;> rfl

/-- After any calls each lookup finds a name exactly when the last call about it stored a
    topic, and returns that topic or its data; a call about another name changes no answer,
    no name is stored twice, and `#` matches exactly what is stored. -/
theorem retained_last_write_wins (calls : List StorageCall) :
    (∀ name, FindsTopic (afterCalls emptyStorage calls) name (lastStored calls name)) ∧
    (∀ name (call : StorageCall), call.name ≠ name →
      FindsTopic (call.apply (afterCalls emptyStorage calls)) name (lastStored calls name)) ∧
    ((afterCalls emptyStorage calls).topics.toList.map MqttTopic.name).Nodup ∧
    ∃ matched, (afterCalls emptyStorage calls).getMatchedTopics multiLevel = .ok matched ∧
      ∀ topic, topic ∈ matched.toList ↔ lastStored calls topic.name = some topic := by
  refine ⟨fun name => findsTopic_of_eq (findTopic_afterCalls calls name), fun name call hname => ?_,
    OrderedSet.nodup_keys _, _, if_pos (.inl rfl), fun topic => ?_⟩
  · refine findsTopic_of_eq ?_
    rw [findTopic_apply, if_neg hname, findTopic_afterCalls]
  · rw [mem_topics_iff, findTopic_afterCalls]

/-- The second overload stores what it is given: a QoS that `SetQos` has set to 3 is found as
    it is, and a topic without data has no payload to return. -/
theorem stored_topic_as_given :
    ¬ (∀ calls name topic, lastStored calls name = some topic →
      ((afterCalls emptyStorage calls).getTopic name).1.qos =
        (MqttTopic.new topic.qos topic.id topic.name topic.data).qos) ∧
    ¬ (∀ calls name topic, lastStored calls name = some topic →
      ∃ value, (afterCalls emptyStorage calls).getStoredValue name = .ok (value, true)) := by
  constructor
  · intro h
    have hqos := h [.storeTopic ((MqttTopic.new 2 7 [0x61] (some ⟨[0x78], by decide⟩)).setQos 3)]
      [0x61] _ rfl
    exact absurd hqos (by decide)
  · intro h
    obtain ⟨value, hvalue⟩ := h [.storeTopic (MqttTopic.new 0 0 [0x61] none)] [0x61] _ rfl
    cases hvalue

end Mqtt.Spec
