import MqttBroker.Native.Handlers

/-!
# Where a null client can be met

Only a lookup in `clients` can end in `Fault.nullClient`. Everything the handlers
do with buffers, packets and topics may leave a buffer or fail an assertion, but
looks no client up.
-/

namespace Mqtt.Spec

open Mqtt.Native

/-- A computation that does not dereference a null client. -/
def NeverNull {α : Type} (x : Exec α) : Prop := x ≠ .error .nullClient

namespace NeverNull

variable {α β : Type}

@[simp] theorem ok (a : α) : NeverNull (.ok a : Exec α) := nofun

@[simp] theorem error (e : Fault) : NeverNull (.error e : Exec α) ↔ e ≠ .nullClient :=
  not_congr (by simp)

@[simp] theorem throw (e : Fault) : NeverNull (throw e : Exec α) ↔ e ≠ .nullClient := error e

@[simp] theorem ite {c : Prop} [Decidable c] {x y : Exec α} :
    NeverNull (if c then x else y) ↔ (c → NeverNull x) ∧ (¬ c → NeverNull y) := by
  split <;> simp [*]

/-- A bind does not meet a null client when its first part does not and its second
    does not either, whatever the first gives. -/
@[simp] theorem bind_iff {x : Exec α} {f : α → Exec β} (hx : NeverNull x) :
    NeverNull (x >>= f) ↔ ∀ a, x = .ok a → NeverNull (f a) := by
  cases x with
  | ok a => simp
  | error e => simpa [NeverNull] using hx

/-- In a computation with a postcondition on its faults. -/
theorem sat_bind {x : Exec α} {f : α → Exec β} {R : β → Prop} {Q : Fault → Prop} (hx : NeverNull x)
    (hQ : ∀ e, e ≠ .nullClient → Q e) (hf : ∀ a, x = .ok a → (f a).Sat R Q) :
    (x >>= f).Sat R Q := by
  cases x with
  | ok a => exact hf a rfl
  | error e => exact hQ e fun h => hx (by rw [h])

end NeverNull

/-! ## Buffers -/

@[simp] theorem neverNull_readByte (buf : Bytes) (i : Nat) : NeverNull (readByte buf i) := by
  unfold readByte; split <;> simp

@[simp] theorem neverNull_readBytes (buf : Bytes) (i n : Nat) : NeverNull (readBytes buf i n) := by
  unfold readBytes; split <;> simp

@[simp] theorem neverNull_writeBytes (dst : Bytes) (i : Nat) (bs : Bytes) :
    NeverNull (writeBytes dst i bs) := by
  unfold writeBytes; split <;> simp

@[simp] theorem neverNull_convertToHost2Bytes (buf : Bytes) (i : Nat) :
    NeverNull (convertToHost2Bytes buf i) := by
  simp [convertToHost2Bytes]

@[simp] theorem neverNull_convertToHost4Bytes (buf : Bytes) (i : Nat) :
    NeverNull (convertToHost4Bytes buf i) := by
  simp [convertToHost4Bytes]

@[simp] theorem neverNull_ofBuf (len : UInt16) (buf : Bytes) (i : Nat) :
    NeverNull (MqttBinaryDataEntity.ofBuf len buf i) := by
  unfold MqttBinaryDataEntity.ofBuf; split <;> simp

@[simp] theorem neverNull_deCodeVarInt (buf : Bytes) : NeverNull (deCodeVarInt buf) := by
  have hloop : ∀ fuel value multiplayer offset,
      NeverNull (deCodeVarIntLoop buf fuel value multiplayer offset) := by
    intro fuel
    induction fuel with
    | zero => simp [deCodeVarIntLoop]
    | succ fuel ih => intros; simp [deCodeVarIntLoop, ih]
  exact hloop 5 0 1 0

@[simp] theorem neverNull_readString (buf : Bytes) (offset : Nat) :
    NeverNull (readString buf offset) := by
  simp [readString]

@[simp] theorem neverNull_createMqttStringEntity (buf : Bytes) :
    NeverNull (createMqttStringEntity buf) := by
  simp [createMqttStringEntity]

@[simp] theorem neverNull_createMqttBinaryDataEntity (buf : Bytes) :
    NeverNull (createMqttBinaryDataEntity buf) := by
  simp [createMqttBinaryDataEntity]

/-! ## Properties -/

@[simp] theorem neverNull_createProperty (buf : Bytes) : NeverNull (createProperty buf) := by
  unfold createProperty
  rw [NeverNull.bind_iff (by simp)]
  intro id _
  split <;> simp
  intro r _
  split <;> simp

/-- The loop of `Create` looks up no client. -/
@[simp] theorem neverNull_createLoop (buf : Bytes) (fuel : Nat) : ∀ p_len size chain,
    NeverNull (MqttPropertyChain.createLoop buf fuel p_len size chain) := by
  induction fuel with
  | zero => simp [MqttPropertyChain.createLoop]
  | succ fuel ih =>
    intro p_len size chain
    simp only [MqttPropertyChain.createLoop, NeverNull.ite]
    refine ⟨fun _ => ?_, fun _ => by simp⟩
    rw [NeverNull.bind_iff (by simp)]
    intro r _
    split
    · simp
    · exact ih _ _ _

/-- `Create` looks up no client. -/
@[simp] theorem neverNull_create (chain : MqttPropertyChain) (buf : Bytes) :
    NeverNull (chain.create buf) := by
  unfold MqttPropertyChain.create MqttPropertyChain.createFuel
  rw [NeverNull.bind_iff (by simp)]
  intro r _
  split <;> simp

@[simp] theorem neverNull_serializeString (data dst : Bytes) (pos offset : Nat) :
    NeverNull (MqttStringEntity.serialize data dst pos offset) := by
  simp [MqttStringEntity.serialize]

@[simp] theorem neverNull_serializeEntity (dst : Bytes) (pos offset : Nat) (entity : MqttEntity) :
    NeverNull (entity.serialize dst pos offset) := by
  cases entity <;> simp [MqttEntity.serialize, MqttBinaryDataEntity.serialize]

@[simp] theorem neverNull_serializeChain (chain : MqttPropertyChain) (dst : Bytes)
    (pos offset : Nat) : NeverNull (chain.serialize dst pos offset) := by
  have hloop : ∀ (ps : List MqttProperty) dst size offset,
      NeverNull (MqttPropertyChain.serializeLoop pos ps dst size offset) := by
    intro ps
    induction ps with
    | nil => simp [MqttPropertyChain.serializeLoop]
    | cons p ps ih => intros; simp [MqttPropertyChain.serializeLoop, MqttProperty.serialize, ih]
  simp [MqttPropertyChain.serialize, hloop]

/-- The copy of a chain looks up no client. -/
@[simp] theorem neverNull_copy (chain : MqttPropertyChain) : NeverNull chain.copy := by
  have hloop : ∀ (ps : List MqttProperty) (properties : MqttPropertyChain),
      NeverNull (ps.foldlM (fun properties it => do
        let p ← it.copy
        if p.id = 0 then throw .assertFailed
        return MqttPropertyChain.addProperty properties p) properties) := by
    intro ps
    induction ps with
    | nil => simp
    | cons p ps ih =>
      intro properties
      rw [List.foldlM_cons, NeverNull.bind_iff]
      · exact fun _ _ => ih _
      · -- binary data may be read past its end, which is another fault
        have hcopy : NeverNull p.copy := by
          unfold MqttProperty.copy
          split <;> simp
        simp [hcopy]
  exact hloop _ _

/-! ## Packets -/

/-- A variable header whose `Serialize` only writes. -/
class Plain (α : Type) [IVariableHeader α] : Prop where
  neverNull (vh : α) (dst : Bytes) (pos offset : Nat) :
    NeverNull (IVariableHeader.serialize vh dst pos offset)

attribute [simp] Plain.neverNull

private theorem neverNull_serializeReasons (packet_id : UInt16) (p_chain : MqttPropertyChain)
    (reason_codes : List UInt8) (dst : Bytes) (pos offset : Nat) :
    NeverNull (serializeReasons packet_id p_chain reason_codes dst pos offset) := by
  have hloop : ∀ (codes : List UInt8) dst local_offset,
      NeverNull (serializeReasonCodes pos codes dst local_offset) := by
    intro codes
    induction codes with
    | nil => simp [serializeReasonCodes]
    | cons code codes ih => intros; simp [serializeReasonCodes, ih]
  simp [serializeReasons, hloop]

instance : Plain ConnactVH := ⟨by simp [IVariableHeader.serialize]⟩
instance : Plain DisconnectVH := ⟨by simp [IVariableHeader.serialize]⟩
instance : Plain PublishVH := ⟨by simp [IVariableHeader.serialize]⟩
instance : Plain PubackVH := ⟨by simp [IVariableHeader.serialize]⟩
instance : Plain SubackVH := ⟨fun _ => neverNull_serializeReasons _ _ _⟩
instance : Plain UnsubAckVH := ⟨fun _ => neverNull_serializeReasons _ _ _⟩

@[simp] theorem neverNull_serializeFixedHeader (fh : FixedHeader) (dst : Bytes)
    (pos offset : Nat) : NeverNull (fh.serialize dst pos offset) := by
  simp [FixedHeader.serialize]

@[simp] theorem neverNull_createMqttPacketEmpty (pack_type : UInt8) :
    NeverNull (createMqttPacketEmpty pack_type) := by
  simp [createMqttPacketEmpty]

/-- No packet is made by looking up a client. -/
@[simp] theorem neverNull_createMqttPacket {α : Type} [IVariableHeader α] [Plain α]
    (pack_type : UInt8) (vh : α) : NeverNull (createMqttPacket pack_type vh) := by
  simp [createMqttPacket]

/-- Nor is a PUBLISH. -/
@[simp] theorem neverNull_createPublish (topic : MqttTopic) (dup : Bool) :
    NeverNull (Broker.createPublish topic dup) := by
  unfold Broker.createPublish createMqttPacketMessage
  cases topic.data with
  | none => simp
  | some message => simp [MqttBinaryDataEntity.serializeWithoutLen]

@[simp] theorem neverNull_connectVH (buf : Bytes) : NeverNull (ConnectVH.readFromBuf buf) := by
  simp [ConnectVH.readFromBuf]

/-- `HandleMqttPublish` works on the buffer alone. -/
@[simp] theorem neverNull_handleMqttPublish (fh : FixedHeader) (buf : Bytes) :
    NeverNull (Broker.handleMqttPublish fh buf) := by
  simp [Broker.handleMqttPublish, PublishVH.ofBuf]

@[simp] theorem neverNull_readIdAndProperties (buf : Bytes) :
    NeverNull (readIdAndProperties buf) := by
  simp [readIdAndProperties]

@[simp] theorem neverNull_pubackVH (buf : Bytes) : NeverNull (PubackVH.readFromBuf buf) :=
  neverNull_convertToHost2Bytes buf 0

/-! ## Topics -/

@[simp] theorem neverNull_token (tokens : List Bytes) (i : Nat) : NeverNull (token tokens i) := by
  unfold token; split <;> simp

/-- Matching a topic looks at one client only, which is there. -/
@[simp] theorem neverNull_checkWildCards (c : Client) (topic_name : Bytes) :
    NeverNull (c.checkWildCards topic_name) := by
  -- a token behind the end of a filter is another fault
  have hmatch : ∀ (name sub levels : List Bytes) i,
      NeverNull (Client.matchSubscribedTopic name sub levels i) := by
    intro name sub levels
    induction levels with
    | nil => simp [Client.matchSubscribedTopic]
    | cons level levels ih => intros; simp [Client.matchSubscribedTopic, ih]
  have hloop : ∀ subs : List (Bytes × UInt8),
      NeverNull (Client.checkSubscriptions topic_name subs) := by
    intro subs
    induction subs with
    | nil => simp [Client.checkSubscriptions]
    | cons sub subs ih => simp [Client.checkSubscriptions, hmatch, ih]
  exact hloop _

/-- Matching a filter looks at the storage only. -/
@[simp] theorem neverNull_getMatchedTopics (s : TopicStorage) (topic_name : Bytes) :
    NeverNull (s.getMatchedTopics topic_name) := by
  have hmatch : ∀ (name stored levels : List Bytes) it i matched_topics,
      NeverNull (TopicStorage.matchStoredTopic name stored it levels i matched_topics) := by
    intro name stored levels
    induction levels with
    | nil => simp [TopicStorage.matchStoredTopic]
    | cons level levels ih => intros; simp [TopicStorage.matchStoredTopic, ih]
  -- neither loop has a pointer to follow
  have hloop : ∀ (topics : List MqttTopic) matched_topics,
      NeverNull (TopicStorage.matchStoredTopics (tokenize topic_name) topics matched_topics) := by
    intro topics
    induction topics with
    | nil => simp [TopicStorage.matchStoredTopics]
    | cons it topics ih => intros; simp [TopicStorage.matchStoredTopics, hmatch, ih]
  simp [TopicStorage.getMatchedTopics, hloop]

end Mqtt.Spec
