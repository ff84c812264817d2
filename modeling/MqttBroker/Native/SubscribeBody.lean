import MqttBroker.Native.Handlers
import MqttBroker.Native.VariableHeader

/-!
# Bodies of SUBSCRIBE and UNSUBSCRIBE

`HandleMqttSubscribe` and `HandleMqttUnsubscribe` with everything they fill for their
caller, and with the `offset` they end at. The packet handlers keep a part of it, which is
what the loops of `Native.Handlers` return.
-/

namespace Mqtt.Native

/-- What `HandleMqttSubscribe` leaves: the broker with the subscribed client, the arguments
    it fills and its `offset`. -/
structure SubscribeBody where
  broker : Broker
  vh : SubscribeVH
  _reason_codes : List UInt8
  subscribe_topics : List (Bytes × UInt8)
  offset : Nat

/-- What `HandleMqttUnsubscribe` leaves. -/
structure UnsubscribeBody where
  p_vh : UnsubscribeVH
  topics_to_unsubscribe : List Bytes
  offset : Nat

namespace Broker

/-- The loop of `HandleMqttSubscribe`. -/
def subscribeRecords (remaining_len : Nat) (buf : Bytes) (pClient : ClientRef) :
    (fuel : Nat) → Broker → (offset : Nat) → List UInt8 → List (Bytes × UInt8) →
      Exec (Broker × List UInt8 × List (Bytes × UInt8) × Nat)
  | 0, _, _, _, _ => .error .endless
  | fuel + 1, b, offset, _reason_codes, subscribe_topics =>
    if offset < remaining_len then do
      let (topic_name, offset) ← readString buf offset
      let options ← readByte buf offset
      let b := b.setClient pClient ((b.heap pClient).addSubscription topic_name options)
      subscribeRecords remaining_len buf pClient fuel b (offset + 1) (_reason_codes ++ [2])
        (subscribe_topics ++ [(topic_name, options)])
    else .ok (b, _reason_codes, subscribe_topics, offset)

/-- `HandleMqttSubscribe`. -/
def handleMqttSubscribe (b : Broker) (pClient : ClientRef) (fh : FixedHeader) (buf : Bytes) :
    Exec SubscribeBody := do
  let (packet_id, p_chain, offset) ← readIdAndChain buf 0
  let (broker, _reason_codes, subscribe_topics, offset) ←
    subscribeRecords fh.remaining_len buf pClient (buf.length + 1) b offset [] []
  return ⟨broker, ⟨packet_id, p_chain⟩, _reason_codes, subscribe_topics, offset⟩

/-- The loop of `HandleMqttUnsubscribe`. -/
def unsubscribeRecords (remaining_len : Nat) (buf : Bytes) :
    (fuel : Nat) → (offset : Nat) → List Bytes → Exec (List Bytes × Nat)
  | 0, _, _ => .error .endless
  | fuel + 1, offset, topics_to_unsubscribe =>
    if offset < remaining_len then do
      let (topic_name, offset) ← readString buf offset
      unsubscribeRecords remaining_len buf fuel offset (topics_to_unsubscribe ++ [topic_name])
    else .ok (topics_to_unsubscribe, offset)

/-- `HandleMqttUnsubscribe`. -/
def handleMqttUnsubscribe (fh : FixedHeader) (buf : Bytes) : Exec UnsubscribeBody := do
  let (packet_id, p_chain, offset) ← readIdAndChain buf 0
  let (topics_to_unsubscribe, offset) ←
    unsubscribeRecords fh.remaining_len buf (buf.length + 1) offset []
  return ⟨⟨packet_id, p_chain⟩, topics_to_unsubscribe, offset⟩

/-! ## The loops of the packet handlers -/

/-- `subscribeLoop` keeps of `subscribeRecords` all but the offset. -/
theorem subscribeLoop_eq_map (remaining_len : Nat) (buf : Bytes) (pClient : ClientRef)
    (fuel : Nat) : ∀ b offset reason_codes subscribe_topics,
      subscribeLoop remaining_len buf pClient fuel b offset reason_codes subscribe_topics =
        (subscribeRecords remaining_len buf pClient fuel b offset reason_codes
          subscribe_topics).map fun r => (r.1, r.2.1, r.2.2.1) := by
  -- both make the same round and stop at the same faults
  induction fuel with
  | zero => intros; rfl
  | succ fuel ih =>
    intro b offset reason_codes subscribe_topics
    rw [subscribeLoop, subscribeRecords]
    split
    · cases readString buf offset with
      | error fault => rfl
      | ok field =>
        obtain ⟨topic_name, offset⟩ := field
        simp only [Except.ok_bind]
        cases readByte buf offset with
        | error fault => rfl
        -- a record was read, and the next round is the same again
        | ok options => exact ih _ _ _ _
    · rfl

/-- `unsubscribeLoop` keeps of `unsubscribeRecords` the topics. -/
theorem unsubscribeLoop_eq_map (remaining_len : Nat) (buf : Bytes) (fuel : Nat) :
    ∀ offset topics_to_unsubscribe,
      unsubscribeLoop remaining_len buf fuel offset topics_to_unsubscribe =
        (unsubscribeRecords remaining_len buf fuel offset topics_to_unsubscribe).map Prod.fst := by
  induction fuel with
  | zero => intros; rfl
  | succ fuel ih =>
    intro offset topics_to_unsubscribe
    rw [unsubscribeLoop, unsubscribeRecords]
    split
    · cases readString buf offset with
      | error fault => rfl
      | ok field => exact ih _ _
    · rfl

end Broker

end Mqtt.Native
