import MqttBroker.Spec.Delivery
import MqttBroker.Spec.SubscribeParse

/-!
# The answer to an UNSUBSCRIBE

`DelSubscription` is asked for each filter in the order of the packet, so a reason code
says whether its filter was still in the table when its turn came.
-/

namespace Mqtt.Spec

open Mqtt.Native Mqtt.Native.Broker

/-- Every well-formed UNSUBSCRIBE of a connected client is answered with its packet id and
    one reason code for each filter, in order: success for a filter that was in the table
    and has not been named before, and that no subscription existed for every other. The
    table loses the filters and keeps the options of all others. -/
theorem unsubscribe_answers_in_turn {b : Broker} {fd : Fd} {ref : ClientRef}
    (hclient : b.clients.lookup fd = some (some ref)) (first : UInt8) (m : UnsubscribeRequest) :
    ∃ b' reason_codes,
      b.unsubscribeHandler ⟨first, m.encode.length⟩ m.encode fd = .ok (b', .ok) ∧
      b'.commands = b.commands ++ [⟨fd, reasonsPacket .UNSUBACK m.packet_id reason_codes⟩] ∧
      reason_codes.length = m.filters.length ∧
      (∀ i f, m.filters[i]? = some f → reason_codes[i]? =
        some (if f ∈ (b.heap ref).subscribed_topics ∧ f ∉ m.filters.take i then
          ReasonCode.success.code else ReasonCode.noSubscriptionExisted.code)) ∧
      ∀ f, (b'.heap ref).subscribed_topics.lookup f =
        if f ∈ m.filters then none else (b.heap ref).subscribed_topics.lookup f := by
  let table := (b.heap ref).subscribed_topics
  let reason_codes := (table.erased m.filters).map unsubackCode
  obtain ⟨hcommands, htable, hcodes⟩ := delSubscriptions_eq ref m.filters b []
  have hloop : unsubscribeLoop m.encode.length m.encode (m.encode.length + 1) m.start [] =
      .ok m.filters := by
    rw [unsubscribeLoop_eq_map, m.readRecords]
    rfl
  have hhandler : b.unsubscribeHandler ⟨first, m.encode.length⟩ m.encode fd =
      .ok ((delSubscriptions ref m.filters b []).1.addCommand fd
        (reasonsPacket .UNSUBACK m.packet_id reason_codes), .ok) := by
    simp only [unsubscribeHandler, derefAt_eq hclient, UnsubscribeVH.readFromBuf,
      readIdAndProperties_eq, m.readHeader, hloop, Except.ok_bind, Except.pure_eq_ok]
    rw [hcodes, List.nil_append, createMqttPacket_unsubAck, Except.ok_bind]
  refine ⟨_, reason_codes, hhandler, ?_, ?_, fun i f hf => ?_, fun f => ?_⟩
  · rw [Broker.addCommand, hcommands]
  · rw [List.length_map, UnorderedMap.length_erased]
  · -- its turn comes behind the filters before it
    rw [List.getElem?_map, UnorderedMap.getElem?_erased, hf]
    simp only [Option.map_some, unsubackCode, decide_eq_true_eq]
    rfl
  · show ((delSubscriptions ref m.filters b []).1.heap ref).subscribed_topics.lookup f = _
    rw [htable, UnorderedMap.lookup_eraseAll]
    -- what is erased is what the packet names
    by_cases hf : f ∈ m.filters
    · rw [if_pos hf, if_pos hf]
    · rw [if_neg hf, if_neg hf]

/-- UNSUBSCRIBE from `a`, `b` and `a` again. -/
def unsubscribeThrice : UnsubscribeRequest where
  packet_id := 7
  properties := emptySection
  filters := [[0x61], [0x62], [0x61]]
  filters_le := by simp

/-- A client that is subscribed to `a` only: the second `a` is no longer there. -/
theorem unsubscribe_answers_in_turn_thrice : ∃ b' reason_codes,
    (subscriber 1).unsubscribeHandler ⟨0xA2, unsubscribeThrice.encode.length⟩
      unsubscribeThrice.encode 5 = .ok (b', .ok) ∧
    b'.commands = [⟨5, reasonsPacket .UNSUBACK 7 reason_codes⟩] ∧ reason_codes.length = 3 ∧
    reason_codes[0]? = some 0 ∧ reason_codes[1]? = some 0x11 ∧ reason_codes[2]? = some 0x11 ∧
    (b'.heap 0).subscribed_topics.lookup [0x61] = none := by
  have hclient : (subscriber 1).clients.lookup 5 = some (some 0) := rfl
  obtain ⟨b', reason_codes, hhandler, hcommands, hlen, hcodes, htable⟩ :=
    unsubscribe_answers_in_turn hclient 0xA2 unsubscribeThrice
  exact ⟨b', reason_codes, hhandler, hcommands, hlen, hcodes 0 [0x61] rfl, hcodes 1 [0x62] rfl,
    hcodes 2 [0x61] rfl, htable [0x61]⟩

end Mqtt.Spec
