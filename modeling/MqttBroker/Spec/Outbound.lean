import MqttBroker.Spec.Inbound

/-!
# Outbound QoS 1 and 2

A packet is put into `postponed_events` only when the client has one there
already, and the table starts empty: nothing is ever kept for a client. What has
been handed out and is not acknowledged cannot be sent again.
-/

namespace Mqtt.Spec

open Mqtt.Native Mqtt.Native.Broker

/-- The packet that acknowledges a PUBLISH of some QoS. -/
def acknowledgement (qos : UInt8) : PackType := if qos = 1 then .PUBACK else .PUBREC

/-- A PUBLISH with QoS 1 or 2 has been handed out for a client that is still
    connected, and has not been acknowledged since. -/
structure Outstanding (b : Broker) (pClient : ClientRef) (packet_id : UInt16) : Prop where
  connected : ∃ fd, b.clients.lookup fd = some (some pClient)
  handed_out : ∃ pre fd qos packet post,
    b.calls = pre ++ .publish fd pClient qos packet_id packet :: post ∧ (qos = 1 ∨ qos = 2) ∧
    .acknowledged pClient (acknowledgement qos) packet_id ∉ post

/-- A packet with the id is kept for a client. -/
def IsKept (b : Broker) (pClient : ClientRef) (packet_id : UInt16) : Prop :=
  ∃ group, b.postponed_events.lookup (b.heap pClient).client_id = some group ∧
    ∃ packet ∈ group, packet.packet_id = packet_id

/-- Everything outstanding is kept. -/
def AllKept (b : Broker) : Prop :=
  ∀ pClient packet_id, Outstanding b pClient packet_id → IsKept b pClient packet_id

/-- Nothing is ever postponed. -/
theorem postponed_events_empty {s : ServerThread} (h : system.Reachable s) :
    s.broker.postponed_events = ∅ := by
  refine h.invariant (P := fun s => s.broker.postponed_events = ∅) ?_ ?_
  · rintro _ ⟨control_sock, rfl⟩
    rfl
  · intro s e t hs hstep
    exact (system_effect hstep).empty hs

/-- In a reachable state everything outstanding is kept exactly when nothing is
    outstanding. -/
theorem outbound_kept_iff {s : ServerThread} (h : system.Reachable s) :
    AllKept s.broker ↔ ∀ pClient packet_id, ¬ Outstanding s.broker pClient packet_id := by
  constructor
  · intro hkept pClient packet_id hout
    obtain ⟨group, hgroup, -⟩ := hkept pClient packet_id hout
    rw [postponed_events_empty h, AList.lookup_empty] at hgroup
    exact nomatch hgroup
  · exact fun hnone pClient packet_id hout => absurd hout (hnone pClient packet_id)

/-- The client subscribes to `t` with QoS 1 and publishes `x` under `t`. -/
def publishToSelf : List SystemEvent :=
  pass 0x82 [0, 1, 0, 0, 1, 0x74, 1] ++ pass 0x30 [0, 1, 0x74, 0, 0x78]

/-- The client is handed a PUBLISH with QoS 1 that it has sent itself, and acknowledges it. It
    is still connected, and nothing is left to keep. -/
theorem outbound_kept_acknowledged :
    ∃ s packet, system.Reachable s ∧ s.broker.clients.lookup 5 = some (some 0) ∧
      .publish 5 0 1 1 packet ∈ s.broker.calls ∧
      .acknowledged 0 .PUBACK 1 ∈ s.broker.calls ∧ AllKept s.broker := by
  have hrun : ((connected ++ publishToSelf ++ pass 0x40 [0, 1]).foldlM systemStep fromStart).map
      (fun s => (s.broker.clients.lookup 5, s.broker.calls)) =
        some (some (some 0), [.notifyClients none (MqttTopic.new 0 0 [0x74] (some payloadX)),
          .publish 5 0 1 1 [0x32, 7, 0, 1, 0x74, 0, 1, 0, 0x78], .acknowledged 0 .PUBACK 1]) := by
    decide +kernel
  obtain ⟨s, hs, hfinal⟩ := Option.map_eq_some_iff.mp hrun
  obtain ⟨hclient, hcalls⟩ := Prod.mk.inj hfinal
  have hreach := reachable_of_steps 4 hs
  refine ⟨s, [0x32, 7, 0, 1, 0x74, 0, 1, 0, 0x78], hreach, hclient, by simp [hcalls],
    by simp [hcalls], (outbound_kept_iff hreach).mpr fun pClient packet_id hout => ?_⟩
  obtain ⟨pre, fd, qos, packet, post, heq, -, hnot⟩ := hout.handed_out
  rw [hcalls] at heq
  -- the only PUBLISH that was handed out is the one in front of the acknowledgement
  obtain _ | ⟨_, _ | ⟨_, _ | ⟨_, pre⟩⟩⟩ := pre
  · cases heq
  · cases heq
    exact hnot (.head _)
  · cases heq
  · simp at heq

/-- The client has got the PUBLISH with QoS 1 and has not acknowledged it, and it is
    not kept. -/
theorem outstanding_not_kept :
    ∃ s, system.Reachable s ∧ Outstanding s.broker 0 1 ∧ ¬ AllKept s.broker := by
  have hrun : ((connected ++ publishToSelf).foldlM systemStep fromStart).map
      (fun s => (s.broker.clients.toList, s.broker.calls)) =
        some ([(5, some 0)], [.notifyClients none (MqttTopic.new 0 0 [0x74] (some payloadX)),
          .publish 5 0 1 1 [0x32, 7, 0, 1, 0x74, 0, 1, 0, 0x78]]) := by
    decide +kernel
  obtain ⟨s, hs, hfinal⟩ := Option.map_eq_some_iff.mp hrun
  obtain ⟨hclients, hcalls⟩ := Prod.mk.inj hfinal
  have hclient : s.broker.clients.lookup 5 = some (some 0) :=
    UnorderedMap.mem_toList_iff.mp (by rw [hclients]; exact .head _)
  have hreach := reachable_of_steps 4 hs
  -- the PUBLISH was queued, and no acknowledgement has come
  have hout : Outstanding s.broker 0 1 :=
    ⟨⟨5, hclient⟩, [_], 5, 1, _, [], hcalls, .inl rfl, List.not_mem_nil⟩
  refine ⟨s, hreach, hout, fun hkept => ?_⟩
  -- it would have to be among the events, of which there are none
  obtain ⟨group, hgroup, -⟩ := hkept 0 1 hout
  rw [postponed_events_empty hreach, AList.lookup_empty] at hgroup
  exact nomatch hgroup

end Mqtt.Spec
