import MqttBroker.Spec.PacketStep
import MqttBroker.Spec.PublishPayload
import MqttBroker.Spec.SubscribeParse

/-!
# Bad property sections

The constructors of the PUBLISH, SUBSCRIBE and UNSUBSCRIBE headers cannot hand on what
`Create` returns. Their packet handlers go on behind a bad section with what the bytes there
happen to be, and never return an error.
-/

namespace Mqtt.Spec

open Mqtt.Native Mqtt.Native.Broker Mqtt.Native.MqttPropertyChain

/-- The packets whose handlers do not look at the result of `Create`. -/
def HasUncheckedSection (fh : FixedHeader) : Prop :=
  fh.getType = PackType.PUBLISH.code ∨ fh.getType = PackType.SUBSCRIBE.code ∨
    fh.getType = PackType.UNSUBSCRIBE.code

/-- The property section of such a packet starts at `j`. -/
def SectionAt (fh : FixedHeader) (data : Bytes) (j : Nat) : Prop :=
  if fh.getType = PackType.PUBLISH.code then
    ∃ topic_name packet_id, FieldsAt fh data topic_name packet_id j
  else j = 2 ∧ ∃ packet_id, convertToHost2Bytes data 0 = .ok packet_id

/-- `Create` returns an error for the property section of the packet. -/
def HasBadSection (fh : FixedHeader) (data : Bytes) : Prop :=
  HasUncheckedSection fh ∧ ∃ j r, SectionAt fh data j ∧
    create OrderedSet.empty (data.drop j) = .ok r ∧ r.err ≠ .ok

/-- The handler returns an error, and what packets of clients change is as it was before. -/
def RejectsPacket (b : Broker) (fh : FixedHeader) (data : Bytes) (fd : Fd) (random : Bytes) :
    Prop :=
  ∃ b' err, b.handlePacket fh data fd random = .ok (b', err) ∧ err ≠ .ok ∧
    ∀ part : Part, part.Same b b'

/-- The handlers of these packets return no error. -/
theorem handlePacket_err {b b' : Broker} {fh : FixedHeader} {data : Bytes} {fd : Fd}
    {random : Bytes} {err : MqttErr} (htype : HasUncheckedSection fh)
    (h : b.handlePacket fh data fd random = .ok (b', err)) : err = .ok := by
  rw [handlePacket] at h
  rcases htype with htype | htype | htype
  · rw [if_pos htype] at h
    exact publishHandler_err h
  · simp only [htype, PackType.code] at h
    exact subscribeHandler_err h
  · simp only [htype, PackType.code] at h
    exact unsubscribeHandler_err h

/-- A packet with a bad section is never rejected. -/
theorem bad_section_not_rejected (b : Broker) (fh : FixedHeader) (data : Bytes) (fd : Fd)
    (random : Bytes) (h : HasBadSection fh data) : ¬ RejectsPacket b fh data fd random := by
  rintro ⟨b', err, hpacket, hne, -⟩
  exact hne (handlePacket_err h.1 hpacket)

/-- A retained message for the topic `t` with a property that does not exist. -/
def unknownProperty : Bytes := [0, 1, 0x74, 2, 0xFF, 0]

/-- A packet with a bad section is retained. -/
theorem bad_section_retained : HasBadSection ⟨0x31, 6⟩ unknownProperty ∧
    ¬ RejectsPacket oneClient ⟨0x31, 6⟩ unknownProperty 5 [] ∧
    ∃ b', oneClient.handlePacket ⟨0x31, 6⟩ unknownProperty 5 [] = .ok (b', .ok) ∧
      ¬ Part.topics.Same oneClient b' := by
  have hpacket : ∃ b', oneClient.handlePacket ⟨0x31, 6⟩ unknownProperty 5 [] = .ok (b', .ok) ∧
      ¬ Part.topics.Same oneClient b' := by
    refine ⟨_, rfl, fun hsame => ?_⟩
    exact absurd (congrArg (fun topics => topics.toList.length) hsame) (by decide +kernel)
  obtain ⟨b', h, hsame⟩ := hpacket
  have hsection : SectionAt ⟨0x31, 6⟩ unknownProperty 3 := by
    rw [SectionAt, if_pos (by decide)]
    exact ⟨[0x74], 0, 3, by decide +kernel, rfl, rfl⟩
  -- `Create` stops behind the length byte, at the identifier that does not exist
  have hbad : HasBadSection ⟨0x31, 6⟩ unknownProperty :=
    ⟨.inl rfl, 3, ⟨.mqttPropertyErr, 1, OrderedSet.empty⟩, hsection, by decide +kernel, nofun⟩
  refine ⟨hbad, ?_, b', h, hsame⟩
  rintro ⟨b'', err, h', hne, -⟩
  exact hne (Prod.mk.inj (Except.ok.inj (h'.symm.trans h))).2

/-- A SUBSCRIBE with a property that does not exist is not rejected. -/
theorem bad_section_not_rejected_subscribe :
    ¬ RejectsPacket oneClient ⟨0x82, 6⟩ [0, 1, 1, 0xFF, 0, 0] 5 [] := by
  refine bad_section_not_rejected oneClient _ _ 5 [] ⟨.inr (.inl rfl), 2,
    ⟨.mqttPropertyErr, 1, OrderedSet.empty⟩, ?_, by decide +kernel, nofun⟩
  rw [SectionAt, if_neg (by decide)]
  exact ⟨rfl, 1, by decide +kernel⟩

end Mqtt.Spec
