import MqttBroker.Spec.HeaderRoundTrip

/-!
# Sizes of variable headers

`CreateMqttPacket` allocates `GetSize()` bytes for a header and asserts that
`Serialize` moved the offset by as many. Eight of the eleven headers keep to that for all
values. The two PUBLISH headers count a packet id that `Serialize` leaves out when it is
0, and `SubscribeVH::GetSize` forgets the length field of the properties.
-/

namespace Mqtt.Spec

open Mqtt.Native

/-- `Serialize` of `vh` advances the offset by exactly `GetSize()` bytes, and a buffer
    with as many is enough for it. -/
def SizePredicted {α : Type} [IVariableHeader α] (vh : α) : Prop :=
  ∀ dst pos offset, pos + IVariableHeader.getSize vh ≤ dst.length →
    ∃ dst', IVariableHeader.serialize vh dst pos offset =
      .ok (dst', offset + IVariableHeader.getSize vh)

/-- A header whose writer makes copies is as long as what they write. -/
theorem sizePredicted_iff {α : Type} [IVariableHeader α] {vh : α} {copies : Nat → List Copy}
    {bs : Bytes} (hmakes : Makes (IVariableHeader.serialize vh) copies bs) :
    SizePredicted vh ↔ IVariableHeader.getSize vh = bs.length := by
  constructor
  · intro h
    -- a buffer with room for both what is announced and what is written
    have hwrites := hmakes.writes (List.replicate (IVariableHeader.getSize vh + bs.length) 0) 0 0
      (by rw [List.length_replicate]; omega)
    obtain ⟨dst', hserialize⟩ := h (List.replicate (IVariableHeader.getSize vh + bs.length) 0) 0 0
      (by rw [List.length_replicate]; omega)
    rw [hwrites] at hserialize
    simp only [Except.ok.injEq, Prod.mk.injEq, Nat.zero_add] at hserialize
    exact hserialize.2.symm
  · intro hsize dst pos offset hroom
    rw [hsize] at hroom ⊢
    exact ⟨_, hmakes.writes dst pos offset hroom⟩

/-- `CreateMqttPacket` gets past its assertion when the size was predicted, and only
    then. -/
theorem createMqttPacket_ok_iff {α : Type} [IVariableHeader α] {vh : α}
    {copies : Nat → List Copy} {bs : Bytes}
    (hmakes : Makes (IVariableHeader.serialize vh) copies bs) (pack_type : UInt8) :
    (∃ packet, createMqttPacket pack_type vh = .ok packet) ↔
      IVariableHeader.getSize vh = bs.length := by
  have hfh := makes_fixedHeader ⟨pack_type, IVariableHeader.getSize vh⟩
  have hlen := size_fixedHeader ⟨pack_type, IVariableHeader.getSize vh⟩
  constructor
  · rintro ⟨packet, hpacket⟩
    simp only [createMqttPacket, hfh.eq_replay, hmakes.eq_replay, bind_assoc, pure_bind] at hpacket
    obtain ⟨dst₁, -, hpacket⟩ := Except.bind_eq_ok_iff.mp hpacket
    obtain ⟨dst₂, -, hpacket⟩ := Except.bind_eq_ok_iff.mp hpacket
    split at hpacket
    · cases hpacket  -- the assertion
    · rename_i hsize
      rw [List.length_cons, ← hlen] at hsize
      omega
  · intro hsize
    exact ⟨_, createMqttPacket_eq hmakes.writes hsize pack_type⟩

/-! ## The eleven headers -/

/-- Every implementation of `IVariableHeader`. The answers are `ConnactVH`, `DisconnectVH`,
    `SubackVH`, `PubackVH` and `UnsubAckVH`; the protocol name is a field of four bytes. -/
inductive Header where
  | answer (vh : AnswerHeader)
  | connect (vh : ConnectVH) (name_size : vh.name.length = 4)
  | publish (vh : PublishVH)
  | subscribe (vh : SubscribeVH)
  | unsubscribe (vh : UnsubscribeVH)
  | typicalV3 (vh : TypicalV3VH)
  | publishV3 (vh : PublishV3VH)

namespace Header

/-- `GetSize` and `Serialize` of each of the eleven. -/
instance everyVariableHeader : IVariableHeader Header where
  getSize
    | answer vh => IVariableHeader.getSize vh
    | connect vh _ => IVariableHeader.getSize vh
    | publish vh => IVariableHeader.getSize vh
    | subscribe vh => IVariableHeader.getSize vh
    | unsubscribe vh => IVariableHeader.getSize vh
    | typicalV3 vh => IVariableHeader.getSize vh
    | publishV3 vh => IVariableHeader.getSize vh
  serialize
    | answer vh => IVariableHeader.serialize vh
    | connect vh _ => IVariableHeader.serialize vh
    | publish vh => IVariableHeader.serialize vh
    | subscribe vh => IVariableHeader.serialize vh
    | unsubscribe vh => IVariableHeader.serialize vh
    | typicalV3 vh => IVariableHeader.serialize vh
    | publishV3 vh => IVariableHeader.serialize vh

/-- The properties of a header, none where it has no property chain. -/
def properties : Header → List MqttProperty
  | answer vh => vh.p_chain.toList
  | publish vh => vh.p_chain.toList
  | subscribe vh => vh.p_chain.toList
  | unsubscribe vh => vh.p_chain.toList
  | connect _ _ => []
  | typicalV3 _ => []
  | publishV3 _ => []

/-- What `Serialize` writes. -/
def encode : Header → Bytes
  | answer vh => encodeHeader vh
  | connect vh _ => encodeConnect vh
  | publish vh => encodeTopic vh.topic_name vh.packet_id ++ encodeChain vh.p_chain
  | subscribe vh =>
    (if vh.packet_id ≠ 0 then htons vh.packet_id.toNat else []) ++ encodeChain vh.p_chain
  | unsubscribe vh => htons vh.packet_id.toNat ++ encodeChain vh.p_chain
  | typicalV3 vh => htons vh.packet_id.toNat
  | publishV3 vh => encodeTopic vh.topic_name vh.packet_id

/-- The headers whose size is right: a PUBLISH header has a packet id. A SUBSCRIBE header
    without one is two bytes too large, which makes up for a length field of two bytes. -/
def Sized : Header → Prop
  | publish vh => vh.packet_id ≠ 0
  | publishV3 vh => vh.packet_id ≠ 0
  | subscribe vh => vh.packet_id = 0 ∧ 128 ≤ (encodeProperties vh.p_chain.toList).length ∧
      (encodeProperties vh.p_chain.toList).length < 16384
  | _ => True

end Header

/-- `Serialize` of a header makes the copies of what it writes. -/
theorem makes_everyHeader (vh : Header) :
    ∃ copies, Makes (IVariableHeader.serialize vh) copies vh.encode := by
  cases vh with
  | answer vh => exact ⟨_, makes_header vh⟩
  | connect vh name_size => exact makes_connect name_size
  | publish vh => exact makes_publishVH vh
  | subscribe vh => exact makes_subscribe vh
  | unsubscribe vh => exact makes_unsubscribe vh
  | typicalV3 vh => exact ⟨_, makes_bytes (htons vh.packet_id.toNat)⟩
  | publishV3 vh => exact makes_publishV3VH vh

/-- The name and, with an id, two bytes more. -/
theorem length_encodeTopic (topic_name : Bytes) (packet_id : UInt16) :
    (encodeTopic topic_name packet_id).length =
      MqttStringEntity.size topic_name + if packet_id ≠ 0 then 2 else 0 := by
  rw [encodeTopic, List.length_append, length_encodeString]
  split <;> rfl

/-- The length field of properties of up to 65535 bytes. -/
theorem getVarIntSize_eq_two_iff {n : Nat} (h : n ≤ 65535) :
    getVarIntSize (UInt32.ofNat n) = 2 ↔ 128 ≤ n ∧ n < 16384 := by
  have hnat : (UInt32.ofNat n).toNat = n := by
    rw [UInt32.toNat_ofNat', Nat.mod_eq_of_lt (by omega)]
  have hzero : UInt32.ofNat n = 0 ↔ n = 0 := by
    rw [← UInt32.toNat_inj, hnat]
    rfl
  rw [getVarIntSize, hnat]
  simp only [hzero, getVarIntSizeLoop]
  split
  · omega
  · repeat' split
    all_goals omega

/-- A number takes at least one byte. -/
theorem getVarIntSize_pos (value : UInt32) : 0 < getVarIntSize value := by
  rw [← length_codeVarInt]
  exact (codeVarInt_spec value).1.length_pos

/-- `GetSize` is the number of bytes written for the headers with the right size only. -/
theorem getSize_eq_length_iff {vh : Header}
    (hchain : (vh.properties.map fun p => p.size + 1).sum ≤ 65535) :
    IVariableHeader.getSize vh = vh.encode.length ↔ vh.Sized := by
  -- one header after the other; only PUBLISH, its version 3 and SUBSCRIBE depend on their id
  cases vh with
  | answer vh => exact iff_of_true (length_encodeHeader hchain).symm trivial
  | connect vh name_size => exact iff_of_true (length_encodeConnect name_size).symm trivial
  | publish vh =>
    have hlen := length_encodeChain hchain
    show MqttStringEntity.size vh.topic_name + 2 + chainSize vh.p_chain =
      (encodeTopic vh.topic_name vh.packet_id ++ encodeChain vh.p_chain).length ↔ vh.packet_id ≠ 0
    rw [List.length_append, length_encodeTopic, hlen, chainSize]
    by_cases hid : vh.packet_id = 0
    · rw [if_neg (not_not.mpr hid)]
      exact iff_of_false (by omega) (not_not.mpr hid)
    · rw [if_pos hid]
      exact iff_of_true (by omega) hid
  | subscribe vh =>
    have hlen := length_encodeChain hchain
    have hsize := getSize_of_total_le hchain
    have htwo := getVarIntSize_eq_two_iff (n := vh.p_chain.getSize) (by
      rw [hsize, length_encodeProperties]
      exact hchain)
    have hpos := getVarIntSize_pos (UInt32.ofNat vh.p_chain.getSize)
    show 2 + vh.p_chain.getSize = ((if vh.packet_id ≠ 0 then htons vh.packet_id.toNat else []) ++
      encodeChain vh.p_chain).length ↔ _
    rw [Header.Sized, ← hsize, ← htwo, List.length_append, hlen]
    by_cases hid : vh.packet_id = 0
    · -- two bytes too many for the packet id, those of the length field too few
      rw [if_neg (not_not.mpr hid), List.length_nil, and_iff_right hid]
      omega
    · rw [if_pos hid, length_htons]
      exact iff_of_false (by omega) fun h => hid h.1
  | unsubscribe vh =>
    have hlen := length_encodeChain hchain
    refine iff_of_true ?_ trivial
    show 2 + chainSize vh.p_chain = (htons vh.packet_id.toNat ++ encodeChain vh.p_chain).length
    rw [List.length_append, length_htons, hlen, chainSize]
  | typicalV3 vh => exact iff_of_true rfl trivial
  | publishV3 vh =>
    show MqttStringEntity.size vh.topic_name + 2 =
      (encodeTopic vh.topic_name vh.packet_id).length ↔ vh.packet_id ≠ 0
    rw [length_encodeTopic]
    by_cases hid : vh.packet_id = 0
    · rw [if_neg (not_not.mpr hid)]
      exact iff_of_false (by omega) (not_not.mpr hid)
    · rw [if_pos hid]
      exact iff_of_true rfl hid

/-- For every header with properties of up to 65535 bytes, `Serialize` advances the offset
    by `GetSize()` bytes exactly for a PUBLISH header with a packet id, a SUBSCRIBE header
    without one and with a length field of two bytes, and each of the others. For the same
    headers, and no others, `CreateMqttPacket` gives a packet back. -/
theorem getSize_predicts_serialize_iff (vh : Header) (pack_type : UInt8)
    (hchain : (vh.properties.map fun p => p.size + 1).sum ≤ 65535) :
    (SizePredicted vh ↔ vh.Sized) ∧
      ((∃ packet, createMqttPacket pack_type vh = .ok packet) ↔ vh.Sized) := by
  obtain ⟨copies, hmakes⟩ := makes_everyHeader vh
  have hsize := getSize_eq_length_iff hchain
  exact ⟨(sizePredicted_iff hmakes).trans hsize,
    (createMqttPacket_ok_iff hmakes pack_type).trans hsize⟩

/-- Both kinds of header: a SUBACK is sized for its reason codes. -/
theorem getSize_predicts_serialize_suback :
    SizePredicted (Header.answer (.suback ⟨7, OrderedSet.empty, [0, 1, 2]⟩)) ∧
      ¬ SizePredicted (Header.publish ⟨[0x74], 0, OrderedSet.empty⟩) :=
  ⟨(getSize_predicts_serialize_iff (.answer (.suback ⟨7, OrderedSet.empty, [0, 1, 2]⟩)) 0x90
      (by decide)).1.mpr trivial,
    fun h => (getSize_predicts_serialize_iff (.publish ⟨[0x74], 0, OrderedSet.empty⟩) 0x30
      (by decide)).1.mp h rfl⟩

/-- A SUBSCRIBE header with packet id 1 and no properties announces two bytes and writes
    three; the buffer of its packet is one byte too short. -/
theorem subscribeVH_writes_more :
    IVariableHeader.getSize (SubscribeVH.mk 1 OrderedSet.empty) = 2 ∧
      IVariableHeader.serialize (SubscribeVH.mk 1 OrderedSet.empty) [0, 0, 0] 0 0 =
        .ok ([0, 1, 0], 3) ∧
      createMqttPacket (packetByte .SUBSCRIBE) (SubscribeVH.mk 1 OrderedSet.empty) =
        .error .outOfBounds ∧
      ¬ SizePredicted (SubscribeVH.mk 1 OrderedSet.empty) := by
  refine ⟨by decide, by decide, by decide, fun h => ?_⟩
  obtain ⟨dst', hserialize⟩ := h [0, 0] 0 0 (by decide)
  exact nomatch hserialize

end Mqtt.Spec
