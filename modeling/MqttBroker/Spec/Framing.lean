import MqttBroker.Native.Handlers
import MqttBroker.Spec.Packets
import MqttBroker.Spec.Socket

/-!
# Framing

A packet that is built from a header fills its buffer byte by byte, and the
fixed-header reader finds in it the first byte and the length of the rest. For a
PUBLISH packet the handler gets back from the rest what the packet was made of.
-/

namespace Mqtt.Spec

open Mqtt.Native

/-! ## Answers -/

/-- The headers that `CreateMqttPacket` gets without a message, as `VariableHeader`
    holds them. `TypicalVH` is a `PubackVH`. -/
inductive AnswerHeader where
  | connact (vh : ConnactVH)
  | disconnect (vh : DisconnectVH)
  | suback (vh : SubackVH)
  | puback (vh : PubackVH)
  | unsubAck (vh : UnsubAckVH)

namespace AnswerHeader

/-- `GetSize` and `Serialize` of each of the five. -/
instance answerVariableHeader : IVariableHeader AnswerHeader where
  getSize
    | connact vh => IVariableHeader.getSize vh
    | disconnect vh => IVariableHeader.getSize vh
    | suback vh => IVariableHeader.getSize vh
    | puback vh => IVariableHeader.getSize vh
    | unsubAck vh => IVariableHeader.getSize vh
  serialize
    | connact vh => IVariableHeader.serialize vh
    | disconnect vh => IVariableHeader.serialize vh
    | suback vh => IVariableHeader.serialize vh
    | puback vh => IVariableHeader.serialize vh
    | unsubAck vh => IVariableHeader.serialize vh

/-- The property chain of a header. -/
def p_chain : AnswerHeader → MqttPropertyChain
  | connact vh => vh.p_chain
  | disconnect vh => vh.p_chain
  | suback vh => vh.p_chain
  | puback vh => vh.p_chain
  | unsubAck vh => vh.p_chain

end AnswerHeader

/-- The copies of a list of reason codes. -/
def reasonCopies : List UInt8 → (pos : Nat) → List Copy
  | [], _ => []
  | reason_code :: rest, pos => (pos, [reason_code]) :: reasonCopies rest (pos + 1)

/-- The copies of a packet id, properties and reason codes. -/
def reasonsCopies (packet_id : UInt16) (p_chain : MqttPropertyChain) (reason_codes : List UInt8)
    (pos : Nat) : List Copy :=
  (pos, htons packet_id.toNat) :: (chainCopies p_chain (pos + 2) ++
    reasonCopies reason_codes (pos + 2 + (encodeChain p_chain).length))

/-- The copies of a header. -/
def headerCopies : AnswerHeader → (pos : Nat) → List Copy
  | .connact vh, pos => (pos, [vh.conn_acknowledge_flags]) :: (pos + 1, [vh.reason_code]) ::
    chainCopies vh.p_chain (pos + 2)
  | .disconnect vh, pos => (pos, [vh.reason_code]) :: chainCopies vh.p_chain (pos + 1)
  | .suback vh, pos => reasonsCopies vh.packet_id vh.p_chain vh.reason_codes pos
  | .puback vh, pos => (pos, htons vh.packet_id.toNat) :: (pos + 2, [vh.reason_code]) ::
    chainCopies vh.p_chain (pos + 3)
  | .unsubAck vh, pos => reasonsCopies vh.packet_id vh.p_chain vh.reason_codes pos

/-- The bytes a header is written as. -/
def encodeHeader : AnswerHeader → Bytes
  | .connact vh => vh.conn_acknowledge_flags :: vh.reason_code :: encodeChain vh.p_chain
  | .disconnect vh => vh.reason_code :: encodeChain vh.p_chain
  | .suback vh => htons vh.packet_id.toNat ++ (encodeChain vh.p_chain ++ vh.reason_codes)
  | .puback vh => htons vh.packet_id.toNat ++ (vh.reason_code :: encodeChain vh.p_chain)
  | .unsubAck vh => htons vh.packet_id.toNat ++ (encodeChain vh.p_chain ++ vh.reason_codes)

/-- The loop over the reason codes, `local_offset` bytes behind its buffer. -/
theorem makes_reasonCodes (reason_codes : List UInt8) (pos local_offset : Nat) :
    (∀ dst, serializeReasonCodes pos reason_codes dst local_offset = (do
      let dst ← replay (reasonCopies reason_codes (pos + local_offset)) dst
      return (dst, local_offset + reason_codes.length))) ∧
    List.Consecutive (pos + local_offset) (reasonCopies reason_codes (pos + local_offset)) ∧
    List.written (reasonCopies reason_codes (pos + local_offset)) = reason_codes := by
  induction reason_codes generalizing local_offset with
  | nil => exact ⟨fun _ => rfl, .nil, rfl⟩
  | cons reason_code rest ih =>
    obtain ⟨hloop, hcons, hwritten⟩ := ih (local_offset + 1)
    refine ⟨fun dst => ?_, .cons hcons, ?_⟩
    · simp only [serializeReasonCodes, hloop, reasonCopies, replay, bind_assoc, List.length_cons,
        Nat.add_assoc, Nat.add_comm 1]
    · rw [reasonCopies, List.written_cons, Nat.add_assoc, hwritten]
      rfl

/-- SUBACK and UNSUBACK copy the id, the properties and one byte for each reason code. -/
theorem makes_reasons (packet_id : UInt16) (p_chain : MqttPropertyChain)
    (reason_codes : List UInt8) :
    Makes (serializeReasons packet_id p_chain reason_codes)
      (reasonsCopies packet_id p_chain reason_codes)
      (htons packet_id.toNat ++ (encodeChain p_chain ++ reason_codes)) := by
  have hchain := makes_chain p_chain
  have hloop := fun pos => makes_reasonCodes reason_codes pos (2 + (encodeChain p_chain).length)
  refine ⟨fun dst pos offset => ?_, fun pos => .cons ?_, fun pos => ?_⟩
  · simp only [serializeReasons, hchain.eq_replay, (hloop pos).1, reasonsCopies, replay,
      replay_append, bind_assoc, pure_bind, List.length_append, length_htons, Nat.zero_add,
      Nat.add_assoc]
  · apply (hchain.consecutive (pos + 2)).append
    rw [hchain.written, Nat.add_assoc]
    exact (hloop pos).2.1
  · rw [reasonsCopies, List.written_cons, List.written_append, hchain.written, Nat.add_assoc,
      (hloop pos).2.2]

/-- `Serialize` of a header makes the copies of the header. -/
theorem makes_header (vh : AnswerHeader) :
    Makes (IVariableHeader.serialize vh) (headerCopies vh) (encodeHeader vh) := by
  -- each header copies its fixed bytes one by one, and the properties behind them
  cases vh with
  | connact vh =>
    have hchain := makes_chain vh.p_chain
    have hlen : (encodeHeader (.connact vh)).length = 2 + (encodeChain vh.p_chain).length := by
      simp only [encodeHeader, List.length_cons]; omega
    refine ⟨fun dst pos offset => ?_, fun pos => .cons (.cons (hchain.consecutive _)), fun pos => ?_⟩
    · simp only [IVariableHeader.serialize, hchain.eq_replay, headerCopies, hlen, replay,
        bind_assoc, Nat.zero_add, Nat.reduceAdd, Nat.add_assoc]
    · rw [headerCopies, List.written_cons, List.written_cons, hchain.written]
      rfl
  | disconnect vh =>
    have hchain := makes_chain vh.p_chain
    have hlen : (encodeHeader (.disconnect vh)).length = 1 + (encodeChain vh.p_chain).length := by
      simp only [encodeHeader, List.length_cons]; omega
    refine ⟨fun dst pos offset => ?_, fun pos => .cons (hchain.consecutive _), fun pos => ?_⟩
    · simp only [IVariableHeader.serialize, hchain.eq_replay, headerCopies, hlen, replay,
        bind_assoc, pure_bind, Nat.zero_add]
    · rw [headerCopies, List.written_cons, hchain.written]
      rfl
  | suback vh => exact makes_reasons vh.packet_id vh.p_chain vh.reason_codes
  | puback vh =>
    have hchain := makes_chain vh.p_chain
    have hlen : (encodeHeader (.puback vh)).length = 3 + (encodeChain vh.p_chain).length := by
      simp only [encodeHeader, List.length_append, List.length_cons, length_htons]; omega
    refine ⟨fun dst pos offset => ?_, fun pos => .cons (.cons (hchain.consecutive _)), fun pos => ?_⟩
    · simp only [IVariableHeader.serialize, hchain.eq_replay, headerCopies, hlen, replay,
        bind_assoc, pure_bind, Nat.zero_add, Nat.reduceAdd]
    · rw [headerCopies, List.written_cons, List.written_cons, hchain.written]
      rfl
  | unsubAck vh => exact makes_reasons vh.packet_id vh.p_chain vh.reason_codes

/-- `GetSize` of a header is the number of bytes written. -/
theorem length_encodeHeader {vh : AnswerHeader}
    (h : (vh.p_chain.toList.map fun p => p.size + 1).sum ≤ 65535) :
    (encodeHeader vh).length = IVariableHeader.getSize vh := by
  have hchain := length_encodeChain h
  cases vh <;>
    simp only [encodeHeader, AnswerHeader.p_chain, IVariableHeader.getSize, chainSize,
      List.length_append, List.length_cons, length_htons] at hchain ⊢ <;>
    omega

/-! ## Packets -/

/-- The size `CreateMqttPacket` allocates and gives back. -/
def packetSize (first : UInt8) (vh : AnswerHeader) : Nat :=
  IVariableHeader.getSize vh + (FixedHeader.mk first (IVariableHeader.getSize vh)).size

/-- The copies that `CreateMqttPacket` makes. -/
def packetCopies (first : UInt8) (vh : AnswerHeader) : List Copy :=
  let fh : FixedHeader := ⟨first, IVariableHeader.getSize vh⟩
  fixedHeaderCopies fh 0 ++ headerCopies vh fh.size

/-- What `CreateMqttPacket` writes to a buffer: a fixed header and a header behind it. -/
def writePacket (first : UInt8) (vh : AnswerHeader) (dst : Bytes) : Exec (Bytes × Nat) := do
  let (dst, offset) ← (FixedHeader.mk first (IVariableHeader.getSize vh)).serialize dst 0 0
  IVariableHeader.serialize vh dst offset offset

/-- The writers make the copies of the packet and no others, whatever the buffer is. -/
theorem writePacket_eq_replay (first : UInt8) (vh : AnswerHeader) (dst : Bytes) :
    writePacket first vh dst = (do
      let dst ← replay (packetCopies first vh) dst
      return (dst, (FixedHeader.mk first (IVariableHeader.getSize vh)).size +
        (encodeHeader vh).length)) := by
  have hfh := makes_fixedHeader ⟨first, IVariableHeader.getSize vh⟩
  have hsize := size_fixedHeader ⟨first, IVariableHeader.getSize vh⟩
  simp only [writePacket, hfh.eq_replay, (makes_header vh).eq_replay, packetCopies,
    replay_append, bind_assoc, pure_bind, List.length_cons, Nat.zero_add, ← hsize]

/-- `CreateMqttPacket` is these writers on its fresh buffer, with the assertion behind them. -/
theorem createMqttPacket_eq_writePacket (first : UInt8) (vh : AnswerHeader) :
    createMqttPacket first vh = (do
      let (dst, offset) ← writePacket first vh (List.replicate (packetSize first vh) 0)
      if packetSize first vh ≠ offset then throw .assertFailed
      return dst) := by
  simp only [createMqttPacket, writePacket, packetSize, bind_assoc]
  rfl

/-- The copies of a packet leave no gap, from its first byte on. -/
theorem consecutive_packetCopies (first : UInt8) (vh : AnswerHeader) :
    List.Consecutive 0 (packetCopies first vh) := by
  have hfh := makes_fixedHeader ⟨first, IVariableHeader.getSize vh⟩
  apply (hfh.consecutive 0).append
  rw [hfh.written, List.length_cons, ← size_fixedHeader, Nat.zero_add]
  exact (makes_header vh).consecutive _

/-- The copies make up the packet, when `GetSize` is the size of what is written. -/
theorem written_packetCopies {first : UInt8} {vh : AnswerHeader}
    (h : (encodeHeader vh).length = IVariableHeader.getSize vh) :
    List.written (packetCopies first vh) = packetBytes first (encodeHeader vh) := by
  rw [packetCopies, List.written_append, (makes_fixedHeader _).written, (makes_header vh).written,
    packetBytes, h, List.cons_append]

/-- The packet with a packet id, no properties and reason codes. -/
def reasonsPacket (type : PackType) (packet_id : UInt16) (reason_codes : List UInt8) : Bytes :=
  packetBytes (packetByte type) (htons packet_id.toNat ++ 0 :: reason_codes)

/-- The SUBACK that the broker makes for a list of reason codes. -/
theorem createMqttPacket_suback (packet_id : UInt16) (reason_codes : List UInt8) :
    createMqttPacket (packetByte .SUBACK) (SubackVH.mk packet_id OrderedSet.empty reason_codes) =
      .ok (reasonsPacket .SUBACK packet_id reason_codes) := by
  let vh : SubackVH := ⟨packet_id, OrderedSet.empty, reason_codes⟩
  have hsize : IVariableHeader.getSize vh = (encodeHeader (.suback vh)).length :=
    (@length_encodeHeader (.suback vh) (Nat.zero_le _)).symm
  rw [reasonsPacket, ← List.singleton_append, ← encodeChain_empty]
  exact createMqttPacket_eq (makes_header (.suback vh)).writes hsize _

/-- The UNSUBACK that the broker makes for a list of reason codes. -/
theorem createMqttPacket_unsubAck (packet_id : UInt16) (reason_codes : List UInt8) :
    createMqttPacket (packetByte .UNSUBACK)
      (UnsubAckVH.mk packet_id OrderedSet.empty reason_codes) =
        .ok (reasonsPacket .UNSUBACK packet_id reason_codes) := by
  let vh : UnsubAckVH := ⟨packet_id, OrderedSet.empty, reason_codes⟩
  have hsize : IVariableHeader.getSize vh = (encodeHeader (.unsubAck vh)).length :=
    (@length_encodeHeader (.unsubAck vh) (Nat.zero_le _)).symm
  rw [reasonsPacket, ← List.singleton_append, ← encodeChain_empty]
  exact createMqttPacket_eq (makes_header (.unsubAck vh)).writes hsize _

/-- A packet is framed exactly. `CreateMqttPacket` is the two writers on its fresh buffer; they
    make these copies on whatever buffer and no others, and the copies make the packet of every
    buffer of its size: they write each of its bytes once and none outside of it. The sizes
    agree, and the fixed-header reader gets back the first byte and the length of what follows. -/
structure Framed (first : UInt8) (vh : AnswerHeader) (packet : Bytes) : Prop where
  created : createMqttPacket first vh = .ok packet
  allocated : packet.length = packetSize first vh
  writers : createMqttPacket first vh = (do
    let (dst, offset) ← writePacket first vh (List.replicate (packetSize first vh) 0)
    if packetSize first vh ≠ offset then throw .assertFailed
    return dst)
  copies : ∀ dst, writePacket first vh dst = (do
    let dst ← replay (packetCopies first vh) dst
    return (dst, packetSize first vh))
  copied : ∀ dst : Bytes, dst.length = packetSize first vh →
    replay (packetCopies first vh) dst = .ok packet
  written_once : ∀ i, List.timesWritten (packetCopies first vh) i =
    if i < packetSize first vh then 1 else 0
  read_back : ∃ rest, readFixedHeader packet = .ok (⟨first, rest.length⟩, rest)

/-- What the fixed-header reader gets out of a packet. -/
theorem readFixedHeader_packetBytes {body : Bytes} (h : body.length < 2 ^ 28) (first : UInt8) :
    readFixedHeader (packetBytes first body) = .ok (⟨first, body.length⟩, body) := by
  have hnat : (UInt32.ofNat body.length).toNat = body.length := by
    rw [UInt32.toNat_ofNat', Nat.mod_eq_of_lt (by omega)]
  obtain ⟨hvar, hvalue⟩ := codeVarInt_spec (UInt32.ofNat body.length)
  rw [packetBytes, readFixedHeader_of_isVarInt hvar (length_codeVarInt_le (by omega)), hvalue, hnat]

/-- A string that stands at some place of a buffer is read back. -/
theorem readString_of_drop {buf data rest : Bytes} {i : Nat} (hdata : data.length ≤ 65535)
    (h : buf.drop i = encodeString data ++ rest) :
    readString buf i = .ok (data, i + (2 + data.length)) := by
  have hnat : (UInt16.ofNat data.length).toNat = data.length := by
    rw [UInt16.toNat_ofNat', Nat.mod_eq_of_lt (by omega)]
  rw [encodeString, List.append_assoc] at h
  obtain ⟨hlen, hread⟩ := (read_prefixed_iff rfl).mpr ⟨hnat.symm, rest, h⟩
  rw [readString, hlen, Except.ok_bind]
  dsimp only
  rw [hread, Except.ok_bind, Except.pure_eq_ok, hnat, Nat.add_assoc]

/-- What is read as a string stands there with its length in front. -/
theorem readString_eq_ok_iff {buf data : Bytes} {i j : Nat} :
    readString buf i = .ok (data, j) ↔ data.length ≤ 65535 ∧ j = i + (2 + data.length) ∧
      ∃ rest, buf.drop i = encodeString data ++ rest := by
  constructor
  · intro h
    obtain ⟨len, hlen, h⟩ := Except.bind_eq_ok_iff.mp h
    obtain ⟨bs, hbs, h⟩ := Except.bind_eq_ok_iff.mp h
    obtain ⟨rfl, rfl⟩ := Prod.mk.inj (Except.ok.inj h)
    obtain ⟨hlength, rest, hdrop⟩ := (read_prefixed_iff rfl).mp ⟨hlen, hbs⟩
    have hlt := len.toNat_lt
    refine ⟨by omega, by omega, rest, ?_⟩
    rw [hdrop, encodeString, List.append_assoc]
  · rintro ⟨hle, rfl, rest, hdrop⟩
    exact readString_of_drop hle hdrop

/-- The empty property chain is read back. -/
theorem create_zero (rest : Bytes) :
    MqttPropertyChain.create OrderedSet.empty (0 :: rest) = .ok ⟨.ok, 1, OrderedSet.empty⟩ := by
  have hzero := deCodeVarInt_of_isVarInt (.last (by decide : (0 : UInt8).toNat < 128))
    (by decide) rest
  rw [List.singleton_append] at hzero
  simp only [MqttPropertyChain.create, MqttPropertyChain.createFuel, hzero, Except.ok_bind]
  rfl

/-- The packet id behind a topic name is read back when there is one. -/
theorem readTopic_of_encodeTopic {topic_name : Bytes} {packet_id : UInt16}
    (hname : topic_name.length ≤ 65535) (rest : Bytes) :
    readString (encodeTopic topic_name packet_id ++ rest) 0 =
        .ok (topic_name, 2 + topic_name.length) ∧
      (packet_id ≠ 0 → convertToHost2Bytes (encodeTopic topic_name packet_id ++ rest)
        (2 + topic_name.length) = .ok packet_id) ∧
      (encodeTopic topic_name packet_id).length =
        2 + topic_name.length + (if packet_id ≠ 0 then 2 else 0) := by
  have hlen := length_encodeString topic_name
  rw [MqttStringEntity.size] at hlen
  have hbuf : encodeTopic topic_name packet_id ++ rest = encodeString topic_name ++
      ((if packet_id ≠ 0 then htons packet_id.toNat else []) ++ rest) :=
    List.append_assoc ..
  rw [hbuf]
  refine ⟨?_, fun hid => ?_, ?_⟩
  · rw [readString_of_drop hname rfl, Nat.zero_add]
  · -- with an id of its own the name is followed by it
    rw [if_pos hid]
    exact convertToHost2Bytes_of_drop (List.drop_left' hlen)
  · rw [encodeTopic, List.length_append, hlen]
    split <;> rfl

/-- A PUBLISH header is read back by its constructor, whatever follows, when its
    properties are. -/
theorem ofBuf_publishVH {vh : PublishVH} (hname : vh.topic_name.length ≤ 65535)
    (hchain : ∀ rest, MqttPropertyChain.create OrderedSet.empty (encodeChain vh.p_chain ++ rest) =
      .ok ⟨.ok, (encodeChain vh.p_chain).length, vh.p_chain⟩) (rest : Bytes) :
    PublishVH.ofBuf (vh.packet_id != 0)
        (encodeTopic vh.topic_name vh.packet_id ++ encodeChain vh.p_chain ++ rest) =
      .ok (vh, (encodeTopic vh.topic_name vh.packet_id ++ encodeChain vh.p_chain).length) := by
  obtain ⟨topic_name, packet_id, p_chain⟩ := vh
  dsimp only at *
  rw [List.append_assoc, List.length_append]
  obtain ⟨htopic, hpacket_id, hlen⟩ :=
    @readTopic_of_encodeTopic topic_name packet_id hname (encodeChain p_chain ++ rest)
  have hdrop : (encodeTopic topic_name packet_id ++ (encodeChain p_chain ++ rest)).drop
      (2 + topic_name.length + (if packet_id ≠ 0 then 2 else 0)) = encodeChain p_chain ++ rest :=
    List.drop_left' hlen
  -- the reader is told whether to expect an id
  by_cases hid : packet_id = 0
  · subst hid
    rw [hlen]
    simp only [ne_eq, not_true_eq_false, ↓reduceIte, Nat.add_zero] at hdrop ⊢
    simp only [PublishVH.ofBuf, htopic, Except.ok_bind, bne_self_eq_false, Bool.false_eq_true,
      ↓reduceIte, Except.pure_eq_ok, hdrop, hchain]
  · have hpresent : (packet_id != 0) = true := by simpa using hid
    rw [hlen]
    simp only [ne_eq, hid, not_false_eq_true, ↓reduceIte] at hdrop ⊢
    simp only [PublishVH.ofBuf, htopic, Except.ok_bind, hpresent, ↓reduceIte, hpacket_id hid,
      Except.pure_eq_ok, hdrop, hchain]

/-- A PUBLISH header without properties is read back by its constructor. -/
theorem ofBuf_encodePublish {topic_name : Bytes} {packet_id : UInt16}
    (hname : topic_name.length ≤ 65535) (rest : Bytes) :
    PublishVH.ofBuf (packet_id != 0) (encodePublish topic_name packet_id ++ rest) =
      .ok (⟨topic_name, packet_id, OrderedSet.empty⟩,
        (encodePublish topic_name packet_id).length) := by
  rw [encodePublish_eq]
  refine @ofBuf_publishVH ⟨topic_name, packet_id, OrderedSet.empty⟩ hname (fun rest => ?_) rest
  rw [encodeChain_empty]
  exact create_zero rest

/-- `HandleMqttPublish` gets back what a PUBLISH was made of, when the QoS bits of the
    first byte say whether there is a packet id. -/
theorem handleMqttPublish_encodePublish {f_head : FixedHeader} {topic_name body : Bytes}
    {packet_id : UInt16} {message : MqttBinaryDataEntity} (hname : topic_name.length ≤ 65535)
    (hid : f_head.qoS = 0 ↔ packet_id = 0)
    (hbody : encodePublish topic_name packet_id ++ message.data = body)
    (hlen : f_head.remaining_len = body.length) :
    Broker.handleMqttPublish f_head body =
      .ok (⟨topic_name, packet_id, OrderedSet.empty⟩, message) := by
  have hmessage := message.size_lt
  have hsum := congrArg List.length hbody
  rw [List.length_append] at hsum
  -- the header decides on the QoS bits whether there is a packet id
  have hpresent : (f_head.qoS != 0) = (packet_id != 0) := by
    rw [Bool.eq_iff_iff, bne_iff_ne, bne_iff_ne]
    exact not_congr hid
  -- the message is what is left of the body
  have hrest : body.drop (encodePublish topic_name packet_id).length = message.data ++ [] := by
    rw [← hbody, List.drop_left, List.append_nil]
  have hdata : (f_head.remaining_len + 2 ^ 32 - (encodePublish topic_name packet_id).length) %
      2 ^ 32 = message.data.length := by omega
  have hnat : (UInt16.ofNat message.data.length).toNat = message.data.length := by
    rw [UInt16.toNat_ofNat', Nat.mod_eq_of_lt hmessage]
  have hvh := @ofBuf_encodePublish topic_name packet_id hname message.data
  rw [hbody] at hvh
  have hcopy : MqttPropertyChain.copy OrderedSet.empty = .ok OrderedSet.empty := rfl
  rw [Broker.handleMqttPublish, hpresent, hvh, Except.ok_bind]
  dsimp only
  rw [hcopy, Except.ok_bind, hdata, readBytes_of_drop hrest (by omega), Except.ok_bind,
    ofBuf_of_drop hrest (by omega) hnat, Except.ok_bind, Except.pure_eq_ok]

/-- A PUBLISH packet built for a topic name, a packet id and a payload gives back all
    of them, its first byte and the empty property chain, for every packet id that is
    0 exactly when the QoS bits of the first byte are. -/
theorem publish_round_trip {first : UInt8} {topic_name : Bytes} {packet_id : UInt16}
    (message : MqttBinaryDataEntity) (hname : topic_name.length ≤ 65535)
    (hid : (FixedHeader.mk first 0).qoS = 0 ↔ packet_id = 0) :
    ∃ packet f_head rest,
      createMqttPacketMessage first (PublishVH.mk topic_name packet_id OrderedSet.empty)
        (some message) = .ok packet ∧
      readFixedHeader packet = .ok (f_head, rest) ∧
      f_head.first = first ∧ f_head.remaining_len = rest.length ∧
      Broker.handleMqttPublish f_head rest =
        .ok (⟨topic_name, packet_id, OrderedSet.empty⟩, message) := by
  have hmessage := message.size_lt
  have hshort : (encodePublish topic_name packet_id ++ message.data).length < 2 ^ 28 := by
    have hstring := length_encodeString topic_name
    rw [MqttStringEntity.size] at hstring
    by_cases hzero : packet_id = 0 <;> simp [encodePublish, hzero, hstring] <;> omega
  have hread := readFixedHeader_packetBytes hshort first
  exact ⟨_, _, _, createMqttPacketMessage_eq message hid, hread, rfl, rfl,
    handleMqttPublish_encodePublish hname hid rfl rfl⟩

/-- The topic `t` with the payload `x`, QoS 1 and packet id 7. -/
theorem publish_round_trip_qos1 : ∃ packet f_head rest,
    createMqttPacketMessage 0x32 (PublishVH.mk [0x74] 7 OrderedSet.empty)
      (some ⟨[0x78], by decide⟩) = .ok packet ∧
    readFixedHeader packet = .ok (f_head, rest) ∧
    f_head.first = 0x32 ∧ f_head.remaining_len = rest.length ∧
    Broker.handleMqttPublish f_head rest =
      .ok (⟨[0x74], 7, OrderedSet.empty⟩, ⟨[0x78], by decide⟩) :=
  publish_round_trip ⟨[0x78], by decide⟩ (by decide) (by decide)

end Mqtt.Spec
