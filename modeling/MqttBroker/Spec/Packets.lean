import MqttBroker.Native.Packet
import MqttBroker.Spec.Writer

/-!
# What the packets are

A packet is its first byte, the length of the rest and the rest. The buffer of a
PUBLISH packet is made for a header with a packet id when the QoS bits of the
first byte are not zero, while the header writes its packet id when that is not
zero: the assertion in `CreateMqttPacket` holds exactly when the two agree.
-/

namespace Mqtt.Spec

open Mqtt.Native

/-- A packet: its first byte, the remaining length and the rest. -/
def packetBytes (first : UInt8) (body : Bytes) : Bytes :=
  first :: (codeVarInt (UInt32.ofNat body.length) ++ body)

/-- A packet is read back in one way: its first byte and its body. -/
theorem packetBytes_inj {first first' : UInt8} {body body' : Bytes}
    (h : packetBytes first body = packetBytes first' body') : first = first' ∧ body = body' := by
  obtain ⟨hfirst, h⟩ := List.cons.inj h
  exact ⟨hfirst, ((codeVarInt_spec _).1.append_inj (codeVarInt_spec _).1 h).2⟩

/-- The bytes of a property chain without properties. -/
theorem encodeChain_empty : encodeChain OrderedSet.empty = [0] := rfl

/-- The copies of a fixed header: its first byte and the remaining length. -/
def fixedHeaderCopies (fh : FixedHeader) (pos : Nat) : List Copy :=
  [(pos, [fh.first]), (pos + 1, codeVarInt (UInt32.ofNat fh.remaining_len))]

/-- `FixedHeader::Serialize` copies the first byte and the remaining length. -/
theorem makes_fixedHeader (fh : FixedHeader) : Makes fh.serialize (fixedHeaderCopies fh)
    (fh.first :: codeVarInt (UInt32.ofNat fh.remaining_len)) := by
  have hseq := (makes_bytes [fh.first]).seq
    (makes_bytes (codeVarInt (UInt32.ofNat fh.remaining_len)))
  refine ⟨fun dst pos offset => ?_, hseq.consecutive, hseq.written⟩
  have heq := hseq.eq_replay dst pos offset
  simp only [bind_assoc, pure_bind, Nat.add_assoc] at heq
  exact heq

/-- `FixedHeader::Serialize` writes the first byte and the remaining length. -/
theorem writes_fixedHeader (fh : FixedHeader) :
    Writes fh.serialize (fh.first :: codeVarInt (UInt32.ofNat fh.remaining_len)) :=
  (makes_fixedHeader fh).writes

/-- `FixedHeader::Size` counts the bytes it writes. -/
theorem size_fixedHeader (fh : FixedHeader) :
    fh.size = (codeVarInt (UInt32.ofNat fh.remaining_len)).length + 1 := by
  rw [FixedHeader.size, length_codeVarInt]

/-- A fixed header in front of a fresh buffer for `n` more bytes. -/
theorem serialize_fixedHeader (fh : FixedHeader) (n : Nat) :
    ∃ dst, fh.serialize (List.replicate (n + fh.size) 0) 0 0 = .ok (dst, fh.size) ∧
      dst.length = n + fh.size ∧
      ∀ bs, bs.length = n → dst.overwrite fh.size bs =
        fh.first :: (codeVarInt (UInt32.ofNat fh.remaining_len) ++ bs) := by
  have hsize := size_fixedHeader fh
  have hlen : (fh.first :: codeVarInt (UInt32.ofNat fh.remaining_len)).length = fh.size :=
    hsize.symm
  have hroom : 0 + (fh.first :: codeVarInt (UInt32.ofNat fh.remaining_len)).length ≤
      (List.replicate (n + fh.size) (0 : UInt8)).length := by
    rw [List.length_replicate]; omega
  -- behind the header the fresh buffer is overwritten to its end
  refine ⟨_, by rw [writes_fixedHeader fh _ 0 0 hroom, hlen, Nat.zero_add], ?_, ?_⟩
  · rw [List.length_overwrite hroom, List.length_replicate]
  · intro bs hbs
    have hover := @List.overwrite_overwrite _ (List.replicate (n + fh.size) (0 : UInt8)) 0
      (fh.first :: codeVarInt (UInt32.ofNat fh.remaining_len)) bs
      (by rw [List.length_replicate]; omega)
    rw [hlen, Nat.zero_add] at hover
    rw [hover, List.overwrite_all (by rw [List.length_append, List.length_replicate]; omega),
      List.cons_append]

/-- `CreateMqttPacket` of a header whose size was predicted. -/
theorem createMqttPacket_eq {α : Type} [IVariableHeader α] {vh : α} {bs : Bytes}
    (hwrites : Writes (IVariableHeader.serialize vh) bs)
    (hsize : IVariableHeader.getSize vh = bs.length) (pack_type : UInt8) :
    createMqttPacket pack_type vh = .ok (packetBytes pack_type bs) := by
  obtain ⟨dst, hfixed, hdst, hbytes⟩ := serialize_fixedHeader
    ⟨pack_type, IVariableHeader.getSize vh⟩ (IVariableHeader.getSize vh)
  have hserialize := hwrites dst _ (FixedHeader.size ⟨pack_type, IVariableHeader.getSize vh⟩)
    (show FixedHeader.size ⟨pack_type, IVariableHeader.getSize vh⟩ + bs.length ≤ dst.length by
      omega)
  simp only [createMqttPacket, hfixed, hserialize, Except.ok_bind]
  rw [if_neg (by omega), hbytes bs hsize.symm, hsize]
  rfl

/-! ## PUBLISH -/

/-- The bytes of a topic name and a packet id, which is left out when it is 0. -/
def encodeTopic (topic_name : Bytes) (packet_id : UInt16) : Bytes :=
  encodeString topic_name ++ (if packet_id ≠ 0 then htons packet_id.toNat else [])

/-- Without a packet id the topic name stands alone. -/
theorem encodeTopic_zero (topic_name : Bytes) :
    encodeTopic topic_name 0 = encodeString topic_name := List.append_nil _

/-- A packet id stands behind the topic name. -/
theorem encodeTopic_of_ne {packet_id : UInt16} (h : packet_id ≠ 0) (topic_name : Bytes) :
    encodeTopic topic_name packet_id = encodeString topic_name ++ htons packet_id.toNat := by
  rw [encodeTopic, if_pos h]

/-- `PublishVH::Serialize` makes copies of the topic name, the packet id and the
    properties. -/
theorem makes_publishVH (vh : PublishVH) : ∃ copies, Makes (IVariableHeader.serialize vh) copies
    (encodeTopic vh.topic_name vh.packet_id ++ encodeChain vh.p_chain) := by
  have hname := makes_string vh.topic_name
  have hchain := makes_chain vh.p_chain
  -- the id is written unless it is 0
  by_cases hid : vh.packet_id = 0
  · rw [hid, encodeTopic_zero]
    refine ⟨_, (hname.seq hchain).of_eq fun dst pos offset => ?_⟩
    simp only [IVariableHeader.serialize, hname.eq_replay, hid, ne_eq, not_true_eq_false,
      ↓reduceIte, bind_assoc, pure_bind, Nat.zero_add]
  · have hseq := (hname.seq (makes_bytes (htons vh.packet_id.toNat))).seq hchain
    rw [encodeTopic_of_ne hid]
    refine ⟨_, hseq.of_eq fun dst pos offset => ?_⟩
    simp only [IVariableHeader.serialize, hname.eq_replay, ne_eq, hid, not_false_eq_true,
      ↓reduceIte, bind_assoc, pure_bind, Nat.zero_add, List.length_append, length_htons,
      Nat.add_assoc]

/-- `PublishVH::Serialize` writes the name, the id and the properties. -/
theorem writes_publishVH (vh : PublishVH) : Writes (IVariableHeader.serialize vh)
    (encodeTopic vh.topic_name vh.packet_id ++ encodeChain vh.p_chain) :=
  (makes_publishVH vh).elim fun _ hmakes => hmakes.writes

/-- The bytes of a PUBLISH header without properties. -/
def encodePublish (topic_name : Bytes) (packet_id : UInt16) : Bytes :=
  encodeString topic_name ++ (if packet_id ≠ 0 then htons packet_id.toNat else []) ++ [0]

/-- Lengths with the same two bytes agree modulo 65536. -/
theorem length_mod_of_htons {n n' : Nat} (h : htons n = htons n') : n % 65536 = n' % 65536 := by
  obtain ⟨hhigh, hlow⟩ := List.cons.inj h
  have hhigh' := congrArg UInt8.toNat hhigh
  have hlow' := congrArg UInt8.toNat (List.cons.inj hlow).1
  simp only [UInt8.toNat_ofNat'] at hhigh' hlow'
  omega

/-- A topic name and a message can be told from the bytes, for a given packet id. -/
theorem encodePublish_inj {name name' : Bytes} {packet_id : UInt16}
    {message message' : MqttBinaryDataEntity}
    (h : encodePublish name packet_id ++ message.data =
      encodePublish name' packet_id ++ message'.data) : name = name' ∧ message = message' := by
  have hlen := congrArg List.length h
  have hmessage := message.size_lt
  have hmessage' := message'.size_lt
  simp only [encodePublish, List.append_assoc, encodeString] at h
  obtain ⟨hhead, h⟩ := List.append_inj h rfl
  simp only [encodePublish, List.length_append, length_encodeString, MqttStringEntity.size] at hlen
  -- the lengths agree up to a multiple that no message makes up for
  have hsize : name.length = name'.length := by
    have hmod := length_mod_of_htons hhead
    omega
  obtain ⟨hname, h⟩ := List.append_inj h hsize
  have hdata : message.data = message'.data := List.append_cancel_left (List.append_cancel_left h)
  cases message
  cases message'
  cases hdata
  exact ⟨hname, rfl⟩

/-- `encodePublish` is a PUBLISH header without properties. -/
theorem encodePublish_eq (topic_name : Bytes) (packet_id : UInt16) :
    encodePublish topic_name packet_id =
      encodeTopic topic_name packet_id ++ encodeChain OrderedSet.empty := by
  rw [encodeChain_empty, encodeTopic, encodePublish]

/-- The header the broker makes for a PUBLISH. -/
theorem writes_publish (topic_name : Bytes) (packet_id : UInt16) :
    Writes (IVariableHeader.serialize (PublishVH.mk topic_name packet_id OrderedSet.empty))
      (encodePublish topic_name packet_id) := by
  rw [encodePublish_eq]
  exact writes_publishVH ⟨topic_name, packet_id, OrderedSet.empty⟩

/-- The size a PUBLISH header announces. -/
theorem getSize_publish (topic_name : Bytes) (packet_id : UInt16) :
    IVariableHeader.getSize (PublishVH.mk topic_name packet_id OrderedSet.empty) =
      (encodePublish topic_name packet_id).length + (if packet_id ≠ 0 then 0 else 2) := by
  rw [show IVariableHeader.getSize (PublishVH.mk topic_name packet_id OrderedSet.empty) =
    MqttStringEntity.size topic_name + 2 + 1 from rfl, encodePublish, ← length_encodeString]
  split <;> simp only [List.length_append, length_htons, List.length_nil, List.length_singleton]

/-- What a PUBLISH header that is written without a fault counts. -/
private theorem offset_of_publish {topic_name dst dst' : Bytes} {packet_id : UInt16}
    {pos offset offset' : Nat}
    (h : IVariableHeader.serialize (PublishVH.mk topic_name packet_id OrderedSet.empty) dst pos
      offset = .ok (dst', offset')) :
    offset' = offset + (encodePublish topic_name packet_id).length := by
  -- an empty chain takes one byte, its length
  have hchain : ∀ {dst dst' : Bytes} {pos offset offset' : Nat},
      MqttPropertyChain.serialize OrderedSet.empty dst pos offset = .ok (dst', offset') →
        offset' = offset + 1 := by
    intro dst dst' pos offset offset' h
    obtain ⟨_, _, h⟩ := Except.bind_eq_ok_iff.mp h
    exact (Prod.mk.inj (Except.ok.inj h)).2.symm
  have hlen := length_encodeString topic_name
  obtain ⟨⟨dst₁, local_offset⟩, hname, h⟩ := Except.bind_eq_ok_iff.mp h
  obtain ⟨_, _, hname⟩ := Except.bind_eq_ok_iff.mp hname
  obtain ⟨_, _, hname⟩ := Except.bind_eq_ok_iff.mp hname
  have hlocal : 0 + MqttStringEntity.size topic_name = local_offset :=
    (Prod.mk.inj (Except.ok.inj hname)).2
  -- two more bytes with an id
  by_cases hid : packet_id ≠ 0
  · simp only [if_pos hid] at h
    obtain ⟨_, _, h⟩ := Except.bind_eq_ok_iff.mp h
    have hoffset := hchain h
    rw [encodePublish, if_pos hid]
    simp only [List.length_append, length_htons, List.length_singleton]
    omega
  · simp only [if_neg hid] at h
    have hoffset := hchain h
    rw [encodePublish, if_neg hid]
    simp only [List.append_nil, List.length_append, List.length_singleton]
    omega

/-- `CreateMqttPacket` for a PUBLISH that has `n` bytes behind its fixed header. -/
private theorem createMqttPacketMessage_run {first : UInt8} {topic_name : Bytes}
    {packet_id : UInt16} {message : MqttBinaryDataEntity} {n : Nat}
    (hn : n + (if (FixedHeader.mk first 0).qoS = 0 then 2 else 0) =
      (encodePublish topic_name packet_id).length + (if packet_id ≠ 0 then 0 else 2) +
        message.data.length) :
    createMqttPacketMessage first (PublishVH.mk topic_name packet_id OrderedSet.empty)
      (some message) = (do
        let fh : FixedHeader := ⟨first, n⟩
        let (dst, offset) ← fh.serialize (List.replicate (n + fh.size) 0) 0 0
        let (dst, offset) ← IVariableHeader.serialize
          (PublishVH.mk topic_name packet_id OrderedSet.empty) dst offset offset
        let (dst, offset) ← message.serializeWithoutLen dst offset offset
        if n + fh.size ≠ offset then throw .assertFailed
        return dst) := by
  have hsize := getSize_publish topic_name packet_id
  -- the source takes two off for QoS 0, where there is no id
  by_cases hq : (FixedHeader.mk first 0).qoS = 0
  · rw [if_pos hq] at hn
    have hsize' : IVariableHeader.getSize (PublishVH.mk topic_name packet_id OrderedSet.empty) +
        message.size - 2 = n + 2 := by rw [MqttBinaryDataEntity.size]; omega
    have hlen : (if (FixedHeader.mk first (n + 2)).qoS = 0 then n + 2 - 2 else n + 2) = n := if_pos hq
    simp only [createMqttPacketMessage, hsize', hlen]
  · rw [if_neg hq] at hn
    have hsize' : IVariableHeader.getSize (PublishVH.mk topic_name packet_id OrderedSet.empty) +
        message.size - 2 = n := by rw [MqttBinaryDataEntity.size]; omega
    have hlen : (if (FixedHeader.mk first n).qoS = 0 then n - 2 else n) = n := if_neg hq
    simp only [createMqttPacketMessage, hsize', hlen]

/-- The packet built from a PUBLISH header and a message. -/
theorem createMqttPacketMessage_eq {first : UInt8} {topic_name : Bytes} {packet_id : UInt16}
    (message : MqttBinaryDataEntity) (h : (FixedHeader.mk first 0).qoS = 0 ↔ packet_id = 0) :
    createMqttPacketMessage first (PublishVH.mk topic_name packet_id OrderedSet.empty)
      (some message) =
      .ok (packetBytes first (encodePublish topic_name packet_id ++ message.data)) := by
  generalize hbody : encodePublish topic_name packet_id ++ message.data = body
  have hlen := congrArg List.length hbody
  rw [List.length_append] at hlen
  rw [createMqttPacketMessage_run (n := body.length) (by
    simp only [h, ne_eq, ite_not]
    omega)]
  -- the fixed header, the variable header and the message, each behind the other
  obtain ⟨dst, hfh, hdst, hover⟩ := serialize_fixedHeader ⟨first, body.length⟩ body.length
  have hvh := writes_publish topic_name packet_id dst (FixedHeader.mk first body.length).size
    (FixedHeader.mk first body.length).size (by omega)
  have hdst' : (dst.overwrite (FixedHeader.mk first body.length).size
      (encodePublish topic_name packet_id)).length = dst.length :=
    List.length_overwrite (by omega)
  have hmessage := writes_binaryDataWithoutLen message (dst.overwrite
    (FixedHeader.mk first body.length).size (encodePublish topic_name packet_id))
    ((FixedHeader.mk first body.length).size + (encodePublish topic_name packet_id).length)
    ((FixedHeader.mk first body.length).size + (encodePublish topic_name packet_id).length)
    (by omega)
  simp only [hfh, Except.ok_bind, hvh, hmessage]
  rw [if_neg (by omega), List.overwrite_overwrite (by omega), hbody, hover _ rfl]
  rfl

/-- Without agreement of the QoS bits and the packet id there is no packet. -/
theorem createMqttPacketMessage_ne_ok {first : UInt8} {topic_name : Bytes} {packet_id : UInt16}
    {message : Option MqttBinaryDataEntity} {r : Bytes}
    (h : ¬ ((FixedHeader.mk first 0).qoS = 0 ↔ packet_id = 0)) :
    createMqttPacketMessage first (PublishVH.mk topic_name packet_id OrderedSet.empty) message ≠
      .ok r := by
  cases message with
  | none => simp [createMqttPacketMessage, throw, throwThe, MonadExceptOf.throw]
  | some message =>
    have hname : 2 ≤ (encodePublish topic_name packet_id).length := by
      rw [encodePublish, List.length_append, List.length_append, length_encodeString,
        MqttStringEntity.size]
      omega
    obtain ⟨n, hn⟩ : ∃ n, n + (if (FixedHeader.mk first 0).qoS = 0 then 2 else 0) =
        (encodePublish topic_name packet_id).length + (if packet_id ≠ 0 then 0 else 2) +
          message.data.length :=
      ⟨_, Nat.sub_add_cancel (by split <;> omega)⟩
    -- what is written has another length than what was allocated
    rw [createMqttPacketMessage_run hn]
    intro heq
    obtain ⟨dst, hfh, -, -⟩ := serialize_fixedHeader ⟨first, n⟩ n
    simp only [hfh, Except.ok_bind] at heq
    obtain ⟨⟨dst', offset⟩, hvh, heq⟩ := Except.bind_eq_ok_iff.mp heq
    obtain ⟨⟨dst'', offset'⟩, hmessage, heq⟩ := Except.bind_eq_ok_iff.mp heq
    obtain ⟨_, _, hmessage⟩ := Except.bind_eq_ok_iff.mp hmessage
    have hoffset := offset_of_publish hvh
    have hoffset' : offset + (message.size - 2) = offset' :=
      (Prod.mk.inj (Except.ok.inj hmessage)).2
    rw [MqttBinaryDataEntity.size] at hoffset'
    -- the assertion compares the two sizes
    split at heq
    · cases heq
    · rename_i hassert
      by_cases hq : (FixedHeader.mk first 0).qoS = 0 <;> by_cases hid : packet_id = 0 <;>
        simp_all <;> omega

/-- With QoS bits and no packet id the assertion fails: the size counts an id that the
    variable header leaves out. -/
theorem createMqttPacketMessage_assert {first : UInt8} {topic_name : Bytes}
    (message : MqttBinaryDataEntity) (h : (FixedHeader.mk first 0).qoS ≠ 0) :
    createMqttPacketMessage first (PublishVH.mk topic_name 0 OrderedSet.empty) (some message) =
      .error .assertFailed := by
  generalize hbody : encodePublish topic_name 0 ++ message.data = body
  have hlen := congrArg List.length hbody
  rw [List.length_append] at hlen
  -- nothing is taken off for QoS above 0, but no id is written either
  rw [createMqttPacketMessage_run (n := body.length + 2) (by
    simp only [if_neg h, ne_eq, not_true_eq_false, ↓reduceIte]
    omega)]
  obtain ⟨dst, hfh, hdst, -⟩ := serialize_fixedHeader ⟨first, body.length + 2⟩ (body.length + 2)
  have hvh := writes_publish topic_name 0 dst (FixedHeader.mk first (body.length + 2)).size
    (FixedHeader.mk first (body.length + 2)).size (by omega)
  have hdst' : (dst.overwrite (FixedHeader.mk first (body.length + 2)).size
      (encodePublish topic_name 0)).length = dst.length :=
    List.length_overwrite (by omega)
  have hmessage := writes_binaryDataWithoutLen message (dst.overwrite
    (FixedHeader.mk first (body.length + 2)).size (encodePublish topic_name 0))
    ((FixedHeader.mk first (body.length + 2)).size + (encodePublish topic_name 0).length)
    ((FixedHeader.mk first (body.length + 2)).size + (encodePublish topic_name 0).length)
    (by omega)
  simp only [hfh, Except.ok_bind, hvh, hmessage]
  rw [if_pos (by omega)]
  rfl

end Mqtt.Spec
