import MqttBroker.Native.VariableHeader
import MqttBroker.Spec.Framing
import MqttBroker.Spec.PropertyRoundTrip

/-!
# Variable headers there and back

What `Serialize` of a header writes is read back into a fresh header, as long as its
property chain is. The writers are put together from the writers of their fields, and
each field is found where the reader looks for it because everything in front of it
has a length that the reader knows.
-/

namespace Mqtt.Spec

open Mqtt.Native

/-- What `Serialize` of `vh` writes, `ReadFromBuf` of `fresh` reads back, whatever
    follows it, with the offset advanced by the number of bytes that were written. -/
def ReadsBack {α : Type} [IVariableHeader α] [IVariableHeaderReader α] (fresh vh : α) : Prop :=
  ∃ bs, Writes (IVariableHeader.serialize vh) bs ∧ ∀ rest offset,
    IVariableHeaderReader.readFromBuf fresh (bs ++ rest) offset = .ok (vh, offset + bs.length)

/-- The same for a constructor, which counts its offset from the start of the buffer. -/
def RestoredBy {α : Type} [IVariableHeader α] (ofBuf : Bytes → Exec (α × Nat)) (vh : α) : Prop :=
  ∃ bs, Writes (IVariableHeader.serialize vh) bs ∧ ∀ rest, ofBuf (bs ++ rest) = .ok (vh, bs.length)

/-- What is written for a chain that is read back, `Create` finds in front of anything. -/
theorem create_encodeChain {chain : MqttPropertyChain} (h : RoundTrips chain) (rest : Bytes) :
    MqttPropertyChain.create OrderedSet.empty (encodeChain chain ++ rest) =
      .ok ⟨.ok, (encodeChain chain).length, chain⟩ :=
  create_eq_ok_iff.mpr (roundTrips_iff.mp h rest)

/-! ## CONNECT, CONNACK and DISCONNECT -/

/-- The bytes of a `ConnectVH`. -/
def encodeConnect (vh : ConnectVH) : Bytes :=
  htons vh.prot_name_len.toNat ++ (vh.name ++ (vh.version :: vh.conn_flags ::
    htons vh.alive.toNat))

/-- A CONNECT header takes ten bytes. -/
theorem length_encodeConnect {vh : ConnectVH} (hname : vh.name.length = 4) :
    (encodeConnect vh).length = 10 := by
  simp [encodeConnect, hname]

/-- `ConnectVH::Serialize` copies its fields one by one. -/
theorem makes_connect {vh : ConnectVH} (hname : vh.name.length = 4) :
    ∃ copies, Makes (IVariableHeader.serialize vh) copies (encodeConnect vh) := by
  have hseq := (makes_bytes (htons vh.prot_name_len.toNat)).seq ((makes_bytes vh.name).seq
    ((makes_bytes [vh.version]).seq ((makes_bytes [vh.conn_flags]).seq
      (makes_bytes (htons vh.alive.toNat)))))
  refine ⟨_, hseq.of_eq fun dst pos offset => ?_⟩
  simp only [IVariableHeader.serialize, bind_assoc, pure_bind, length_htons,
    List.length_singleton, hname, Nat.add_assoc, Nat.zero_add, Nat.add_zero, Nat.reduceAdd]

/-- `ConnectVH::Serialize` writes its fields. -/
theorem writes_connect {vh : ConnectVH} (hname : vh.name.length = 4) :
    Writes (IVariableHeader.serialize vh) (encodeConnect vh) :=
  (makes_connect hname).elim fun _ hmakes => hmakes.writes

/-- A `ConnectVH` is read back from its ten bytes. -/
theorem readFromBuf_encodeConnect {vh : ConnectVH} (hname : vh.name.length = 4) (rest : Bytes) :
    ConnectVH.readFromBuf (encodeConnect vh ++ rest) = .ok (vh, 10) := by
  have hlen := length_encodeConnect hname
  obtain ⟨prot_name_len, name, version, conn_flags, alive⟩ := vh
  change name.length = 4 at hname
  -- each field stands where the reader looks for it
  generalize hbuf : encodeConnect ⟨prot_name_len, name, version, conn_flags, alive⟩ ++ rest = buf
  have h0 : buf.drop 0 = htons prot_name_len.toNat ++ (name ++ (version :: conn_flags ::
      (htons alive.toNat ++ rest))) := by
    simp [← hbuf, encodeConnect]
  have h2 : buf.drop 2 = name ++ (version :: conn_flags :: (htons alive.toNat ++ rest)) := by
    rw [List.drop_zero] at h0
    rw [h0]
    rfl
  have h6 : buf.drop 6 = version :: conn_flags :: (htons alive.toNat ++ rest) := by
    rw [show 6 = 2 + 4 from rfl, ← List.drop_drop, h2]
    exact List.drop_left' hname
  have h7 := drop_succ_of_drop h6
  -- the name is copied into an array of four characters
  have hread := readBytes_of_drop h2 (by simp [← hbuf, hlen]; omega)
  rw [hname] at hread
  simp only [ConnectVH.readFromBuf, convertToHost2Bytes_of_drop h0, hread, readByte_of_drop h6,
    readByte_of_drop h7, convertToHost2Bytes_of_drop (drop_succ_of_drop h7), Except.ok_bind,
    Except.pure_eq_ok]

/-- A CONNECT header is read back into any object. -/
theorem readsBack_connect (fresh : ConnectVH) {vh : ConnectVH} (hname : vh.name.length = 4) :
    ReadsBack fresh vh := by
  refine ⟨encodeConnect vh, writes_connect hname, fun rest offset => ?_⟩
  simp only [IVariableHeaderReader.readFromBuf, readFromBuf_encodeConnect hname, Except.ok_bind,
    Except.pure_eq_ok, length_encodeConnect hname]

/-- `ConnactVH` and its properties. -/
theorem readsBack_connact {fresh vh : ConnactVH} (hfresh : fresh.p_chain = OrderedSet.empty)
    (hchain : RoundTrips vh.p_chain) : ReadsBack fresh vh := by
  refine ⟨_, (makes_header (.connact vh)).writes, fun rest offset => ?_⟩
  -- two bytes, and the chain behind them
  have hcreate := create_encodeChain hchain rest
  have hbuf : encodeHeader (.connact vh) ++ rest = vh.conn_acknowledge_flags :: vh.reason_code ::
      (encodeChain vh.p_chain ++ rest) := rfl
  have hlen : (encodeHeader (.connact vh)).length = 2 + (encodeChain vh.p_chain).length := by
    simp only [encodeHeader, List.length_cons]; omega
  have hreason : readByte (vh.conn_acknowledge_flags :: vh.reason_code ::
      (encodeChain vh.p_chain ++ rest)) 1 = .ok vh.reason_code := rfl
  rw [hbuf, hlen]
  simp only [IVariableHeaderReader.readFromBuf, readByte_of_drop (i := 0) rfl, hreason,
    Except.ok_bind, Nat.zero_add, Nat.reduceAdd, List.drop_succ_cons, List.drop_zero, hfresh,
    hcreate, Except.pure_eq_ok, Nat.add_assoc]

/-- A DISCONNECT header is read back, its properties into an empty chain. -/
theorem readsBack_disconnect {fresh vh : DisconnectVH} (hfresh : fresh.p_chain = OrderedSet.empty)
    (hchain : RoundTrips vh.p_chain) : ReadsBack fresh vh := by
  refine ⟨_, (makes_header (.disconnect vh)).writes, fun rest offset => ?_⟩
  have hcreate := create_encodeChain hchain rest
  have hbuf : encodeHeader (.disconnect vh) ++ rest =
      vh.reason_code :: (encodeChain vh.p_chain ++ rest) := rfl
  have hlen : (encodeHeader (.disconnect vh)).length = 1 + (encodeChain vh.p_chain).length := by
    simp only [encodeHeader, List.length_cons]; omega
  rw [hbuf, hlen]
  simp only [IVariableHeaderReader.readFromBuf, readByte_of_drop (i := 0) rfl, Except.ok_bind,
    List.drop_succ_cons, List.drop_zero, hfresh, hcreate, Except.pure_eq_ok, Nat.add_assoc]

/-! ## SUBSCRIBE and UNSUBSCRIBE -/

/-- A packet id and properties are read back, whatever was there before. -/
theorem readIdAndChain_of_encode (packet_id : UInt16) {p_chain : MqttPropertyChain}
    (hchain : RoundTrips p_chain) (rest : Bytes) (offset : Nat) :
    readIdAndChain (htons packet_id.toNat ++ encodeChain p_chain ++ rest) offset =
      .ok (packet_id, p_chain, offset + (htons packet_id.toNat ++ encodeChain p_chain).length) := by
  have hcreate := create_encodeChain hchain rest
  rw [List.append_assoc, List.length_append, length_htons]
  have hdrop : (htons packet_id.toNat ++ (encodeChain p_chain ++ rest)).drop 2 =
      encodeChain p_chain ++ rest := rfl
  have hid : convertToHost2Bytes (htons packet_id.toNat ++ (encodeChain p_chain ++ rest)) 0 =
      .ok packet_id := convertToHost2Bytes_of_drop rfl
  simp only [readIdAndChain, hid, Except.ok_bind, Nat.zero_add, hdrop, hcreate,
    Except.pure_eq_ok, Nat.add_assoc]

/-- `SubscribeVH::Serialize` leaves out a packet id of 0. -/
theorem makes_subscribe (vh : SubscribeVH) : ∃ copies,
    Makes (IVariableHeader.serialize vh) copies
      ((if vh.packet_id ≠ 0 then htons vh.packet_id.toNat else []) ++ encodeChain vh.p_chain) := by
  have hchain := makes_chain vh.p_chain
  by_cases hid : vh.packet_id = 0
  · rw [if_neg (not_not.mpr hid), List.nil_append]
    refine ⟨_, hchain.of_eq fun dst pos offset => ?_⟩
    simp only [IVariableHeader.serialize, hid, ne_eq, not_true_eq_false, ↓reduceIte, Nat.add_zero]
  · have hseq := (makes_bytes (htons vh.packet_id.toNat)).seq hchain
    rw [if_pos hid]
    refine ⟨_, hseq.of_eq fun dst pos offset => ?_⟩
    simp only [IVariableHeader.serialize, ne_eq, hid, not_false_eq_true, ↓reduceIte, bind_assoc,
      pure_bind, length_htons, Nat.zero_add]

/-- `UnsubscribeVH::Serialize` copies the id and the properties. -/
theorem makes_unsubscribe (vh : UnsubscribeVH) : ∃ copies,
    Makes (IVariableHeader.serialize vh) copies
      (htons vh.packet_id.toNat ++ encodeChain vh.p_chain) := by
  have hchain := makes_chain vh.p_chain
  have hseq := (makes_bytes (htons vh.packet_id.toNat)).seq hchain
  refine ⟨_, hseq.of_eq fun dst pos offset => ?_⟩
  simp only [IVariableHeader.serialize, hchain.eq_replay, bind_assoc, pure_bind, length_htons,
    Nat.zero_add, Nat.add_assoc]

/-- A SUBSCRIBE header with an id is read back. -/
theorem readsBack_subscribe (fresh : SubscribeVH) {vh : SubscribeVH} (hid : vh.packet_id ≠ 0)
    (hchain : RoundTrips vh.p_chain) : ReadsBack fresh vh := by
  obtain ⟨copies, hmakes⟩ := makes_subscribe vh
  rw [if_pos hid] at hmakes
  refine ⟨_, hmakes.writes, fun rest offset => ?_⟩
  simp only [IVariableHeaderReader.readFromBuf, readIdAndChain_of_encode vh.packet_id hchain,
    Except.ok_bind, Except.pure_eq_ok]

/-- An UNSUBSCRIBE header is read back. -/
theorem readsBack_unsubscribe (fresh : UnsubscribeVH) {vh : UnsubscribeVH}
    (hchain : RoundTrips vh.p_chain) : ReadsBack fresh vh := by
  obtain ⟨copies, hmakes⟩ := makes_unsubscribe vh
  refine ⟨_, hmakes.writes, fun rest offset => ?_⟩
  simp only [IVariableHeaderReader.readFromBuf, readIdAndChain_of_encode vh.packet_id hchain,
    Except.ok_bind, Except.pure_eq_ok]

/-! ## PUBACK and the other three of its shape -/

/-- Whatever follows the packet id is not looked at. -/
theorem readFromBuf_puback (fresh : PubackVH) (packet_id : UInt16) (rest : Bytes) (offset : Nat) :
    IVariableHeaderReader.readFromBuf fresh (htons packet_id.toNat ++ rest) offset =
      .ok (⟨packet_id, fresh.reason_code, OrderedSet.empty⟩, offset + 2) := by
  have hid : convertToHost2Bytes (htons packet_id.toNat ++ rest) 0 = .ok packet_id :=
    convertToHost2Bytes_of_drop rfl
  simp only [IVariableHeaderReader.readFromBuf, hid, Except.ok_bind, Except.pure_eq_ok,
    Nat.zero_add]

/-- What a header of the shape of a PUBACK is decoded to: the packet id is restored in any
    object, the reason code stays that of the object and the properties are gone, and the
    offset is not the one behind what was written. So none is ever read back. -/
theorem puback_never_reads_back (fresh vh : PubackVH) :
    ¬ ReadsBack fresh vh ∧
    ∃ bs, Writes (IVariableHeader.serialize vh) bs ∧ 2 < bs.length ∧ ∀ rest offset,
      IVariableHeaderReader.readFromBuf fresh (bs ++ rest) offset =
        .ok (⟨vh.packet_id, fresh.reason_code, OrderedSet.empty⟩, offset + 2) := by
  have hwrites := (makes_header (.puback vh)).writes
  have hread : ∀ rest offset, IVariableHeaderReader.readFromBuf fresh
      (encodeHeader (.puback vh) ++ rest) offset =
        .ok (⟨vh.packet_id, fresh.reason_code, OrderedSet.empty⟩, offset + 2) := fun rest offset => by
    rw [encodeHeader, List.append_assoc, readFromBuf_puback]
  have hlen : 2 < (encodeHeader (.puback vh)).length := by
    simp only [encodeHeader, List.length_append, List.length_cons, length_htons]
    omega
  refine ⟨?_, _, hwrites, hlen, hread⟩
  rintro ⟨bs, hbs, hback⟩
  have heq : bs = encodeHeader (.puback vh) := hbs.unique hwrites
  -- the offset is two further, however much was written
  have hoffset := (hread [] 0).symm.trans (heq ▸ hback [] 0)
  simp only [Except.ok.injEq, Prod.mk.injEq, Nat.zero_add] at hoffset
  omega

/-- A PUBREC with reason code 0x92, without properties: the four bytes are written, and a
    fresh object gets packet id 7, keeps its reason code 0 and moves on by two bytes. -/
theorem pubrec_reason_code_lost :
    RoundTrips OrderedSet.empty ∧
    IVariableHeader.serialize (PubackVH.mk 7 0x92 OrderedSet.empty) [0, 0, 0, 0] 0 0 =
      .ok ([0, 7, 0x92, 0], 4) ∧
    IVariableHeaderReader.readFromBuf (PubackVH.mk 0 0 OrderedSet.empty) [0, 7, 0x92, 0] 0 =
      .ok (⟨7, 0, OrderedSet.empty⟩, 2) ∧
    ¬ ReadsBack (PubackVH.mk 0 0 OrderedSet.empty) (PubackVH.mk 7 0x92 OrderedSet.empty) := by
  have hread : IVariableHeaderReader.readFromBuf (PubackVH.mk 0 0 OrderedSet.empty)
      [0, 7, 0x92, 0] 0 = .ok (⟨7, 0, OrderedSet.empty⟩, 2) := rfl
  refine ⟨?_, rfl, hread, fun ⟨bs, hbs, hback⟩ => ?_⟩
  · exact roundTrips_iff.mpr fun rest => create_eq_ok_iff.mp (create_zero rest)
  · have heq : bs = [0, 7, 0x92, 0] := hbs.unique (makes_header (.puback ⟨7, 0x92, _⟩)).writes
    have hreason := hread.symm.trans (heq ▸ hback [] 0)
    exact nomatch hreason

/-! ## PUBLISH and version 3 -/

/-- An acknowledgement of version 3 is read back. -/
theorem readsBack_typicalV3 (fresh vh : TypicalV3VH) : ReadsBack fresh vh := by
  refine ⟨htons vh.packet_id.toNat, (makes_bytes (htons vh.packet_id.toNat)).writes,
    fun rest offset => ?_⟩
  have hid : convertToHost2Bytes (htons vh.packet_id.toNat ++ rest) 0 = .ok vh.packet_id :=
    convertToHost2Bytes_of_drop rfl
  simp only [IVariableHeaderReader.readFromBuf, hid, Except.ok_bind, Except.pure_eq_ok,
    length_htons, Nat.zero_add]

/-- A PUBLISH header is read back by a reader that knows whether there is an id. -/
theorem restoredBy_publish {vh : PublishVH} (hname : vh.topic_name.length ≤ 65535)
    (hchain : RoundTrips vh.p_chain) :
    RestoredBy (PublishVH.ofBuf (vh.packet_id != 0)) vh :=
  ⟨_, writes_publishVH vh, ofBuf_publishVH hname (create_encodeChain hchain)⟩

/-- `PublishV3VH::Serialize` copies the name and the id. -/
theorem makes_publishV3VH (vh : PublishV3VH) : ∃ copies,
    Makes (IVariableHeader.serialize vh) copies (encodeTopic vh.topic_name vh.packet_id) := by
  have hname := makes_string vh.topic_name
  by_cases hid : vh.packet_id = 0
  · rw [hid, encodeTopic_zero]
    refine ⟨_, hname.of_eq fun dst pos offset => ?_⟩
    simp only [IVariableHeader.serialize, hname.eq_replay, hid, ne_eq, not_true_eq_false,
      ↓reduceIte, bind_assoc, pure_bind, Nat.zero_add]
  · rw [encodeTopic_of_ne hid]
    have hseq := hname.seq (makes_bytes (htons vh.packet_id.toNat))
    refine ⟨_, hseq.of_eq fun dst pos offset => ?_⟩
    simp only [IVariableHeader.serialize, hname.eq_replay, ne_eq, hid, not_false_eq_true,
      ↓reduceIte, bind_assoc, pure_bind, Nat.zero_add, length_htons]

/-- `PublishV3VH::Serialize` writes the name and the id. -/
theorem writes_publishV3VH (vh : PublishV3VH) : Writes (IVariableHeader.serialize vh)
    (encodeTopic vh.topic_name vh.packet_id) :=
  (makes_publishV3VH vh).elim fun _ hmakes => hmakes.writes

/-- A PUBLISH header of version 3 likewise. -/
theorem restoredBy_publishV3 {vh : PublishV3VH} (hname : vh.topic_name.length ≤ 65535) :
    RestoredBy (PublishV3VH.ofBuf (vh.packet_id != 0)) vh := by
  refine ⟨_, writes_publishV3VH vh, fun rest => ?_⟩
  obtain ⟨topic_name, packet_id⟩ := vh
  obtain ⟨htopic, hpacket_id, hlen⟩ := @readTopic_of_encodeTopic topic_name packet_id hname rest
  rw [hlen]
  by_cases hid : packet_id = 0
  · subst hid
    simp only [PublishV3VH.ofBuf, htopic, Except.ok_bind, bne_self_eq_false, Bool.false_eq_true,
      ne_eq, not_true_eq_false, ↓reduceIte, Except.pure_eq_ok, Nat.add_zero]
  · have hpresent : (packet_id != 0) = true := by simpa using hid
    simp only [PublishV3VH.ofBuf, htopic, Except.ok_bind, hpresent, ↓reduceIte, hpacket_id hid,
      ne_eq, hid, not_false_eq_true, Except.pure_eq_ok]

/-! ## All of them -/

/-- Every variable header that has both a writer and a reader is read back into a fresh
    object, field by field, with the offset behind what was written, whatever the fields
    are and whatever follows, when its properties are read back. -/
theorem variable_headers_round_trip :
    (∀ fresh vh : ConnectVH, vh.name.length = 4 → ReadsBack fresh vh) ∧
    (∀ fresh vh : ConnactVH, fresh.p_chain = OrderedSet.empty → RoundTrips vh.p_chain →
      ReadsBack fresh vh) ∧
    (∀ fresh vh : DisconnectVH, fresh.p_chain = OrderedSet.empty → RoundTrips vh.p_chain →
      ReadsBack fresh vh) ∧
    (∀ fresh vh : UnsubscribeVH, RoundTrips vh.p_chain → ReadsBack fresh vh) ∧
    (∀ fresh vh : TypicalV3VH, ReadsBack fresh vh) ∧
    (∀ fresh vh : SubscribeVH, vh.packet_id ≠ 0 → RoundTrips vh.p_chain → ReadsBack fresh vh) ∧
    (∀ vh : PublishVH, vh.topic_name.length ≤ 65535 → RoundTrips vh.p_chain →
      RestoredBy (PublishVH.ofBuf (vh.packet_id != 0)) vh) ∧
    (∀ vh : PublishV3VH, vh.topic_name.length ≤ 65535 →
      RestoredBy (PublishV3VH.ofBuf (vh.packet_id != 0)) vh) :=
  ⟨fun fresh _ hname => readsBack_connect fresh hname,
    fun _ _ hfresh hchain => readsBack_connact hfresh hchain,
    fun _ _ hfresh hchain => readsBack_disconnect hfresh hchain,
    fun fresh _ hchain => readsBack_unsubscribe fresh hchain,
    readsBack_typicalV3,
    fun fresh _ hid hchain => readsBack_subscribe fresh hid hchain,
    fun _ hname hchain => restoredBy_publish hname hchain,
    fun _ hname => restoredBy_publishV3 hname⟩

/-- A SUBSCRIBE and a PUBLISH header with the properties of a message. -/
theorem variable_headers_round_trip_message :
    ReadsBack (SubscribeVH.mk 0 OrderedSet.empty) (SubscribeVH.mk 7 messageChain) ∧
      RestoredBy (PublishVH.ofBuf false) (PublishVH.mk [0x74] 0 messageChain) := by
  have hchain := roundTrips_message.2
  obtain ⟨-, -, -, -, -, hsubscribe, hpublish, -⟩ := variable_headers_round_trip
  exact ⟨hsubscribe _ _ (by decide) hchain,
    hpublish (PublishVH.mk [0x74] 0 messageChain) (by decide) hchain⟩

end Mqtt.Spec
