import MqttBroker.Native.PropertyChain
import MqttBroker.Spec.VarInt

/-!
# The wire format of properties

`WireEntity` and `WireProperty` say which bytes stand for which value, from the
protocol alone. `CreateProperty` accepts exactly a buffer that starts with such
bytes; the size it reports is their number modulo 256, since it counts in a
`uint8_t`.
-/

namespace Mqtt.Spec

open Mqtt.Native

/-- The bytes of a value. -/
inductive WireEntity : MqttEntity → Bytes → Prop
  | byte (data : UInt8) : WireEntity (.byte data) [data]
  | twoByte (data : UInt16) : WireEntity (.twoByte data) (htons data.toNat)
  | fourByte (data : UInt32) : WireEntity (.fourByte data) (htonl data.toNat)
  | mqttString {data : Bytes} : data.length < 2 ^ 16 →
      WireEntity (.mqttString data) (htons data.length ++ data)
  | binaryData (entity : MqttBinaryDataEntity) :
      WireEntity (.binaryData entity) (htons entity.data.length ++ entity.data)
  | mqttStringPair {first second : Bytes} : first.length < 2 ^ 16 → second.length < 2 ^ 16 →
      WireEntity (.mqttStringPair first second)
        (htons first.length ++ first ++ (htons second.length ++ second))
  | variableInt {bs : Bytes} : IsVarInt bs → bs.length ≤ 4 →
      WireEntity (.variableInt (UInt32.ofNat (varIntValue bs))) bs

/-- The data type that goes with an identifier byte. -/
def dataTypeOf (id : UInt8) : Option MqttDataType :=
  (MqttPropertyId.ofCode id).map MqttPropertyId.dataType

/-- The bytes of a property: a known identifier and a value of its type. -/
inductive WireProperty : MqttProperty → Bytes → Prop
  | mk {id : UInt8} {entity : MqttEntity} {bs : Bytes} : dataTypeOf id = some entity.getType →
      WireEntity entity bs → WireProperty ⟨id, entity⟩ (id :: bs)

/-- A buffer that starts with what cannot be a property: an unknown identifier,
    or a subscription identifier of more than four bytes. -/
inductive Invalid : Bytes → Prop
  | unknownId {id : UInt8} {rest : Bytes} : dataTypeOf id = none → Invalid (id :: rest)
  | longVarInt {id b : UInt8} {bs rest : Bytes} : dataTypeOf id = some .variableInt →
      bs.length = 4 → (∀ x ∈ bs, 128 ≤ x.toNat) → Invalid (id :: (bs ++ b :: rest))

/-- A property takes at least one byte. -/
theorem WireProperty.length_pos {p : MqttProperty} {bs : Bytes} (h : WireProperty p bs) :
    0 < bs.length := by
  cases h; simp

/-- A string property on the wire: identifier, length, bytes. -/
theorem wireProperty_mqttString {id : UInt8} {data : Bytes} {n : Nat}
    (hid : dataTypeOf id = some .mqttString) (hn : data.length = n) (hlt : n < 2 ^ 16) :
    WireProperty ⟨id, .mqttString data⟩ (id :: (htons n ++ data)) := by
  subst hn
  exact .mk hid (.mqttString hlt)

/-! ## Fixed-width reads -/

/-- Two bytes. -/
@[simp] theorem length_htons (n : Nat) : (htons n).length = 2 := rfl

/-- Four bytes. -/
@[simp] theorem length_htonl (n : Nat) : (htonl n).length = 4 := rfl

/-- `ConvertToHost2Bytes` reads what `htons` has written. -/
theorem convertToHost2Bytes_of_drop {buf rest : Bytes} {i : Nat} {n : UInt16}
    (h : buf.drop i = htons n.toNat ++ rest) : convertToHost2Bytes buf i = .ok n := by
  have hlt := n.toNat_lt
  rw [convertToHost2Bytes, readByte_of_drop h, Except.ok_bind,
    readByte_of_drop (drop_succ_of_drop h), Except.ok_bind, Except.pure_eq_ok, UInt8.toNat_ofNat',
    UInt8.toNat_ofNat', show n.toNat / 256 % 2 ^ 8 * 256 + n.toNat % 2 ^ 8 = n.toNat by omega,
    UInt16.ofNat_toNat]

/-- `ConvertToHost4Bytes` reads what `htonl` has written. -/
theorem convertToHost4Bytes_of_drop {buf rest : Bytes} {i : Nat} {n : UInt32}
    (h : buf.drop i = htonl n.toNat ++ rest) : convertToHost4Bytes buf i = .ok n := by
  have hlt := n.toNat_lt
  have h1 := drop_succ_of_drop h
  have h2 := drop_succ_of_drop h1
  rw [convertToHost4Bytes, readByte_of_drop h, Except.ok_bind, readByte_of_drop h1, Except.ok_bind,
    readByte_of_drop h2, Except.ok_bind, readByte_of_drop (drop_succ_of_drop h2), Except.ok_bind,
    Except.pure_eq_ok]
  simp only [UInt8.toNat_ofNat']
  rw [show ((n.toNat / 256 ^ 3 % 2 ^ 8 * 256 + n.toNat / 256 ^ 2 % 2 ^ 8) * 256 +
    n.toNat / 256 % 2 ^ 8) * 256 + n.toNat % 2 ^ 8 = n.toNat by omega, UInt32.ofNat_toNat]

/-- A byte that is read stands in front of what is left. -/
theorem drop_of_readByte {buf : Bytes} {i : Nat} {b : UInt8} (h : readByte buf i = .ok b) :
    buf.drop i = b :: buf.drop (i + 1) := by
  obtain ⟨hi, hb⟩ := List.getElem?_eq_some_iff.mp (readByte_eq_ok_iff.mp h)
  rw [List.drop_eq_getElem_cons hi, hb]

/-- `ConvertToHost2Bytes` reads a number exactly where its two bytes stand. -/
theorem convertToHost2Bytes_eq_ok_iff {buf : Bytes} {i : Nat} {n : UInt16} :
    convertToHost2Bytes buf i = .ok n ↔ ∃ rest, buf.drop i = htons n.toNat ++ rest := by
  constructor
  · intro h
    simp only [convertToHost2Bytes, Except.bind_eq_ok_iff, Except.pure_eq_ok,
      Except.ok.injEq] at h
    obtain ⟨hi, hhi, lo, hlo, rfl⟩ := h
    have hhi_lt := hi.toNat_lt
    have hlo_lt := lo.toNat_lt
    -- the two bytes are the quotient and the rest by 256 of the number they make
    refine ⟨buf.drop (i + 1 + 1), ?_⟩
    rw [drop_of_readByte hhi, drop_of_readByte hlo, htons, UInt16.toNat_ofNat',
      Nat.mod_eq_of_lt (by omega)]
    simp only [List.cons_append, List.nil_append, List.cons.injEq, and_true]
    constructor
    · rw [← UInt8.toNat_inj, UInt8.toNat_ofNat']; omega
    · rw [← UInt8.toNat_inj, UInt8.toNat_ofNat']; omega
  · rintro ⟨rest, h⟩
    exact convertToHost2Bytes_of_drop h

/-- `ConvertToHost4Bytes` reads a number exactly where its four bytes stand. -/
theorem convertToHost4Bytes_eq_ok_iff {buf : Bytes} {i : Nat} {n : UInt32} :
    convertToHost4Bytes buf i = .ok n ↔ ∃ rest, buf.drop i = htonl n.toNat ++ rest := by
  constructor
  · intro h
    simp only [convertToHost4Bytes, Except.bind_eq_ok_iff, Except.pure_eq_ok,
      Except.ok.injEq] at h
    obtain ⟨b0, h0, b1, h1, b2, h2, b3, h3, rfl⟩ := h
    have h0_lt := b0.toNat_lt
    have h1_lt := b1.toNat_lt
    have h2_lt := b2.toNat_lt
    have h3_lt := b3.toNat_lt
    -- as for two bytes, each byte is a digit of the number to the base 256
    refine ⟨buf.drop (i + 3 + 1), ?_⟩
    rw [drop_of_readByte h0, drop_of_readByte h1, drop_of_readByte h2, drop_of_readByte h3, htonl,
      UInt32.toNat_ofNat', Nat.mod_eq_of_lt (by omega)]
    simp only [List.cons_append, List.nil_append, List.cons.injEq, and_true]
    refine ⟨?_, ?_, ?_, ?_⟩
    all_goals rw [← UInt8.toNat_inj, UInt8.toNat_ofNat']; omega
  · rintro ⟨rest, h⟩
    exact convertToHost4Bytes_of_drop h

/-- `readBytes` reads bytes that stand there. -/
theorem readBytes_of_drop {buf bs rest : Bytes} {i : Nat} (h : buf.drop i = bs ++ rest)
    (hi : i ≤ buf.length) : readBytes buf i bs.length = .ok bs := by
  have hlen := congrArg List.length h
  simp only [List.length_drop, List.length_append] at hlen
  rw [readBytes, List.readSlice?_eq_some_iff.mpr ⟨by omega, by rw [h, List.take_left]⟩]

/-- Bytes that are read stand there, as many as were asked for. -/
theorem drop_of_readBytes {buf bs : Bytes} {i n : Nat} (h : readBytes buf i n = .ok bs) :
    (∃ rest, buf.drop i = bs ++ rest) ∧ bs.length = n := by
  unfold readBytes at h
  split at h
  · rename_i hbs
    obtain rfl := Except.ok.inj h
    obtain ⟨hlen, rfl⟩ := List.readSlice?_eq_some_iff.mp hbs
    refine ⟨⟨_, (List.take_append_drop n _).symm⟩, ?_⟩
    rw [List.length_take, List.length_drop]
    omega
  · exact nomatch h

/-- A length and as many bytes are read where they stand, one behind the other. -/
theorem read_prefixed_iff {buf data : Bytes} {i j : Nat} {len : UInt16} (hj : j = i + 2) :
    (convertToHost2Bytes buf i = .ok len ∧ readBytes buf j len.toNat = .ok data) ↔
      data.length = len.toNat ∧ ∃ rest, buf.drop i = htons data.length ++ (data ++ rest) := by
  subst hj
  constructor
  · -- what is behind the length begins with the bytes that were read
    rintro ⟨hlen, hdata⟩
    obtain ⟨⟨rest, hdrop⟩, hlength⟩ := drop_of_readBytes hdata
    obtain ⟨behind, hbehind⟩ := convertToHost2Bytes_eq_ok_iff.mp hlen
    have heq : behind = data ++ rest := by
      rw [← List.drop_drop, hbehind] at hdrop
      exact hdrop
    exact ⟨hlength, rest, by rw [hbehind, heq, hlength]⟩
  · rintro ⟨hlength, rest, hdrop⟩
    have hbehind : buf.drop (i + 2) = data ++ rest := by
      rw [← List.drop_drop, hdrop]
      rfl
    have hle := congrArg List.length hdrop
    simp only [List.length_drop, List.length_append, length_htons] at hle
    rw [hlength] at hdrop
    refine ⟨convertToHost2Bytes_of_drop hdrop, ?_⟩
    rw [← hlength]
    exact readBytes_of_drop hbehind (by omega)

/-! ## `CreateProperty` -/

/-- The constructor from a buffer reads its bytes. -/
theorem ofBuf_eq_ok_iff {len : UInt16} {buf : Bytes} {i : Nat} {entity : MqttBinaryDataEntity} :
    MqttBinaryDataEntity.ofBuf len buf i = .ok entity ↔
      readBytes buf i len.toNat = .ok entity.data := by
  unfold MqttBinaryDataEntity.ofBuf readBytes
  split
  · rename_i bs hbs
    obtain ⟨data, hlt⟩ := entity
    simp only [hbs, Except.ok.injEq, MqttBinaryDataEntity.mk.injEq]
  · rename_i hnone
    simp [hnone]

/-- Binary data is read where its bytes stand. -/
theorem ofBuf_of_drop {buf rest : Bytes} {i : Nat} {len : UInt16} {entity : MqttBinaryDataEntity}
    (h : buf.drop i = entity.data ++ rest) (hi : i ≤ buf.length)
    (hlen : len.toNat = entity.data.length) :
    MqttBinaryDataEntity.ofBuf len buf i = .ok entity := by
  rw [ofBuf_eq_ok_iff, hlen]
  exact readBytes_of_drop h hi

/-- Binary data that is read stands there. -/
theorem drop_of_ofBuf {buf : Bytes} {i : Nat} {len : UInt16} {entity : MqttBinaryDataEntity}
    (h : MqttBinaryDataEntity.ofBuf len buf i = .ok entity) :
    (∃ rest, buf.drop i = entity.data ++ rest) ∧ entity.data.length = len.toNat :=
  drop_of_readBytes (ofBuf_eq_ok_iff.mp h)

/-- A property on the wire is read as that property. -/
theorem createProperty_of_wire {p : MqttProperty} {bs : Bytes} (h : WireProperty p bs)
    (rest : Bytes) : createProperty (bs ++ rest) = .ok (some p, bs.length % 256) := by
  obtain ⟨hid, hentity⟩ := h
  rename_i id entity bs
  have hread : readByte (id :: bs ++ rest) 0 = .ok id := rfl
  rw [dataTypeOf] at hid
  simp only [createProperty, hread, Except.ok_bind, hid, List.length_cons]
  -- `h1` is what stands behind the identifier, `h3` what stands behind the first length
  cases hentity with
  | byte data => rfl
  | twoByte data =>
    have h1 : (id :: (htons data.toNat) ++ rest).drop 1 = htons data.toNat ++ rest := rfl
    simp only [MqttEntity.getType, convertToHost2Bytes_of_drop h1, Except.ok_bind]
    rfl
  | fourByte data =>
    have h1 : (id :: (htonl data.toNat) ++ rest).drop 1 = htonl data.toNat ++ rest := rfl
    simp only [MqttEntity.getType, convertToHost4Bytes_of_drop h1, Except.ok_bind]
    rfl
  | @mqttString data hlen =>
    have hn : (UInt16.ofNat data.length).toNat = data.length := by
      rw [UInt16.toNat_ofNat', Nat.mod_eq_of_lt hlen]
    have h1 : (id :: (htons data.length ++ data) ++ rest).drop 1 =
        htons data.length ++ (data ++ rest) := by simp
    obtain ⟨hlen', hdata⟩ := (read_prefixed_iff (j := 3) rfl).mpr ⟨hn.symm, rest, h1⟩
    rw [hn] at hdata
    simp only [MqttEntity.getType, hlen', hdata, Except.ok_bind, Nat.reduceAdd, Nat.reduceMod, hn,
      Except.pure_eq_ok, Except.ok.injEq, Prod.mk.injEq, true_and, List.length_append,
      length_htons]
    omega
  | binaryData entity =>
    have hn : (UInt16.ofNat entity.data.length).toNat = entity.data.length := by
      rw [UInt16.toNat_ofNat', Nat.mod_eq_of_lt entity.size_lt]
    have h1 : (id :: (htons entity.data.length ++ entity.data) ++ rest).drop 1 =
        htons entity.data.length ++ (entity.data ++ rest) := by simp
    obtain ⟨hlen', hdata⟩ := (read_prefixed_iff (j := 3) rfl).mpr ⟨hn.symm, rest, h1⟩
    simp only [MqttEntity.getType, hlen', ofBuf_eq_ok_iff.mpr hdata, Except.ok_bind, Nat.reduceAdd,
      Nat.reduceMod, hn, Except.pure_eq_ok, Except.ok.injEq, Prod.mk.injEq, true_and,
      List.length_append, length_htons]
    omega
  | @mqttStringPair first second hfirst hsecond =>
    have hn1 : (UInt16.ofNat first.length).toNat = first.length := by
      rw [UInt16.toNat_ofNat', Nat.mod_eq_of_lt hfirst]
    have hn2 : (UInt16.ofNat second.length).toNat = second.length := by
      rw [UInt16.toNat_ofNat', Nat.mod_eq_of_lt hsecond]
    generalize hbuf : id :: (htons first.length ++ first ++ (htons second.length ++ second)) ++ rest
      = buf
    have h1 : buf.drop 1 = htons first.length ++
        (first ++ (htons second.length ++ (second ++ rest))) := by
      rw [← hbuf]; simp
    -- the second string stands behind the first one
    have h2 : buf.drop (3 + first.length) = htons second.length ++ (second ++ rest) := by
      rw [show 3 + first.length = 1 + (2 + first.length) by omega, ← List.drop_drop, h1,
        ← List.drop_drop]
      exact List.drop_left
    obtain ⟨hlen₁, hdata₁⟩ := (read_prefixed_iff (j := 3) rfl).mpr ⟨hn1.symm, _, h1⟩
    obtain ⟨hlen₂, hdata₂⟩ := (read_prefixed_iff rfl).mpr ⟨hn2.symm, rest, h2⟩
    rw [hn1] at hdata₁
    rw [hn2] at hdata₂
    simp only [MqttEntity.getType, hlen₁, hlen₂, hdata₁, hdata₂, Except.ok_bind, Nat.reduceAdd,
      Nat.reduceMod, hn1, hn2, Except.pure_eq_ok, Except.ok.injEq, Prod.mk.injEq, true_and,
      List.length_append, length_htons]
    omega
  | variableInt hvar hlen =>
    have h1 : (id :: bs ++ rest).drop 1 = bs ++ rest := rfl
    simp only [MqttEntity.getType, h1, deCodeVarInt_of_isVarInt hvar hlen, Except.ok_bind,
      Except.pure_eq_ok, Except.ok.injEq, Prod.mk.injEq, true_and]
    omega

/-- A `DeCodeVarInt` that refuses has seen four continued bytes and a fifth. -/
private theorem invalid_of_deCodeVarInt_eq_none {id : UInt8} {rest : Bytes}
    (hid : dataTypeOf id = some .variableInt) (h : deCodeVarInt rest = .ok none) :
    Invalid (id :: rest) := by
  rcases deCodeVarInt_cases rest with ⟨_, _, _, _, _, heq⟩ | ⟨bs, b, rest', rfl, hlen, hall, _⟩ |
    ⟨_, _, heq⟩
  · exact nomatch heq.symm.trans h
  · exact .longVarInt hid hlen hall
  · exact nomatch heq.symm.trans h

/-- What `CreateProperty` makes of a buffer when it returns: the property the
    buffer starts with, or nothing for a buffer that starts with none. -/
theorem createProperty_inv {buf : Bytes} {op : Option MqttProperty} {s : Nat}
    (h : createProperty buf = .ok (op, s)) :
    (∃ p bs rest, op = some p ∧ buf = bs ++ rest ∧ WireProperty p bs ∧ s = bs.length % 256) ∨
      (op = none ∧ s = 0 ∧ Invalid buf) := by
  rw [createProperty, Except.bind_eq_ok_iff] at h
  obtain ⟨id, hread, h⟩ := h
  obtain ⟨rest, rfl⟩ : ∃ rest, buf = id :: rest := ⟨buf.drop 1, by
    simpa using drop_of_readByte hread⟩
  have hid : (MqttPropertyId.ofCode id).map MqttPropertyId.dataType = dataTypeOf id := rfl
  rw [hid] at h
  cases hd : dataTypeOf id with
  | none =>
    simp only [hd, Except.pure_eq_ok, Except.ok.injEq, Prod.mk.injEq] at h
    exact .inr ⟨h.1.symm, h.2.symm, .unknownId hd⟩
  | some t =>
    -- the wire form is put together from what each read says about the buffer
    cases t with
    | byte =>
      simp only [hd, Except.bind_eq_ok_iff, Except.pure_eq_ok, Except.ok.injEq, Prod.mk.injEq] at h
      obtain ⟨val, hval, rfl, rfl⟩ := h
      have hrest : rest = val :: rest.drop 1 := by simpa using drop_of_readByte hval
      exact .inl ⟨_, _, rest.drop 1, rfl, congrArg (id :: ·) hrest, .mk hd (.byte val), rfl⟩
    | twoByte =>
      simp only [hd, Except.bind_eq_ok_iff, Except.pure_eq_ok, Except.ok.injEq, Prod.mk.injEq,
        convertToHost2Bytes_eq_ok_iff] at h
      obtain ⟨val, ⟨rest', hval⟩, rfl, rfl⟩ := h
      obtain rfl : rest = htons val.toNat ++ rest' := hval
      exact .inl ⟨_, _, rest', rfl, rfl, .mk hd (.twoByte val), rfl⟩
    | fourByte =>
      simp only [hd, Except.bind_eq_ok_iff, Except.pure_eq_ok, Except.ok.injEq, Prod.mk.injEq,
        convertToHost4Bytes_eq_ok_iff] at h
      obtain ⟨val, ⟨rest', hval⟩, rfl, rfl⟩ := h
      obtain rfl : rest = htonl val.toNat ++ rest' := hval
      exact .inl ⟨_, _, rest', rfl, rfl, .mk hd (.fourByte val), rfl⟩
    | mqttString =>
      simp only [hd, Except.bind_eq_ok_iff, Except.pure_eq_ok, Except.ok.injEq, Prod.mk.injEq,
        Nat.reduceAdd, Nat.reduceMod] at h
      obtain ⟨len, hlen, data, hdata, rfl, rfl⟩ := h
      obtain ⟨hdl, rest', hrest⟩ := (read_prefixed_iff rfl).mp ⟨hlen, hdata⟩
      obtain rfl : rest = htons data.length ++ (data ++ rest') := hrest
      have hlt : data.length < 2 ^ 16 := hdl ▸ len.toNat_lt
      rw [← hdl]
      refine .inl ⟨_, _, rest', rfl, ?_, .mk hd (.mqttString hlt), ?_⟩
      · simp only [List.cons_append, List.append_assoc]
      · simp only [List.length_cons, List.length_append, length_htons]
        omega
    | binaryData =>
      simp only [hd, Except.bind_eq_ok_iff, Except.pure_eq_ok, Except.ok.injEq, Prod.mk.injEq,
        ofBuf_eq_ok_iff, Nat.reduceAdd, Nat.reduceMod] at h
      obtain ⟨len, hlen, entity, hentity, rfl, rfl⟩ := h
      obtain ⟨hdl, rest', hrest⟩ := (read_prefixed_iff rfl).mp ⟨hlen, hentity⟩
      obtain rfl : rest = htons entity.data.length ++ (entity.data ++ rest') := hrest
      rw [← hdl]
      refine .inl ⟨_, _, rest', rfl, ?_, .mk hd (.binaryData entity), ?_⟩
      · simp only [List.cons_append, List.append_assoc]
      · simp only [List.length_cons, List.length_append, length_htons]
        omega
    | mqttStringPair =>
      simp only [hd, Except.bind_eq_ok_iff, Except.pure_eq_ok, Except.ok.injEq, Prod.mk.injEq,
        Nat.reduceAdd, Nat.reduceMod] at h
      obtain ⟨len_1, hlen₁, len_2, hlen₂, first, hfirst, second, hsecond, rfl, rfl⟩ := h
      obtain ⟨hfl, rest₁, hrest⟩ := (read_prefixed_iff rfl).mp ⟨hlen₁, hfirst⟩
      obtain ⟨hsl, rest₂, hdrop⟩ := (read_prefixed_iff rfl).mp ⟨hlen₂, hsecond⟩
      obtain rfl : rest = htons first.length ++ (first ++ rest₁) := hrest
      -- the second length stands right behind the first string
      obtain rfl : rest₁ = htons second.length ++ (second ++ rest₂) := by
        rw [← List.drop_drop, ← hfl, show ∀ l : Bytes, (id :: (htons first.length ++ l)).drop 3 = l
          from fun _ => rfl, List.drop_left] at hdrop
        exact hdrop
      have hlt₁ : first.length < 2 ^ 16 := hfl ▸ len_1.toNat_lt
      have hlt₂ : second.length < 2 ^ 16 := hsl ▸ len_2.toNat_lt
      rw [← hfl, ← hsl]
      refine .inl ⟨_, _, rest₂, rfl, ?_, .mk hd (.mqttStringPair hlt₁ hlt₂), ?_⟩
      · simp only [List.cons_append, List.append_assoc]
      · simp only [List.length_cons, List.length_append, length_htons]
        omega
    | variableInt =>
      simp only [hd, Except.bind_eq_ok_iff] at h
      obtain ⟨ov, hov, h⟩ := h
      change deCodeVarInt rest = .ok ov at hov
      cases ov with
      | none =>
        simp only [Except.pure_eq_ok, Except.ok.injEq, Prod.mk.injEq] at h
        exact .inr ⟨h.1.symm, h.2.symm, invalid_of_deCodeVarInt_eq_none hd hov⟩
      | some vk =>
        obtain ⟨val, vint_size⟩ := vk
        simp only [Except.pure_eq_ok, Except.ok.injEq, Prod.mk.injEq] at h
        obtain ⟨bs, rest', rfl, hbs, hlen, rfl, rfl⟩ := deCodeVarInt_eq_some_iff.mp hov
        refine .inl ⟨_, id :: bs, rest', h.1.symm, rfl, .mk hd (.variableInt hbs hlen), ?_⟩
        rw [← h.2, List.length_cons, Nat.add_comm]

/-- `CreateProperty` returns no property for what cannot be one. -/
theorem createProperty_of_invalid {buf : Bytes} (h : Invalid buf) :
    createProperty buf = .ok (none, 0) := by
  cases h with
  | unknownId hid =>
    rw [dataTypeOf] at hid
    rw [createProperty, show readByte _ 0 = .ok _ from rfl, Except.ok_bind]
    simp only [hid, Except.pure_eq_ok]
  | @longVarInt id b bs rest hid hlen hall =>
    rw [dataTypeOf] at hid
    have hread : readByte (id :: (bs ++ b :: rest)) 0 = .ok id := rfl
    have h1 : (id :: (bs ++ b :: rest)).drop 1 = bs ++ b :: rest := rfl
    rw [createProperty, hread, Except.ok_bind]
    simp only [hid, h1, deCodeVarInt_of_long hlen hall, Except.ok_bind, Except.pure_eq_ok]

/-! ## Faults -/

/-- The only fault of `readByte` is a read behind the buffer. -/
theorem readByte_error {buf : Bytes} {i : Nat} {e : Fault} (h : readByte buf i = .error e) :
    e = .outOfBounds := by
  unfold readByte at h
  split at h
  · exact nomatch h
  · exact (Except.error.inj h).symm

/-- The only fault of `readBytes` is a read behind the buffer. -/
theorem readBytes_error {buf : Bytes} {i n : Nat} {e : Fault} (h : readBytes buf i n = .error e) :
    e = .outOfBounds := by
  unfold readBytes at h
  split at h
  · exact nomatch h
  · exact (Except.error.inj h).symm

/-- The only fault of reading binary data is a read behind the buffer. -/
theorem ofBuf_error {buf : Bytes} {i : Nat} {len : UInt16} {e : Fault}
    (h : MqttBinaryDataEntity.ofBuf len buf i = .error e) : e = .outOfBounds := by
  unfold MqttBinaryDataEntity.ofBuf at h
  split at h
  · exact nomatch h
  · exact (Except.error.inj h).symm

/-- The only fault of `ConvertToHost2Bytes` is a read behind the buffer. -/
theorem convertToHost2Bytes_error {buf : Bytes} {i : Nat} {e : Fault}
    (h : convertToHost2Bytes buf i = .error e) : e = .outOfBounds := by
  simp only [convertToHost2Bytes, Except.bind_eq_error_iff, Except.pure_eq_ok, reduceCtorEq,
    exists_false, and_false, or_false] at h
  rcases h with h | ⟨_, _, h⟩
  all_goals exact readByte_error h

/-- The only fault of `ConvertToHost4Bytes` is a read behind the buffer. -/
theorem convertToHost4Bytes_error {buf : Bytes} {i : Nat} {e : Fault}
    (h : convertToHost4Bytes buf i = .error e) : e = .outOfBounds := by
  simp only [convertToHost4Bytes, Except.bind_eq_error_iff, Except.pure_eq_ok, reduceCtorEq,
    exists_false, and_false, or_false] at h
  rcases h with h | ⟨_, _, h | ⟨_, _, h | ⟨_, _, h⟩⟩⟩
  all_goals exact readByte_error h

/-- The one fault `CreateProperty` can end in. -/
theorem createProperty_error {buf : Bytes} {e : Fault} (h : createProperty buf = .error e) :
    e = .outOfBounds := by
  rw [createProperty, Except.bind_eq_error_iff] at h
  rcases h with h | ⟨id, -, h⟩
  · exact readByte_error h
  · split at h
    -- one goal for each type, and in it one case for each read
    all_goals simp only [Except.bind_eq_error_iff, Except.pure_eq_ok, reduceCtorEq, exists_false,
      and_false, or_false] at h
    · exact readByte_error h
    · exact convertToHost2Bytes_error h
    · exact convertToHost4Bytes_error h
    · rcases h with h | ⟨_, _, h⟩
      · exact convertToHost2Bytes_error h
      · exact readBytes_error h
    · rcases h with h | ⟨_, _, h⟩
      · exact convertToHost2Bytes_error h
      · exact ofBuf_error h
    · rcases h with h | ⟨_, _, h | ⟨_, _, h | ⟨_, _, h⟩⟩⟩
      · exact convertToHost2Bytes_error h
      · exact convertToHost2Bytes_error h
      · exact readBytes_error h
      · exact readBytes_error h
    · rcases h with h | ⟨ov, -, h⟩
      · exact deCodeVarInt_error h
      · cases ov <;> exact nomatch h

/-! ## Uniqueness -/

/-- Two properties at the start of one buffer are the same bytes. -/
theorem WireProperty.unique {p p' : MqttProperty} {bs bs' rest rest' : Bytes}
    (h : WireProperty p bs) (h' : WireProperty p' bs') (heq : bs ++ rest = bs' ++ rest') :
    p = p' ∧ bs = bs' := by
  have hcreate := createProperty_of_wire h rest
  rw [heq, createProperty_of_wire h' rest'] at hcreate
  -- `CreateProperty` reads both, so the properties are the same
  obtain rfl : p' = p := Option.some.inj (Prod.mk.inj (Except.ok.inj hcreate)).1
  refine ⟨rfl, List.append_inj_left heq ?_⟩
  obtain ⟨-, hentity⟩ := h
  obtain ⟨-, hentity'⟩ := h'
  cases hentity with
  | byte | twoByte | fourByte | mqttString | binaryData | mqttStringPair => cases hentity'; rfl
  | @variableInt bs hvar hlen =>
    generalize hv : MqttEntity.variableInt _ = entity at hentity'
    cases hentity' with
    | byte | twoByte | fourByte | mqttString | binaryData | mqttStringPair => exact nomatch hv
    | @variableInt bs' hvar' hlen' =>
      -- a number has several encodings, but a reader stops at the first clear top bit
      have hread := deCodeVarInt_of_isVarInt hvar hlen rest
      rw [List.cons_append, List.cons_append, List.cons.injEq] at heq
      rw [heq.2, deCodeVarInt_of_isVarInt hvar' hlen'] at hread
      simp only [Except.ok.injEq, Option.some.injEq, Prod.mk.injEq] at hread
      rw [List.length_cons, List.length_cons, hread.2]

end Mqtt.Spec
