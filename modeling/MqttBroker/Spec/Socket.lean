import MqttBroker.Native.Socket
import MqttBroker.Spec.VarInt

/-!
# Reading from the stream

A round of `ReadVariableInt` adds one digit of seven bits, so `ReadFixedHeader` takes
a first byte and a variable-length integer off the stream and leaves the rest. On the
stream and in a buffer the same bytes are the same number, and the same bytes are none:
both readers look at a fifth byte before they give up.
-/

namespace Mqtt.Spec

open Mqtt.Native

/-- A round of `ReadVariableInt` for one of the first four bytes. -/
theorem readVariableIntRound_eq {b : UInt8} {value j : Nat} (hj : j ≤ 3)
    (hvalue : value < 128 ^ j) :
    readVariableIntRound b value (128 ^ j) =
      if b.toNat < 128 then .done (value + 128 ^ j * (b.toNat % 128))
      else .next (value + 128 ^ j * (b.toNat % 128)) (128 ^ (j + 1)) := by
  have hpow : 128 ^ (j + 1) < 2 ^ 32 :=
    Nat.lt_of_le_of_lt (Nat.pow_le_pow_right (by decide) (by omega : j + 1 ≤ 4)) (by decide)
  have hlt : value + 128 ^ j * (b.toNat % 128) < 2 ^ 32 :=
    Nat.lt_trans (pow_mul_add_lt hvalue (Nat.mod_lt _ (by decide))) hpow
  have hmult : ¬ 128 ^ j > 128 ^ 3 := Nat.not_lt.mpr (Nat.pow_le_pow_right (by decide) hj)
  simp only [readVariableIntRound, toNat_and_7F, and_80_eq_zero_iff, if_neg hmult]
  rw [Nat.mul_comm (b.toNat % 128), Nat.mod_eq_of_lt hlt, ← Nat.pow_succ, Nat.mod_eq_of_lt hpow]

/-- `ReadVariableInt` takes a variable-length integer of at most four bytes off the
    stream. -/
theorem readVariableIntLoop_of_isVarInt {bs : Bytes} (h : IsVarInt bs) (rest : Bytes) :
    ∀ {j value : Nat}, j + bs.length ≤ 4 → value < 128 ^ j →
      readVariableIntLoop (bs ++ rest) value (128 ^ j) =
        .ok (value + 128 ^ j * varIntValue bs, rest) := by
  -- Induction on the encoding, as for `DeCodeVarInt`
  induction h with
  | @last b hb =>
    intro j value hlen hvalue
    simp only [List.length_singleton] at hlen
    rw [List.singleton_append, readVariableIntLoop, readVariableIntRound_eq (by omega) hvalue,
      if_pos hb]
    simp [varIntValue]
  | @cons b bs hb _ ih =>
    intro j value hlen hvalue
    rw [List.length_cons] at hlen
    have hlt := pow_mul_add_lt hvalue (Nat.mod_lt b.toNat (by decide : 0 < 128))
    rw [List.cons_append, readVariableIntLoop, readVariableIntRound_eq (by omega) hvalue,
      if_neg (by omega)]
    dsimp only
    rw [ih (by omega) hlt, varIntValue, Nat.mul_add, ← Nat.mul_assoc, ← Nat.pow_succ,
      Nat.add_assoc]

/-- `ReadVariableInt` takes up a variable-length integer at the head of the stream. -/
theorem readVariableInt_of_isVarInt {bs : Bytes} (h : IsVarInt bs) (hlen : bs.length ≤ 4)
    (rest : Bytes) : readVariableInt (bs ++ rest) = .ok (varIntValue bs, rest) := by
  have hloop : readVariableIntLoop (bs ++ rest) 0 (128 ^ 0) = _ :=
    readVariableIntLoop_of_isVarInt h rest (by omega) (by decide)
  rw [Nat.pow_zero, Nat.zero_add, Nat.one_mul] at hloop
  rw [readVariableInt, hloop]

/-- `ReadFixedHeader` reads what announces the rest of a packet. -/
theorem readFixedHeader_of_isVarInt {bs : Bytes} (h : IsVarInt bs) (hlen : bs.length ≤ 4)
    (first : UInt8) (rest : Bytes) :
    readFixedHeader (first :: (bs ++ rest)) = .ok (⟨first, varIntValue bs⟩, rest) := by
  simp only [readFixedHeader, readVariableInt_of_isVarInt h hlen rest]

/-! ## Both readers -/

/-- Continued bytes only add to the value. -/
private theorem readVariableIntLoop_of_continued {bs : Bytes} (h : ∀ b ∈ bs, 128 ≤ b.toNat)
    (rest : Bytes) : ∀ {j value : Nat}, j + bs.length ≤ 4 → value < 128 ^ j →
      ∃ value', readVariableIntLoop (bs ++ rest) value (128 ^ j) =
        readVariableIntLoop rest value' (128 ^ (j + bs.length)) := by
  -- Induction on the bytes; each has its highest bit set, so that another one is read
  induction bs with
  | nil => exact fun _ _ => ⟨_, rfl⟩
  | cons b bs ih =>
    intro j value hlen hvalue
    rw [List.length_cons] at hlen ⊢
    have hb : 128 ≤ b.toNat := h b (.head _)
    have hlt := pow_mul_add_lt hvalue (Nat.mod_lt b.toNat (by decide : 0 < 128))
    obtain ⟨value', heq⟩ := ih (fun x hx => h x (.tail _ hx)) (by omega) hlt
    refine ⟨value', ?_⟩
    rw [List.cons_append, readVariableIntLoop, readVariableIntRound_eq (by omega) hvalue,
      if_neg (by omega)]
    dsimp only
    rw [heq, show j + 1 + bs.length = j + (bs.length + 1) by omega]

/-- Four continued bytes and a fifth are refused on the stream as well. -/
theorem readVariableInt_of_long {bs rest : Bytes} {b : UInt8} (hlen : bs.length = 4)
    (h : ∀ x ∈ bs, 128 ≤ x.toNat) : readVariableInt (bs ++ b :: rest) = .error .varIntErr := by
  obtain ⟨value, heq⟩ := @readVariableIntLoop_of_continued bs h (b :: rest) 0 0 (by omega)
    (by decide)
  rw [hlen, Nat.pow_zero] at heq
  rw [readVariableInt, heq]
  rfl

/-- A stream that ends among at most four continued bytes cannot be read. -/
theorem readVariableInt_of_short {buf : Bytes} (hlen : buf.length ≤ 4)
    (h : ∀ x ∈ buf, 128 ≤ x.toNat) : readVariableInt buf = .error .readErr := by
  obtain ⟨value, heq⟩ := @readVariableIntLoop_of_continued buf h [] 0 0 (by omega) (by decide)
  rw [List.append_nil, Nat.pow_zero] at heq
  rw [readVariableInt, heq]
  rfl

/-- One of the first four bytes has its top bit clear. -/
def EndsInFour (buf : Bytes) : Prop := ∃ i b, i < 4 ∧ buf[i]? = some b ∧ b &&& 0x80 = 0

/-- An encoding of at most four bytes ends in the first four. -/
theorem IsVarInt.endsInFour {bs : Bytes} (h : IsVarInt bs) (hlen : bs.length ≤ 4) (rest : Bytes) :
    EndsInFour (bs ++ rest) := by
  suffices hlast : ∃ i b, i < bs.length ∧ bs[i]? = some b ∧ b &&& 0x80 = 0 by
    obtain ⟨i, b, hi, hget, hb⟩ := hlast
    exact ⟨i, b, by omega, by rw [List.getElem?_append_left hi, hget], hb⟩
  induction h with
  | last hb => exact ⟨0, _, by simp, rfl, (and_80_eq_zero_iff _).mpr hb⟩
  | cons _ _ ih =>
    rw [List.length_cons] at hlen
    obtain ⟨i, b, hi, hget, hb⟩ := ih (by omega)
    exact ⟨i + 1, b, by simpa using hi, by simpa using hget, hb⟩

/-- Four bytes with the top bit set, or nothing but such bytes, do not. -/
theorem not_endsInFour_of_continued {bs rest : Bytes} (h : ∀ x ∈ bs, 128 ≤ x.toNat)
    (hlen : bs.length = 4 ∨ rest = []) : ¬ EndsInFour (bs ++ rest) := by
  rintro ⟨i, b, hi, hget, hb⟩
  have hmem : b ∈ bs := by
    rcases hlen with hlen | rfl
    · rw [List.getElem?_append_left (by omega)] at hget
      exact List.mem_of_getElem? hget
    · rw [List.append_nil] at hget
      exact List.mem_of_getElem? hget
  have hge := h b hmem
  have hlt := (and_80_eq_zero_iff b).mp hb
  omega

/-- What the two readers make of a buffer and of a stream with the same bytes. -/
structure ReadersAgree (buf : Bytes) : Prop where
  /-- They return ok for the same inputs. -/
  decode_ok_iff : (∃ r, deCodeVarInt buf = .ok (some r)) ↔ EndsInFour buf
  read_ok_iff : (∃ r, readVariableInt buf = .ok r) ↔ EndsInFour buf
  /-- Then the value and the bytes that are consumed are the same. The value is the
      number that these bytes stand for, so no sum has wrapped. -/
  agree : ∀ {value size}, deCodeVarInt buf = .ok (some (value, size)) →
    readVariableInt buf = .ok (value, buf.drop size) ∧ 1 ≤ size ∧ size ≤ 4 ∧
      IsVarInt (buf.take size) ∧ value = varIntValue (buf.take size) ∧ value < 2 ^ 28
  /-- With a fifth byte to look at, both refuse all other inputs. -/
  refuse : ¬ EndsInFour buf → 5 ≤ buf.length →
    deCodeVarInt buf = .ok none ∧ readVariableInt buf = .error .varIntErr

/-- `DeCodeVarInt` and `ReadVariableInt` read the same numbers and take the same bytes. -/
theorem readersAgree (buf : Bytes) : ReadersAgree buf := by
  -- the number ends in time, is too long, or the bytes run out
  rcases deCodeVarInt_cases buf with ⟨bs, rest, rfl, hbs, hlen, hdecode⟩ |
    ⟨bs, b, rest, rfl, hlen, hall, hdecode⟩ | ⟨hlen, hall, hdecode⟩
  · have hends := hbs.endsInFour hlen rest
    have hread := readVariableInt_of_isVarInt hbs hlen rest
    refine ⟨iff_of_true ⟨_, hdecode⟩ hends, iff_of_true ⟨_, hread⟩ hends, ?_,
      fun hnot => absurd hends hnot⟩
    intro value size h
    have hbounds := deCodeVarInt_bounds h
    obtain ⟨rfl, rfl⟩ := Prod.mk.inj (Option.some.inj (Except.ok.inj (hdecode.symm.trans h)))
    rw [List.drop_left, List.take_left]
    exact ⟨hread, hbounds.1, hbounds.2.1, hbs, rfl, hbounds.2.2.1⟩
  · have hnot := @not_endsInFour_of_continued bs (b :: rest) hall (.inl hlen)
    have hread := @readVariableInt_of_long bs rest b hlen hall
    refine ⟨iff_of_false ?_ hnot, iff_of_false ?_ hnot, ?_, fun _ _ => ⟨hdecode, hread⟩⟩
    · simp [hdecode]
    · simp [hread]
    · simp [hdecode]
  · have hnot := @not_endsInFour_of_continued buf [] hall (.inr rfl)
    rw [List.append_nil] at hnot
    have hread := readVariableInt_of_short hlen hall
    refine ⟨iff_of_false ?_ hnot, iff_of_false ?_ hnot, ?_, fun _ hge => by omega⟩
    · simp [hdecode]
    · simp [hread]
    · simp [hdecode]

/-- `CodeVarInt` writes as many bytes as `GetVarIntSize` says; up to four for a value
    below `2 ^ 28`, which both readers get back, whatever follows. On all inputs the
    readers agree. -/
theorem varInt_codec_and_readers :
    (∀ (value : UInt32) (rest : Bytes), value.toNat < 2 ^ 28 →
      (1 ≤ (codeVarInt value).length ∧ (codeVarInt value).length ≤ 4) ∧
      deCodeVarInt (codeVarInt value ++ rest) =
        .ok (some (value.toNat, (codeVarInt value).length)) ∧
      readVariableInt (codeVarInt value ++ rest) = .ok (value.toNat, rest)) ∧
    (∀ buf, ReadersAgree buf) ∧
    ∀ value, (codeVarInt value).length = getVarIntSize value := by
  refine ⟨fun value rest hlt => ?_, readersAgree, length_codeVarInt⟩
  obtain ⟨hvar, hvalue⟩ := codeVarInt_spec value
  have hlen := length_codeVarInt_le hlt
  have hread := readVariableInt_of_isVarInt hvar hlen rest
  rw [hvalue] at hread
  exact ⟨⟨hvar.length_pos, hlen⟩, deCodeVarInt_codeVarInt hlt rest, hread⟩

/-- The value of the test, with a byte behind it. -/
theorem varInt_codec_and_readers_BFFF0A :
    deCodeVarInt (codeVarInt 0xBFFF0A ++ [0xFF]) = .ok (some (0xBFFF0A, 4)) ∧
      readVariableInt (codeVarInt 0xBFFF0A ++ [0xFF]) = .ok (0xBFFF0A, [0xFF]) :=
  (varInt_codec_and_readers.1 0xBFFF0A [0xFF] (by decide)).2

end Mqtt.Spec
