import MqttBroker.Native.VarInt

/-!
# Variable-length integers: format and codec

`IsVarInt` is the wire format of a variable-length integer: seven payload bits a
byte, low bits first, the top bit set on every byte but the last. The reader
accepts exactly such a string of at most four bytes, and the writer produces
one of `GetVarIntSize` bytes for the value it is given.
-/

namespace Mqtt.Spec

open Mqtt.Native

/-- A continued string of bytes: top bit set on all but the last. -/
inductive IsVarInt : Bytes → Prop
  | last {b : UInt8} : b.toNat < 128 → IsVarInt [b]
  | cons {b : UInt8} {bs : Bytes} : 128 ≤ b.toNat → IsVarInt bs → IsVarInt (b :: bs)

/-- The number a string of seven-bit digits stands for, low digit first. -/
def varIntValue : Bytes → Nat
  | [] => 0
  | b :: bs => b.toNat % 128 + 128 * varIntValue bs

/-- The bytes of a number give seven bits each. -/
theorem varIntValue_lt (bs : Bytes) : varIntValue bs < 128 ^ bs.length := by
  induction bs with
  | nil => simp [varIntValue]
  | cons b bs ih =>
    simp only [varIntValue, List.length_cons, Nat.pow_succ]
    omega

/-- A number takes at least one byte. -/
theorem IsVarInt.length_pos {bs : Bytes} (h : IsVarInt bs) : 0 < bs.length := by
  cases h <;> simp

/-- Where a variable-length integer ends can be seen from its bytes. -/
theorem IsVarInt.append_inj {bs bs' rest rest' : Bytes} (h : IsVarInt bs) (h' : IsVarInt bs')
    (heq : bs ++ rest = bs' ++ rest') : bs = bs' ∧ rest = rest' := by
  -- Induction on the first encoding: its last byte is the first one with a clear top bit, and so
  -- is the other's
  induction h generalizing bs' with
  | last hlt =>
    cases h' with
    | last => simpa using heq
    | cons hge =>
      obtain ⟨rfl, -⟩ := List.cons.inj heq
      omega
  | cons hge _ ih =>
    cases h' with
    | last hlt =>
      obtain ⟨rfl, -⟩ := List.cons.inj heq
      omega
    | cons _ h' =>
      obtain ⟨rfl, htail⟩ := List.cons.inj heq
      obtain ⟨rfl, rfl⟩ := ih h' htail
      exact ⟨rfl, rfl⟩

/-! ## Single bytes -/

/-- `readByte` reads exactly the byte that stands there. -/
theorem readByte_eq_ok_iff {buf : Bytes} {i : Nat} {b : UInt8} :
    readByte buf i = .ok b ↔ buf[i]? = some b := by
  unfold readByte
  split <;> simp_all

/-- A buffer whose suffix at `i` starts with `b` reads `b` there. -/
theorem readByte_of_drop {buf rest : Bytes} {i : Nat} {b : UInt8}
    (h : buf.drop i = b :: rest) : readByte buf i = .ok b := by
  rw [readByte_eq_ok_iff, ← Nat.add_zero i, ← List.getElem?_drop, h]
  rfl

/-- Behind the buffer there is nothing to read. -/
theorem readByte_of_drop_nil {buf : Bytes} {i : Nat} (h : buf.drop i = []) :
    readByte buf i = .error .outOfBounds := by
  have hi : buf[i]? = none := List.getElem?_eq_none (List.drop_eq_nil_iff.mp h)
  simp only [readByte, hi]

/-- Behind the first byte of what is left. -/
theorem drop_succ_of_drop {buf rest : Bytes} {i : Nat} {b : UInt8}
    (h : buf.drop i = b :: rest) : buf.drop (i + 1) = rest := by
  rw [← List.drop_drop, h]
  rfl

/-- `b & 0x7F` are the seven low bits. -/
theorem toNat_and_7F (b : UInt8) : (b &&& 0x7F).toNat = b.toNat % 128 := by
  rw [UInt8.toNat_and]
  exact Nat.and_two_pow_sub_one_eq_mod b.toNat 7

/-- `b & 0x80` is clear exactly below 128. -/
theorem and_80_eq_zero_iff (b : UInt8) : b &&& 0x80 = 0 ↔ b.toNat < 128 := by
  have key : ∀ i : Fin 256, i.val &&& 0x80 = 0 ↔ i.val < 128 := by decide +kernel
  rw [← UInt8.toNat_inj, UInt8.toNat_and]
  exact key ⟨b.toNat, b.toNat_lt⟩

/-- `| 0x80` marks a byte as one that is not the last. -/
theorem or_80_toNat {n : Nat} (h : n < 128) : (UInt8.ofNat n ||| 0x80).toNat = n + 128 := by
  have key : ∀ i : Fin 128, (UInt8.ofNat i.val ||| 0x80).toNat = i.val + 128 := by decide
  exact key ⟨n, h⟩

/-! ## The reader -/

/-- One round of the loop, for the `j`-th byte. -/
theorem deCodeVarIntLoop_succ {buf : Bytes} {j fuel value : Nat} {b : UInt8} {rest : Bytes}
    (hj : j ≤ 4) (hval : value < 128 ^ j) (hdrop : buf.drop j = b :: rest) :
    deCodeVarIntLoop buf (fuel + 1) value (128 ^ j) j =
      if j = 4 then .ok none
      else if b.toNat < 128 then .ok (some (value + 128 ^ j * (b.toNat % 128), j + 1))
      else deCodeVarIntLoop buf fuel (value + 128 ^ j * (b.toNat % 128)) (128 ^ (j + 1))
        (j + 1) := by
  have hmod : b.toNat % 128 < 128 := Nat.mod_lt _ (by decide)
  simp only [deCodeVarIntLoop, readByte_of_drop hdrop, Except.ok_bind, Except.pure_eq_ok,
    toNat_and_7F, and_80_eq_zero_iff]
  match j, hj with
  | 4, _ => simp
  | 0, _ | 1, _ | 2, _ | 3, _ =>
    simp only [Nat.reducePow, Nat.reduceMul, Nat.reduceMod, Nat.reduceAdd, Nat.reduceEqDiff,
      gt_iff_lt, Nat.reduceLT, ↓reduceIte] at hval ⊢
    rw [Nat.mod_eq_of_lt (by omega), Nat.mul_comm]

/-- The next digit keeps the value below the next place. -/
theorem pow_mul_add_lt {value d j : Nat} (hvalue : value < 128 ^ j) (hd : d < 128) :
    value + 128 ^ j * d < 128 ^ (j + 1) := by
  calc value + 128 ^ j * d < 128 ^ j + 128 ^ j * d := by omega
    _ = 128 ^ j * (d + 1) := by rw [Nat.mul_succ, Nat.add_comm]
    _ ≤ 128 ^ (j + 1) := by
      rw [Nat.pow_succ]
      exact Nat.mul_le_mul_left _ (by omega)

/-- The reader takes a variable-length integer of at most four bytes off the
    buffer. -/
theorem deCodeVarIntLoop_of_isVarInt {bs : Bytes} (h : IsVarInt bs) :
    ∀ {buf rest : Bytes} {j fuel value : Nat}, fuel + j = 5 → j + bs.length ≤ 4 →
      value < 128 ^ j → buf.drop j = bs ++ rest →
      deCodeVarIntLoop buf fuel value (128 ^ j) j =
        .ok (some (value + 128 ^ j * varIntValue bs, j + bs.length)) := by
  -- Induction on the encoding; the value so far is below `128 ^ j`, so its multiplier adds no
  -- carry
  induction h with
  | @last b hb =>
    intro buf rest j fuel value hfuel hlen hval hdrop
    simp only [List.length_singleton] at hlen
    obtain ⟨fuel, rfl⟩ : ∃ f, fuel = f + 1 := ⟨fuel - 1, by omega⟩
    rw [deCodeVarIntLoop_succ (by omega) hval hdrop, if_neg (by omega), if_pos hb]
    simp [varIntValue]
  | @cons b bs hb hbs ih =>
    intro buf rest j fuel value hfuel hlen hval hdrop
    simp only [List.length_cons] at hlen
    obtain ⟨fuel, rfl⟩ : ∃ f, fuel = f + 1 := ⟨fuel - 1, by omega⟩
    have hmod : b.toNat % 128 < 128 := Nat.mod_lt _ (by decide)
    rw [deCodeVarIntLoop_succ (by omega) hval hdrop, if_neg (by omega), if_neg (by omega),
      ih (by omega) (by omega) _ (drop_succ_of_drop hdrop)]
    · rw [varIntValue, List.length_cons, Nat.mul_add, ← Nat.mul_assoc, ← Nat.pow_succ,
        Nat.add_assoc, Nat.add_assoc, Nat.add_comm 1]
    · exact pow_mul_add_lt hval hmod

/-- `DeCodeVarInt` reads an encoding of at most four bytes. -/
theorem deCodeVarInt_of_isVarInt {bs : Bytes} (h : IsVarInt bs) (hlen : bs.length ≤ 4)
    (rest : Bytes) : deCodeVarInt (bs ++ rest) = .ok (some (varIntValue bs, bs.length)) := by
  have hloop : deCodeVarIntLoop (bs ++ rest) 5 0 (128 ^ 0) 0 = _ :=
    deCodeVarIntLoop_of_isVarInt h rfl (by omega) (by decide) rfl
  simpa [deCodeVarInt] using hloop

/-- Continued bytes are only skipped over. -/
private theorem deCodeVarIntLoop_of_continued {bs : Bytes} (h : ∀ b ∈ bs, 128 ≤ b.toNat) :
    ∀ {buf rest : Bytes} {j value : Nat} (fuel : Nat), j + bs.length ≤ 4 → value < 128 ^ j →
      buf.drop j = bs ++ rest → ∃ value', value' < 128 ^ (j + bs.length) ∧
        deCodeVarIntLoop buf (fuel + bs.length) value (128 ^ j) j =
          deCodeVarIntLoop buf fuel value' (128 ^ (j + bs.length)) (j + bs.length) := by
  -- Induction on the bytes: each is a round that the loop goes on behind
  induction bs with
  | nil => exact fun _ _ hval _ => ⟨_, hval, rfl⟩
  | cons b bs ih =>
    intro buf rest j value fuel hlen hval hdrop
    simp only [List.length_cons] at hlen ⊢
    have hb : 128 ≤ b.toNat := h b (.head _)
    have hval' := pow_mul_add_lt hval (Nat.mod_lt b.toNat (by decide : 0 < 128))
    obtain ⟨value', hlt, heq⟩ := ih (fun x hx => h x (.tail _ hx)) fuel (by omega) hval'
      (drop_succ_of_drop hdrop)
    refine ⟨value', by rwa [show j + (bs.length + 1) = j + 1 + bs.length by omega], ?_⟩
    rw [← Nat.add_assoc, deCodeVarIntLoop_succ (by omega) hval hdrop, if_neg (by omega),
      if_neg (by omega), heq, show j + 1 + bs.length = j + (bs.length + 1) by omega]

/-- Four continued bytes and a fifth are refused. -/
theorem deCodeVarInt_of_long {bs rest : Bytes} {b : UInt8} (hlen : bs.length = 4)
    (h : ∀ x ∈ bs, 128 ≤ x.toNat) : deCodeVarInt (bs ++ b :: rest) = .ok none := by
  obtain ⟨value, hlt, heq⟩ := @deCodeVarIntLoop_of_continued bs h (bs ++ b :: rest) _ 0 0 1
    (by omega) (by decide) rfl
  have hdrop : (bs ++ b :: rest).drop (0 + 4) = b :: rest := by
    rw [← hlen, Nat.zero_add, List.drop_left]
  rw [hlen, pow_zero] at heq
  rw [hlen] at hlt
  rw [deCodeVarInt, heq, deCodeVarIntLoop_succ (by omega) hlt hdrop]
  rfl

/-- A buffer that ends among at most four continued bytes is read past its end. -/
theorem deCodeVarInt_of_short {buf : Bytes} (hlen : buf.length ≤ 4)
    (h : ∀ x ∈ buf, 128 ≤ x.toNat) : deCodeVarInt buf = .error .outOfBounds := by
  obtain ⟨value, hlt, heq⟩ := @deCodeVarIntLoop_of_continued buf h buf [] 0 0 (5 - buf.length)
    (by omega) (by decide) (by simp)
  rw [Nat.sub_add_cancel (by omega), pow_zero] at heq
  rw [deCodeVarInt, heq, show 5 - buf.length = 4 - buf.length + 1 by omega, deCodeVarIntLoop,
    readByte_of_drop_nil (by simp)]
  rfl

/-- How a buffer can start: with a variable-length integer of at most `n` bytes,
    with `n` continued bytes, or it ends among fewer of them. -/
private theorem varInt_or_continued (n : Nat) (buf : Bytes) :
    (∃ bs rest, buf = bs ++ rest ∧ IsVarInt bs ∧ bs.length ≤ n) ∨
    (∃ bs rest, buf = bs ++ rest ∧ bs.length = n ∧ ∀ x ∈ bs, 128 ≤ x.toNat) ∨
    (buf.length < n ∧ ∀ x ∈ buf, 128 ≤ x.toNat) := by
  -- Induction on the bytes looked at: the first one ends the number, or it is continued
  induction n generalizing buf with
  | zero => exact .inr (.inl ⟨[], buf, rfl, rfl, by simp⟩)
  | succ n ih =>
    cases buf with
    | nil => exact .inr (.inr ⟨by simp, by simp⟩)
    | cons b buf =>
      by_cases hb : b.toNat < 128
      · exact .inl ⟨[b], buf, rfl, .last hb, by simp⟩
      · rcases ih buf with ⟨bs, rest, rfl, hbs, hlen⟩ | ⟨bs, rest, rfl, hlen, hall⟩ | ⟨hlen, hall⟩
        · exact .inl ⟨b :: bs, rest, rfl, .cons (by omega) hbs, by simpa using hlen⟩
        · refine .inr (.inl ⟨b :: bs, rest, rfl, by simp [hlen], ?_⟩)
          simpa using ⟨by omega, hall⟩
        · refine .inr (.inr ⟨by simpa using hlen, ?_⟩)
          simpa using ⟨by omega, hall⟩

/-- What `DeCodeVarInt` makes of every buffer. -/
theorem deCodeVarInt_cases (buf : Bytes) :
    (∃ bs rest, buf = bs ++ rest ∧ IsVarInt bs ∧ bs.length ≤ 4 ∧
      deCodeVarInt buf = .ok (some (varIntValue bs, bs.length))) ∨
    (∃ bs b rest, buf = bs ++ b :: rest ∧ bs.length = 4 ∧ (∀ x ∈ bs, 128 ≤ x.toNat) ∧
      deCodeVarInt buf = .ok none) ∨
    (buf.length ≤ 4 ∧ (∀ x ∈ buf, 128 ≤ x.toNat) ∧
      deCodeVarInt buf = .error .outOfBounds) := by
  rcases varInt_or_continued 4 buf with ⟨bs, rest, rfl, hbs, hlen⟩ | ⟨bs, rest, rfl, hlen, hall⟩ |
    ⟨hlen, hall⟩
  · exact .inl ⟨bs, rest, rfl, hbs, hlen, deCodeVarInt_of_isVarInt hbs hlen rest⟩
  · cases rest with
    | nil =>
      rw [List.append_nil]
      exact .inr (.inr ⟨by omega, hall, deCodeVarInt_of_short (by omega) hall⟩)
    | cons b rest => exact .inr (.inl ⟨bs, b, rest, rfl, hlen, hall, deCodeVarInt_of_long hlen hall⟩)
  · exact .inr (.inr ⟨by omega, hall, deCodeVarInt_of_short (by omega) hall⟩)

/-- `DeCodeVarInt` reads a number exactly when the buffer begins with an encoding of at most
    four bytes, and then it is that number. -/
theorem deCodeVarInt_eq_some_iff {buf : Bytes} {v k : Nat} :
    deCodeVarInt buf = .ok (some (v, k)) ↔ ∃ bs rest, buf = bs ++ rest ∧ IsVarInt bs ∧
      bs.length ≤ 4 ∧ v = varIntValue bs ∧ k = bs.length := by
  constructor
  · intro h
    rcases deCodeVarInt_cases buf with ⟨bs, rest, hbuf, hbs, hlen, heq⟩ |
      ⟨_, _, _, _, _, _, heq⟩ | ⟨_, _, heq⟩
    · rw [heq] at h
      simp only [Except.ok.injEq, Option.some.injEq, Prod.mk.injEq] at h
      exact ⟨bs, rest, hbuf, hbs, hlen, h.1.symm, h.2.symm⟩
    · rw [heq] at h; simp at h
    · rw [heq] at h; simp at h
  · rintro ⟨bs, rest, rfl, hbs, hlen, rfl, rfl⟩
    exact deCodeVarInt_of_isVarInt hbs hlen rest

/-- The bounds on what `DeCodeVarInt` returns. -/
theorem deCodeVarInt_bounds {buf : Bytes} {v k : Nat} (h : deCodeVarInt buf = .ok (some (v, k))) :
    1 ≤ k ∧ k ≤ 4 ∧ v < 2 ^ 28 ∧ k ≤ buf.length := by
  obtain ⟨bs, rest, rfl, hbs, hlen, rfl, rfl⟩ := deCodeVarInt_eq_some_iff.mp h
  refine ⟨hbs.length_pos, hlen, ?_, by simp⟩
  calc varIntValue bs < 128 ^ bs.length := varIntValue_lt bs
    _ ≤ 128 ^ 4 := Nat.pow_le_pow_right (by decide) hlen
    _ = 2 ^ 28 := by decide

/-- Only the bytes of the integer itself are read. -/
theorem deCodeVarInt_take {buf : Bytes} {v k m : Nat}
    (h : deCodeVarInt buf = .ok (some (v, k))) (hm : k ≤ m) :
    deCodeVarInt (buf.take m) = .ok (some (v, k)) := by
  obtain ⟨bs, rest, rfl, hbs, hlen, rfl, rfl⟩ := deCodeVarInt_eq_some_iff.mp h
  rw [List.take_append, List.take_of_length_le hm]
  exact deCodeVarInt_of_isVarInt hbs hlen _

/-- The only fault of `DeCodeVarInt` is a read behind the buffer. -/
theorem deCodeVarInt_error {buf : Bytes} {e : Fault} (h : deCodeVarInt buf = .error e) :
    e = .outOfBounds := by
  rcases deCodeVarInt_cases buf with ⟨_, _, _, _, _, heq⟩ | ⟨_, _, _, _, _, _, heq⟩ | ⟨_, _, heq⟩
  all_goals
    rw [heq] at h
    simp_all

/-! ## The writer -/

/-- The loop of `CodeVarInt` writes an encoding of its value. -/
private theorem codeVarIntLoop_spec (fuel value : Nat) (h : value < 128 ^ (fuel + 1)) :
    IsVarInt (codeVarIntLoop (fuel + 1) value) ∧
      varIntValue (codeVarIntLoop (fuel + 1) value) = value := by
  -- Induction on the fuel: each round writes seven bits and goes on with the rest
  induction fuel generalizing value with
  | zero =>
    have hlt : value < 128 := by simpa using h
    have hdiv : ¬ value / 0x80 > 0 := by omega
    have hnat : (UInt8.ofNat (value % 0x80)).toNat = value := by
      rw [UInt8.toNat_ofNat']; omega
    simp only [codeVarIntLoop, if_neg hdiv]
    exact ⟨.last (by omega), by simp only [varIntValue]; omega⟩
  | succ fuel ih =>
    rw [codeVarIntLoop]
    split
    · obtain ⟨hvar, hvalue⟩ := ih (value / 0x80)
        (Nat.div_lt_of_lt_mul (by rw [Nat.pow_succ] at h; omega))
      have hor := or_80_toNat (n := value % 0x80) (Nat.mod_lt _ (by decide))
      refine ⟨.cons (by omega) hvar, ?_⟩
      rw [varIntValue, hvalue, hor]
      omega
    · have hnat : (UInt8.ofNat (value % 0x80)).toNat = value := by
        rw [UInt8.toNat_ofNat']; omega
      exact ⟨.last (by omega), by simp only [varIntValue]; omega⟩

/-- The writer produces a variable-length integer with the value it was given. -/
theorem codeVarInt_spec (value : UInt32) :
    IsVarInt (codeVarInt value) ∧ varIntValue (codeVarInt value) = value.toNat :=
  codeVarIntLoop_spec 4 value.toNat (Nat.lt_of_lt_of_le value.toNat_lt (by decide))

/-- `GetVarIntSize` counts the bytes that `CodeVarInt` writes. -/
private theorem getVarIntSizeLoop_eq (fuel value count : Nat) (hpos : 0 < value)
    (h : value < 128 ^ fuel) :
    getVarIntSizeLoop fuel value count = count + (codeVarIntLoop fuel value).length := by
  -- both loops divide by 128 until nothing is left
  induction fuel generalizing value count with
  | zero => simp at h; omega
  | succ fuel ih =>
    rw [getVarIntSizeLoop, if_pos hpos, codeVarIntLoop]
    split
    · rename_i hdiv
      rw [ih _ _ hdiv (Nat.div_lt_of_lt_mul (by rw [Nat.pow_succ] at h; omega)),
        List.length_cons]
      omega
    · rename_i hdiv
      have hzero : value / 0x80 = 0 := by omega
      rw [hzero]
      cases fuel <;> simp [getVarIntSizeLoop]

/-- `GetVarIntSize` is the number of bytes `CodeVarInt` writes. -/
theorem length_codeVarInt (value : UInt32) : (codeVarInt value).length = getVarIntSize value := by
  rw [getVarIntSize]
  split
  · rename_i h
    rw [h]; rfl
  · rename_i h
    have hpos : 0 < value.toNat := Nat.pos_of_ne_zero fun h0 => h (UInt32.toNat_inj.mp h0)
    rw [codeVarInt, getVarIntSizeLoop_eq 5 _ 0 hpos (Nat.lt_of_lt_of_le value.toNat_lt (by decide)),
      Nat.zero_add]

/-- A value below `128 ^ n` takes at most `n` bytes. -/
private theorem length_codeVarIntLoop_le {n : Nat} (fuel value : Nat) (hn : 0 < n)
    (h : value < 128 ^ n) : (codeVarIntLoop fuel value).length ≤ n := by
  induction fuel generalizing value n with
  | zero => exact Nat.zero_le _
  | succ fuel ih =>
    rw [codeVarIntLoop]
    split
    · rename_i hdiv
      obtain ⟨n, rfl⟩ : ∃ m, n = m + 1 := ⟨n - 1, by omega⟩
      have hlt : value / 0x80 < 128 ^ n := Nat.div_lt_of_lt_mul (by rw [Nat.pow_succ] at h; omega)
      -- what is left is positive, so at least one more byte is allowed
      have hn' : 0 < n := by
        rcases Nat.eq_zero_or_pos n with rfl | hn'
        · simp only [Nat.pow_zero] at hlt; omega
        · exact hn'
      rw [List.length_cons]
      exact Nat.succ_le_succ (ih _ hn' hlt)
    · exact hn

/-- A value below `2 ^ 28` takes at most four bytes. -/
theorem length_codeVarInt_le {value : UInt32} (h : value.toNat < 2 ^ 28) :
    (codeVarInt value).length ≤ 4 :=
  length_codeVarIntLoop_le 5 _ (by decide) h

/-- Reading back what was written, whatever follows. -/
theorem deCodeVarInt_codeVarInt {value : UInt32} (h : value.toNat < 2 ^ 28) (rest : Bytes) :
    deCodeVarInt (codeVarInt value ++ rest) =
      .ok (some (value.toNat, (codeVarInt value).length)) := by
  obtain ⟨hvar, hvalue⟩ := codeVarInt_spec value
  rw [deCodeVarInt_of_isVarInt hvar (length_codeVarInt_le h), hvalue]

end Mqtt.Spec
