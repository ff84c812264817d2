import MqttBroker.Spec.PropertySection
import MqttBroker.Spec.Writer

/-!
# Property chains there and back

`Create` reads back what `Serialize` wrote as long as every property takes at
most 255 bytes. A longer property is stepped over by its size modulo 256, and
`NotOk` follows the reader into the middle of it: when the strings of the chain
are filled with zeros the reader finds no way back to the next property.
-/

namespace Mqtt.Spec

open Mqtt.Native Mqtt.Native.MqttPropertyChain

/-- A property whose identifier goes with its type and whose parts fit their
    length fields. -/
structure Codable (p : MqttProperty) : Prop where
  type_eq : dataTypeOf p.id = some p.property.getType
  fits : match p.property with
    | .mqttString data => data.length < 2 ^ 16
    | .mqttStringPair first second => first.length < 2 ^ 16 ∧ second.length < 2 ^ 16
    | .variableInt data => data.toNat < 2 ^ 28
    | _ => True

/-- A chain of such properties, of a total size in the range of `GetSize`. -/
structure CodableChain (chain : MqttPropertyChain) : Prop where
  codable : ∀ p ∈ chain.toList, Codable p
  total_le : (chain.toList.map fun p => p.size + 1).sum ≤ 65535

/-- Decode undoes encode: what `Serialize` writes to any place of any buffer that
    has room for it, `Create` reads back there, with the size that was written. -/
def RoundTrips (chain : MqttPropertyChain) : Prop :=
  ∀ dst pos offset, pos + (encodeChain chain).length ≤ dst.length → ∃ dst' n,
    chain.serialize dst pos offset = .ok (dst', offset + n) ∧
      Returns OrderedSet.empty (dst'.drop pos) ⟨.ok, n, chain⟩

/-! ## Encoded chains -/

/-- The encoding of a property is a property on the wire. -/
theorem wire_of_codable {p : MqttProperty} (h : Codable p) : WireProperty p (encodeProperty p) := by
  obtain ⟨htype, hfits⟩ := h
  obtain ⟨id, entity⟩ := p
  refine .mk htype ?_
  cases entity with
  | byte data => exact .byte data
  | twoByte data => exact .twoByte data
  | fourByte data => exact .fourByte data
  | mqttString data => exact .mqttString hfits
  | binaryData entity => exact .binaryData entity
  | mqttStringPair first second => exact .mqttStringPair hfits.1 hfits.2
  -- the one type whose length depends on the value
  | variableInt data =>
    obtain ⟨hvar, hvalue⟩ := codeVarInt_spec data
    have hwire := WireEntity.variableInt hvar (length_codeVarInt_le hfits)
    rw [hvalue, UInt32.ofNat_toNat] at hwire
    exact hwire

/-- A chain that is not empty has at least one byte. -/
theorem encodeProperties_pos {ps : List MqttProperty} (h : ps ≠ []) :
    0 < (encodeProperties ps).length := by
  cases ps with
  | nil => exact absurd rfl h
  | cons p ps =>
    rw [encodeProperties, List.length_append, length_encodeProperty]
    omega

/-- `GetSize` is the length of the encoded properties. -/
theorem getSize_eq {chain : MqttPropertyChain} (h : CodableChain chain) :
    chain.getSize = (encodeProperties chain.toList).length :=
  getSize_of_total_le h.total_le

/-- The length field in front of an encoded chain. -/
theorem deCodeVarInt_encodeChain {chain : MqttPropertyChain} (h : CodableChain chain)
    (rest : Bytes) : ∃ k, k + (encodeProperties chain.toList).length = (encodeChain chain).length ∧
      (encodeChain chain ++ rest).drop k = encodeProperties chain.toList ++ rest ∧
      deCodeVarInt (encodeChain chain ++ rest) =
        .ok (some ((encodeProperties chain.toList).length, k)) := by
  have hle := h.total_le
  rw [← length_encodeProperties] at hle
  have hnat : (UInt32.ofNat chain.getSize).toNat = (encodeProperties chain.toList).length := by
    rw [UInt32.toNat_ofNat', getSize_eq h, Nat.mod_eq_of_lt (by omega)]
  refine ⟨(codeVarInt (UInt32.ofNat chain.getSize)).length, ?_, ?_, ?_⟩
  · rw [encodeChain, List.length_append]
  · rw [encodeChain, List.append_assoc, List.drop_left]
  · rw [encodeChain, List.append_assoc, deCodeVarInt_codeVarInt (by omega), hnat]

/-- The round trip, in terms of how `Create` ends on the encoded chain. -/
theorem roundTrips_iff {chain : MqttPropertyChain} : RoundTrips chain ↔
    ∀ rest, Returns OrderedSet.empty (encodeChain chain ++ rest)
      ⟨.ok, (encodeChain chain).length, chain⟩ := by
  constructor
  · intro h rest
    have hroom : 0 + (encodeChain chain).length ≤ (encodeChain chain ++ rest).length := by
      rw [List.length_append]; omega
    -- over the encoding itself the writer changes nothing
    obtain ⟨dst', n, hwrite, hreturns⟩ := h (encodeChain chain ++ rest) 0 0 hroom
    rw [writes_chain chain _ 0 0 hroom] at hwrite
    simp only [Except.ok.injEq, Prod.mk.injEq, Nat.zero_add] at hwrite
    obtain ⟨rfl, rfl⟩ := hwrite
    rwa [List.drop_overwrite (Nat.zero_le _), Nat.zero_add, List.drop_left] at hreturns
  · intro h dst pos offset hroom
    refine ⟨_, _, writes_chain chain dst pos offset hroom, ?_⟩
    rw [List.drop_overwrite (by omega)]
    exact h _

/-! ## Short properties -/

/-- The loop over encoded properties of at most 255 bytes each. -/
private theorem createLoop_encodeProperties {buf : Bytes} (ps : List MqttProperty) :
    ∀ {pos : Nat} {chain : MqttPropertyChain} {rest : Bytes}, (∀ p ∈ ps, Codable p) →
      (∀ p ∈ ps, p.size + 1 ≤ 255) → pos + (encodeProperties ps).length < 2 ^ 32 →
      buf.drop pos = encodeProperties ps ++ rest →
      createLoop buf (ps.length + 1) (encodeProperties ps).length pos chain =
        .ok ⟨.ok, pos + (encodeProperties ps).length, ps.foldl addProperty chain⟩ := by
  -- Induction on the properties; each turn reads the first one and drops it
  induction ps with
  | nil =>
    intro pos chain rest _ _ _ _
    exact createLoop_zero_left chain
  | cons p ps ih =>
    intro pos chain rest hcodable hshort hlt hdrop
    have hp := wire_of_codable (hcodable p (.head _))
    have hlen := length_encodeProperty p
    have hle := hshort p (.head _)
    rw [encodeProperties, List.length_append] at hlt ⊢
    rw [encodeProperties, List.append_assoc] at hdrop
    have hdrop' : buf.drop (pos + (encodeProperty p).length) = encodeProperties ps ++ rest := by
      rw [← List.drop_drop, hdrop, List.drop_left]
    rw [List.length_cons, createLoop_of_wire chain (by omega) hdrop hp,
      Nat.mod_eq_of_lt (show (encodeProperty p).length < 256 by omega),
      show ((encodeProperty p).length + (encodeProperties ps).length + 2 ^ 32 -
        (encodeProperty p).length) % 2 ^ 32 = (encodeProperties ps).length by omega,
      Nat.mod_eq_of_lt (show pos + (encodeProperty p).length < 2 ^ 32 by omega),
      ih (fun q hq => hcodable q (.tail _ hq)) (fun q hq => hshort q (.tail _ hq)) (by omega) hdrop',
      List.foldl_cons, Nat.add_assoc]

/-- A chain of properties of at most 255 bytes each is read back. -/
theorem roundTrips_of_short {chain : MqttPropertyChain} (hchain : CodableChain chain)
    (hshort : ∀ p ∈ chain.toList, p.size + 1 ≤ 255) : RoundTrips chain := by
  rw [roundTrips_iff]
  intro rest
  obtain ⟨k, hk, hdrop, hlen⟩ := deCodeVarInt_encodeChain hchain rest
  have hbounds := deCodeVarInt_bounds hlen
  refine ⟨chain.toList.length + 1, ?_⟩
  rw [createFuel_eq _ _ hlen, ← hk]
  split
  · rw [createLoop_encodeProperties chain.toList hchain.codable hshort (by omega) hdrop,
      show chain.toList.foldl addProperty OrderedSet.empty = chain from chain.foldl_insert_empty]
  · -- nothing was written, and the empty chain is left as it is
    rename_i hpos
    have hnil : chain.toList = [] := by_contra fun h => hpos (encodeProperties_pos h)
    rw [hnil, show chain = OrderedSet.empty from OrderedSet.ext hnil]
    rfl

/-! ## Long properties -/

/-- From here the reader does not return without error. -/
def NotOk (buf : Bytes) (pos left : Nat) : Prop :=
  ∀ fuel chain r, createLoop buf fuel left pos chain = .ok r → r.err ≠ .ok

section Traps

variable {buf : Bytes} {pos left : Nat}

/-- An identifier without a type makes `Create` fail. -/
theorem notOk_of_unknownId {b : UInt8} (hleft : 0 < left) (hb : buf[pos]? = some b)
    (hid : dataTypeOf b = none) : NotOk buf pos left := by
  have hdrop := drop_of_readByte (readByte_eq_ok_iff.mpr hb)
  intro fuel chain r h
  cases fuel with
  | zero => exact nomatch h
  | succ fuel =>
    rw [createLoop_of_invalid chain hleft (hdrop ▸ .unknownId hid)] at h
    rw [← Except.ok.inj h]
    exact nofun

/-- A step is stuck or ends up at one of the next 255 positions. -/
theorem notOk_of_steps (hleft : 255 < left) (hsum : pos + left < 2 ^ 32)
    (h : ∀ s, 1 ≤ s → s ≤ 255 → NotOk buf (pos + s) (left - s)) : NotOk buf pos left := by
  intro fuel
  induction fuel with
  | zero => exact fun chain r h => nomatch h
  | succ fuel ih =>
    intro chain r hr
    -- the loop is done, fails, or takes a property
    rcases createLoop_inv hr with ⟨rfl, -⟩ | ⟨-, -, rfl⟩ | ⟨-, p, bs, rest, -, -, hr⟩
    · omega
    · exact nofun
    · have hs : bs.length % 256 ≤ 255 := by omega
      rw [show (left + 2 ^ 32 - bs.length % 256) % 2 ^ 32 = left - bs.length % 256 by omega,
        show (pos + bs.length % 256) % 2 ^ 32 = pos + bs.length % 256 by omega] at hr
      -- a size that wraps to 0 leaves the loop where it is
      rcases Nat.eq_zero_or_pos (bs.length % 256) with hzero | hpos
      · rw [hzero] at hr
        exact ih _ _ hr
      · exact h _ hpos hs _ _ _ hr

/-- The step over a property on the wire. -/
theorem notOk_of_wire {p : MqttProperty} {bs rest : Bytes} (hleft : bs.length ≤ left)
    (hsum : pos + left < 2 ^ 32) (hdrop : buf.drop pos = bs ++ rest) (hp : WireProperty p bs)
    (h : 1 ≤ bs.length % 256 → NotOk buf (pos + bs.length % 256) (left - bs.length % 256)) :
    NotOk buf pos left := by
  have hle := Nat.mod_le bs.length 256
  have hpos := hp.length_pos
  intro fuel chain r hr
  cases fuel with
  | zero => exact nomatch hr
  | succ fuel =>
    -- a property of 256 bytes stalls the loop; any other one goes on in its middle
    rcases Nat.eq_zero_or_pos (bs.length % 256) with hzero | hstep
    · rw [createLoop_stall (by omega) (by omega) (by omega) hdrop hp hzero] at hr
      exact nomatch hr
    · rw [createLoop_of_wire chain (by omega) hdrop hp,
        show (left + 2 ^ 32 - bs.length % 256) % 2 ^ 32 = left - bs.length % 256 by omega,
        show (pos + bs.length % 256) % 2 ^ 32 = pos + bs.length % 256 by omega] at hr
      exact h hstep _ _ _ hr

end Traps

/-- The identifiers go from 1 to 42. -/
theorem code_bounds (p : MqttPropertyId) : 0 < p.code.toNat ∧ p.code.toNat ≤ 42 := by
  cases p <;> decide

/-- Identifiers are between 1 and 42. -/
theorem dataTypeOf_eq_none {b : UInt8} (h : b.toNat = 0 ∨ 42 < b.toNat) : dataTypeOf b = none := by
  rw [dataTypeOf, Option.map_eq_none_iff, Option.eq_none_iff_forall_ne_some]
  intro p hp
  obtain rfl := MqttPropertyId.code_of_ofCode hp
  have hbounds := code_bounds p
  omega

section Zeros

variable {buf rest : Bytes} {id : UInt8} {pos left a b : Nat}

/-- A byte of what stands at `pos`, if it is no identifier, ends the walk. -/
private theorem notOk_of_byte {bs : Bytes} {j : Nat} {x : UInt8} (hdrop : buf.drop pos = bs ++ rest)
    (hj : bs[j]? = some x) (hx : x.toNat = 0 ∨ 42 < x.toNat) (hleft : j < left) :
    NotOk buf (pos + j) (left - j) := by
  refine notOk_of_unknownId (by omega) ?_ (dataTypeOf_eq_none hx)
  rw [← List.getElem?_drop, hdrop, List.getElem?_append_left, hj]
  exact (List.getElem?_eq_some_iff.mp hj).1

/-- Inside a zeroed string or binary value of more than 252 bytes. -/
private theorem notOk_in_zeros (ha : a < 2 ^ 16) (hlong : 256 ≤ 3 + a) (hleft : 3 + a ≤ left)
    (hsum : pos + left < 2 ^ 32)
    (hdrop : buf.drop pos = id :: (htons a ++ List.replicate a 0) ++ rest)
    (hr : 1 ≤ (3 + a) % 256) :
    NotOk buf (pos + (3 + a) % 256) (left - (3 + a) % 256) := by
  have hlow : (UInt8.ofNat a).toNat = a % 256 := UInt8.toNat_ofNat'
  have htwo : 42 < a % 256 → NotOk buf (pos + 2) (left - 2) := fun h =>
    notOk_of_byte hdrop (j := 2) rfl (.inr (by omega)) (by omega)
  have hzero : ∀ j, 3 ≤ j → j < 3 + a → NotOk buf (pos + j) (left - j) := fun j h3 hj => by
    refine notOk_of_byte hdrop (j := j) (x := 0) ?_ (.inl rfl) (by omega)
    obtain ⟨j, rfl⟩ := Nat.exists_eq_add_of_le' h3
    exact List.getElem?_replicate_of_lt (by omega)
  rcases Nat.lt_or_ge ((3 + a) % 256) 3 with hlt | hge
  · obtain hr1 | hr2 : (3 + a) % 256 = 1 ∨ (3 + a) % 256 = 2 := by omega
    · -- at the high byte of the length, which may be an identifier
      rw [hr1]
      refine notOk_of_steps (by omega) (by omega) fun s hs hs' => ?_
      rw [Nat.add_assoc, Nat.sub_sub]
      rcases Nat.eq_or_lt_of_le hs with rfl | hs
      · exact htwo (by omega)
      · exact hzero _ (by omega) (by omega)
    · rw [hr2]
      exact htwo (by omega)
  · exact hzero _ hge (by omega)

/-- Inside a zeroed string pair of more than 255 bytes. -/
private theorem notOk_in_zeroPair (ha : a < 2 ^ 16) (hb : b < 2 ^ 16) (hlong : 256 ≤ 5 + a + b)
    (hleft : 5 + a + b ≤ left) (hsum : pos + left < 2 ^ 32)
    (hdrop : buf.drop pos = id :: (htons a ++ List.replicate a 0 ++
      (htons b ++ List.replicate b 0)) ++ rest) (hr : 1 ≤ (5 + a + b) % 256) :
    NotOk buf (pos + (5 + a + b) % 256) (left - (5 + a + b) % 256) := by
  have hhigh : ∀ n, (UInt8.ofNat (n / 256)).toNat = n / 256 % 256 := fun n => UInt8.toNat_ofNat'
  have hlow : ∀ n, (UInt8.ofNat n).toNat = n % 256 := fun n => UInt8.toNat_ofNat'
  -- the bytes behind the first length
  have hbyte : ∀ j,
      (id :: (htons a ++ List.replicate a 0 ++ (htons b ++ List.replicate b 0)))[3 + j]? =
      (List.replicate a (0 : UInt8) ++ (htons b ++ List.replicate b 0))[j]? := fun j => by
    rw [Nat.add_comm]
    rfl
  have hzero₁ : ∀ j, 3 ≤ j → j < 3 + a → NotOk buf (pos + j) (left - j) := fun j h3 hj => by
    refine notOk_of_byte hdrop (j := j) (x := 0) ?_ (.inl rfl) (by omega)
    obtain ⟨j, rfl⟩ := Nat.exists_eq_add_of_le h3
    rw [hbyte, List.getElem?_append_left (by rw [List.length_replicate]; omega)]
    exact List.getElem?_replicate_of_lt (by omega)
  have hsecond : ∀ j x, (htons b ++ List.replicate b (0 : UInt8))[j]? = some x →
      (x.toNat = 0 ∨ 42 < x.toNat) → j < 2 + b →
        NotOk buf (pos + (3 + a + j)) (left - (3 + a + j)) :=
    fun j x hx hid hj => by
      refine notOk_of_byte hdrop (x := x) ?_ hid (by omega)
      rw [Nat.add_assoc, hbyte, List.getElem?_append_right (by rw [List.length_replicate]; omega),
        List.length_replicate, Nat.add_sub_cancel_left, hx]
  have hzero₂ : ∀ j, 5 + a ≤ j → j < 5 + a + b → NotOk buf (pos + j) (left - j) := fun j h5 hj => by
    obtain ⟨j, rfl⟩ := Nat.exists_eq_add_of_le h5
    rw [show 5 + a + j = 3 + a + (j + 2) by omega]
    exact hsecond (j + 2) 0 (List.getElem?_replicate_of_lt (by omega)) (.inl rfl) (by omega)
  have hlast : 42 < b % 256 → NotOk buf (pos + (4 + a)) (left - (4 + a)) := fun h => by
    rw [show 4 + a = 3 + a + 1 by omega]
    exact hsecond 1 (UInt8.ofNat b) rfl (.inr (by rw [hlow]; omega)) (by omega)
  -- at the high byte of the second length, when the low byte is no identifier
  have hthird : 42 < b % 256 → NotOk buf (pos + (3 + a)) (left - (3 + a)) := fun h => by
    rcases Nat.lt_or_ge b 256 with hsmall | hlarge
    · exact hsecond 0 (UInt8.ofNat (b / 256)) rfl (.inl (by rw [hhigh]; omega)) (by omega)
    · refine notOk_of_steps (by omega) (by omega) fun s hs hs' => ?_
      rw [Nat.add_assoc, Nat.sub_sub]
      rcases Nat.eq_or_lt_of_le hs with rfl | hs
      · rw [show 3 + a + 1 = 4 + a by omega]
        exact hlast h
      · exact hzero₂ _ (by omega) (by omega)
  -- at the low byte of the first length, when the first string is long
  have htwo : 256 ≤ a → NotOk buf (pos + 2) (left - 2) := fun h =>
    notOk_of_steps (by omega) (by omega) fun s hs hs' => by
      rw [Nat.add_assoc, Nat.sub_sub]
      exact hzero₁ _ (by omega) (by omega)
  generalize hrem : (5 + a + b) % 256 = r at hr ⊢
  rcases Nat.lt_or_ge r 3 with hlt | hge
  · obtain rfl | rfl : r = 1 ∨ r = 2 := by omega
    · rcases Nat.lt_or_ge a 256 with hsmall | hlarge
      · exact notOk_of_byte hdrop (j := 1) (x := UInt8.ofNat (a / 256)) rfl
          (.inl (by rw [hhigh]; omega)) (by omega)
      · refine notOk_of_steps (by omega) (by omega) fun s hs hs' => ?_
        rw [Nat.add_assoc, Nat.sub_sub]
        rcases Nat.eq_or_lt_of_le hs with rfl | hs
        · exact htwo hlarge
        · exact hzero₁ _ (by omega) (by omega)
    · rcases Nat.lt_or_ge 42 (a % 256) with hid | hid
      · exact notOk_of_byte hdrop (j := 2) (x := UInt8.ofNat a) rfl
          (.inr (by rw [hlow]; omega)) (by omega)
      · rcases Nat.lt_or_ge a 256 with hsmall | hlarge
        · -- the first length is an identifier, so the second one is none
          refine notOk_of_steps (by omega) (by omega) fun s hs hs' => ?_
          rw [Nat.add_assoc, Nat.sub_sub]
          obtain h | h | h | h : 2 + s < 3 + a ∨ 2 + s = 3 + a ∨ 2 + s = 4 + a ∨ 5 + a ≤ 2 + s := by
            omega
          · exact hzero₁ _ (by omega) h
          · rw [h]; exact hthird (by omega)
          · rw [h]; exact hlast (by omega)
          · exact hzero₂ _ h (by omega)
        · exact htwo hlarge
  · obtain h | h | h | h : r < 3 + a ∨ r = 3 + a ∨ r = 4 + a ∨ 5 + a ≤ r := by omega
    · exact hzero₁ _ hge h
    · rw [h]; exact hthird (by omega)
    · rw [h]; exact hlast (by omega)
    · exact hzero₂ _ h (by omega)

end Zeros

/-! ## Chains of one shape -/

/-- The lengths a value carries in its length fields. -/
def lengths : MqttEntity → List Nat
  | .mqttString data => [data.length]
  | .binaryData entity => [entity.data.length]
  | .mqttStringPair first second => [first.length, second.length]
  | _ => []

/-- The identifier, the type and the lengths of a property. -/
def shape (p : MqttProperty) : UInt8 × MqttDataType × List Nat :=
  (p.id, p.property.getType, lengths p.property)

/-- Two chains with the same identifiers, types and lengths. -/
def SameShape (chain chain' : MqttPropertyChain) : Prop :=
  chain.toList.map shape = chain'.toList.map shape

/-- A value with zeros for the bytes of its strings. -/
def blank : MqttEntity → MqttEntity
  | .mqttString data => .mqttString (List.replicate data.length 0)
  | .binaryData entity =>
    .binaryData ⟨List.replicate entity.data.length 0, List.length_replicate ▸ entity.size_lt⟩
  | .mqttStringPair first second =>
    .mqttStringPair (List.replicate first.length 0) (List.replicate second.length 0)
  | entity => entity

/-- A property with a blank value. -/
def blankProperty (p : MqttProperty) : MqttProperty := ⟨p.id, blank p.property⟩

/-- A chain with blank values. -/
def blankChain (chain : MqttPropertyChain) : MqttPropertyChain :=
  ⟨chain.toList.map blankProperty, List.pairwise_map.mpr chain.sorted⟩

/-- Blank values keep the shape, -/
theorem shape_blankProperty (p : MqttProperty) : shape (blankProperty p) = shape p := by
  obtain ⟨id, entity⟩ := p
  cases entity <;> simp [shape, blankProperty, blank, lengths, MqttEntity.getType]

/-- and the size, -/
theorem size_blankProperty (p : MqttProperty) : (blankProperty p).size = p.size := by
  obtain ⟨id, entity⟩ := p
  cases entity <;> simp [MqttProperty.size, blankProperty, blank, MqttEntity.size,
    MqttStringEntity.size, MqttBinaryDataEntity.size]

/-- and can be encoded if the values could. -/
theorem codable_blankProperty {p : MqttProperty} (h : Codable p) : Codable (blankProperty p) := by
  obtain ⟨htype, hfits⟩ := h
  obtain ⟨id, entity⟩ := p
  cases entity with
  | byte | twoByte | fourByte | variableInt => exact ⟨htype, hfits⟩
  | mqttString data => exact ⟨htype, by simpa [blankProperty, blank] using hfits⟩
  | binaryData entity => exact ⟨htype, trivial⟩
  | mqttStringPair first second => exact ⟨htype, by simpa [blankProperty, blank] using hfits⟩

/-- Blank values keep a chain in the range of the encoding. -/
theorem codableChain_blankChain {chain : MqttPropertyChain} (h : CodableChain chain) :
    CodableChain (blankChain chain) := by
  refine ⟨fun p hp => ?_, ?_⟩
  · obtain ⟨q, hq, rfl⟩ := List.mem_map.mp hp
    exact codable_blankProperty (h.codable q hq)
  · rw [blankChain, List.map_map]
    simpa only [Function.comp_def, size_blankProperty] using h.total_le

/-- A chain with blank values has the shape of the chain. -/
theorem sameShape_blankChain (chain : MqttPropertyChain) : SameShape chain (blankChain chain) := by
  rw [SameShape, blankChain, List.map_map]
  simp only [Function.comp_def, shape_blankProperty]

/-- The lengths of a value and its type bound its size. -/
theorem size_le_of_shape {p p' : MqttProperty} (hp' : Codable p') (h : shape p = shape p')
    (hle : p.size + 1 ≤ 255) : p'.size + 1 ≤ 255 := by
  obtain ⟨id, entity⟩ := p
  obtain ⟨id', entity'⟩ := p'
  simp only [shape, Prod.mk.injEq] at h
  obtain ⟨-, htype, hlengths⟩ := h
  -- the lengths are those of the shape; only the width of a variable integer may differ
  cases entity' with
  | byte | twoByte | fourByte => simp [MqttProperty.size, MqttEntity.size]
  | variableInt data =>
    have hvar := length_codeVarInt_le hp'.fits
    rw [length_codeVarInt] at hvar
    simp only [MqttProperty.size, MqttEntity.size]
    omega
  | mqttString data =>
    cases entity <;> simp_all [MqttEntity.getType, lengths, MqttProperty.size, MqttEntity.size,
      MqttStringEntity.size]
  | binaryData data =>
    cases entity <;> simp_all [MqttEntity.getType, lengths, MqttProperty.size, MqttEntity.size,
      MqttBinaryDataEntity.size]
  | mqttStringPair first second =>
    cases entity <;> simp_all [MqttEntity.getType, lengths, MqttProperty.size, MqttEntity.size,
      MqttStringEntity.size]

/-- The reader does not get over a blank property of more than 255 bytes. -/
private theorem notOk_of_blank {buf rest : Bytes} {p : MqttProperty} {pos left : Nat}
    (hp : Codable p) (hlong : 256 ≤ p.size + 1) (hleft : p.size + 1 ≤ left)
    (hsum : pos + left < 2 ^ 32)
    (hdrop : buf.drop pos = encodeProperty (blankProperty p) ++ rest) : NotOk buf pos left := by
  have hlen : (encodeProperty (blankProperty p)).length = p.size + 1 := by
    rw [length_encodeProperty, size_blankProperty]
  refine notOk_of_wire (by omega) hsum hdrop (wire_of_codable (codable_blankProperty hp)) ?_
  rw [hlen]
  intro hr
  -- only the three types with a length field get that long, and their bytes are zeros
  obtain ⟨id, entity⟩ := p
  cases entity with
  | byte | twoByte | fourByte => simp [MqttProperty.size, MqttEntity.size] at hlong
  -- a variable integer has at most four bytes
  | variableInt data =>
    have hvar := length_codeVarInt_le hp.fits
    rw [length_codeVarInt] at hvar
    simp only [MqttProperty.size, MqttEntity.size] at hlong
    omega
  | mqttString data =>
    have hsize : (⟨id, .mqttString data⟩ : MqttProperty).size + 1 = 3 + data.length := by
      simp only [MqttProperty.size, MqttEntity.size, MqttStringEntity.size]; omega
    simp only [encodeProperty, blankProperty, blank, encodeEntity, encodeString,
      List.length_replicate] at hdrop
    rw [hsize] at hlong hleft hr ⊢
    exact notOk_in_zeros hp.fits hlong hleft hsum hdrop hr
  | binaryData entity =>
    have hsize : (⟨id, .binaryData entity⟩ : MqttProperty).size + 1 = 3 + entity.data.length := by
      simp only [MqttProperty.size, MqttEntity.size, MqttBinaryDataEntity.size]; omega
    simp only [encodeProperty, blankProperty, blank, encodeEntity, encodeString,
      List.length_replicate] at hdrop
    rw [hsize] at hlong hleft hr ⊢
    exact notOk_in_zeros entity.size_lt hlong hleft hsum hdrop hr
  | mqttStringPair first second =>
    have hsize : (⟨id, .mqttStringPair first second⟩ : MqttProperty).size + 1 =
        5 + first.length + second.length := by
      simp only [MqttProperty.size, MqttEntity.size, MqttStringEntity.size]; omega
    simp only [encodeProperty, blankProperty, blank, encodeEntity, encodeString,
      List.length_replicate] at hdrop
    rw [hsize] at hlong hleft hr ⊢
    exact notOk_in_zeroPair hp.fits.1 hp.fits.2 hlong hleft hsum hdrop hr

/-- The reader does not get over blank properties of which one is long. -/
private theorem notOk_of_long {buf rest : Bytes} (ps : List MqttProperty) :
    ∀ {pos : Nat}, (∀ p ∈ ps, Codable p) → (∃ p ∈ ps, 256 ≤ p.size + 1) →
      pos + (encodeProperties (ps.map blankProperty)).length < 2 ^ 32 →
      buf.drop pos = encodeProperties (ps.map blankProperty) ++ rest →
      NotOk buf pos (encodeProperties (ps.map blankProperty)).length := by
  -- Induction on the properties up to the long one
  induction ps with
  | nil => exact fun _ ⟨p, hp, _⟩ => nomatch hp
  | cons p ps ih =>
    intro pos hcodable hlong hsum hdrop
    have hlen : (encodeProperty (blankProperty p)).length = p.size + 1 := by
      rw [length_encodeProperty, size_blankProperty]
    rw [List.map_cons, encodeProperties, List.append_assoc] at hdrop
    rw [List.map_cons, encodeProperties, List.length_append] at hsum ⊢
    have hp := hcodable p (.head _)
    -- a short property is read and the long one is behind it, or this is the long one
    rcases Nat.lt_or_ge (p.size + 1) 256 with hshort | hge
    · have hlong' : ∃ q ∈ ps, 256 ≤ q.size + 1 := by
        obtain ⟨q, hq, hge⟩ := hlong
        rcases List.mem_cons.mp hq with rfl | hq
        · omega
        · exact ⟨q, hq, hge⟩
      refine notOk_of_wire (by omega) hsum hdrop (wire_of_codable (codable_blankProperty hp)) ?_
      intro _
      rw [Nat.mod_eq_of_lt (by omega), Nat.add_sub_cancel_left]
      refine ih (fun q hq => hcodable q (.tail _ hq)) hlong' (by omega) ?_
      rw [← List.drop_drop, hdrop, List.drop_left]
    · exact notOk_of_blank hp hge (by omega) hsum hdrop

/-- All chains of the shape of `chain` are read back exactly when each property of
    it takes at most 255 bytes. -/
theorem roundTrips_shape_iff {chain : MqttPropertyChain} (h : CodableChain chain) :
    (∀ chain', CodableChain chain' → SameShape chain chain' → RoundTrips chain') ↔
      ∀ p ∈ chain.toList, p.size + 1 ≤ 255 := by
  constructor
  · -- with zeros for its values a chain that has a long property does not come back
    intro hall p hp
    by_contra hle
    have hlong : ∃ p ∈ chain.toList, 256 ≤ p.size + 1 := ⟨p, hp, by omega⟩
    have hblank := codableChain_blankChain h
    obtain ⟨fuel, hr⟩ := roundTrips_iff.mp
      (hall (blankChain chain) hblank (sameShape_blankChain chain)) []
    obtain ⟨k, hk, hdrop, hlen⟩ := deCodeVarInt_encodeChain hblank []
    have hbounds := deCodeVarInt_bounds hlen
    have hnot := @notOk_of_long (encodeChain (blankChain chain) ++ []) [] chain.toList k
      h.codable hlong
    rw [createFuel_eq _ _ hlen] at hr
    split at hr
    · exact hnot (by change k + (encodeProperties (blankChain chain).toList).length < _; omega)
        hdrop _ _ _ hr rfl
    · -- a long property is no empty section
      rename_i hzero
      exact hzero (encodeProperties_pos (List.ne_nil_of_mem (List.mem_map_of_mem hp)))
  · -- the properties of a chain of this shape are short as well
    intro hshort chain' hchain' hshape
    refine roundTrips_of_short hchain' fun p' hp' => ?_
    have hmem : shape p' ∈ chain.toList.map shape := hshape ▸ List.mem_map_of_mem hp'
    obtain ⟨p, hp, heq⟩ := List.mem_map.mp hmem
    exact size_le_of_shape (hchain'.codable p' hp') heq (hshort p hp)

/-- A chain of one content type of 253 bytes. -/
def stallingChain : MqttPropertyChain :=
  OrderedSet.empty.insert ⟨0x03, .mqttString (List.replicate 253 0x61)⟩

/-- A content type of 253 bytes is written and not read back. -/
theorem stallingChain_not_roundTrips : CodableChain stallingChain ∧ ¬ RoundTrips stallingChain := by
  have hlist : stallingChain.toList = [⟨0x03, .mqttString (List.replicate 253 0x61)⟩] := rfl
  have hlength : (List.replicate 253 (0x61 : UInt8)).length = 253 := List.length_replicate
  have hchain : CodableChain stallingChain := by
    refine ⟨fun p hp => ?_, ?_⟩
    · rw [hlist] at hp
      obtain rfl := List.mem_singleton.mp hp
      exact ⟨rfl, show _ < 2 ^ 16 by rw [hlength]; decide⟩
    · rw [hlist, List.map_singleton, List.sum_singleton, MqttProperty.size, MqttEntity.size,
        MqttStringEntity.size, hlength]
      decide
  refine ⟨hchain, fun hround => ?_⟩
  -- the section is the property that keeps the loop going
  obtain ⟨fuel, hr⟩ := roundTrips_iff.mp hround []
  obtain ⟨k, hk, hdrop, hlen⟩ := deCodeVarInt_encodeChain hchain []
  have hbounds := deCodeVarInt_bounds hlen
  have hsection : encodeProperties stallingChain.toList = stallingProperty := by
    rw [hlist, encodeProperties, encodeProperties, List.append_nil, encodeProperty, encodeEntity,
      encodeString, hlength, stallingProperty]
  have hstalling : stallingProperty.length = 256 := by
    rw [stallingProperty, List.length_cons, List.length_append, hlength, length_htons]
  rw [hsection] at hdrop hlen
  rw [createFuel_eq _ _ hlen, if_pos (by omega), createLoop_stall (by omega) (by omega) (by omega)
    hdrop (wireProperty_mqttString rfl List.length_replicate (by decide)) (by rw [hstalling])] at hr
  cases hr

/-- The properties of a message are written and read back. -/
theorem roundTrips_message : CodableChain messageChain ∧ RoundTrips messageChain := by
  have hlist : messageChain.toList =
      [⟨0x01, .byte 0⟩, ⟨0x02, .fourByte 60⟩, ⟨0x03, .mqttString [0x61]⟩] := rfl
  have hchain : CodableChain messageChain := by
    refine ⟨fun p hp => ?_, by decide⟩
    rw [hlist] at hp
    rcases List.mem_cons.mp hp with rfl | hp
    · exact ⟨rfl, trivial⟩
    rcases List.mem_cons.mp hp with rfl | hp
    · exact ⟨rfl, trivial⟩
    · obtain rfl := List.mem_singleton.mp hp
      exact ⟨rfl, show 1 < 2 ^ 16 by decide⟩
  have hshort : ∀ p ∈ messageChain.toList, p.size + 1 ≤ 255 := by decide
  exact ⟨hchain, (roundTrips_shape_iff hchain).mpr hshort _ hchain rfl⟩

end Mqtt.Spec
