import MqttBroker.Spec.PropertySection
import MqttBroker.Spec.Writer

/-!
# What a section leaves in a chain

`Decodes` is the row of properties that the loop of `MqttPropertyChain::Create` gets out of
a section. It ends where the section was announced to end, and every error stops elsewhere.
The chain is made of the row by insertions into a map, which keeps the first property of
an identifier; a section without properties leaves the chain that was there before.
-/

namespace Mqtt.Spec

open Mqtt.Native Mqtt.Native.MqttPropertyChain

/-- The properties that the loop gets with `left` bytes to go at `pos`, until none is left. -/
inductive Decodes (buf : Bytes) : (left pos : Nat) → List MqttProperty → Prop
  | done {pos : Nat} : Decodes buf 0 pos []
  | next {left pos s : Nat} {p : MqttProperty} {ps : List MqttProperty} : 0 < left →
      createProperty (buf.drop pos) = .ok (some p, s) →
      Decodes buf ((left + 2 ^ 32 - s) % 2 ^ 32) ((pos + s) % 2 ^ 32) ps →
      Decodes buf left pos (p :: ps)

/-- `CreateProperty` produces these properties, one after the other, for the section at
    the start of a buffer. -/
def Produces (buf : Bytes) (ps : List MqttProperty) : Prop :=
  ∃ L k, deCodeVarInt buf = .ok (some (L, k)) ∧ Decodes buf L k ps

variable {buf : Bytes}

/-! ## The row of properties -/

/-- A section is decoded in one way. -/
theorem Decodes.unique {left pos : Nat} {ps ps' : List MqttProperty} (h : Decodes buf left pos ps)
    (h' : Decodes buf left pos ps') : ps = ps' := by
  -- Induction on the first decoding; the other one makes the same turn
  induction h generalizing ps' with
  | done =>
    cases h' with
    | done => rfl
    | next hleft => omega
  | next hleft hp _ ih =>
    cases h' with
    | done => omega
    | next _ hp' hrest =>
      obtain ⟨hp, rfl⟩ := Prod.mk.inj (Except.ok.inj (hp.symm.trans hp'))
      obtain rfl := Option.some.inj hp
      rw [ih hrest]

/-- The length field of a section says one thing. -/
theorem deCodeVarInt_unique {L k L' k' : Nat} (h : deCodeVarInt buf = .ok (some (L, k)))
    (h' : deCodeVarInt buf = .ok (some (L', k'))) : L = L' ∧ k = k' :=
  Prod.mk.inj (Option.some.inj (Except.ok.inj (h.symm.trans h')))

/-- A buffer gives one row of properties. -/
theorem Produces.unique {ps ps' : List MqttProperty} (h : Produces buf ps)
    (h' : Produces buf ps') : ps = ps' := by
  obtain ⟨L, k, hlen, hps⟩ := h
  obtain ⟨L', k', hlen', hps'⟩ := h'
  obtain ⟨rfl, rfl⟩ := deCodeVarInt_unique hlen hlen'
  exact hps.unique hps'

/-- The loop stops with an error anywhere but at the end of what it had left. -/
theorem createLoop_size {fuel : Nat} : ∀ {left pos : Nat} {chain : MqttPropertyChain} {r : Created},
    left < 2 ^ 32 → pos < 2 ^ 32 → createLoop buf fuel left pos chain = .ok r →
      (r.err = .ok ↔ r.size = (pos + left) % 2 ^ 32) := by
  induction fuel with
  | zero => intro left pos chain r _ _ h; exact nomatch h
  | succ fuel ih =>
    intro left pos chain r hleft hpos h
    -- the end, a bad property with bytes left over, and one more property
    rcases createLoop_inv h with ⟨rfl, rfl⟩ | ⟨hmore, -, rfl⟩ | ⟨hmore, p, bs, rest, -, -, h⟩
    · dsimp only
      simp only [true_iff]
      omega
    · dsimp only
      simp only [reduceCtorEq, false_iff]
      omega
    · have hs : bs.length % 256 < 256 := Nat.mod_lt _ (by decide)
      rw [ih (Nat.mod_lt _ (by decide)) (Nat.mod_lt _ (by decide)) h]
      -- the two counters keep their sum
      have hsum : ((pos + bs.length % 256) % 2 ^ 32 +
          (left + 2 ^ 32 - bs.length % 256) % 2 ^ 32) % 2 ^ 32 = (pos + left) % 2 ^ 32 := by omega
      rw [hsum]

/-- A loop that returns without error has gone through a row of properties and inserted
    each of them. -/
theorem decodes_of_createLoop {fuel : Nat} : ∀ {left pos : Nat} {chain : MqttPropertyChain}
    {r : Created}, r.err = .ok → createLoop buf fuel left pos chain = .ok r →
      ∃ ps, Decodes buf left pos ps ∧ r.chain = ps.foldl addProperty chain := by
  induction fuel with
  | zero => intro left pos chain r _ h; exact nomatch h
  | succ fuel ih =>
    intro left pos chain r hok h
    -- a bad property is an error, so the loop has come to its end or goes on
    rcases createLoop_inv h with ⟨rfl, rfl⟩ | ⟨-, -, rfl⟩ | ⟨hmore, p, bs, rest, hdrop, hp, h⟩
    · exact ⟨[], .done, rfl⟩
    · exact nomatch hok
    · obtain ⟨ps, hps, hchain⟩ := ih hok h
      have hcreate := createProperty_of_wire hp rest
      rw [← hdrop] at hcreate
      exact ⟨p :: ps, .next hmore hcreate hps, hchain⟩

/-- `Create` on a section of declared length `L` behind a length field of `k` bytes. -/
theorem create_eq {chain : MqttPropertyChain} {L k : Nat}
    (h : deCodeVarInt buf = .ok (some (L, k))) :
    create chain buf = if L > 0 then createLoop buf (buf.length + 1) L k OrderedSet.empty
      else .ok ⟨.ok, k, chain⟩ := createFuel_eq _ chain h

/-- Where `Create` succeeds the length of the section was read. -/
theorem deCodeVarInt_of_create {chain : MqttPropertyChain} {r : Created} (hok : r.err = .ok)
    (h : create chain buf = .ok r) : ∃ L k, deCodeVarInt buf = .ok (some (L, k)) := by
  obtain ⟨decoded, hlen, h⟩ := Except.bind_eq_ok_iff.mp h
  cases decoded with
  | none =>
    obtain rfl := Except.ok.inj h
    cases hok
  | some field => exact ⟨field.1, field.2, hlen⟩

/-- `Create` returns without error exactly when it stops at the announced end. -/
theorem create_size_iff {chain : MqttPropertyChain} {L k : Nat} {r : Created}
    (hlen : deCodeVarInt buf = .ok (some (L, k))) (h : create chain buf = .ok r) :
    r.err = .ok ↔ r.size = k + L := by
  have hsum := sum_lt_of_deCodeVarInt hlen
  rw [create_eq hlen] at h
  split at h
  · rw [createLoop_size (by omega) (by omega) h, Nat.mod_eq_of_lt hsum]
  · obtain rfl := Except.ok.inj h
    dsimp only
    simp only [true_iff]
    omega

/-- `Create` inserts the properties of the row one by one. -/
theorem produces_of_create {r : Created} (hok : r.err = .ok)
    (h : create OrderedSet.empty buf = .ok r) :
    ∃ ps, Produces buf ps ∧ r.chain = ps.foldl addProperty OrderedSet.empty := by
  obtain ⟨L, k, hlen⟩ := deCodeVarInt_of_create hok h
  rw [create_eq hlen] at h
  split at h
  · obtain ⟨ps, hps, hchain⟩ := decodes_of_createLoop hok h
    exact ⟨ps, ⟨L, k, hlen, hps⟩, hchain⟩
  · rename_i hzero
    obtain rfl : L = 0 := by omega
    obtain rfl := Except.ok.inj h
    exact ⟨[], ⟨0, k, hlen, .done⟩, rfl⟩

/-- The loop goes through a row of properties to its end. -/
theorem Decodes.createLoop_eq {left pos : Nat} {ps : List MqttProperty} (h : Decodes buf left pos ps) :
    ∀ chain : MqttPropertyChain, ∃ fuel size, createLoop buf fuel left pos chain =
      .ok ⟨.ok, size, ps.foldl addProperty chain⟩ := by
  -- the fuel grows with the row, the chain with what was inserted before
  induction h with
  | done => exact fun chain => ⟨1, _, createLoop_zero_left chain⟩
  | next hleft hp _ ih =>
    intro chain
    obtain ⟨fuel, size, hloop⟩ := ih (addProperty chain _)
    refine ⟨fuel + 1, size, ?_⟩
    rw [createLoop, if_pos hleft, hp, Except.ok_bind]
    exact hloop

/-- `Create` succeeds on a buffer that gives a row of properties. -/
theorem Produces.create_eq {ps : List MqttProperty} (h : Produces buf ps) :
    ∃ size, create OrderedSet.empty buf = .ok ⟨.ok, size, ps.foldl addProperty OrderedSet.empty⟩ := by
  obtain ⟨L, k, hlen, hps⟩ := h
  obtain ⟨fuel, size, hloop⟩ := hps.createLoop_eq OrderedSet.empty
  -- an empty section does not come to the loop, and an empty chain is not cleared
  by_cases hmore : L > 0
  · refine ⟨size, create_eq_ok_iff.mpr ⟨fuel, ?_⟩⟩
    rw [createFuel_eq _ _ hlen, if_pos hmore, hloop]
  · obtain rfl : L = 0 := by omega
    obtain rfl := hps.unique .done
    exact ⟨k, by rw [Spec.create_eq hlen, if_neg hmore]; rfl⟩

/-- Each property of the row stands in the buffer. -/
theorem Decodes.wire {left pos : Nat} {ps : List MqttProperty} (h : Decodes buf left pos ps) :
    ∀ p ∈ ps, ∃ bs, WireProperty p bs := by
  induction h with
  | done => exact fun _ hp => nomatch hp
  | next _ hp _ ih =>
    intro q hq
    rcases List.mem_cons.mp hq with rfl | hq
    · rcases createProperty_inv hp with ⟨p, bs, rest, hsome, -, hwire, -⟩ | ⟨hnone, -⟩
      · obtain rfl := Option.some.inj hsome
        exact ⟨bs, hwire⟩
      · cases hnone
    · exact ih q hq

/-! ## No property is lost -/

/-- The chain holds the properties of the row, each as often as the row has it, and writes
    them again. -/
def KeepsAll (chain : MqttPropertyChain) (ps : List MqttProperty) : Prop :=
  chain.toList.Perm ps ∧ ∃ qs, qs.Perm ps ∧ Writes chain.serialize
    (codeVarInt (UInt32.ofNat chain.getSize) ++ encodeProperties qs)

/-- No property that was decoded is lost exactly when no identifier occurs twice. -/
theorem decoded_kept_iff {ps : List MqttProperty} {r : Created}
    (hcreate : create OrderedSet.empty buf = .ok r) (hok : r.err = .ok)
    (hps : Produces buf ps) : KeepsAll r.chain ps ↔ (ps.map MqttProperty.id).Nodup := by
  obtain ⟨ps', hps', hchain⟩ := produces_of_create hok hcreate
  obtain rfl := hps.unique hps'
  -- insertion drops a property exactly when its identifier is there already
  have hperm : r.chain.toList.Perm ps ↔ (ps.map MqttProperty.id).Nodup := by
    rw [hchain]
    exact OrderedSet.perm_foldl_insert_iff
  rw [← hperm]
  constructor
  · exact And.left
  · exact fun h => ⟨h, r.chain.toList, h, writes_chain r.chain⟩

/-- The user properties `a` = `b` and `a` = `c`. -/
def twoUserProperties : Bytes :=
  [14, 0x26, 0, 1, 0x61, 0, 1, 0x62, 0x26, 0, 1, 0x61, 0, 1, 0x63]

/-- Of two user properties the second is lost. -/
theorem user_property_lost : ∃ r ps, create OrderedSet.empty twoUserProperties = .ok r ∧
    r.err = .ok ∧ Produces twoUserProperties ps ∧ ¬ KeepsAll r.chain ps := by
  let p (data : UInt8) : MqttProperty := ⟨0x26, .mqttStringPair [0x61] [data]⟩
  have hcreate : create OrderedSet.empty twoUserProperties =
      .ok ⟨.ok, 15, OrderedSet.empty.insert (p 0x62)⟩ := by decide +kernel
  have hfirst : createProperty (twoUserProperties.drop 1) = .ok (some (p 0x62), 7) := by
    decide +kernel
  have hsecond : createProperty (twoUserProperties.drop 8) = .ok (some (p 0x63), 7) := by
    decide +kernel
  refine ⟨_, [p 0x62, p 0x63], hcreate, rfl, ?_, fun h => ?_⟩
  · exact ⟨14, 1, rfl, .next (by decide) hfirst (.next (by decide) hsecond .done)⟩
  · have hlen := h.1.length_eq
    simp at hlen

/-- Of the properties of a message all are kept, in the order of their identifiers. -/
theorem decoded_kept_message :
    KeepsAll messageChain [⟨0x03, .mqttString [0x61]⟩, ⟨0x01, .byte 0⟩, ⟨0x02, .fourByte 60⟩] := by
  have hcreate : create OrderedSet.empty messageSection = .ok ⟨.ok, 12, messageChain⟩ := by
    decide +kernel
  have hproduces : Produces messageSection
      [⟨0x03, .mqttString [0x61]⟩, ⟨0x01, .byte 0⟩, ⟨0x02, .fourByte 60⟩] :=
    ⟨11, 1, rfl, .next (by decide) rfl (.next (by decide) rfl (.next (by decide) rfl .done))⟩
  exact (decoded_kept_iff hcreate rfl hproduces).mpr (by decide)

/-! ## Old contents -/

/-- A section that announces properties. -/
def AnnouncesProperties (buf : Bytes) : Prop :=
  ∃ L k, deCodeVarInt buf = .ok (some (L, k)) ∧ L ≠ 0

/-- A section with properties makes the same of every chain, one without leaves every chain
    as it was. -/
theorem create_of_create {a : MqttPropertyChain} {r : Created} (h : create a buf = .ok r)
    (hok : r.err = .ok) :
    (AnnouncesProperties buf ∧ ∀ b, create b buf = .ok r) ∨
      (¬ AnnouncesProperties buf ∧ r.chain = a ∧ ∀ b, create b buf = .ok { r with chain := b }) := by
  obtain ⟨L, k, hlen⟩ := deCodeVarInt_of_create hok h
  have hannounces : AnnouncesProperties buf ↔ L ≠ 0 := by
    constructor
    · rintro ⟨L', k', hlen', hne⟩
      rwa [(deCodeVarInt_unique hlen hlen').1]
    · exact fun hne => ⟨L, k, hlen, hne⟩
  rw [hannounces]
  rw [create_eq hlen] at h
  -- only behind this check is the chain cleared
  split at h
  · rename_i hmore
    refine .inl ⟨by omega, fun b => ?_⟩
    rw [create_eq hlen, if_pos hmore, h]
  · -- an announced length of 0
    rename_i hzero
    obtain rfl := Except.ok.inj h
    refine .inr ⟨by omega, rfl, fun b => ?_⟩
    rw [create_eq hlen, if_neg hzero]

/-- What a section leaves in two chains is the same exactly when it has properties or the
    chains were the same before. -/
theorem create_chain_eq_iff {a b : MqttPropertyChain} {r : Created} (h : create a buf = .ok r)
    (hok : r.err = .ok) : ∃ r', create b buf = .ok r' ∧ r'.err = .ok ∧ r'.size = r.size ∧
      (r'.chain = r.chain ↔ AnnouncesProperties buf ∨ b = a) := by
  rcases create_of_create h hok with ⟨hsome, hall⟩ | ⟨hnone, rfl, hall⟩
  · exact ⟨r, hall b, hok, rfl, iff_of_true rfl (.inl hsome)⟩
  · refine ⟨_, hall b, hok, rfl, ?_⟩
    dsimp only
    simp only [hnone, false_or]

end Mqtt.Spec
