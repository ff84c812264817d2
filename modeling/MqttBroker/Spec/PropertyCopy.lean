import MqttBroker.Native.PropertyCopy
import MqttBroker.Spec.DecodedChain
import MqttBroker.Spec.Framing

/-!
# Copies of property chains

Both copies rebuild each value through the accessors of its type. This gives the value back
for six of the seven types. Binary data is copied by its `Size`, which counts the length
field, so that either the copy reads behind the data or the number wraps and the copy is
cut short. An assignment clears its target first, which may be its source.
-/

namespace Mqtt.Spec

open Mqtt.Native Mqtt.Native.MqttPropertyChain

/-! ## Numbers in memory -/

/-- A number of `n` bytes has `n` bytes in memory. -/
theorem length_hostOrder (n value : Nat) : (hostOrder n value).length = n := by
  induction n generalizing value with
  | zero => rfl
  | succ n ih => rw [hostOrder, List.length_cons, ih]

/-- Reading a number back from memory reduces it modulo 256^n. -/
theorem ofHostOrder_hostOrder (n value : Nat) :
    ofHostOrder (hostOrder n value) = value % 256 ^ n := by
  induction n generalizing value with
  | zero =>
    rw [Nat.pow_zero, Nat.mod_one]
    rfl
  | succ n ih =>
    rw [hostOrder, ofHostOrder, ih, UInt8.toNat_ofNat', Nat.pow_succ 256 n,
      Nat.mul_comm (256 ^ n)]
    exact Nat.mod_mul.symm

/-! ## Values -/

/-- A value that is no binary data is rebuilt as it is. -/
theorem rebuild_of_ne {entity : MqttEntity} (h : entity.getType ≠ .binaryData) :
    entity.rebuild = .ok entity := by
  cases entity with
  | byte data =>
    have hdata : data.toUInt32.toUInt8 = data := by simp
    simp only [MqttEntity.rebuild, MqttEntity.getType, MqttEntity.getUint, hdata,
      Except.pure_eq_ok]
  | twoByte data =>
    have hdata : data.toUInt32.toUInt16 = data := by simp
    simp only [MqttEntity.rebuild, MqttEntity.getType, MqttEntity.getUint, hdata,
      Except.pure_eq_ok]
  | fourByte | mqttString | mqttStringPair => rfl
  | binaryData => exact absurd rfl h
  | variableInt data =>
    have hlt := data.toNat_lt
    have hlen := length_hostOrder 4 data.toNat
    -- the constructor reads the four bytes of the number back from memory
    have hread : readBytes (hostOrder 4 data.toNat) 0 (hostOrder 4 data.toNat).length =
        .ok (hostOrder 4 data.toNat) :=
      readBytes_of_drop (List.append_nil _).symm (Nat.zero_le _)
    rw [hlen] at hread
    simp only [MqttEntity.rebuild, MqttEntity.getType, MqttEntity.getData, hread, Except.ok_bind,
      ofHostOrder_hostOrder, Except.pure_eq_ok]
    rw [Nat.mod_eq_of_lt (by omega), UInt32.ofNat_toNat]

/-- The number of bytes that a copy of binary data takes. -/
theorem toNat_size (entity : MqttBinaryDataEntity) :
    (UInt16.ofNat entity.size).toNat = (2 + entity.data.length) % 2 ^ 16 := by
  rw [UInt16.toNat_ofNat', MqttBinaryDataEntity.size]

/-- Binary data is rebuilt from its `Size`, which counts the length field as well. -/
theorem rebuild_binaryData (entity : MqttBinaryDataEntity) :
    (MqttEntity.binaryData entity).rebuild =
      MqttBinaryDataEntity.ofBuf (UInt16.ofNat entity.size) entity.data 0 >>= fun copy =>
        .ok (.binaryData copy) := rfl

/-- Binary data can be rebuilt when the number of bytes that are copied wraps. -/
theorem rebuild_binaryData_ok_iff (entity : MqttBinaryDataEntity) :
    (∃ e, (MqttEntity.binaryData entity).rebuild = .ok e) ↔ 65534 ≤ entity.data.length := by
  have hlt := entity.size_lt
  have hsize := toNat_size entity
  rw [rebuild_binaryData]
  constructor
  · rintro ⟨e, h⟩
    obtain ⟨copy, hcopy, -⟩ := Except.bind_eq_ok_iff.mp h
    -- the copy takes its bytes from the data alone, and `Size` is two more than these,
    -- unless it wraps
    obtain ⟨⟨rest, hdrop⟩, hlen⟩ := drop_of_ofBuf hcopy
    have hbound := congrArg List.length hdrop
    rw [List.length_drop, List.length_append] at hbound
    omega
  · intro hle
    have hread : entity.data.readSlice? 0 (UInt16.ofNat entity.size).toNat =
        some (entity.data.take (UInt16.ofNat entity.size).toNat) :=
      List.readSlice?_eq_some_iff.mpr ⟨by omega, by rw [List.drop_zero]⟩
    have hcopy : ∃ copy, MqttBinaryDataEntity.ofBuf (UInt16.ofNat entity.size) entity.data 0 =
        .ok copy := by
      unfold MqttBinaryDataEntity.ofBuf
      split
      · exact ⟨_, rfl⟩
      · rename_i hnone
        exact nomatch hnone.symm.trans hread
    obtain ⟨copy, hcopy⟩ := hcopy
    exact ⟨_, by rw [hcopy, Except.ok_bind]⟩

/-- Binary data is never rebuilt as it is: the copy has another length. -/
theorem rebuild_binaryData_ne (entity : MqttBinaryDataEntity) :
    (MqttEntity.binaryData entity).rebuild ≠ .ok (.binaryData entity) := by
  intro h
  have hlt := entity.size_lt
  have hsize := toNat_size entity
  rw [rebuild_binaryData] at h
  obtain ⟨copy, hcopy, h⟩ := Except.bind_eq_ok_iff.mp h
  obtain rfl := MqttEntity.binaryData.inj (Except.ok.inj h)
  -- the length of the copy is the old one plus two, modulo 2 ^ 16
  have hlen := (drop_of_ofBuf hcopy).2
  omega

/-- The types that are rebuilt as they are. -/
theorem rebuild_eq_self_iff {entity : MqttEntity} :
    entity.rebuild = .ok entity ↔ entity.getType ≠ .binaryData := by
  constructor
  · intro h htype
    cases entity with
    | binaryData entity => exact rebuild_binaryData_ne entity h
    | _ => cases htype
  · exact rebuild_of_ne

/-! ## Chains -/

/-- A chain that `Create` leaves in a fresh one, with or without an error. -/
def Creates (chain : MqttPropertyChain) : Prop :=
  ∃ buf r, create OrderedSet.empty buf = .ok r ∧ r.chain = chain

/-- A property has an identifier of its type. -/
def WellTyped (p : MqttProperty) : Prop := dataTypeOf p.id = some p.property.getType

/-- No identifier of a type is 0. -/
theorem WellTyped.id_ne_zero {p : MqttProperty} (h : WellTyped p) : p.id ≠ 0 := by
  intro hid
  rw [WellTyped, hid] at h
  cases h

/-- The loop of `Create` adds properties of the type of their identifier. -/
theorem wellTyped_of_createLoop {buf : Bytes} {fuel : Nat} : ∀ {left pos : Nat}
    {chain : MqttPropertyChain} {r : Created}, (∀ p ∈ chain.toList, WellTyped p) →
      createLoop buf fuel left pos chain = .ok r → ∀ p ∈ r.chain.toList, WellTyped p := by
  induction fuel with
  | zero => intro left pos chain r _ h; exact nomatch h
  | succ fuel ih =>
    intro left pos chain r htyped h
    -- the induction is on the fuel, the invariant that all properties so far have their types
    rcases createLoop_inv h with ⟨-, rfl⟩ | ⟨-, -, rfl⟩ | ⟨-, p, bs, rest, -, hp, h⟩
    · exact htyped
    · exact htyped
    · refine ih (fun q hq => ?_) h
      rcases OrderedSet.mem_insert hq with rfl | hq
      · cases hp with
        | mk hid hentity => exact hid
      · exact htyped q hq

/-- Every property of a chain that `Create` returns has the type of its identifier. -/
theorem Creates.wellTyped {chain : MqttPropertyChain} (h : Creates chain) :
    ∀ p ∈ chain.toList, WellTyped p := by
  obtain ⟨buf, r, hcreate, rfl⟩ := h
  obtain ⟨decoded, hlen, hcreate⟩ := Except.bind_eq_ok_iff.mp hcreate
  have hempty : ∀ p ∈ (OrderedSet.empty : MqttPropertyChain).toList, WellTyped p := by simp
  cases decoded with
  | none =>
    obtain rfl := Except.ok.inj hcreate
    exact hempty
  | some field =>
    dsimp only at hcreate
    -- an empty section leaves the chain empty
    split at hcreate
    · exact wellTyped_of_createLoop hempty hcreate
    · obtain rfl := Except.ok.inj hcreate
      exact hempty

/-- A property that has the identifier of another and its value rebuilt. -/
def Rebuilds (p p' : MqttProperty) : Prop :=
  p.id ≠ 0 ∧ p'.id = p.id ∧ p.property.rebuild = .ok p'.property

/-- The loop of both copies rebuilds the properties one after the other. -/
theorem copyLoop_eq_ok_iff {ps : List MqttProperty} {properties r : MqttPropertyChain} :
    copyLoop ps properties = .ok r ↔
      ∃ ps', List.Forall₂ Rebuilds ps ps' ∧ r = ps'.foldl addProperty properties := by
  -- Induction on the properties that are left to copy
  induction ps generalizing properties with
  | nil =>
    simp only [copyLoop, List.forall₂_nil_left_iff, Except.ok.injEq]
    constructor
    · rintro rfl
      exact ⟨[], rfl, rfl⟩
    · rintro ⟨_, rfl, rfl⟩
      rfl
  | cons p ps ih =>
    rw [copyLoop]
    constructor
    · intro h
      obtain ⟨entity, hentity, h⟩ := Except.bind_eq_ok_iff.mp h
      dsimp only at h
      split at h
      · -- `AddProperty` fails for the identifier 0
        cases h
      · rename_i hid
        obtain ⟨ps', hps', rfl⟩ := ih.mp h
        exact ⟨⟨p.id, entity⟩ :: ps', .cons ⟨hid, rfl, hentity⟩ hps', rfl⟩
    · rintro ⟨_, hps', rfl⟩
      cases hps' with
      | @cons _ p' _ ps' hp hps' =>
        obtain ⟨hid, hsame, hentity⟩ := hp
        obtain ⟨id, entity⟩ := p'
        obtain rfl : id = p.id := hsame
        rw [hentity, Except.ok_bind]
        dsimp only
        rw [if_neg hid]
        exact ih.mpr ⟨ps', hps', rfl⟩

/-- Copies have the identifiers of their originals. -/
theorem forall₂_rebuilds_id {ps ps' : List MqttProperty} (h : List.Forall₂ Rebuilds ps ps') :
    ps'.map MqttProperty.id = ps.map MqttProperty.id := by
  induction h with
  | nil => rfl
  | cons hp _ ih => rw [List.map_cons, List.map_cons, ih, hp.2.1]

/-- The copy of a chain has the properties of the chain, rebuilt. -/
theorem copyConstruct_eq_ok_iff {chain r : MqttPropertyChain} :
    copyConstruct chain = .ok r ↔ List.Forall₂ Rebuilds chain.toList r.toList := by
  rw [copyConstruct, copyLoop_eq_ok_iff]
  constructor
  · rintro ⟨ps', hps', rfl⟩
    -- the identifiers are as many and in the same order as before
    have hsorted : ps'.Pairwise fun a b => a.id < b.id := by
      have hids := chain.sorted
      rw [← List.pairwise_map (R := (· < ·)), ← forall₂_rebuilds_id hps', List.pairwise_map] at hids
      exact hids
    have hfold : ps'.foldl addProperty OrderedSet.empty = ⟨ps', hsorted⟩ :=
      OrderedSet.foldl_insert_empty ⟨ps', hsorted⟩
    rw [hfold]
    exact hps'
  · intro h
    exact ⟨r.toList, h, (OrderedSet.foldl_insert_empty r).symm⟩

/-- Every binary value of a chain is so long that the number of bytes its copy takes
    wraps. -/
def Copyable (chain : MqttPropertyChain) : Prop :=
  ∀ p ∈ chain.toList, ∀ entity, p.property = .binaryData entity → 65534 ≤ entity.data.length

/-- A property can be copied unless it is binary data of fewer than 65534 bytes. -/
theorem exists_rebuilds_iff {p : MqttProperty} (hid : p.id ≠ 0) : (∃ p', Rebuilds p p') ↔
    ∀ entity, p.property = .binaryData entity → 65534 ≤ entity.data.length := by
  constructor
  · rintro ⟨p', -, -, hp'⟩ entity hentity
    rw [hentity] at hp'
    exact (rebuild_binaryData_ok_iff entity).mp ⟨_, hp'⟩
  · intro hlong
    -- only binary data has a rebuild that can fail
    by_cases htype : p.property.getType = .binaryData
    · cases hp : p.property with
      | binaryData entity =>
        obtain ⟨copy, hcopy⟩ := (rebuild_binaryData_ok_iff entity).mpr (hlong entity hp)
        exact ⟨⟨p.id, copy⟩, hid, rfl, by rw [hp, hcopy]⟩
      | _ =>
        rw [hp] at htype
        cases htype
    · exact ⟨p, hid, rfl, rebuild_of_ne htype⟩

/-- A decoded chain can be copied without a read behind its data exactly when it is
    copyable. -/
theorem copyConstruct_ok_iff {chain : MqttPropertyChain} (h : Creates chain) :
    (∃ r, copyConstruct chain = .ok r) ↔ Copyable chain := by
  have hids : ∀ p ∈ chain.toList, p.id ≠ 0 := fun p hp => (h.wellTyped p hp).id_ne_zero
  constructor
  · -- a copy of the chain has a copy of each property
    rintro ⟨r, hr⟩ p hp
    obtain ⟨ps', hps', -⟩ := copyLoop_eq_ok_iff.mp hr
    obtain ⟨i, hi, rfl⟩ := List.getElem_of_mem hp
    exact (exists_rebuilds_iff (hids _ hp)).mp
      ⟨_, hps'.get hi (by rw [← hps'.length_eq]; exact hi)⟩
  · intro hall
    -- each property has a copy, so the row of them has
    have hrow : ∀ ps : List MqttProperty, (∀ p ∈ ps, ∃ p', Rebuilds p p') →
        ∃ ps', List.Forall₂ Rebuilds ps ps' := by
      intro ps
      induction ps with
      | nil => exact fun _ => ⟨[], .nil⟩
      | cons p ps ih =>
        intro hps
        obtain ⟨p', hp'⟩ := hps p (List.mem_cons_self ..)
        obtain ⟨ps', hps'⟩ := ih fun q hq => hps q (List.mem_cons_of_mem p hq)
        exact ⟨p' :: ps', .cons hp' hps'⟩
    obtain ⟨ps', hps'⟩ := hrow chain.toList fun p hp =>
      (exists_rebuilds_iff (hids p hp)).mpr (hall p hp)
    exact ⟨_, copyLoop_eq_ok_iff.mpr ⟨ps', hps', rfl⟩⟩

/-- The copy that a handler makes of the properties of a packet. -/
theorem copy_eq_copyConstruct (chain : MqttPropertyChain) :
    chain.copy = copyConstruct chain := by
  -- the handlers model the copy with one case for binary data and one for the rest
  have hone (p : MqttProperty) : p.copy = p.property.rebuild.map (⟨p.id, ·⟩) := by
    obtain ⟨id, entity⟩ := p
    by_cases htype : entity.getType = .binaryData
    · cases entity with
      | binaryData entity =>
        simp only [MqttProperty.copy, MqttEntity.rebuild, MqttEntity.getType, MqttEntity.getData,
          MqttEntity.size, Except.pure_eq_ok]
        cases MqttBinaryDataEntity.ofBuf (UInt16.ofNat entity.size) entity.data 0 <;> rfl
      | _ => cases htype
    · rw [rebuild_of_ne htype]
      cases entity with
      | binaryData => exact absurd rfl htype
      | _ => rfl
  -- and the loops are the same over equal copies
  have hloop (ps : List MqttProperty) : ∀ properties : MqttPropertyChain,
      ps.foldlM (fun properties it => do
        let p ← it.copy
        if p.id = 0 then throw Fault.assertFailed
        return addProperty properties p) properties = copyLoop ps properties := by
    induction ps with
    | nil => exact fun _ => rfl
    | cons p ps ih =>
      intro properties
      rw [List.foldlM_cons, copyLoop, hone]
      cases p.property.rebuild with
      | error fault => rfl
      | ok entity =>
        dsimp only [Except.map, Except.ok_bind]
        split
        · rfl
        · exact ih _
  exact hloop chain.toList OrderedSet.empty

/-- A chain with correlation data or authentication data. -/
def HasBinaryData (chain : MqttPropertyChain) : Prop :=
  ∃ p ∈ chain.toList, p.property.getType = .binaryData

/-- The copy is the chain when nothing in it is binary data. -/
theorem copyConstruct_eq_self_iff {chain : MqttPropertyChain} (h : Creates chain) :
    copyConstruct chain = .ok chain ↔ ¬ HasBinaryData chain := by
  rw [copyConstruct_eq_ok_iff, List.forall₂_same]
  constructor
  · rintro hall ⟨p, hp, htype⟩
    exact rebuild_eq_self_iff.mp (hall p hp).2.2 htype
  · intro hnone p hp
    exact ⟨(h.wellTyped p hp).id_ne_zero, rfl,
      rebuild_eq_self_iff.mpr fun htype => hnone ⟨p, hp, htype⟩⟩

/-- An assignment empties its target, and copies the source unless that was the target. -/
theorem copyAssign_eq (chains : Chains) (this _chain : Nat) : copyAssign chains this _chain =
    if this = _chain then .ok (Function.update chains this OrderedSet.empty)
    else (copyConstruct (chains _chain)).map (Function.update chains this) := by
  unfold copyAssign
  simp only [Function.update_self, Function.update_idem, Except.pure_eq_ok]
  -- the source is cleared with the target when they are one object
  split
  · rename_i hsame
    subst hsame
    rw [Function.update_self]
    rfl
  · rename_i hne
    rw [Function.update_of_ne (Ne.symm hne), copyConstruct]
    cases copyLoop (chains _chain).toList OrderedSet.empty with
    | error fault => rfl
    | ok r => rfl

/-! ## The identity -/

/-- A chain with the same identifiers and values, of the same size and written the same
    way. -/
structure SameChain (chain copy : MqttPropertyChain) : Prop where
  properties : copy.toList = chain.toList
  getSize : copy.getSize = chain.getSize
  serialize : ∀ dst pos offset, copy.serialize dst pos offset = chain.serialize dst pos offset

/-- Chains are the same when they have equal properties in equal order. -/
theorem sameChain_iff {chain copy : MqttPropertyChain} :
    SameChain chain copy ↔ copy = chain := by
  constructor
  · exact fun h => OrderedSet.ext h.properties
  · rintro rfl
    exact ⟨rfl, rfl, fun _ _ _ => rfl⟩

/-- The copy constructor makes the same chain. -/
def Copies (chain : MqttPropertyChain) : Prop :=
  ∃ copy, copyConstruct chain = .ok copy ∧ SameChain chain copy

/-- The assignment makes its target the chain that the source was. -/
def Assigns (chains : Chains) (this _chain : Nat) : Prop :=
  ∃ chains', copyAssign chains this _chain = .ok chains' ∧
    SameChain (chains _chain) (chains' this)

/-- A decoded chain is copied as it is exactly when it has no binary data, and is assigned
    as it is exactly when besides its target is another object, or it is empty. -/
theorem copy_identity_iff {chain : MqttPropertyChain} (h : Creates chain) :
    (Copies chain ↔ ¬ HasBinaryData chain) ∧
      ∀ (chains : Chains) (this _chain : Nat), chains _chain = chain →
        (Assigns chains this _chain ↔
          if this = _chain then chain = OrderedSet.empty else ¬ HasBinaryData chain) := by
  have hcopies : Copies chain ↔ ¬ HasBinaryData chain := by
    rw [← copyConstruct_eq_self_iff h]
    simp only [Copies, sameChain_iff, exists_eq_right]
  refine ⟨hcopies, fun chains this _chain hchain => ?_⟩
  unfold Assigns
  rw [copyAssign_eq, hchain]
  -- the target is the source
  split
  · simp only [Except.ok.injEq, exists_eq_left', Function.update_self, sameChain_iff]
    exact eq_comm
  · rw [← hcopies, Copies]
    cases copyConstruct chain with
    | error fault => simp [Except.map]
    | ok copy =>
      simp only [Except.map, Except.ok.injEq, exists_eq_left', Function.update_self]

/-- Correlation data of one byte cannot be copied, and a payload format indicator does not
    survive the assignment of its chain to itself. -/
theorem copy_not_identity : ∃ chain chain' : MqttPropertyChain, Creates chain ∧ ¬ Copies chain ∧
    Creates chain' ∧ ¬ Assigns (fun _ => chain') 0 0 := by
  refine ⟨OrderedSet.empty.insert ⟨0x09, .binaryData ⟨[0x61], by decide⟩⟩,
    OrderedSet.empty.insert ⟨0x01, .byte 0⟩,
    ⟨[4, 0x09, 0, 1, 0x61], ⟨.ok, 5, _⟩, by decide +kernel, rfl⟩, ?_,
    ⟨[2, 0x01, 0], ⟨.ok, 3, _⟩, by decide +kernel, rfl⟩, ?_⟩
  · rintro ⟨copy, hcopy, -⟩
    have hfault : copyConstruct (OrderedSet.empty.insert
        ⟨0x09, .binaryData ⟨[0x61], by decide⟩⟩) = .error .outOfBounds := by decide +kernel
    exact nomatch hfault.symm.trans hcopy
  · rintro ⟨chains', hassign, hsame⟩
    obtain rfl := Except.ok.inj hassign
    exact absurd hsame.properties (by decide)

/-- The properties of a message are copied, and assigned to another chain. -/
theorem copy_identity_message :
    Copies messageChain ∧ Assigns (fun _ => messageChain) 0 1 := by
  have hnone : ¬ HasBinaryData messageChain := by
    rintro ⟨p, hp, htype⟩
    have htypes : ∀ q ∈ messageChain.toList, q.property.getType ≠ .binaryData := by decide
    exact htypes p hp htype
  have hcreate : create OrderedSet.empty messageSection = .ok ⟨.ok, 12, messageChain⟩ := by
    decide +kernel
  have hcopy := copy_identity_iff ⟨_, _, hcreate, rfl⟩
  exact ⟨hcopy.1.mpr hnone, (hcopy.2 _ 0 1 rfl).mpr hnone⟩

end Mqtt.Spec
