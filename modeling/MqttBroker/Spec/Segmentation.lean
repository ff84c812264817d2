import MqttBroker.ForStd.Transition
import MqttBroker.Spec.Socket

/-!
# Segmentation

What becomes of a stream of packets that reaches the read path in pieces. The
fixed header is waited for byte by byte, but `ReadData` waits for nothing: a packet
whose body is not there when `select` asks for it costs the client its connection.
As long as `select` finds something each time, what the handlers get does not
depend on how the stream was cut up.
-/

namespace Mqtt.Spec

open Mqtt.Native

/-- A complete packet as a client sends it. -/
structure StreamPacket where
  first : UInt8
  /-- The remaining length, in whatever form it is sent. -/
  len : Bytes
  body : Bytes
  isVarInt : IsVarInt len
  length_le : len.length ≤ 4
  value_eq : varIntValue len = body.length

/-- The bytes of a packet. -/
def StreamPacket.bytes (p : StreamPacket) : Bytes := p.first :: (p.len ++ p.body)

/-- What `HandlePacket` is to be called with for a packet. -/
def StreamPacket.parsed (p : StreamPacket) : FixedHeader × Bytes := (⟨p.first, p.body.length⟩, p.body)

/-- The stream of a list of packets. -/
def streamOf (ps : List StreamPacket) : Bytes := ps.flatMap StreamPacket.bytes

/-- The stream starts with the bytes of its first packet. -/
theorem streamOf_cons (p : StreamPacket) (ps : List StreamPacket) :
    streamOf (p :: ps) = p.first :: (p.len ++ (p.body ++ streamOf ps)) := by
  simp only [streamOf, List.flatMap_cons, StreamPacket.bytes, List.cons_append, List.append_assoc]

/-- The read path from the moment the client has sent its stream; the bytes arrive
    when they like. -/
def readPath (accepts : List (FixedHeader × Bytes) → Bool) (stream : Bytes) :
    LTS ReadPath ReadEvent where
  Init s := s = { coming := stream }
  Step s e t := s.step accepts e = some t

/-- The read path when all bytes have arrived at once. -/
def readAtOnce (accepts : List (FixedHeader × Bytes) → Bool) (stream : Bytes) :
    LTS ReadPath ReadEvent where
  Init s := s = { coming := [], arrived := stream }
  Step s e t := s.step accepts e = some t

/-- `ReadData` calls `select` before the next byte of the body has arrived. -/
def SelectsTooEarly (s : ReadPath) (e : ReadEvent) : Prop := e = .select ∧ s.arrived = []

/-- What the handlers get of some packets: one after the other, up to the first that
    is not accepted. -/
def handOver (accepts : List (FixedHeader × Bytes) → Bool) :
    (handled : List (FixedHeader × Bytes)) → List StreamPacket → List (FixedHeader × Bytes)
  | handled, [] => handled
  | handled, p :: ps =>
    if accepts (handled ++ [p.parsed]) then handOver accepts (handled ++ [p.parsed]) ps
    else handled ++ [p.parsed]

/-- Where the read path is in its stream: the bytes that are still to be read, and
    the packets that are still to be handled. -/
inductive Reads : ReadPc → Bytes → List StreamPacket → Prop
  | poll (ps : List StreamPacket) : Reads .poll (streamOf ps) ps
  | first (p : StreamPacket) (ps : List StreamPacket) : Reads .first (streamOf (p :: ps)) (p :: ps)
  | variableInt {p : StreamPacket} {left : Bytes} {value j : Nat} (ps : List StreamPacket) :
      IsVarInt left → j + left.length ≤ 4 → value < 128 ^ j →
      value + 128 ^ j * varIntValue left = p.body.length →
      Reads (.variableInt p.first value (128 ^ j)) (left ++ (p.body ++ streamOf ps)) (p :: ps)
  | select {p : StreamPacket} {data left : Bytes} (ps : List StreamPacket) :
      p.body = data ++ left → left ≠ [] →
      Reads (.select ⟨p.first, p.body.length⟩ data) (left ++ streamOf ps) (p :: ps)
  | read {p : StreamPacket} {data left : Bytes} (ps : List StreamPacket) :
      p.body = data ++ left → left ≠ [] →
      Reads (.read ⟨p.first, p.body.length⟩ data) (left ++ streamOf ps) (p :: ps)

variable {accepts : List (FixedHeader × Bytes) → Bool}

/-- The read path goes through its stream, or a packet was not accepted; what has been
    handled and what is to come make up `all`. -/
inductive InStream (accepts : List (FixedHeader × Bytes) → Bool)
    (all : List (FixedHeader × Bytes)) (s : ReadPath) : Prop
  | reads (ps : List StreamPacket) : Reads s.pc (s.arrived ++ s.coming) ps →
      handOver accepts s.handled ps = all → InStream accepts all s
  | refused : s.pc = .dropped .refused → s.handled = all → InStream accepts all s

/-- The packet has been read, and is handled. -/
theorem inStream_afterData {s : ReadPath} {all : List (FixedHeader × Bytes)} {p : StreamPacket}
    {ps : List StreamPacket} (hrest : s.arrived ++ s.coming = streamOf ps)
    (hall : handOver accepts s.handled (p :: ps) = all) :
    InStream accepts all (s.afterData accepts ⟨p.first, p.body.length⟩ p.body) := by
  rw [ReadPath.afterData, if_neg (not_not.mpr rfl)]
  rw [handOver] at hall
  change (if accepts (s.handled ++ [(⟨p.first, p.body.length⟩, p.body)]) = true then _ else _) = all
    at hall
  -- a refused packet ends the reading
  by_cases hacc : accepts (s.handled ++ [(⟨p.first, p.body.length⟩, p.body)]) = true
  · rw [if_pos hacc] at hall
    refine .reads ps ?_ hall
    simp only [hacc, ↓reduceIte, hrest]
    exact .poll ps
  · rw [if_neg hacc] at hall
    refine .refused ?_ hall
    simp only [hacc]
    rfl

/-! ## Steps -/

/-- A byte of the fixed header keeps the read path in its stream. -/
private theorem inStream_headerByte {s t : ReadPath} {all : List (FixedHeader × Bytes)}
    {ps : List StreamPacket} {b : UInt8} (hr : Reads s.pc (b :: (s.arrived ++ s.coming)) ps)
    (hall : handOver accepts s.handled ps = all) (h : s.headerByte accepts b = some t) :
    InStream accepts all t := by
  generalize hbytes : b :: (s.arrived ++ s.coming) = bytes at hr
  unfold ReadPath.headerByte at h
  split at h
  · rename_i hpc
    obtain rfl := Option.some.inj h
    rw [hpc] at hr
    cases hr with
    | first p ps =>
      rw [streamOf_cons] at hbytes
      obtain ⟨rfl, hrest⟩ := List.cons.inj hbytes
      have hvar := @Reads.variableInt p p.len 0 0 ps p.isVarInt
        (by rw [Nat.zero_add]; exact p.length_le) (by decide) (by rw [Nat.pow_zero, Nat.one_mul, Nat.zero_add, p.value_eq])
      rw [Nat.pow_zero] at hvar
      refine .reads (p :: ps) ?_ hall
      rw [hrest]
      exact hvar
  · rename_i first value multiplayer hpc
    rw [hpc] at hr
    cases hr with
    | @variableInt p left _ j ps hvar hlen hvalue hlength =>
      cases hvar with
      -- the last byte of the length
      | @last _ hb =>
        obtain ⟨rfl, hrest⟩ := List.cons.inj hbytes
        rw [List.length_singleton] at hlen
        rw [varIntValue, varIntValue, Nat.mul_zero, Nat.add_zero] at hlength
        rw [readVariableIntRound_eq (by omega) hvalue, if_pos hb, hlength] at h
        obtain rfl := Option.some.inj h
        unfold ReadPath.afterHeader
        -- an empty body is handled at once
        split
        · rename_i hzero
          have hbody : p.body = [] := List.length_eq_zero_iff.mp hzero
          have hafter := @inStream_afterData accepts s all p ps (by rw [hrest, hbody]; rfl) hall
          rw [hbody] at hafter ⊢
          exact hafter
        · rename_i hzero
          refine .reads (p :: ps) ?_ hall
          rw [hrest]
          exact .select ps rfl fun hnil => hzero (by rw [hnil]; rfl)
      -- more bytes of the length are to come
      | @cons _ left hb hvar =>
        obtain ⟨rfl, hrest⟩ := List.cons.inj hbytes
        rw [List.length_cons] at hlen
        rw [readVariableIntRound_eq (by omega) hvalue, if_neg (by omega)] at h
        obtain rfl := Option.some.inj h
        refine .reads (p :: ps) ?_ hall
        rw [hrest]
        refine .variableInt ps hvar (by omega) (pow_mul_add_lt hvalue (Nat.mod_lt _ (by decide))) ?_
        rw [← hlength, varIntValue, Nat.mul_add, ← Nat.mul_assoc, ← Nat.pow_succ, Nat.add_assoc]
  · cases h

/-- A `read` in `ReadData` keeps the read path in its stream. -/
private theorem inStream_read {s : ReadPath} {all : List (FixedHeader × Bytes)}
    {p : StreamPacket} {ps : List StreamPacket} {data left : Bytes} {n : Nat}
    (hbody : p.body = data ++ left) (hbytes : s.arrived ++ s.coming = left ++ streamOf ps)
    (hall : handOver accepts s.handled (p :: ps) = all)
    (hn : n ≤ p.body.length - data.length) (harrived : n ≤ s.arrived.length) :
    InStream accepts all
      (if (data ++ s.arrived.take n).length ≥ p.body.length then
        { s with arrived := s.arrived.drop n }.afterData accepts ⟨p.first, p.body.length⟩
          (data ++ s.arrived.take n)
      else { s with
        arrived := s.arrived.drop n
        pc := .select ⟨p.first, p.body.length⟩ (data ++ s.arrived.take n) }) := by
  -- `data` of the body has been read, `left` is still to come
  have hlen := congrArg List.length hbody
  rw [List.length_append] at hlen
  have hleft : n ≤ left.length := by omega
  -- what is read is the next part of the body
  have htake : s.arrived.take n = left.take n := by
    rw [← @List.take_append_of_le_length _ _ s.coming _ harrived, hbytes,
      List.take_append_of_le_length hleft]
  have hdrop : s.arrived.drop n ++ s.coming = left.drop n ++ streamOf ps := by
    rw [← List.drop_append_of_le_length harrived, hbytes, List.drop_append_of_le_length hleft]
  rw [htake]
  split
  · -- the body is complete and handled
    rename_i hdone
    rw [List.length_append, List.length_take] at hdone
    have hall' : n = left.length := by omega
    rw [hall', List.drop_length, List.nil_append, ← hall'] at hdrop
    rw [hall', List.take_length, ← hbody, ← hall']
    exact inStream_afterData (s := { s with arrived := s.arrived.drop n }) hdrop hall
  · -- more of it is waited for
    rename_i hmore
    rw [List.length_append, List.length_take] at hmore
    refine .reads (p :: ps) ?_ hall
    rw [hdrop]
    refine .select ps (by rw [hbody, List.append_assoc, List.take_append_drop]) fun hnil => hmore ?_
    have := List.drop_eq_nil_iff.mp hnil
    omega

/-- Every step that does not select too early keeps the read path in its stream. -/
theorem InStream.step {s t : ReadPath} {e : ReadEvent} {all : List (FixedHeader × Bytes)}
    (h : InStream accepts all s) (hearly : ¬ SelectsTooEarly s e)
    (hstep : s.step accepts e = some t) : InStream accepts all t := by
  -- each event that takes bytes moves them from `arrived`, and the stream as a whole stays
  cases e with
  | arrive n =>
    simp only [ReadPath.step, Option.ite_none_right_eq_some] at hstep
    obtain ⟨-, hstep⟩ := hstep
    obtain rfl := Option.some.inj hstep
    cases h with
    | reads _ hr hall =>
      refine .reads _ ?_ hall
      rw [List.append_assoc, List.take_append_drop]
      exact hr
    | refused hpc hhandled => exact .refused hpc hhandled
  | poll =>
    simp only [ReadPath.step, Option.ite_none_right_eq_some] at hstep
    obtain ⟨⟨hpc, harrived⟩, hstep⟩ := hstep
    obtain rfl := Option.some.inj hstep
    cases h with
    | @reads ps hr hall =>
      generalize hbytes : s.arrived ++ s.coming = bytes at hr
      rw [hpc] at hr
      cases hr with
      | poll =>
        cases ps with
        | nil => exact absurd (List.append_eq_nil_iff.mp hbytes).1 harrived
        | cons p ps => exact .reads _ (by rw [hbytes]; exact .first p ps) hall
    | refused hdropped => rw [hpc] at hdropped; cases hdropped
  | readByte =>
    simp only [ReadPath.step] at hstep
    split at hstep
    · cases hstep
    · rename_i b rest harrived
      cases h with
      | reads _ hr hall =>
        rw [harrived, List.cons_append] at hr
        exact inStream_headerByte (s := { s with arrived := rest }) hr hall hstep
      | refused hdropped => simp [ReadPath.headerByte, hdropped] at hstep
  | select =>
    -- the only way out of the stream is a select before the bytes have come
    have harrived : s.arrived ≠ [] := fun hnil => hearly ⟨rfl, hnil⟩
    simp only [ReadPath.step, if_neg harrived] at hstep
    split at hstep
    · rename_i f_head data hpc
      obtain rfl := Option.some.inj hstep
      cases h with
      | reads _ hr hall =>
        generalize hbytes : s.arrived ++ s.coming = bytes at hr
        rw [hpc] at hr
        cases hr with
        | select ps hbody hleft => exact .reads _ (by rw [hbytes]; exact .read ps hbody hleft) hall
      | refused hdropped => rw [hpc] at hdropped; cases hdropped
    · cases hstep
  | read n =>
    simp only [ReadPath.step] at hstep
    split at hstep
    · rename_i f_head data hpc
      obtain ⟨⟨-, hn, harrived⟩, hstep⟩ := Option.ite_none_right_eq_some.mp hstep
      cases h with
      | reads _ hr hall =>
        generalize hbytes : s.arrived ++ s.coming = bytes at hr
        rw [hpc] at hr
        cases hr with
        | read ps hbody hleft =>
          have hread := inStream_read hbody hbytes hall hn harrived
          split at hstep <;> rename_i hdone <;> obtain rfl := Option.some.inj hstep
          · rwa [if_pos hdone] at hread
          · rwa [if_neg hdone] at hread
      | refused hdropped => rw [hpc] at hdropped; cases hdropped
    · cases hstep

/-! ## Runs -/

/-- Packets are handed over behind those that were before. -/
theorem isPrefixOf_handOver (handled : List (FixedHeader × Bytes)) (ps : List StreamPacket) :
    handled <+: handOver accepts handled ps := by
  induction ps generalizing handled with
  | nil => exact List.prefix_rfl
  | cons p ps ih =>
    rw [handOver]
    split
    · exact (List.prefix_append _ _).trans (ih _)
    · exact List.prefix_append _ _

/-- What has been handled begins what is to be handled. -/
theorem InStream.handled_isPrefixOf {s : ReadPath} {all : List (FixedHeader × Bytes)}
    (h : InStream accepts all s) : s.handled <+: all := by
  cases h with
  | reads _ _ hall => exact hall ▸ isPrefixOf_handOver _ _
  | refused _ hall => exact hall ▸ List.prefix_rfl

/-- In its stream the read path drops a client only because a packet is refused. -/
theorem InStream.reason_eq {s : ReadPath} {all : List (FixedHeader × Bytes)}
    (h : InStream accepts all s) {reason : DropReason} (hpc : s.pc = .dropped reason) :
    reason = .refused := by
  cases h with
  | reads _ hr _ => rw [hpc] at hr; cases hr
  | refused hdropped _ => exact ReadPc.dropped.inj (hpc.symm.trans hdropped)

/-- When nothing is left to do, everything has been handed over. -/
theorem InStream.handled_eq {s : ReadPath} {all : List (FixedHeader × Bytes)}
    (h : InStream accepts all s)
    (hstuck : ∀ e, ¬ SelectsTooEarly s e → s.step accepts e = none) : s.handled = all := by
  have hnext : ∀ e, e ≠ .select → s.step accepts e = none := fun e he =>
    hstuck e fun hearly => he hearly.1
  -- what is to come could arrive
  have hcoming : s.coming = [] := by
    by_contra hne
    have harrive := hnext (.arrive s.coming.length) (by simp)
    simp only [ReadPath.step] at harrive
    rw [if_pos ⟨List.length_pos_iff.mpr hne, Nat.le_refl _⟩] at harrive
    cases harrive
  cases h with
  | refused _ hall => exact hall
  | @reads ps hr hall =>
    rw [hcoming, List.append_nil] at hr
    generalize harrived : s.arrived = arrived at hr
    generalize hpc : s.pc = pc at hr
    -- wherever the next byte is waited for, it is there
    cases hr with
    | poll =>
      cases ps with
      | nil => exact hall
      | cons p ps =>
        have hpoll := hnext .poll (by simp)
        rw [streamOf_cons] at harrived
        simp [ReadPath.step, hpc, harrived] at hpoll
    | first p ps =>
      have hread := hnext .readByte (by simp)
      rw [streamOf_cons] at harrived
      simp [ReadPath.step, ReadPath.headerByte, hpc, harrived] at hread
    | variableInt ps hvar _ _ _ =>
      have hread := hnext .readByte (by simp)
      cases hvar <;>
        simp only [List.cons_append] at harrived <;>
        simp only [ReadPath.step, ReadPath.headerByte, hpc, harrived] at hread <;>
        split at hread <;>
        cases hread
    | @select p data left ps _ hleft =>
      have hne : s.arrived ≠ [] := by
        rw [harrived]
        exact fun hnil => hleft (List.append_eq_nil_iff.mp hnil).1
      have hselect := hstuck .select fun hearly => hne hearly.2
      simp [ReadPath.step, hpc, hne] at hselect
    | @read p data left ps hbody hleft =>
      have hlen := congrArg List.length hbody
      have hpos := List.length_pos_iff.mpr hleft
      rw [List.length_append] at hlen
      have hone : 1 ≤ s.arrived.length := by
        rw [harrived, List.length_append]
        omega
      have hread := hnext (.read 1) (by simp)
      simp only [ReadPath.step, hpc] at hread
      rw [if_pos ⟨by decide, by omega, hone⟩] at hread
      split at hread <;> cases hread

/-- How many steps there are to the next read, at most. -/
def stepsToRead : ReadPc → Nat
  | .poll => 1
  | .select _ _ => 2
  | _ => 0

/-- The bytes that are not read, and the steps to the next read. -/
def stepsLeft (s : ReadPath) : Nat :=
  4 * s.coming.length + 3 * s.arrived.length + stepsToRead s.pc

/-- A packet that is complete costs at most one step more than the bytes behind it. -/
theorem stepsLeft_afterData_le (s : ReadPath) (f_head : FixedHeader) (data : Bytes) :
    stepsLeft (s.afterData accepts f_head data) ≤
      4 * s.coming.length + 3 * s.arrived.length + 1 := by
  unfold ReadPath.afterData stepsLeft
  split
  · exact Nat.le_succ _
  · dsimp only
    cases accepts (s.handled ++ [(f_head, data)])
    · exact Nat.le_succ _
    · exact Nat.le_refl _

/-- A byte of the header costs at most two steps more than the bytes behind it. -/
theorem stepsLeft_headerByte_le {s t : ReadPath} {b : UInt8}
    (h : s.headerByte accepts b = some t) :
    stepsLeft t ≤ 4 * s.coming.length + 3 * s.arrived.length + 2 := by
  unfold ReadPath.headerByte at h
  split at h
  · obtain rfl := Option.some.inj h
    exact Nat.le_add_right _ 2
  · split at h <;> obtain rfl := Option.some.inj h
    · exact Nat.le_add_right _ 2
    · -- a body of length 0 is handled at once
      unfold ReadPath.afterHeader
      split
      · exact Nat.le_succ_of_le (stepsLeft_afterData_le s _ [])
      · exact Nat.le_refl _
    · exact Nat.le_add_right _ 2
  · cases h

/-- Every step of the read path leaves fewer of them. -/
theorem stepsLeft_lt {s t : ReadPath} {e : ReadEvent} (h : s.step accepts e = some t) :
    stepsLeft t < stepsLeft s := by
  -- bytes that are to come weigh more than those that have arrived, and these more than
  -- the state of the thread
  cases e with
  | arrive n =>
    simp only [ReadPath.step, Option.ite_none_right_eq_some] at h
    obtain ⟨⟨hpos, hle⟩, h⟩ := h
    obtain rfl := Option.some.inj h
    simp only [stepsLeft, List.length_drop, List.length_append, List.length_take]
    omega
  | poll =>
    simp only [ReadPath.step, Option.ite_none_right_eq_some] at h
    obtain ⟨⟨hpc, -⟩, h⟩ := h
    obtain rfl := Option.some.inj h
    simp [stepsLeft, stepsToRead, hpc]
  | readByte =>
    simp only [ReadPath.step] at h
    split at h
    · cases h
    · rename_i b rest harrived
      -- a byte of the header is taken
      have hle := stepsLeft_headerByte_le h
      simp only [stepsLeft, harrived, List.length_cons] at hle ⊢
      omega
  | select =>
    simp only [ReadPath.step] at h
    split at h
    · rename_i f_head data hpc
      split at h <;> obtain rfl := Option.some.inj h
      · have hle := @stepsLeft_afterData_le accepts s f_head data
        simp only [stepsLeft, stepsToRead, hpc] at hle ⊢
        omega
      · simp [stepsLeft, stepsToRead, hpc]
    · cases h
  | read n =>
    simp only [ReadPath.step] at h
    split at h
    · rename_i f_head data hpc
      obtain ⟨⟨hpos, -, hle⟩, h⟩ := Option.ite_none_right_eq_some.mp h
      split at h <;> obtain rfl := Option.some.inj h
      · have hafter := @stepsLeft_afterData_le accepts
          { s with arrived := s.arrived.drop n } f_head (data ++ s.arrived.take n)
        simp only [List.length_drop] at hafter
        simp only [stepsLeft, stepsToRead, hpc] at hafter ⊢
        omega
      · simp only [stepsLeft, stepsToRead, hpc, List.length_drop]
        omega
    · cases h

/-! ## Any segmentation -/

/-- The runs of the read path in which `select` is never called too early. -/
def readInTime (accepts : List (FixedHeader × Bytes) → Bool) (stream : Bytes) :
    LTS ReadPath ReadEvent :=
  (readPath accepts stream).restrict fun s e => ¬ SelectsTooEarly s e

/-- When no select comes too early, the read path follows the stream. -/
theorem inStream_of_readInTime {s : ReadPath} {ps : List StreamPacket}
    (h : (readInTime accepts (streamOf ps)).Reachable s) :
    InStream accepts (handOver accepts [] ps) s := by
  refine h.invariant (P := InStream accepts (handOver accepts [] ps)) ?_ ?_
  · rintro _ rfl
    exact .reads _ (.poll ps) rfl
  · rintro s e t hs ⟨hearly, hstep⟩
    exact hs.step hearly hstep

/-- What is on its way only gets less. -/
theorem coming_eq_nil {s t : ReadPath} {e : ReadEvent} (h : s.step accepts e = some t)
    (hcoming : s.coming = []) : t.coming = [] := by
  -- behind a whole packet and behind a byte of a header the stream is not touched
  have hafter : ∀ (s : ReadPath) f_head data,
      (s.afterData accepts f_head data).coming = s.coming := by
    intro s f_head data
    unfold ReadPath.afterData
    split <;> rfl
  have hheader : ∀ {s t : ReadPath} {b}, s.headerByte accepts b = some t → t.coming = s.coming := by
    intro s t b h
    unfold ReadPath.headerByte ReadPath.afterHeader at h
    split at h
    · obtain rfl := Option.some.inj h; rfl
    · split at h <;> obtain rfl := Option.some.inj h
      · rfl
      · split
        · exact hafter ..
        · rfl
      · rfl
    · cases h
  unfold ReadPath.step at h
  split at h
  · simp [hcoming] at h  -- nothing can arrive
    omega
  · obtain ⟨-, h⟩ := Option.ite_none_right_eq_some.mp h
    obtain rfl := Option.some.inj h
    exact hcoming
  · split at h
    · cases h
    · exact (hheader h).trans hcoming
  · split at h
    · split at h <;> obtain rfl := Option.some.inj h
      · exact (hafter ..).trans hcoming
      · exact hcoming
    · cases h
  · split at h
    · obtain ⟨-, h⟩ := Option.ite_none_right_eq_some.mp h
      dsimp only at h
      split at h <;> obtain rfl := Option.some.inj h
      · exact (hafter ..).trans hcoming
      · exact hcoming
    · cases h

/-- When all bytes have arrived, `select` is never called too early. -/
theorem inStream_of_readAtOnce {s : ReadPath} {ps : List StreamPacket}
    (h : (readAtOnce accepts (streamOf ps)).Reachable s) :
    InStream accepts (handOver accepts [] ps) s := by
  suffices InStream accepts (handOver accepts [] ps) s ∧ s.coming = [] from this.1
  refine h.invariant (P := fun s => InStream accepts (handOver accepts [] ps) s ∧ s.coming = [])
    ?_ ?_
  · -- the whole stream has arrived before the first step
    rintro _ rfl
    refine ⟨.reads ps ?_ rfl, rfl⟩
    rw [List.append_nil]
    exact .poll ps
  · -- all bytes are there, so a select always finds some
    rintro s e t ⟨hs, hcoming⟩ hstep
    have hearly : ¬ SelectsTooEarly s e := by
      rintro ⟨rfl, harrived⟩
      change s.step accepts .select = some t at hstep
      cases hs with
      | reads _ hr _ =>
        generalize hbytes : s.arrived ++ s.coming = bytes at hr
        rw [harrived, hcoming] at hbytes
        generalize hpc : s.pc = pc at hr
        cases hr with
        | select ps _ hleft => exact hleft (List.append_eq_nil_iff.mp hbytes.symm).1
        | _ => simp [ReadPath.step, hpc] at hstep
      | refused hpc _ => simp [ReadPath.step, hpc] at hstep
    exact ⟨hs.step hearly hstep, coming_eq_nil hstep hcoming⟩

/-- However a stream of packets is cut up, as long as `select` is never called before
    the next byte of a body has arrived, the handlers get what they get when all bytes
    arrive at once: never anything else, and all of it in the end. No client is
    dropped but for a packet that a handler refuses. -/
theorem segmentation_irrelevant (accepts : List (FixedHeader × Bytes) → Bool)
    (ps : List StreamPacket) : ∃ handled,
      (∃ t, (readAtOnce accepts (streamOf ps)).Reachable t ∧
        (readAtOnce accepts (streamOf ps)).Stuck t) ∧
      (∀ t, (readAtOnce accepts (streamOf ps)).Reachable t →
        (readAtOnce accepts (streamOf ps)).Stuck t → t.handled = handled) ∧
      ∀ s, (readInTime accepts (streamOf ps)).Reachable s →
        (∀ reason, s.pc = .dropped reason → reason = .refused) ∧ s.handled <+: handled ∧
        ((readInTime accepts (streamOf ps)).Stuck s → s.handled = handled) := by
  refine ⟨handOver accepts [] ps, ?_, fun t ht hstuck => ?_, fun s hs => ?_⟩
  · exact LTS.Reachable.exists_stuck (M := readAtOnce accepts (streamOf ps)) stepsLeft_lt (.init rfl)
  · refine (inStream_of_readAtOnce ht).handled_eq fun e _ => ?_
    exact Option.eq_none_iff_forall_ne_some.mpr fun t' hstep => hstuck e t' hstep
  · have hin := inStream_of_readInTime hs
    refine ⟨fun reason hpc => hin.reason_eq hpc, hin.handled_isPrefixOf, fun hstuck => ?_⟩
    refine hin.handled_eq fun e hearly => ?_
    exact Option.eq_none_iff_forall_ne_some.mpr fun t' hstep => hstuck e t' ⟨hearly, hstep⟩

/-- The packet PUBLISH of `x` under `t`, QoS 0. -/
def publishPacket : StreamPacket where
  first := 0x30
  len := [5]
  body := [0, 1, 0x74, 0, 0x78]
  isVarInt := .last (by decide)
  length_le := by decide
  value_eq := by decide

/-- The header of a packet arrives, and the body is still on its way when `select` is
    called: the client is dropped, and the packet never handled. -/
theorem body_in_transit_dropped :
    ∃ s, (readPath (fun _ => true) (streamOf [publishPacket])).Reachable s ∧
      s.pc = .dropped .short ∧ s.handled = [] ∧ s.coming = publishPacket.body ∧
      ∃ t, (readAtOnce (fun _ => true) (streamOf [publishPacket])).Reachable t ∧
        (readAtOnce (fun _ => true) (streamOf [publishPacket])).Stuck t ∧
        t.handled = [publishPacket.parsed] := by
  have hrun : [ReadEvent.arrive 2, .poll, .readByte, .readByte, .select].foldlM
      (ReadPath.step fun _ => true) { coming := streamOf [publishPacket] } =
        some { coming := publishPacket.body, pc := .dropped .short } := by
    decide +kernel
  have hatOnce : [ReadEvent.poll, .readByte, .readByte, .select, .read 5].foldlM
      (ReadPath.step fun _ => true) { coming := [], arrived := streamOf [publishPacket] } =
        some { coming := [], handled := [publishPacket.parsed] } := by
    decide +kernel
  have hdropped : (readPath (fun _ => true) (streamOf [publishPacket])).Reachable
      { coming := publishPacket.body, pc := .dropped .short } :=
    ⟨_, _, rfl, LTS.run_of_foldlM (fun h => h) hrun⟩
  have hhandled : (readAtOnce (fun _ => true) (streamOf [publishPacket])).Reachable
      { coming := [], handled := [publishPacket.parsed] } :=
    ⟨_, _, rfl, LTS.run_of_foldlM (fun h => h) hatOnce⟩
  refine ⟨_, hdropped, rfl, rfl, rfl, _, hhandled, ?_, rfl⟩
  intro e t hstep
  change ReadPath.step _ _ e = some t at hstep
  -- nothing more can happen to the first of the two runs
  cases e with
  | arrive n => simp [ReadPath.step] at hstep; omega
  | _ => simp [ReadPath.step] at hstep

end Mqtt.Spec
