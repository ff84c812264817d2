import MqttBroker.ForStd.Rounds
import MqttBroker.ForStd.Transition
import MqttBroker.Spec.PropertyWire

/-!
# The loop over a property section

`createRounds` is the `while` loop of `MqttPropertyChain::Create` as a
transition system on its two counters. `Reached` walks the same section by the
wire format alone, stepping over each property by its size modulo 256. The two
agree as long as no step is larger than what is left of the declared length,
and from this the section results follow: when the loop makes progress, and
when a section is consumed exactly.
-/

namespace Mqtt.Spec

open Mqtt.Native Mqtt.Native.MqttPropertyChain

/-- `p_len` and `size`. -/
abbrev Counters := Nat × Nat

/-- The rounds of the loop for a section of declared length `L` behind a length
    field of `k` bytes, labelled with the `size_property` of the round. -/
def createRounds (buf : Bytes) (L k : Nat) : LTS Counters Nat where
  Init st := st = (L, k)
  Step st s st' := 0 < st.1 ∧ (∃ property, createProperty (buf.drop st.2) = .ok (some property, s)) ∧
    st' = ((st.1 + 2 ^ 32 - s) % 2 ^ 32, (st.2 + s) % 2 ^ 32)

/-- The walk over a section by its wire format: a position and what is left. -/
inductive Reached (buf : Bytes) (L k : Nat) : (pos left : Nat) → Prop
  | start : Reached buf L k k L
  | step {pos left : Nat} {p : MqttProperty} {bs rest : Bytes} : Reached buf L k pos left →
      0 < left → buf.drop pos = bs ++ rest → WireProperty p bs → bs.length % 256 ≤ left →
      Reached buf L k (pos + bs.length % 256) (left - bs.length % 256)

/-- No property on the walk takes a step larger than what is left. -/
def StepsFit (buf : Bytes) (L k : Nat) : Prop :=
  ∀ {pos left : Nat} {p : MqttProperty} {bs rest : Bytes}, Reached buf L k pos left → 0 < left →
    buf.drop pos = bs ++ rest → WireProperty p bs → bs.length % 256 ≤ left

variable {buf : Bytes} {L k : Nat}

/-- Position and rest make up the end of the section. -/
theorem Reached.add_eq {pos left : Nat} (h : Reached buf L k pos left) : pos + left = k + L := by
  induction h with
  | start => rfl
  | step => omega

/-- No more is left than the section is long. -/
theorem Reached.left_le {pos left : Nat} (h : Reached buf L k pos left) : left ≤ L := by
  induction h with
  | start => exact Nat.le_refl _
  | step => omega

/-- A property at the current position is a round of the loop. -/
theorem round_of_wire {pos left : Nat} {p : MqttProperty} {bs rest : Bytes} (hleft : 0 < left)
    (hdrop : buf.drop pos = bs ++ rest) (hp : WireProperty p bs) :
    (createRounds buf L k).Step (left, pos) (bs.length % 256)
      ((left + 2 ^ 32 - bs.length % 256) % 2 ^ 32, (pos + bs.length % 256) % 2 ^ 32) :=
  ⟨hleft, ⟨p, by rw [hdrop]; exact createProperty_of_wire hp rest⟩, rfl⟩

/-- A round of the loop steps over a property. -/
theorem wire_of_round {st st' : Counters} {s : Nat} (h : (createRounds buf L k).Step st s st') :
    0 < st.1 ∧ ∃ p bs rest, createProperty (buf.drop st.2) = .ok (some p, s) ∧
      buf.drop st.2 = bs ++ rest ∧ WireProperty p bs ∧ s = bs.length % 256 := by
  obtain ⟨hpos, ⟨property, hproperty⟩, -⟩ := h
  refine ⟨hpos, ?_⟩
  rcases createProperty_inv hproperty with ⟨p, bs, rest, hp, hdrop, hwire, rfl⟩ | ⟨hnone, -, -⟩
  · exact ⟨property, bs, rest, hproperty, hdrop, Option.some.inj hp ▸ hwire, rfl⟩
  · exact nomatch hnone

/-- The counters do not wrap where the step is no larger than what is left. -/
private theorem counters_eq {pos left s : Nat} (hsum : pos + left = k + L) (hkL : k + L < 2 ^ 32)
    (hs : s ≤ left) :
    ((left + 2 ^ 32 - s) % 2 ^ 32, (pos + s) % 2 ^ 32) = (left - s, pos + s) := by
  rw [Prod.mk.injEq]
  omega

/-- The walk is made of rounds of the loop. -/
theorem Reached.reachable {pos left : Nat} (h : Reached buf L k pos left) (hkL : k + L < 2 ^ 32) :
    (createRounds buf L k).Reachable (left, pos) := by
  induction h with
  | start => exact .init rfl
  | step hreach hleft hdrop hp hs ih =>
    have hstep := round_of_wire (L := L) (k := k) hleft hdrop hp
    rw [counters_eq hreach.add_eq hkL hs] at hstep
    exact ih.step hstep

/-- As long as the steps fit, the loop makes the rounds of the walk only. -/
theorem reached_of_reachable (hfit : StepsFit buf L k) (hkL : k + L < 2 ^ 32) {st : Counters}
    (h : (createRounds buf L k).Reachable st) : Reached buf L k st.2 st.1 := by
  refine h.invariant (P := fun st => Reached buf L k st.2 st.1) ?_ ?_
  · rintro _ rfl
    exact .start
  · intro st s st' hreach hstep
    obtain ⟨hleft, p, bs, rest, -, hdrop, hp, rfl⟩ := wire_of_round hstep
    have hs := hfit hreach hleft hdrop hp
    obtain ⟨-, -, rfl⟩ := hstep
    rw [counters_eq hreach.add_eq hkL hs]
    exact hreach.step hleft hdrop hp hs

/-! ## The loop and its rounds -/

/-- One round of `createLoop`. -/
theorem createLoop_of_wire {pos left fuel : Nat} {p : MqttProperty} {bs rest : Bytes}
    (chain : MqttPropertyChain) (hleft : 0 < left) (hdrop : buf.drop pos = bs ++ rest)
    (hp : WireProperty p bs) :
    createLoop buf (fuel + 1) left pos chain = createLoop buf fuel
      ((left + 2 ^ 32 - bs.length % 256) % 2 ^ 32) ((pos + bs.length % 256) % 2 ^ 32)
      (addProperty chain p) := by
  rw [createLoop, if_pos hleft, hdrop, createProperty_of_wire hp rest]
  rfl

/-- `createLoop` on the walk. -/
theorem createLoop_step {pos left fuel : Nat} {p : MqttProperty} {bs rest : Bytes}
    (chain : MqttPropertyChain) (hreach : Reached buf L k pos left) (hkL : k + L < 2 ^ 32)
    (hleft : 0 < left) (hdrop : buf.drop pos = bs ++ rest) (hp : WireProperty p bs)
    (hs : bs.length % 256 ≤ left) :
    createLoop buf (fuel + 1) left pos chain =
      createLoop buf fuel (left - bs.length % 256) (pos + bs.length % 256)
        (addProperty chain p) := by
  have heq := counters_eq hreach.add_eq hkL hs
  rw [Prod.mk.injEq] at heq
  rw [createLoop_of_wire chain hleft hdrop hp, heq.1, heq.2]

/-- The loop ends with an error where no property can be made. -/
theorem createLoop_of_invalid {pos left fuel : Nat} (chain : MqttPropertyChain) (hleft : 0 < left)
    (h : Invalid (buf.drop pos)) :
    createLoop buf (fuel + 1) left pos chain = .ok ⟨.mqttPropertyErr, pos, chain⟩ := by
  rw [createLoop, if_pos hleft, createProperty_of_invalid h]
  rfl

/-- The loop ends when nothing is left. -/
theorem createLoop_zero_left {pos fuel : Nat} (chain : MqttPropertyChain) :
    createLoop buf (fuel + 1) 0 pos chain = .ok ⟨.ok, pos, chain⟩ := by
  rw [createLoop, if_neg (by decide)]
  rfl

/-- What a round of `createLoop` that returns was. -/
theorem createLoop_inv {pos left fuel : Nat} {chain : MqttPropertyChain} {r : Created}
    (h : createLoop buf (fuel + 1) left pos chain = .ok r) :
    (left = 0 ∧ r = ⟨.ok, pos, chain⟩) ∨
    (0 < left ∧ Invalid (buf.drop pos) ∧ r = ⟨.mqttPropertyErr, pos, chain⟩) ∨
    (0 < left ∧ ∃ p bs rest, buf.drop pos = bs ++ rest ∧ WireProperty p bs ∧
      createLoop buf fuel ((left + 2 ^ 32 - bs.length % 256) % 2 ^ 32)
        ((pos + bs.length % 256) % 2 ^ 32) (addProperty chain p) = .ok r) := by
  rw [createLoop] at h
  split at h
  · rename_i hleft
    obtain ⟨⟨op, s⟩, hcreate, h⟩ := Except.bind_eq_ok_iff.mp h
    rcases createProperty_inv hcreate with ⟨p, bs, rest, rfl, hdrop, hp, rfl⟩ | ⟨rfl, rfl, hinv⟩
    · exact .inr (.inr ⟨hleft, p, bs, rest, hdrop, hp, h⟩)
    · exact .inr (.inl ⟨hleft, hinv, (Except.ok.inj h).symm⟩)
  · exact .inl ⟨by omega, (Except.ok.inj h).symm⟩

/-- A loop that returns without error and has something left starts with a
    property. -/
theorem wire_of_createLoop {pos left fuel : Nat} {chain : MqttPropertyChain} {r : Created}
    (hok : r.err = .ok) (hleft : 0 < left) (h : createLoop buf fuel left pos chain = .ok r) :
    ∃ p bs rest, buf.drop pos = bs ++ rest ∧ WireProperty p bs ∧
      createLoop buf (fuel - 1) ((left + 2 ^ 32 - bs.length % 256) % 2 ^ 32)
        ((pos + bs.length % 256) % 2 ^ 32) (addProperty chain p) = .ok r := by
  cases fuel with
  | zero => exact nomatch h
  | succ fuel =>
    rcases createLoop_inv h with ⟨rfl, -⟩ | ⟨-, -, rfl⟩ | ⟨-, hround⟩
    · exact nomatch hleft
    · exact nomatch hok
    · exact hround

/-- `Create` called on `chain` returns `r`. -/
def Returns (chain : MqttPropertyChain) (buf : Bytes) (r : Created) : Prop :=
  ∃ fuel, createFuel fuel chain buf = .ok r

/-- `Create` called on `chain` comes to an end. -/
def Ends (chain : MqttPropertyChain) (buf : Bytes) : Prop :=
  ∃ fuel, createFuel fuel chain buf ≠ .error .endless

/-- `Create` on a buffer with a declared length is its loop. -/
theorem createFuel_eq (fuel : Nat) (chain : MqttPropertyChain)
    (h : deCodeVarInt buf = .ok (some (L, k))) :
    createFuel fuel chain buf =
      if L > 0 then createLoop buf fuel L k OrderedSet.empty else .ok ⟨.ok, k, chain⟩ := by
  rw [createFuel, h]
  rfl

/-- The end of a section fits into 32 bits. -/
theorem sum_lt_of_deCodeVarInt (h : deCodeVarInt buf = .ok (some (L, k))) : k + L < 2 ^ 32 := by
  have := deCodeVarInt_bounds h
  omega

/-! ## Fuel -/

/-- A round of the loop as a function of its counters. -/
def nextCounters (buf : Bytes) (st : Counters) : Option Counters :=
  if st.1 > 0 then
    match createProperty (buf.drop st.2) with
    | .ok (some _, s) => some ((st.1 + 2 ^ 32 - s) % 2 ^ 32, (st.2 + s) % 2 ^ 32)
    | _ => none
  else none

/-- The counters of the next round come from a round of `Create`. -/
theorem step_of_nextCounters {st st' : Counters} (h : nextCounters buf st = some st') :
    ∃ s, (createRounds buf L k).Step st s st' := by
  rw [nextCounters] at h
  split at h
  · rename_i hpos
    split at h
    · rename_i p s hcreate
      exact ⟨s, hpos, ⟨p, hcreate⟩, (Option.some.inj h).symm⟩
    · cases h
  · cases h

/-- A loop that returns makes a number of rounds, and any more fuel is as good. -/
theorem rounds_of_createLoop {fuel : Nat} : ∀ {pos left : Nat} {chain : MqttPropertyChain}
    {r : Created}, createLoop buf fuel left pos chain = .ok r →
      ∃ n, Rounds (nextCounters buf) n (left, pos) ∧
        ∀ fuel', n < fuel' → createLoop buf fuel' left pos chain = .ok r := by
  -- Induction on the fuel; a call that returns counts its rounds, and more fuel does not change
  -- them
  induction fuel with
  | zero => intro pos left chain r h; exact nomatch h
  | succ fuel ih =>
    intro pos left chain r h
    rcases createLoop_inv h with ⟨rfl, rfl⟩ | ⟨hleft, hinv, rfl⟩ | ⟨hleft, p, bs, rest, hdrop, hp, h⟩
    · refine ⟨0, .last rfl, fun fuel' hlt => ?_⟩
      obtain ⟨m, rfl⟩ := Nat.exists_eq_add_of_lt hlt
      exact createLoop_zero_left chain
    · refine ⟨0, .last ?_, fun fuel' hlt => ?_⟩
      · simp only [nextCounters, createProperty_of_invalid hinv]
        exact ite_self _
      · obtain ⟨m, rfl⟩ := Nat.exists_eq_add_of_lt hlt
        exact createLoop_of_invalid chain hleft hinv
    · obtain ⟨n, hrounds, hfuel⟩ := ih h
      refine ⟨n + 1, .next ?_ hrounds, fun fuel' hlt => ?_⟩
      · have hcreate := createProperty_of_wire hp rest
        rw [← hdrop] at hcreate
        simp only [nextCounters, hcreate]
        exact if_pos hleft
      · obtain ⟨m, rfl⟩ := Nat.exists_eq_add_of_lt hlt
        rw [createLoop_of_wire chain hleft hdrop hp]
        exact hfuel _ (by omega)

/-- The loop reads at another byte of the buffer in every round: what it has left
    is settled by where it is. -/
theorem rounds_le_length {n pos left : Nat} (hleft : left < 2 ^ 32) (hpos : pos < 2 ^ 32)
    (h : Rounds (nextCounters buf) n (left, pos)) : n ≤ buf.length := by
  have hround : ∀ {st st' : Counters}, nextCounters buf st = some st' →
      ∃ s, s < 256 ∧ st.2 < buf.length ∧
        st' = ((st.1 + 2 ^ 32 - s) % 2 ^ 32, (st.2 + s) % 2 ^ 32) := by
    intro st st' hnext
    obtain ⟨s, hstep⟩ := @step_of_nextCounters buf left pos _ _ hnext
    obtain ⟨-, p, bs, rest, -, hdrop, hp, rfl⟩ := wire_of_round hstep
    have hlen := congrArg List.length hdrop
    have hbs := hp.length_pos
    rw [List.length_drop, List.length_append] at hlen
    exact ⟨_, Nat.mod_lt _ (by decide), by omega, hstep.2.2⟩
  -- the two counters keep their sum, so the position tells the rounds apart
  refine h.le_of_key (fun st => st.1 < 2 ^ 32 ∧ st.2 < 2 ^ 32 ∧
    (st.1 + st.2) % 2 ^ 32 = (left + pos) % 2 ^ 32) Prod.snd ?_ ?_ ?_ ⟨hleft, hpos, rfl⟩
  · rintro st st' ⟨h1, h2, hsum⟩ hnext
    obtain ⟨s, hs, -, rfl⟩ := hround hnext
    dsimp only
    omega
  · rintro ⟨left₁, pos₁⟩ ⟨left₂, pos₂⟩ ⟨h1, h2, hsum⟩ ⟨h1', h2', hsum'⟩ heq
    dsimp only at *
    obtain rfl := heq
    rw [Prod.mk.injEq]
    omega
  · intro st st' _ hnext
    obtain ⟨s, -, hlt, -⟩ := hround hnext
    exact hlt

/-- The rounds `Create` allows itself are enough wherever any number is. -/
theorem create_eq_ok_iff {chain : MqttPropertyChain} {r : Created} :
    create chain buf = .ok r ↔ Returns chain buf r := by
  constructor
  · intro h
    exact ⟨_, h⟩
  · -- a run with any fuel has at most as many rounds as the buffer has bytes
    rintro ⟨fuel, h⟩
    rw [create]
    rw [createFuel] at h ⊢
    obtain ⟨decoded, hlen, h⟩ := Except.bind_eq_ok_iff.mp h
    rw [hlen, Except.ok_bind]
    cases decoded with
    | none => exact h
    | some field =>
      obtain ⟨len, n⟩ := field
      have hsum := sum_lt_of_deCodeVarInt hlen
      dsimp only at h ⊢
      split at h
      · rename_i hpos
        obtain ⟨n, hrounds, hfuel⟩ := rounds_of_createLoop h
        have hle := rounds_le_length (by omega) (by omega) hrounds
        rw [if_pos hpos]
        exact hfuel _ (by omega)
      · rename_i hpos
        rw [if_neg hpos]
        exact h

/-! ## Progress -/

/-- Every round makes strict progress. -/
def MakesProgress (buf : Bytes) (L k : Nat) : Prop :=
  ∀ st s st', (createRounds buf L k).Reachable st → (createRounds buf L k).Step st s st' →
    1 ≤ s ∧ st'.1 < st.1 ∧ st.2 < st'.2

/-- The fuel only has to exceed what is left when every step takes some of it. -/
private theorem createLoop_ends (hkL : k + L < 2 ^ 32)
    (hprogress : ∀ {pos left : Nat} {p : MqttProperty} {bs rest : Bytes},
      Reached buf L k pos left → 0 < left → buf.drop pos = bs ++ rest → WireProperty p bs →
      1 ≤ bs.length % 256 ∧ bs.length % 256 ≤ left) :
    ∀ {fuel pos left : Nat} {chain : MqttPropertyChain}, Reached buf L k pos left → left < fuel →
      createLoop buf fuel left pos chain ≠ .error .endless := by
  intro fuel
  -- Induction on the fuel, which bounds what is left
  induction fuel with
  | zero => intro pos left chain _ hlt; omega
  | succ fuel ih =>
    intro pos left chain hreach hlt
    rw [createLoop]
    split
    · rename_i hleft
      cases hcreate : createProperty (buf.drop pos) with
      | error e =>
        obtain rfl := createProperty_error hcreate
        simp
      | ok r =>
        obtain ⟨op, s⟩ := r
        rcases createProperty_inv hcreate with ⟨p, bs, rest, rfl, hdrop, hp, rfl⟩ | ⟨rfl, rfl, _⟩
        · -- the round takes at least one byte, and no more than are left
          have hs := hprogress hreach hleft hdrop hp
          have heq := counters_eq hreach.add_eq hkL hs.2
          rw [Prod.mk.injEq] at heq
          simp only [Except.ok_bind, heq.1, heq.2]
          exact ih (hreach.step hleft hdrop hp hs.2) (by omega)
        · simp
    · simp

/-- A property of a size divisible by 256 is read again and again. -/
theorem createLoop_stall {pos left : Nat} {p : MqttProperty} {bs rest : Bytes} (hleft : 0 < left)
    (hlt : left < 2 ^ 32) (hpos : pos < 2 ^ 32) (hdrop : buf.drop pos = bs ++ rest)
    (hp : WireProperty p bs) (hs : bs.length % 256 = 0) (fuel : Nat) (chain : MqttPropertyChain) :
    createLoop buf fuel left pos chain = .error .endless := by
  induction fuel generalizing chain with
  | zero => rfl
  | succ fuel ih =>
    rw [createLoop_of_wire chain hleft hdrop hp, hs, show (left + 2 ^ 32 - 0) % 2 ^ 32 = left by omega,
      show (pos + 0) % 2 ^ 32 = pos by omega]
    exact ih _

/-- `Create` ends with every round making strict progress exactly when every
    property on the walk has a size that is not divisible by 256 and that is,
    modulo 256, at most what is left of the declared length. -/
theorem create_progress_iff (chain : MqttPropertyChain)
    (h : deCodeVarInt buf = .ok (some (L, k))) :
    Ends chain buf ∧ MakesProgress buf L k ↔
      ∀ {pos left : Nat} {p : MqttProperty} {bs rest : Bytes}, Reached buf L k pos left →
        0 < left → buf.drop pos = bs ++ rest → WireProperty p bs →
        1 ≤ bs.length % 256 ∧ bs.length % 256 ≤ left := by
  have hkL := sum_lt_of_deCodeVarInt h
  constructor
  · -- each round that is made makes progress, so its property is as the condition says
    rintro ⟨-, hprogress⟩ pos left p bs rest hreach hleft hdrop hp
    have hround := hprogress _ _ _ (hreach.reachable hkL) (round_of_wire hleft hdrop hp)
    have hsum := hreach.add_eq
    dsimp only at hround
    omega
  · intro hcond
    -- the condition lets the counters run down to zero without a carry
    have hfit : StepsFit buf L k := fun hr hl hd hp => (hcond hr hl hd hp).2
    refine ⟨⟨L + 1, ?_⟩, ?_⟩
    · rw [createFuel_eq _ _ h]
      split
      · exact createLoop_ends hkL hcond .start (Nat.lt_succ_self L)
      · simp
    · intro st s st' hreachable hstep
      have hreach := reached_of_reachable hfit hkL hreachable
      have hsum := hreach.add_eq
      obtain ⟨hleft, p, bs, rest, -, hdrop, hp, rfl⟩ := wire_of_round hstep
      have hs := hcond hreach hleft hdrop hp
      obtain ⟨-, -, rfl⟩ := hstep
      rw [counters_eq hsum hkL hs.2]
      dsimp only
      omega

/-- A section that is one content type of 253 bytes. -/
def stallingProperty : Bytes := 0x03 :: (htons 253 ++ List.replicate 253 0x61)

/-- `stallingProperty` is a content type of 253 bytes. -/
private theorem wire_stallingProperty :
    WireProperty ⟨0x03, .mqttString (List.replicate 253 0x61)⟩ stallingProperty :=
  wireProperty_mqttString rfl List.length_replicate (by decide)

/-- The stalling property takes 256 bytes, which an 8-bit size counts as none. -/
private theorem length_stallingProperty : stallingProperty.length % 256 = 0 := by
  rw [stallingProperty, List.length_cons, List.length_append, List.length_replicate]
  rfl

/-- A content type of 253 bytes is read for ever. -/
theorem create_stalls :
    deCodeVarInt ([0x80, 0x02] ++ stallingProperty) = .ok (some (256, 2)) ∧
      ¬ (Ends OrderedSet.empty ([0x80, 0x02] ++ stallingProperty) ∧
        MakesProgress ([0x80, 0x02] ++ stallingProperty) 256 2) := by
  have hlen : deCodeVarInt ([0x80, 0x02] ++ stallingProperty) = .ok (some (256, 2)) :=
    deCodeVarInt_of_isVarInt (.cons (by decide) (.last (by decide))) (by decide) _
  refine ⟨hlen, fun ⟨⟨fuel, hfuel⟩, _⟩ => hfuel ?_⟩
  have hdrop : ([0x80, 0x02] ++ stallingProperty).drop 2 = stallingProperty ++ [] := by
    rw [List.append_nil]
    exact List.drop_left' rfl
  rw [createFuel_eq _ _ hlen, if_pos (by decide)]
  exact createLoop_stall (by decide) (by decide) (by decide) hdrop wire_stallingProperty
    length_stallingProperty fuel _

/-- A payload format indicator on the wire. -/
private theorem wire_formatIndicator : WireProperty ⟨0x01, .byte 0⟩ [0x01, 0] :=
  .mk rfl (.byte 0)

/-- The walk over a section with a payload format indicator in it. -/
private theorem reached_formatIndicator {pos left : Nat} (h : Reached [2, 0x01, 0] 2 1 pos left) :
    (pos = 1 ∧ left = 2) ∨ left = 0 := by
  induction h with
  | start => exact .inl ⟨rfl, rfl⟩
  | step _ hleft hdrop hp _ ih =>
    rcases ih with ⟨rfl, rfl⟩ | rfl
    · obtain ⟨-, rfl⟩ := hp.unique wire_formatIndicator (hdrop.symm : _ = _ ++ [])
      exact .inr rfl
    · exact nomatch hleft

/-- A section with one payload format indicator in it is read in one round. -/
theorem create_progress_formatIndicator :
    Ends OrderedSet.empty [2, 0x01, 0] ∧ MakesProgress [2, 0x01, 0] 2 1 := by
  refine (create_progress_iff OrderedSet.empty rfl).mpr fun hreach hleft hdrop hp => ?_
  rcases reached_formatIndicator hreach with ⟨rfl, rfl⟩ | rfl
  · obtain ⟨-, rfl⟩ := hp.unique wire_formatIndicator (hdrop.symm : _ = _ ++ [])
    decide
  · exact nomatch hleft

/-! ## Consumption -/

/-- A sequence of properties. -/
inductive Properties : Bytes → Prop
  | nil : Properties []
  | cons {p : MqttProperty} {bs rest : Bytes} : WireProperty p bs → Properties rest →
      Properties (bs ++ rest)

/-- The properties fit exactly in the declared length. -/
def FitsExactly (buf : Bytes) (L k : Nat) : Prop :=
  k + L ≤ buf.length ∧ Properties ((buf.drop k).take L)

/-- A section is consumed exactly: what `Create` called on `chain` does for a
    section of declared length `L` behind a length field of `k` bytes. That no
    byte from index `k + L` on is read means that a buffer cut off there gives
    the same result. -/
structure ConsumedExactly (chain : MqttPropertyChain) (buf : Bytes) (L k : Nat) : Prop where
  size_eq : ∀ r, Returns chain buf r → r.err = .ok → r.size = k + L
  reads_inside : ∀ r, Returns chain buf r → r.err = .ok → Returns chain (buf.take (k + L)) r
  error_of_misfit : ¬ FitsExactly buf L k → ∃ r, Returns chain buf r ∧ r.err ≠ .ok
  no_underflow : ∀ st s st', (createRounds buf L k).Reachable st →
    (createRounds buf L k).Step st s st' → s ≤ st.1

/-- The sections that are consumed exactly, by their walk. -/
structure Consumable (buf : Bytes) (L k : Nat) : Prop where
  /-- No step is larger than what is left. -/
  steps_fit : StepsFit buf L k
  /-- A section that is not a sequence of properties has an invalid one on its walk. -/
  invalid_of_misfit : ¬ FitsExactly buf L k →
    ∃ pos left, Reached buf L k pos left ∧ 0 < left ∧ Invalid (buf.drop pos)
  /-- On a walk that takes the declared length up, every property lies inside. -/
  inside : Reached buf L k (k + L) 0 → ∀ {pos left : Nat} {p : MqttProperty} {bs rest : Bytes},
    Reached buf L k pos left → 0 < left → buf.drop pos = bs ++ rest → WireProperty p bs →
    pos + bs.length ≤ k + L

/-- What a returning loop has walked to, from a position on the walk. -/
private theorem reached_of_createLoop (hfit : StepsFit buf L k) (hkL : k + L < 2 ^ 32) :
    ∀ {fuel pos left : Nat} {chain : MqttPropertyChain} {r : Created}, Reached buf L k pos left →
      createLoop buf fuel left pos chain = .ok r →
      (r.err = .ok ∧ r.size = k + L ∧ Reached buf L k (k + L) 0) ∨
      (r.err = .mqttPropertyErr ∧ ∃ pos left, Reached buf L k pos left ∧ 0 < left ∧
        Invalid (buf.drop pos)) := by
  intro fuel
  -- Induction on the fuel: as every round fits, the loop walks through the section
  induction fuel with
  | zero => intro pos left chain r _ h; exact nomatch h
  | succ fuel ih =>
    intro pos left chain r hreach h
    rcases createLoop_inv h with ⟨rfl, rfl⟩ | ⟨hleft, hinv, rfl⟩ | ⟨hleft, p, bs, rest, hdrop, hp, h⟩
    · obtain rfl : pos = k + L := hreach.add_eq
      exact .inl ⟨rfl, rfl, hreach⟩
    · exact .inr ⟨rfl, pos, left, hreach, hleft, hinv⟩
    · have hs := hfit hreach hleft hdrop hp
      have heq := counters_eq hreach.add_eq hkL hs
      rw [Prod.mk.injEq] at heq
      rw [heq.1, heq.2] at h
      exact ih (hreach.step hleft hdrop hp hs) h

/-- The loop gets to every position on the walk. -/
private theorem createLoop_eq_of_reached (hkL : k + L < 2 ^ 32) {pos left : Nat}
    (h : Reached buf L k pos left) (chain : MqttPropertyChain) :
    ∃ n chain', ∀ fuel, createLoop buf (fuel + n) L k chain =
      createLoop buf fuel left pos chain' := by
  induction h with
  | start => exact ⟨0, chain, fun _ => rfl⟩
  | @step pos left p bs rest hreach hleft hdrop hp hs ih =>
    obtain ⟨n, chain', heq⟩ := ih
    refine ⟨n + 1, addProperty chain' p, fun fuel => ?_⟩
    rw [show fuel + (n + 1) = fuel + 1 + n by omega, heq,
      createLoop_step chain' hreach hkL hleft hdrop hp hs]

/-- A loop that returns without error on a walk that stays inside the section
    does the same on a buffer cut off at its end. -/
private theorem createLoop_take (hfit : StepsFit buf L k) (hkL : k + L < 2 ^ 32)
    (hinside : ∀ {pos left : Nat} {p : MqttProperty} {bs rest : Bytes}, Reached buf L k pos left →
      0 < left → buf.drop pos = bs ++ rest → WireProperty p bs → pos + bs.length ≤ k + L) :
    ∀ {fuel pos left : Nat} {chain : MqttPropertyChain} {r : Created}, Reached buf L k pos left →
      r.err = .ok → createLoop buf fuel left pos chain = .ok r →
      createLoop (buf.take (k + L)) fuel left pos chain = .ok r := by
  intro fuel
  -- Induction on the fuel: every property lies inside, so the cut buffer has it too
  induction fuel with
  | zero => intro pos left chain r _ _ h; exact nomatch h
  | succ fuel ih =>
    intro pos left chain r hreach hok h
    rcases createLoop_inv h with ⟨rfl, rfl⟩ | ⟨-, -, rfl⟩ | ⟨hleft, p, bs, rest, hdrop, hp, h⟩
    · exact createLoop_zero_left chain
    · exact nomatch hok
    · have hs := hfit hreach hleft hdrop hp
      have hlen := hinside hreach hleft hdrop hp
      have hdrop' : (buf.take (k + L)).drop pos = bs ++ rest.take (k + L - pos - bs.length) := by
        rw [List.drop_take, hdrop, List.take_append, List.take_of_length_le (by omega)]
      have heq := counters_eq hreach.add_eq hkL hs
      rw [Prod.mk.injEq] at heq
      rw [heq.1, heq.2] at h
      rw [createLoop_of_wire chain hleft hdrop' hp, heq.1, heq.2]
      exact ih (hreach.step hleft hdrop hp hs) hok h

/-- A property of the buffer that is cut off is a property of the whole buffer. -/
private theorem drop_of_drop_take {pos m : Nat} {bs rest : Bytes}
    (h : (buf.take m).drop pos = bs ++ rest) :
    buf.drop pos = bs ++ (rest ++ buf.drop (max pos m)) ∧ (0 < bs.length → pos + bs.length ≤ m) := by
  have hlen := congrArg List.length h
  rw [List.length_drop, List.length_take, List.length_append] at hlen
  refine ⟨?_, by omega⟩
  rcases Nat.le_total pos m with hle | hle
  · rw [← List.append_assoc, ← h, List.drop_take, Nat.max_eq_right hle,
      show m = pos + (m - pos) by omega, ← List.drop_drop, Nat.add_sub_cancel_left,
      List.take_append_drop]
  · rw [List.drop_eq_nil_of_le (by rw [List.length_take]; omega), eq_comm,
      List.append_eq_nil_iff] at h
    rw [h.1, h.2, Nat.max_eq_left hle]
    rfl

/-- When the loop over the buffer cut off at the end of the section returns
    without error, it does so from every position on the walk. -/
private theorem createLoop_take_of_reached (hkL : k + L < 2 ^ 32)
    {fuel : Nat} {chain : MqttPropertyChain} {r : Created} (hok : r.err = .ok)
    (h : createLoop (buf.take (k + L)) fuel L k chain = .ok r) {pos left : Nat}
    (hreach : Reached buf L k pos left) : ∃ fuel chain,
      createLoop (buf.take (k + L)) fuel left pos chain = .ok r := by
  induction hreach with
  | start => exact ⟨fuel, chain, h⟩
  | @step pos left p bs rest hreach hleft hdrop hp hs ih =>
    obtain ⟨fuel, chain, h⟩ := ih
    obtain ⟨p', bs', rest', hdrop', hp', h⟩ := wire_of_createLoop hok hleft h
    obtain ⟨rfl, rfl⟩ := hp.unique hp' (hdrop.symm.trans (drop_of_drop_take hdrop').1)
    have heq := counters_eq hreach.add_eq hkL hs
    rw [Prod.mk.injEq] at heq
    rw [heq.1, heq.2] at h
    exact ⟨_, _, h⟩

/-- `Create` on a consumable section. -/
private theorem consumedExactly_of_consumable (chain : MqttPropertyChain)
    (h : deCodeVarInt buf = .ok (some (L, k))) (hc : Consumable buf L k) :
    ConsumedExactly chain buf L k := by
  have hkL := sum_lt_of_deCodeVarInt h
  have htake : deCodeVarInt (buf.take (k + L)) = .ok (some (L, k)) :=
    deCodeVarInt_take h (Nat.le_add_right k L)
  -- where it ends, that it reads no more, that it refuses a misfit, and that every round fits
  refine ⟨?_, ?_, ?_, ?_⟩
  · -- where it ends
    rintro r ⟨fuel, hr⟩ hok
    rw [createFuel_eq _ _ h] at hr
    split at hr
    · rcases reached_of_createLoop hc.steps_fit hkL .start hr with ⟨-, hsize, -⟩ | ⟨herr, -⟩
      · exact hsize
      · exact nomatch hok.symm.trans herr
    · rename_i hL
      obtain rfl := Except.ok.inj hr
      dsimp only
      omega
  · rintro r ⟨fuel, hr⟩ hok
    refine ⟨fuel, ?_⟩
    rw [createFuel_eq _ _ h] at hr
    rw [createFuel_eq _ _ htake]
    split at hr
    · rename_i hL
      rw [if_pos hL]
      rcases reached_of_createLoop hc.steps_fit hkL .start hr with ⟨-, -, hend⟩ | ⟨herr, -⟩
      · exact createLoop_take hc.steps_fit hkL (hc.inside hend) .start hok hr
      · exact nomatch hok.symm.trans herr
    · rename_i hL
      rw [if_neg hL, hr]
  · intro hmisfit
    obtain ⟨pos, left, hreach, hleft, hinv⟩ := hc.invalid_of_misfit hmisfit
    have hL : L > 0 := Nat.lt_of_lt_of_le hleft hreach.left_le
    obtain ⟨n, chain', heq⟩ := createLoop_eq_of_reached hkL hreach OrderedSet.empty
    refine ⟨⟨.mqttPropertyErr, pos, chain'⟩, ⟨0 + 1 + n, ?_⟩, nofun⟩
    rw [createFuel_eq _ _ h, if_pos hL, heq, createLoop_of_invalid _ hleft hinv]
  · intro st s st' hreachable hstep
    have hreach := reached_of_reachable hc.steps_fit hkL hreachable
    obtain ⟨hleft, p, bs, rest, -, hdrop, hp, rfl⟩ := wire_of_round hstep
    exact hc.steps_fit hreach hleft hdrop hp

/-- A section that is consumed exactly is consumable. -/
private theorem consumable_of_consumedExactly (chain : MqttPropertyChain)
    (h : deCodeVarInt buf = .ok (some (L, k))) (hc : ConsumedExactly chain buf L k) :
    Consumable buf L k := by
  have hkL := sum_lt_of_deCodeVarInt h
  have htake : deCodeVarInt (buf.take (k + L)) = .ok (some (L, k)) :=
    deCodeVarInt_take h (Nat.le_add_right k L)
  have hfit : StepsFit buf L k := fun hreach hleft hdrop hp =>
    hc.no_underflow _ _ _ (hreach.reachable hkL) (round_of_wire hleft hdrop hp)
  refine ⟨hfit, ?_, ?_⟩
  · intro hmisfit
    obtain ⟨r, ⟨fuel, hr⟩, hne⟩ := hc.error_of_misfit hmisfit
    rw [createFuel_eq _ _ h] at hr
    split at hr
    · rcases reached_of_createLoop hfit hkL .start hr with ⟨hok, -, -⟩ | ⟨-, hinv⟩
      · exact absurd hok hne
      · exact hinv
    · exact absurd (Except.ok.inj hr ▸ rfl) hne
  · intro hend pos left p bs rest hreach hleft hdrop hp
    have hL : L > 0 := Nat.lt_of_lt_of_le hleft hreach.left_le
    obtain ⟨n, chain', heq⟩ := createLoop_eq_of_reached hkL hend OrderedSet.empty
    have hreturns : Returns chain buf ⟨.ok, k + L, chain'⟩ :=
      ⟨0 + 1 + n, by rw [createFuel_eq _ _ h, if_pos hL, heq, createLoop_zero_left]⟩
    obtain ⟨fuel, hr⟩ := hc.reads_inside _ hreturns rfl
    rw [createFuel_eq _ _ htake, if_pos hL] at hr
    -- the run on the cut buffer passes the same position
    obtain ⟨fuel', chain'', hr'⟩ := createLoop_take_of_reached hkL rfl hr hreach
    obtain ⟨p', bs', rest', hdrop', hp', -⟩ := wire_of_createLoop rfl hleft hr'
    obtain ⟨hdrop'', hlen⟩ := drop_of_drop_take hdrop'
    obtain ⟨rfl, rfl⟩ := hp.unique hp' (hdrop.symm.trans hdrop'')
    exact hlen hp'.length_pos

/-- A property section is consumed exactly if and only if, on its walk, no step
    is larger than what is left, a section that is not a sequence of properties
    has an invalid one, and a walk to the end stays inside the section. -/
theorem create_consumed_iff (chain : MqttPropertyChain)
    (h : deCodeVarInt buf = .ok (some (L, k))) :
    ConsumedExactly chain buf L k ↔ Consumable buf L k :=
  ⟨consumable_of_consumedExactly chain h, consumedExactly_of_consumable chain h⟩

/-- A section that is one content type of 256 bytes, of which three are counted. -/
def longProperty : Bytes := 0x03 :: (htons 256 ++ List.replicate 256 0x61)

/-- `longProperty` is a content type of 256 bytes. -/
private theorem wire_longProperty :
    WireProperty ⟨0x03, .mqttString (List.replicate 256 0x61)⟩ longProperty :=
  wireProperty_mqttString rfl List.length_replicate (by decide)

/-- The long property takes 259 bytes, three of which an 8-bit size counts. -/
private theorem length_longProperty : longProperty.length = 259 := by
  rw [longProperty, List.length_cons, List.length_append, List.length_replicate]
  rfl

/-- Three bytes of a longer content type are taken for a whole section. -/
theorem create_reads_past_section :
    deCodeVarInt ([3] ++ longProperty) = .ok (some (3, 1)) ∧
      ¬ ConsumedExactly OrderedSet.empty ([3] ++ longProperty) 3 1 := by
  have hlen : deCodeVarInt ([3] ++ longProperty) = .ok (some (3, 1)) :=
    deCodeVarInt_of_isVarInt (.last (by decide)) (by decide) _
  refine ⟨hlen, fun hc => ?_⟩
  have hdrop : ([3] ++ longProperty).drop 1 = longProperty ++ [] := by
    rw [List.append_nil]
    exact List.drop_left' rfl
  -- 259 modulo 256 is all that is left
  have hstep : longProperty.length % 256 ≤ 3 := by
    have := length_longProperty
    omega
  have hround : createLoop ([3] ++ longProperty) 2 3 1 OrderedSet.empty = _ :=
    createLoop_step OrderedSet.empty .start (by decide) (by decide) hdrop wire_longProperty hstep
  rw [length_longProperty, createLoop_zero_left] at hround
  obtain ⟨fuel, hr⟩ := hc.reads_inside _
    ⟨2, by rw [createFuel_eq _ _ hlen, if_pos (by decide), hround]⟩ rfl
  -- the cut buffer ends behind the length of the string
  have htake : deCodeVarInt (([3] ++ longProperty).take 4) = .ok (some (3, 1)) :=
    deCodeVarInt_take hlen (by decide)
  rw [createFuel_eq _ _ htake, if_pos (by decide)] at hr
  obtain ⟨p, bs, rest, hdrop', hp, -⟩ := wire_of_createLoop rfl (by decide) hr
  obtain ⟨hdrop'', hin⟩ := drop_of_drop_take hdrop'
  obtain ⟨-, rfl⟩ := hp.unique wire_longProperty (hdrop''.symm.trans hdrop)
  have hlt := hin hp.length_pos
  rw [length_longProperty] at hlt
  omega

/-- A section with one payload format indicator in it is consumed exactly. -/
theorem create_consumed_formatIndicator : ConsumedExactly OrderedSet.empty [2, 0x01, 0] 2 1 := by
  refine (create_consumed_iff OrderedSet.empty rfl).mpr ⟨?_, ?_, ?_⟩
  · intro pos left p bs rest hreach hleft hdrop hp
    -- the loop is at the one property or behind it
    rcases reached_formatIndicator hreach with ⟨rfl, rfl⟩ | rfl
    · obtain ⟨-, rfl⟩ := hp.unique wire_formatIndicator (hdrop.symm : _ = _ ++ [])
      decide
    · exact nomatch hleft
  · exact fun hmisfit => absurd ⟨by decide, .cons wire_formatIndicator .nil⟩ hmisfit
  · intro _ pos left p bs rest hreach hleft hdrop hp
    rcases reached_formatIndicator hreach with ⟨rfl, rfl⟩ | rfl
    · obtain ⟨-, rfl⟩ := hp.unique wire_formatIndicator (hdrop.symm : _ = _ ++ [])
      decide
    · exact nomatch hleft

/-! ## The properties of a message -/

/-- A payload format indicator, a message expiry interval of 60 seconds and the content
    type `a`. -/
def messageChain : MqttPropertyChain :=
  ((OrderedSet.empty.insert ⟨0x01, .byte 0⟩).insert ⟨0x02, .fourByte 60⟩).insert
    ⟨0x03, .mqttString [0x61]⟩

/-- A section with the same properties, the content type in front. -/
def messageSection : Bytes := [11, 0x03, 0, 1, 0x61, 0x01, 0, 0x02, 0, 0, 0, 60]

end Mqtt.Spec
