import MqttBroker.Native.WriteData
import MqttBroker.Spec.CommandQueue

/-!
# All or a prefix

However the operating system splits a buffer, `WriteData` comes to an end, and what was
taken of the buffer are its first bytes, in order and each once: all of them, or fewer
and `-1` is returned. The rounds of a sender thread in `Native/Commands` are the rounds
of this loop.
-/

namespace Mqtt.Spec

open Mqtt.Native

/-- The calls have taken the first `n` bytes of a buffer, in order and each once. -/
structure TakesFirst (data : Bytes) (n : Nat) (taken : Taken) : Prop where
  in_order : List.Consecutive 0 taken
  bytes : List.written taken = data.take n
  once : ∀ place, List.timesWritten taken place = if place < n then 1 else 0

/-- Consecutive pieces that make up the first `n` bytes take each of them once. -/
theorem takesFirst_of_consecutive {data : Bytes} {n : Nat} {taken : Taken} (hn : n ≤ data.length)
    (hconsecutive : List.Consecutive 0 taken) (hbytes : List.written taken = data.take n) :
    TakesFirst data n taken := by
  refine ⟨hconsecutive, hbytes, fun place => ?_⟩
  rw [hconsecutive.timesWritten, hbytes, List.length_take_of_le hn]
  simp

/-- Nothing is taken of the first 0 bytes. -/
theorem takesFirst_nil (data : Bytes) : TakesFirst data 0 [] :=
  takesFirst_of_consecutive (Nat.zero_le _) .nil rfl

/-- Bytes are taken right behind those that were taken before. -/
theorem TakesFirst.snoc {data : Bytes} {n m : Nat} {taken : Taken} (h : TakesFirst data n taken)
    (hm : n + m ≤ data.length) :
    TakesFirst data (n + m) (taken ++ [(n, (data.drop n).take m)]) := by
  have hlen : (List.written taken).length = n := by
    rw [h.bytes, List.length_take_of_le (by omega)]
  refine takesFirst_of_consecutive hm (h.in_order.append ?_) ?_
  · rw [hlen, Nat.zero_add]
    exact List.consecutive_singleton n _
  · rw [List.written_append, h.bytes, List.written_cons, List.written_nil, List.append_nil,
      ← List.take_add]

/-- The calls cannot have taken two different numbers of bytes. -/
theorem TakesFirst.unique {data : Bytes} {n m : Nat} {taken : Taken} (h : TakesFirst data n taken)
    (h' : TakesFirst data m taken) : n = m := by
  by_contra hne
  obtain hlt | hlt := Nat.lt_or_gt_of_ne hne
  · have honce := (h.once n).symm.trans (h'.once n)
    rw [if_neg (Nat.lt_irrefl n), if_pos hlt] at honce
    cases honce
  · have honce := (h.once m).symm.trans (h'.once m)
    rw [if_pos hlt, if_neg (Nat.lt_irrefl m)] at honce
    cases honce

/-! ## The loop -/

/-- No call of `write` takes more than it is given. -/
def TakesAtMost (write : WriteResults) : Prop :=
  ∀ call buf, (write call buf).toInt ≤ buf.length

/-- A round of the loop: it fails, or goes on behind the bytes that were taken. -/
theorem writeDataLoop_round {write : WriteResults} {data : Bytes} {size sent_bytes : UInt32}
    (hwrite : TakesAtMost write) (hdata : size.toNat ≤ data.length) (hlt : sent_bytes < size)
    (fuel call : Nat) (taken : Taken) :
    writeDataLoop write data size (fuel + 1) call sent_bytes taken = .ok (-1, taken) ∨
    ∃ res : Int32, 0 < res.toNatClampNeg ∧
      (sent_bytes + res.toUInt32).toNat = sent_bytes.toNat + res.toNatClampNeg ∧
      sent_bytes.toNat + res.toNatClampNeg ≤ size.toNat ∧
      writeDataLoop write data size (fuel + 1) call sent_bytes taken =
        writeDataLoop write data size fuel (call + 1) (sent_bytes + res.toUInt32)
          (taken ++ [(sent_bytes.toNat, (data.drop sent_bytes.toNat).take res.toNatClampNeg)]) := by
  have hle : sent_bytes.toNat < size.toNat := UInt32.lt_iff_toNat_lt.mp hlt
  have hcount : (size - sent_bytes).toNat = size.toNat - sent_bytes.toNat :=
    UInt32.toNat_sub_of_le _ _ (UInt32.le_of_lt hlt)
  -- `write` is called on all that is left
  have hbuf : readBytes data sent_bytes.toNat (size - sent_bytes).toNat =
      .ok ((data.drop sent_bytes.toNat).take (size - sent_bytes).toNat) := by
    rw [readBytes, List.readSlice?, if_pos (by omega)]
  rw [writeDataLoop, if_pos hlt, hbuf, Except.ok_bind]
  dsimp only
  generalize hres : write call ((data.drop sent_bytes.toNat).take (size - sent_bytes).toNat) = res
  split
  · exact .inl rfl
  · -- the count is a positive `int`, and no more than what is left
    rename_i hpos
    have hpos : 0 < res.toInt := by simpa [Int32.le_iff_toInt_le] using hpos
    have hzero : (0 : Int32) ≤ res := Int32.le_iff_toInt_le.mpr (Int.le_of_lt hpos)
    have htaken := hwrite call ((data.drop sent_bytes.toNat).take (size - sent_bytes).toNat)
    rw [hres, ← Int32.cast_toNatClampNeg res hzero, List.length_take_of_le
      (by rw [List.length_drop]; omega)] at htaken
    have hsize := size.toNat_lt
    refine .inr ⟨res, ?_, ?_, by omega, ?_⟩
    · rw [← Int32.cast_toNatClampNeg res hzero] at hpos
      omega
    · rw [UInt32.toNat_add, Int32.toNat_toUInt32_of_le hzero, Nat.mod_eq_of_lt (by omega)]
    · rw [List.take_take, Nat.min_eq_left (by omega)]

/-- From any place on, with a round for each byte that is left. -/
theorem writeDataLoop_eq_ok {write : WriteResults} {data : Bytes} {size : UInt32}
    (hwrite : TakesAtMost write) (hsize : size.toNat < 2 ^ 31) (hdata : size.toNat ≤ data.length)
    (fuel call : Nat) (sent_bytes : UInt32) (taken : Taken) (hle : sent_bytes ≤ size)
    (hfuel : size.toNat - sent_bytes.toNat < fuel)
    (htaken : TakesFirst data sent_bytes.toNat taken) :
    ∃ res taken', writeDataLoop write data size fuel call sent_bytes taken = .ok (res, taken') ∧
      ((res.toInt = size.toNat ∧ TakesFirst data size.toNat taken') ∨
        (res = -1 ∧ ∃ n < size.toNat, TakesFirst data n taken')) := by
  -- on the rounds; `TakesFirst` is what each of them keeps
  induction fuel generalizing call sent_bytes taken with
  | zero => omega
  | succ fuel ih =>
    by_cases hlt : sent_bytes < size
    · obtain hfail | ⟨res, hpos, hsent, hmost, hround⟩ :=
        writeDataLoop_round hwrite hdata hlt fuel call taken
      · exact ⟨-1, taken, hfail, .inr ⟨rfl, _, UInt32.lt_iff_toNat_lt.mp hlt, htaken⟩⟩
      · rw [hround]
        refine ih (call + 1) _ _ (UInt32.le_iff_toNat_le.mpr (by omega)) (by omega) ?_
        rw [hsent]
        exact htaken.snoc (by omega)
    · obtain rfl : sent_bytes = size := UInt32.le_antisymm hle (UInt32.not_lt.mp hlt)
      refine ⟨sent_bytes.toInt32, taken, ?_, .inl ⟨?_, htaken⟩⟩
      · rw [writeDataLoop, if_neg hlt]
      · -- the size is no negative `int`
        have hint : sent_bytes.toInt32 = Int32.ofNat sent_bytes.toNat := by
          rw [← UInt32.toInt32_ofNat', UInt32.ofNat_toNat]
        rw [hint, Int32.toInt_ofNat_of_lt hsize]

/-- `WriteData` returns for every buffer and all results of `write`. It returns the size
    exactly when all bytes were taken, in order and each once; otherwise it returns `-1`, and
    a proper prefix was. -/
theorem writeData_all_or_part {write : WriteResults} {data : Bytes} {size : UInt32}
    (hwrite : TakesAtMost write) (hsize : size.toNat < 2 ^ 31)
    (hdata : size.toNat ≤ data.length) :
    ∃ res taken, writeData write data size = .ok (res, taken) ∧
      (res.toInt = size.toNat ↔ TakesFirst data size.toNat taken) ∧
      (res.toInt ≠ size.toNat → res = -1 ∧ ∃ n < size.toNat, TakesFirst data n taken) := by
  obtain ⟨res, taken, hreturns, hcase⟩ := writeDataLoop_eq_ok hwrite hsize hdata (size.toNat + 1) 0 0
    [] (UInt32.le_iff_toNat_le.mpr (Nat.zero_le _)) (by simp) (takesFirst_nil data)
  refine ⟨res, taken, hreturns, ?_⟩
  obtain ⟨hres, htaken⟩ | ⟨rfl, n, hn, htaken⟩ := hcase
  · exact ⟨iff_of_true hres htaken, fun hne => absurd hres hne⟩
  · have hne : (-1 : Int32).toInt ≠ size.toNat := by
      have hneg : (-1 : Int32).toInt = -1 := rfl
      omega
    refine ⟨iff_of_false hne fun hall => ?_, fun _ => ⟨rfl, n, hn, htaken⟩⟩
    exact absurd (htaken.unique hall) (Nat.ne_of_lt hn)

/-- One byte is taken by the first two calls, and then the connection is broken. -/
def twoThenBroken : WriteResults := fun call buf => if call < 2 ∧ buf ≠ [] then 1 else -1

/-- Of four bytes two are taken. -/
theorem writeData_all_or_part_broken : ∃ res taken,
    writeData twoThenBroken [0xE0, 2, 0x8D, 0] 4 = .ok (res, taken) ∧ res = -1 ∧
    taken = [(0, [0xE0]), (1, [2])] ∧ ∃ n < 4, TakesFirst [0xE0, 2, 0x8D, 0] n taken := by
  have hwrite : TakesAtMost twoThenBroken := by
    intro call buf
    unfold twoThenBroken
    split
    · rename_i hcall
      exact Int.ofNat_le.mpr (List.length_pos_iff.mpr hcall.2)
    · exact Int.le_trans (b := 0) (by decide) (Int.natCast_nonneg _)
  obtain ⟨res, taken, hreturns, -, hpart⟩ :=
    @writeData_all_or_part twoThenBroken [0xE0, 2, 0x8D, 0] 4 hwrite (by decide) (by decide)
  have hrun : writeData twoThenBroken [0xE0, 2, 0x8D, 0] 4 = .ok (-1, [(0, [0xE0]), (1, [2])]) := by
    rfl
  obtain ⟨rfl, rfl⟩ := Prod.mk.inj (Except.ok.inj (hreturns.symm.trans hrun))
  exact ⟨-1, _, hreturns, rfl, rfl, (hpart (by decide)).2⟩

/-! ## The sender threads -/

section senders

variable {τ : Type} [DecidableEq τ]

/-- A sender thread behind `WriteData`, which has taken so much more of its command. -/
def afterWriteData (s : Output τ) (id : τ) (p : QueuedCommand) (connection : Connection)
    (taken : Taken) : Output τ :=
  { s with
    senders := Function.update s.senders id .waiting
    writes := s.writes ++ taken.map fun call => ⟨p, connection, call.2⟩ }

/-- The loop of `WriteData` is a row of steps of a sender, one for each call of `write`. -/
theorem steps_of_writeDataLoop {write : WriteResults} {id : τ} {p : QueuedCommand}
    {connection : Connection} {size : UInt32} {res : Int32} {taken' : Taken}
    (hwrite : TakesAtMost write) (hsize : size.toNat = p.command.cmd.length) (fuel call : Nat)
    (sent_bytes : UInt32) (taken : Taken) (s : Output τ)
    (hat : s.senders id = .writing p sent_bytes.toNat)
    (hsocket : s.sockets p.command.fd = some connection) (hle : sent_bytes ≤ size)
    (h : writeDataLoop write p.command.cmd size fuel call sent_bytes taken = .ok (res, taken')) :
    ∃ (es : List (OutputEvent τ)) (new : Taken), taken' = taken ++ new ∧
      es.foldlM Output.step s = some (afterWriteData s id p connection new) := by
  -- Induction on the fuel; the thread and the loop have sent the same bytes
  induction fuel generalizing call sent_bytes taken s with
  | zero => cases h
  | succ fuel ih =>
    by_cases hlt : sent_bytes < size
    · have hlen : sent_bytes.toNat < p.command.cmd.length := by
        rw [← hsize]
        exact UInt32.lt_iff_toNat_lt.mp hlt
      obtain hfail | ⟨r, hpos, hsent, hmost, hround⟩ :=
        writeDataLoop_round hwrite (Nat.le_of_eq hsize) hlt fuel call taken
      · -- the thread gives the rest of the command up
        obtain ⟨-, rfl⟩ := Prod.mk.inj (Except.ok.inj (h.symm.trans hfail))
        refine ⟨[.write id (-1)], [], (List.append_nil _).symm, ?_⟩
        simp [Output.step, Output.write, hat, hlen, afterWriteData]
      · rw [hround] at h
        -- a round of the loop is a step of the thread
        let written : WriteCall :=
          ⟨p, connection, (p.command.cmd.drop sent_bytes.toNat).take r.toNatClampNeg⟩
        let t : Output τ := { s with
          senders := Function.update s.senders id (.writing p (sent_bytes + r.toUInt32).toNat)
          writes := s.writes ++ [written] }
        obtain ⟨es, new, rfl, hrun⟩ := ih (call + 1) _ _ t (Function.update_self ..) hsocket
          (UInt32.le_iff_toNat_le.mpr (by omega)) h
        have hstep : s.step (.write id r.toNatClampNeg) = some t := by
          have hres : ¬ ((r.toNatClampNeg : Int) ≤ 0) := by omega
          simp only [Output.step, Output.write, hat, if_pos hlen, if_neg hres, hsocket,
            Int.toNat_natCast]
          rw [if_pos (by omega), ← hsent]
        refine ⟨.write id r.toNatClampNeg :: es, (sent_bytes.toNat, written.data) :: new, ?_, ?_⟩
        · rw [List.append_assoc, List.singleton_append]
        rw [List.foldlM_cons, hstep]
        refine hrun.trans ?_
        simp only [afterWriteData, t, Function.update_idem, List.append_assoc, List.map_cons]
        rfl
    · obtain rfl : sent_bytes = size := UInt32.le_antisymm hle (UInt32.not_lt.mp hlt)
      rw [writeDataLoop, if_neg hlt] at h
      obtain ⟨-, rfl⟩ := Prod.mk.inj (Except.ok.inj h)
      refine ⟨[.write id 0], [], (List.append_nil _).symm, ?_⟩
      simp [Output.step, Output.write, hat, hsize, afterWriteData]

/-- A sender thread whose connection stays open goes through the rounds of `WriteData`, and
    writes what `WriteData` has taken. -/
theorem steps_of_writeData {write : WriteResults} {s : Output τ} {id : τ} {p : QueuedCommand}
    {connection : Connection} {size : UInt32} {res : Int32} {taken : Taken}
    (hwrite : TakesAtMost write) (hsize : size.toNat = p.command.cmd.length)
    (hat : s.senders id = .writing p 0) (hsocket : s.sockets p.command.fd = some connection)
    (h : writeData write p.command.cmd size = .ok (res, taken)) :
    ∃ es : List (OutputEvent τ),
      es.foldlM Output.step s = some (afterWriteData s id p connection taken) := by
  obtain ⟨es, new, rfl, hrun⟩ := steps_of_writeDataLoop hwrite hsize _ 0 0 [] s hat hsocket
    (UInt32.le_iff_toNat_le.mpr (Nat.zero_le _)) h
  exact ⟨es, hrun⟩

end senders

end Mqtt.Spec
