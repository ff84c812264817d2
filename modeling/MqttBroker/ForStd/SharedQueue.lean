import Mathlib.Data.List.Basic
import Mathlib.Logic.Function.Basic
import MqttBroker.ForStd.Transition

/-!
# Work queues shared by several workers

A queue of jobs, each of them data for an address. A worker takes the first job
and then writes its data in several pieces, while other workers do the same. Who
owns an address may change in the meantime, and the address may be given to
somebody else.

Two things can go wrong, and each is a theorem about the runs in which it does
not: a job reaches the owner it was meant for as long as no address is given away
that a job still carries and no job is put for an address that is somebody else's by
then (`written_to_owner`), and the data written to an address
is in order as long as no two workers write to it at a time (`bytes_in_order`).
-/

namespace SharedQueue

/-- Data for an address, with the owner it is meant for. -/
structure Job (α ω β : Type*) where
  address : α
  owner : Option ω
  data : List β

/-- A piece of a job that was written, and who got it. -/
structure Write (α ω β : Type*) where
  job : Job α ω β
  receiver : ω
  data : List β

/-- The queue, what each worker is writing and how much of it is written, the
    owners of the addresses, and what was put and written so far. -/
structure State (τ α ω β : Type*) where
  queue : List (Job α ω β)
  workers : τ → Option (Job α ω β × Nat)
  owners : α → Option ω
  put : List (Job α ω β)
  written : List (Write α ω β)

inductive Event (τ α ω β : Type*) where
  | put (a : α) (o : Option ω) (data : List β)
  | bind (a : α) (o : ω)
  | unbind (a : α)
  | take (w : τ)
  | write (w : τ) (n : Nat)
  | fail (w : τ)
  | finish (w : τ)

variable {τ α ω β : Type*}

/-- A job is in the queue or in the hands of a worker. -/
def Pending (s : State τ α ω β) (job : Job α ω β) : Prop :=
  job ∈ s.queue ∨ ∃ w n, s.workers w = some (job, n)

section Workers

variable [DecidableEq τ]

/-- What a worker has in hand after the update of one worker. -/
theorem workers_update {s : State τ α ω β} {w w' : τ} {x : Option (Job α ω β × Nat)}
    {y : Job α ω β × Nat} (h : Function.update s.workers w x w' = some y) :
    (w' = w ∧ x = some y) ∨ (w' ≠ w ∧ s.workers w' = some y) := by
  by_cases hw : w' = w
  · subst hw
    rw [Function.update_self] at h
    exact .inl ⟨rfl, h⟩
  · rw [Function.update_of_ne hw] at h
    exact .inr ⟨hw, h⟩

/-- A worker whose job is for another address, before and after. -/
private theorem workers_update_iff {a : α} {s : State τ α ω β} {w : τ} {job : Job α ω β}
    {sent : Nat} {x : Option (Job α ω β × Nat)} (hw : s.workers w = some (job, sent))
    (ha : job.address ≠ a) (hx : ∀ y ∈ x, y.1.address ≠ a) {w' : τ} {job' : Job α ω β} {n : Nat}
    (ha' : job'.address = a) :
    Function.update s.workers w x w' = some (job', n) ↔ s.workers w' = some (job', n) := by
  by_cases hww : w' = w
  · subst hww
    rw [Function.update_self, hw]
    constructor
    · exact fun h => absurd ha' (hx _ h)
    · intro h
      obtain ⟨rfl, -⟩ := Prod.mk.inj (Option.some.inj h)
      exact absurd ha' ha
  · rw [Function.update_of_ne hww]

end Workers

section Order

variable [DecidableEq α]

/-- The data put for an address in a list of jobs. -/
def dataFor (a : α) (jobs : List (Job α ω β)) : List β :=
  (jobs.filter fun job => job.address = a).flatMap Job.data

/-- What has been written to an address. -/
def bytes (a : α) (written : List (Write α ω β)) : List β :=
  (written.filter fun w => w.job.address = a).flatMap Write.data

/-- A write to the address adds its bytes. -/
theorem bytes_append_self {a : α} {w : Write α ω β} (h : w.job.address = a)
    (written : List (Write α ω β)) : bytes a (written ++ [w]) = bytes a written ++ w.data := by
  simp [bytes, h]

/-- A write to another address adds nothing. -/
theorem bytes_append_ne {a : α} {w : Write α ω β} (h : w.job.address ≠ a)
    (written : List (Write α ω β)) : bytes a (written ++ [w]) = bytes a written := by
  simp [bytes, h]

/-- What has been written to an address, what its worker still has to write and
    what is queued for it are together what was put for it. -/
def InOrder (a : α) (s : State τ α ω β) : Prop :=
  ((∀ w job n, s.workers w = some (job, n) → job.address ≠ a) ∧
    bytes a s.written ++ dataFor a s.queue = dataFor a s.put) ∨
  ∃ w job n, s.workers w = some (job, n) ∧ job.address = a ∧
    (∀ w' job' n', s.workers w' = some (job', n') → job'.address = a → w' = w) ∧
    bytes a s.written ++ (job.data.drop n ++ dataFor a s.queue) = dataFor a s.put

/-- The data of two rows of jobs, one behind the other. -/
theorem dataFor_append (a : α) (jobs jobs' : List (Job α ω β)) :
    dataFor a (jobs ++ jobs') = dataFor a jobs ++ dataFor a jobs' := by
  simp [dataFor]

/-- A first job for the address comes first in its data. -/
theorem dataFor_cons_self {a : α} {job : Job α ω β} (h : job.address = a)
    (jobs : List (Job α ω β)) : dataFor a (job :: jobs) = job.data ++ dataFor a jobs := by
  simp [dataFor, h]

/-- A first job for another address has no part in the data. -/
theorem dataFor_cons_ne {a : α} {job : Job α ω β} (h : job.address ≠ a)
    (jobs : List (Job α ω β)) : dataFor a (job :: jobs) = dataFor a jobs := by
  simp [dataFor, h]

/-- Only what concerns the address counts. -/
theorem InOrder.congr {a : α} {s t : State τ α ω β} (h : InOrder a s)
    (hbytes : bytes a t.written = bytes a s.written) (hqueue : dataFor a t.queue = dataFor a s.queue)
    (hput : dataFor a t.put = dataFor a s.put)
    (hworkers : ∀ {w job n}, job.address = a →
      (t.workers w = some (job, n) ↔ s.workers w = some (job, n))) : InOrder a t := by
  obtain ⟨hnone, heq⟩ | ⟨w, job, n, hw, ha, honly, heq⟩ := h
  · refine .inl ⟨fun w job n hw ha => hnone w job n ((hworkers ha).mp hw) ha, ?_⟩
    rw [hbytes, hqueue, hput, heq]
  · refine .inr ⟨w, job, n, (hworkers ha).mpr hw, ha, fun w' job' n' hw' ha' =>
      honly w' job' n' ((hworkers ha').mp hw') ha', ?_⟩
    rw [hbytes, hqueue, hput, heq]

/-- The job in hand for an address is the only one, and goes on where it stopped. -/
theorem InOrder.in_hand {a : α} {s : State τ α ω β} {w : τ} {job : Job α ω β} {sent : Nat}
    (h : InOrder a s) (hw : s.workers w = some (job, sent)) (ha : job.address = a) :
    (∀ w' job' n', s.workers w' = some (job', n') → job'.address = a → w' = w) ∧
      bytes a s.written ++ (job.data.drop sent ++ dataFor a s.queue) = dataFor a s.put := by
  obtain ⟨hnone, -⟩ | ⟨w', job', n', hw', ha', honly, heq⟩ := h
  · exact absurd ha (hnone w job sent hw)
  · obtain rfl := honly w job sent hw ha
    obtain ⟨rfl, rfl⟩ := Prod.mk.inj (Option.some.inj (hw'.symm.trans hw))
    exact ⟨honly, heq⟩

end Order

variable [DecidableEq τ] [DecidableEq α]

inductive Step : State τ α ω β → Event τ α ω β → State τ α ω β → Prop
  | put {s : State τ α ω β} {a : α} {o : Option ω} {data : List β} :
    Step s (.put a o data) { s with
      queue := s.queue ++ [⟨a, o, data⟩]
      put := s.put ++ [⟨a, o, data⟩] }
  | bind {s : State τ α ω β} {a : α} {o : ω} : s.owners a = none →
    Step s (.bind a o) { s with owners := Function.update s.owners a (some o) }
  | unbind {s : State τ α ω β} {a : α} :
    Step s (.unbind a) { s with owners := Function.update s.owners a none }
  | take {s : State τ α ω β} {w : τ} {job : Job α ω β} {rest : List (Job α ω β)} :
    s.workers w = none → s.queue = job :: rest →
    Step s (.take w) { s with
      queue := rest
      workers := Function.update s.workers w (some (job, 0)) }
  | write {s : State τ α ω β} {w : τ} {job : Job α ω β} {sent n : Nat} {o : ω} :
    s.workers w = some (job, sent) → s.owners job.address = some o → 0 < n →
    sent + n ≤ job.data.length →
    Step s (.write w n) { s with
      workers := Function.update s.workers w (some (job, sent + n))
      written := s.written ++ [⟨job, o, (job.data.drop sent).take n⟩] }
  | fail {s : State τ α ω β} {w : τ} {job : Job α ω β} {sent : Nat} :
    s.workers w = some (job, sent) → sent < job.data.length →
    Step s (.fail w) { s with workers := Function.update s.workers w none }
  | finish {s : State τ α ω β} {w : τ} {job : Job α ω β} {sent : Nat} :
    s.workers w = some (job, sent) → job.data.length ≤ sent →
    Step s (.finish w) { s with workers := Function.update s.workers w none }

/-- A queue that starts without jobs. -/
def system (τ α ω β : Type*) [DecidableEq τ] [DecidableEq α] :
    LTS (State τ α ω β) (Event τ α ω β) where
  Init s := s.queue = [] ∧ s.workers = (fun _ => none) ∧ s.put = [] ∧ s.written = []
  Step := Step

/-! ## Owners -/

/-- No address is given to an owner while a job carries it, and no job is put for an address
    that belongs to another owner than the one it is meant for. -/
def Unshared (s : State τ α ω β) (e : Event τ α ω β) : Prop :=
  (∀ a o, e = .bind a o → ∀ job, Pending s job → job.address ≠ a) ∧
  ∀ a o data, e = .put a o data → ∀ o', s.owners a = some o' → o = some o'

/-- Pending jobs were put for the owner of their address, if it has one, and all
    that was written has reached the owner it was put for. -/
structure Owned (s : State τ α ω β) : Prop where
  pending : ∀ job, Pending s job → ∀ o, s.owners job.address = some o → job.owner = some o
  written : ∀ w ∈ s.written, w.job.owner = some w.receiver

/-- One step keeps every pending job and every write with the owner the job was put for. -/
theorem Owned.step {s t : State τ α ω β} {e : Event τ α ω β} (h : Owned s)
    (hunshared : Unshared s e) (hstep : Step s e t) : Owned t := by
  -- a job is put for who holds its address, and only `bind` could give the address away
  cases hstep with
  | @put a o' data =>
    refine ⟨fun job hjob o ho => ?_, h.written⟩
    obtain hq | hw := hjob
    · obtain hq | hnew := List.mem_append.mp hq
      · exact h.pending job (.inl hq) o ho
      · obtain rfl := List.mem_singleton.mp hnew
        exact hunshared.2 a o' data rfl o ho
    · exact h.pending job (.inr hw) o ho
  | @bind a o' hnone =>
    refine ⟨fun job hjob o ho => ?_, h.written⟩
    -- nothing pending has the address that is bound anew
    have hne := hunshared.1 a o' rfl job hjob
    dsimp only at ho
    exact h.pending job hjob o (by rwa [Function.update_of_ne hne] at ho)
  | @unbind a =>
    refine ⟨fun job hjob o ho => ?_, h.written⟩
    dsimp only at ho
    by_cases ha : job.address = a
    · subst ha
      rw [Function.update_self] at ho
      exact nomatch ho
    · exact h.pending job hjob o (by rwa [Function.update_of_ne ha] at ho)
  | @take w job rest hw hq =>
    refine ⟨fun job' hjob o ho => ?_, h.written⟩
    -- the job that is taken was in the queue, the others are where they were
    apply h.pending job' _ o ho
    obtain hrest | ⟨w', n, hw'⟩ := hjob
    · exact .inl (by rw [hq]; exact .tail _ hrest)
    · obtain ⟨-, heq⟩ | ⟨-, hold⟩ := workers_update hw'
      · obtain ⟨rfl, -⟩ := Prod.mk.inj (Option.some.inj heq)
        exact .inl (by rw [hq]; exact .head _)
      · exact .inr ⟨w', n, hold⟩
  | @write w job sent n o hw ho hn hle =>
    refine ⟨fun job' hjob o' ho' => ?_, fun x hx => ?_⟩
    · -- the job that is written was in hand before
      apply h.pending job' _ o' ho'
      obtain hq | ⟨w', n', hw'⟩ := hjob
      · exact .inl hq
      · obtain ⟨-, heq⟩ | ⟨-, hold⟩ := workers_update hw'
        · obtain ⟨rfl, -⟩ := Prod.mk.inj (Option.some.inj heq)
          exact .inr ⟨w, sent, hw⟩
        · exact .inr ⟨w', n', hold⟩
    · obtain hx | hnew := List.mem_append.mp hx
      · exact h.written x hx
      · obtain rfl := List.mem_singleton.mp hnew
        exact h.pending job (.inr ⟨w, sent, hw⟩) o ho
  -- a job that is dropped is pending no more
  | fail hw _ | finish hw _ =>
    refine ⟨fun job' hjob o ho => h.pending job' ?_ o ho, h.written⟩
    obtain hq | ⟨w', n', hw'⟩ := hjob
    · exact .inl hq
    · obtain ⟨-, heq⟩ | ⟨-, hold⟩ := workers_update hw'
      · exact nomatch heq
      · exact .inr ⟨w', n', hold⟩

/-- As long as no address is given away that a job still carries, and no job is put for an
    address that somebody else has by then, all that is written reaches the owner it was
    put for. -/
theorem written_to_owner {s : State τ α ω β}
    (h : ((system τ α ω β).restrict Unshared).Reachable s) :
    ∀ w ∈ s.written, w.job.owner = some w.receiver := by
  have howned : Owned s := by
    refine h.invariant ?_ ?_
    · rintro s ⟨hqueue, hworkers, -, hwritten⟩
      refine ⟨?_, by simp [hwritten]⟩
      rintro job (hq | ⟨w, n, hw⟩)
      · simp [hqueue] at hq
      · simp [hworkers] at hw
    · rintro s e t hs ⟨hunshared, hstep⟩
      exact hs.step hunshared hstep
  exact howned.written

/-! ## Order -/

/-- No worker takes a job for the address while another has one in hand, and no
    job for the address is given up. -/
def Exclusive (a : α) (s : State τ α ω β) (e : Event τ α ω β) : Prop :=
  (∀ w job rest, e = .take w → s.queue = job :: rest → job.address = a →
    ∀ w' job' n, s.workers w' = some (job', n) → job'.address ≠ a) ∧
  ∀ w job n, e = .fail w → s.workers w = some (job, n) → job.address ≠ a

/-- One step at which the address is in one hand only keeps its bytes and the rest in the order
    they were put. -/
theorem InOrder.step {a : α} {s t : State τ α ω β} {e : Event τ α ω β} (h : InOrder a s)
    (hexclusive : Exclusive a s e) (hstep : Step s e t) : InOrder a t := by
  cases hstep with
  -- a new job stands behind everything, be a job for the address in hand or not
  | @put a' o data =>
    obtain ⟨hnone, heq⟩ | ⟨w, job, n, hw, ha, honly, heq⟩ := h
    · refine .inl ⟨hnone, ?_⟩
      rw [dataFor_append, dataFor_append, ← heq, List.append_assoc]
    · refine .inr ⟨w, job, n, hw, ha, honly, ?_⟩
      rw [dataFor_append, dataFor_append, ← heq]
      simp only [List.append_assoc]
  | bind _ => exact h.congr rfl rfl rfl fun _ => Iff.rfl
  | unbind => exact h.congr rfl rfl rfl fun _ => Iff.rfl
  | @take w job rest hw hq =>
    by_cases ha : job.address = a
    · -- the only job in hand for the address is the one that is taken
      have hothers := hexclusive.1 w job rest rfl hq ha
      obtain ⟨-, heq⟩ | ⟨w', job', n, hw', ha', -⟩ := h
      · refine .inr ⟨w, job, 0, Function.update_self .., ha, fun w' job' n' hw' ha' => ?_, ?_⟩
        · obtain ⟨rfl, -⟩ | ⟨-, hold⟩ := workers_update hw'
          · rfl
          · exact absurd ha' (hothers w' job' n' hold)
        · rw [hq, dataFor_cons_self ha] at heq
          exact heq
      · exact absurd ha' (hothers w' job' n hw')
    · -- a job for another address leaves what is in hand for this one as it was
      refine h.congr rfl (by rw [hq, dataFor_cons_ne ha]) rfl fun {w' job' n} ha' => ?_
      by_cases hww : w' = w
      · subst hww
        simp only [Function.update_self, hw, Option.some.injEq, Prod.mk.injEq, reduceCtorEq,
          iff_false]
        rintro ⟨rfl, -⟩
        exact ha ha'
      · simp only [Function.update_of_ne hww]
  | @write w job sent n o hw ho hn hle =>
    by_cases ha : job.address = a
    · obtain ⟨honly, heq⟩ := h.in_hand hw ha
      refine .inr ⟨w, job, sent + n, Function.update_self .., ha,
        fun w' job' n' hw' ha' => ?_, ?_⟩
      · obtain ⟨rfl, -⟩ | ⟨-, hold⟩ := workers_update hw'
        · rfl
        · exact honly w' job' n' hold ha'
      · -- the piece that is written moves from the rest to the bytes
        have hsplit : (job.data.drop sent).take n ++ job.data.drop (sent + n) =
            job.data.drop sent := by
          rw [← List.drop_drop, List.take_append_drop]
        rw [← hsplit, List.append_assoc] at heq
        rw [bytes_append_self (by exact ha), List.append_assoc]
        exact heq
    · refine h.congr (bytes_append_ne (by exact ha) _) rfl rfl fun ha' =>
        workers_update_iff hw ha ?_ ha'
      · rintro _ ⟨⟩
        exact ha
  | @fail w job sent hw _ =>
    -- only a write to another address may fail
    have ha := hexclusive.2 w job sent rfl hw
    exact h.congr rfl rfl rfl fun ha' => workers_update_iff hw ha (by simp) ha'
  | @finish w job sent hw hle =>
    by_cases ha : job.address = a
    · obtain ⟨honly, heq⟩ := h.in_hand hw ha
      -- the job was in one hand only, so nobody holds the address behind it
      refine .inl ⟨fun w' job' n' hw' ha' => ?_, ?_⟩
      · obtain ⟨-, hnone⟩ | ⟨hne, hold⟩ := workers_update hw'
        · exact nomatch hnone
        · exact hne (honly w' job' n' hold ha')
      · rw [List.drop_eq_nil_of_le hle, List.nil_append] at heq
        exact heq
    · exact h.congr rfl rfl rfl fun ha' => workers_update_iff hw ha (by simp) ha'

/-- As long as one worker at a time has jobs for an address in hand and gives none
    of them up, what is written to it is in order, and it is all that was put when
    nothing for it is pending. -/
theorem bytes_in_order {a : α} {s : State τ α ω β}
    (h : ((system τ α ω β).restrict (Exclusive a)).Reachable s) :
    bytes a s.written <+: dataFor a s.put ∧
      ((∀ job, Pending s job → job.address ≠ a) → bytes a s.written = dataFor a s.put) := by
  have horder : InOrder a s := by
    refine h.invariant ?_ ?_
    · rintro s ⟨hqueue, hworkers, hput, hwritten⟩
      refine .inl ⟨by simp [hworkers], ?_⟩
      rw [bytes, hwritten, hqueue, hput]
      rfl
    · rintro s e t hs ⟨hexclusive, hstep⟩
      exact hs.step hexclusive hstep
  -- no worker has a job for the address, or exactly one does, which has written `n` bytes of it
  obtain ⟨hnone, heq⟩ | ⟨w, job, n, hw, ha, honly, heq⟩ := horder
  · refine ⟨⟨_, heq⟩, fun hpending => ?_⟩
    have hqueue : dataFor a s.queue = [] := by
      rw [dataFor, List.filter_eq_nil_iff.mpr fun job hjob => by
        simpa using hpending job (.inl hjob)]
      rfl
    rw [← heq, hqueue, List.append_nil]
  · exact ⟨⟨_, heq⟩, fun hpending => absurd ha (hpending job (.inr ⟨w, n, hw⟩))⟩

end SharedQueue
