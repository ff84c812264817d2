import Mathlib.Algebra.Ring.Nat
import Mathlib.Data.List.Basic
import MqttBroker.ForStd.Transition

/-!
# Work queues whose workers sleep

A queue of jobs with a condition variable. A worker that finds the queue empty falls
asleep, and wakes up at a notification, or for no reason. Who puts a job does not wake
anybody: from time to time somebody looks whether the queue is empty, and wakes all
workers if it is not.

The jobs are taken in the order in which they were put, and no wakeup is lost: while a
worker sleeps, every job that had been put before the last look is taken
(`Inv.asleep`). The workers alone come to rest after a number of steps that is known
beforehand (`run_length_le`), and then nothing is left of what had been put before the
last look (`Inv.at_rest`).
-/

namespace SleepingQueue

inductive Worker (β : Type*) where
  /-- Before it looks for a job. -/
  | awake
  | asleep
  | busy (job : β)
  /-- It takes no more jobs. -/
  | gone

/-- A notification wakes a worker that sleeps. -/
def Worker.rouse {β : Type*} : Worker β → Worker β
  | .asleep => .awake
  | w => w

/-- The queue and its workers, with the jobs put and taken so far. -/
structure State (β : Type*) where
  queue : List β := []
  workers : List (Worker β) := []
  /-- Between a look at the queue and the notification: how many jobs had been put. -/
  looked : Option Nat := none
  put : List β := []
  taken : List β := []
  /-- How many jobs had been put at the last look, the notification being over. -/
  notified : Nat := 0

inductive Event (β : Type*) where
  | put (jobs : List β)
  | look
  | notify
  | hire
  | take (i : Nat)
  | sleep (i : Nat)
  | wake (i : Nat)
  | finish (i : Nat)
  | quit (i : Nat)

/-- A step that a worker takes by itself. -/
def Event.ByWorker {β : Type*} : Event β → Prop
  | .take _ | .sleep _ | .finish _ | .quit _ => True
  | _ => False

variable {β : Type*}

inductive Step : State β → Event β → State β → Prop
  | put {s : State β} (jobs : List β) :
      Step s (.put jobs) { s with queue := s.queue ++ jobs, put := s.put ++ jobs }
  | lookEmpty {s : State β} : s.looked = none → s.queue = [] →
      Step s .look { s with notified := s.put.length }
  | look {s : State β} : s.looked = none → s.queue ≠ [] →
      Step s .look { s with looked := some s.put.length }
  | notify {s : State β} {n : Nat} : s.looked = some n → Step s .notify { s with
      workers := s.workers.map Worker.rouse
      looked := none
      notified := n }
  | hire {s : State β} : Step s .hire { s with workers := s.workers ++ [.awake] }
  | take {s : State β} {i : Nat} {job : β} {rest : List β} : s.workers[i]? = some .awake →
      s.queue = job :: rest → Step s (.take i) { s with
        queue := rest
        workers := s.workers.set i (.busy job)
        taken := s.taken ++ [job] }
  | sleep {s : State β} {i : Nat} : s.workers[i]? = some .awake → s.queue = [] →
      Step s (.sleep i) { s with workers := s.workers.set i .asleep }
  | wake {s : State β} {i : Nat} : s.workers[i]? = some .asleep →
      Step s (.wake i) { s with workers := s.workers.set i .awake }
  | finish {s : State β} {i : Nat} {job : β} : s.workers[i]? = some (.busy job) →
      Step s (.finish i) { s with workers := s.workers.set i .awake }
  | quit {s : State β} {i : Nat} {job : β} : s.workers[i]? = some (.busy job) →
      Step s (.quit i) { s with workers := s.workers.set i .gone }

def system (β : Type*) : LTS (State β) (Event β) where
  Init s := s = {}
  Step := Step

/-! ## No wakeup is lost -/

structure Inv (s : State β) : Prop where
  order : s.put = s.taken ++ s.queue
  looked : ∀ n, s.looked = some n → n ≤ s.put.length
  notified : s.notified ≤ s.put.length
  /-- While a worker sleeps, no job waits that was there at the last look. -/
  asleep : Worker.asleep ∈ s.workers → s.notified ≤ s.taken.length

/-- Every job is taken or in the queue. -/
theorem Inv.length_put {s : State β} (h : Inv s) :
    s.put.length = s.taken.length + s.queue.length := by
  rw [h.order, List.length_append]

/-- The empty queue without workers. -/
theorem inv_init : Inv ({} : State β) where
  order := rfl
  looked := by simp
  notified := Nat.le_refl 0
  asleep _ := Nat.le_refl 0

/-- Nobody sleeps behind a `notify`. -/
theorem not_mem_rouse (workers : List (Worker β)) :
    Worker.asleep ∉ workers.map Worker.rouse := by
  rw [List.mem_map]
  rintro ⟨w, -, h⟩
  cases w <;> cases h

/-- A worker that does not fall asleep was not the one that sleeps. -/
private theorem asleep_of_set {workers : List (Worker β)} {i : Nat} {w : Worker β}
    (h : Worker.asleep ∈ workers.set i w) (hw : w ≠ .asleep) : Worker.asleep ∈ workers := by
  obtain h | h := List.mem_or_eq_of_mem_set h
  · exact h
  · exact absurd h.symm hw

/-- No step loses a wakeup. -/
theorem Inv.step {s t : State β} {e : Event β} (h : Inv s) (hstep : Step s e t) : Inv t := by
  have hlen := h.length_put
  have hnotified := h.notified
  cases hstep with
  | put jobs =>
    refine ⟨by simp [h.order], fun n hn => ?_, ?_, h.asleep⟩
    · exact Nat.le_trans (h.looked n hn) (by simp)
    · exact Nat.le_trans hnotified (by simp)
  | lookEmpty _ hq =>
    refine ⟨h.order, h.looked, Nat.le_refl _, fun _ => ?_⟩
    -- all jobs are taken
    rw [hq, List.length_nil, Nat.add_zero] at hlen
    exact Nat.le_of_eq hlen
  -- a look notes how many jobs there are, and puts nobody to sleep
  | look _ _ =>
    refine ⟨h.order, ?_, hnotified, h.asleep⟩
    rintro n ⟨⟩
    exact Nat.le_refl _
  -- what was noted at the look is what all have been told of now, and nobody sleeps
  | notify hn =>
    refine ⟨h.order, nofun, h.looked _ hn, fun hmem => ?_⟩
    exact absurd hmem (not_mem_rouse _)
  | hire =>
    refine ⟨h.order, h.looked, hnotified, fun hmem => h.asleep ?_⟩
    simpa using hmem
  | @take i job rest _ hq =>
    refine ⟨by simp [h.order, hq], h.looked, hnotified, fun hmem => ?_⟩
    exact Nat.le_trans (h.asleep (asleep_of_set hmem nofun)) (by simp)
  | sleep _ hq =>
    refine ⟨h.order, h.looked, hnotified, fun _ => ?_⟩
    -- whoever falls asleep finds the queue empty
    rw [hq, List.length_nil, Nat.add_zero] at hlen
    exact Nat.le_trans hnotified (Nat.le_of_eq hlen)
  | wake =>
    exact ⟨h.order, h.looked, hnotified, fun hmem => h.asleep (asleep_of_set hmem nofun)⟩
  | finish =>
    exact ⟨h.order, h.looked, hnotified, fun hmem => h.asleep (asleep_of_set hmem nofun)⟩
  | quit =>
    exact ⟨h.order, h.looked, hnotified, fun hmem => h.asleep (asleep_of_set hmem nofun)⟩

/-- No wakeup is lost in any run. -/
theorem inv_of_reachable {s : State β} (h : (system β).Reachable s) : Inv s := by
  refine h.invariant ?_ fun hinv hstep => hinv.step hstep
  rintro s rfl
  exact inv_init

/-! ## The workers come to rest -/

/-- How many steps a worker can take while it gets no job. -/
def Worker.weight : Worker β → Nat
  | .awake => 1
  | .busy _ => 2
  | .asleep | .gone => 0

/-- More steps than that the workers cannot take by themselves. -/
def State.measure (s : State β) : Nat :=
  2 * s.queue.length + (s.workers.map Worker.weight).sum

/-- The measure is at most twice the jobs and the workers. -/
theorem measure_le (s : State β) : s.measure ≤ 2 * (s.queue.length + s.workers.length) := by
  -- no state of a worker weighs more than 2
  have hsum : ∀ workers : List (Worker β),
      (workers.map Worker.weight).sum ≤ 2 * workers.length := by
    intro workers
    induction workers with
    | nil => simp
    | cons w workers ih =>
      have hw : w.weight ≤ 2 := by cases w <;> simp [Worker.weight]
      simp only [List.map_cons, List.sum_cons, List.length_cons]
      omega
  have hworkers := hsum s.workers
  simp only [State.measure]
  omega

/-- The weights, when one worker changes. -/
theorem sum_weight_set {workers : List (Worker β)} {i : Nat} {w : Worker β}
    (h : workers[i]? = some w) (w' : Worker β) :
    ((workers.set i w').map Worker.weight).sum + w.weight =
      (workers.map Worker.weight).sum + w'.weight := by
  -- Induction on the workers, down to the one that changes
  induction workers generalizing i with
  | nil => simp at h
  | cons x workers ih =>
    cases i with
    | zero =>
      obtain rfl : x = w := by simpa using h
      simp only [List.set_cons_zero, List.map_cons, List.sum_cons]
      omega
    | succ i =>
      have hrest := ih (i := i) (by simpa using h)
      simp only [List.set_cons_succ, List.map_cons, List.sum_cons]
      omega

/-- What a worker does by itself makes the measure smaller. -/
theorem measure_lt {s t : State β} {e : Event β} (hstep : Step s e t) (he : e.ByWorker) :
    t.measure < s.measure := by
  cases hstep with
  -- a job in the queue counts more than the worker that has it
  | @take i job rest hw hq =>
    have hsum := sum_weight_set hw (.busy job)
    simp only [State.measure, hq, List.length_cons, Worker.weight] at hsum ⊢
    omega
  -- a worker that is awake counts more than one that is not
  | sleep hw _ =>
    have hsum := sum_weight_set hw .asleep
    simp only [State.measure, Worker.weight] at hsum ⊢
    omega
  | finish hw =>
    have hsum := sum_weight_set hw .awake
    simp only [State.measure, Worker.weight] at hsum ⊢
    omega
  | quit hw =>
    have hsum := sum_weight_set hw .gone
    simp only [State.measure, Worker.weight] at hsum ⊢
    omega
  | put | lookEmpty | look | notify | hire | wake => exact absurd he id

/-- The steps the workers take by themselves. -/
def workers (β : Type*) : LTS (State β) (Event β) := (system β).restrict fun _ e => e.ByWorker

/-- The number of steps that the workers take by themselves is bounded. -/
theorem run_length_le {s t : State β} {es : List (Event β)} (h : (workers β).Run s es t) :
    es.length + t.measure ≤ s.measure := by
  induction h with
  | nil => simp
  | snoc _ hlast ih =>
    have hlt := measure_lt hlast.2 hlast.1
    rw [List.length_append, List.length_singleton]
    omega

/-- The workers by themselves put no job and notify nobody. -/
theorem run_frame {s t : State β} {es : List (Event β)} (h : (workers β).Run s es t) :
    t.put = s.put ∧ t.notified = s.notified := by
  refine h.preserves (P := fun t => t.put = s.put ∧ t.notified = s.notified) ?_ ⟨rfl, rfl⟩
  rintro u e v hu ⟨he, hstep⟩
  cases hstep with
  | take | sleep | finish | quit => exact hu
  | put | lookEmpty | look | notify | hire | wake => exact absurd he id

/-- Where no worker can take a step by itself, all that stay are asleep. -/
theorem asleep_of_stuck {s : State β} (h : (workers β).Stuck s) {w : Worker β}
    (hw : w ∈ s.workers) : w = .asleep ∨ w = .gone := by
  obtain ⟨i, hi⟩ := List.getElem?_of_mem hw
  cases w with
  | awake =>
    exfalso
    cases hq : s.queue with
    | nil => exact h (.sleep i) _ ⟨trivial, .sleep hi hq⟩
    | cons job rest => exact h (.take i) _ ⟨trivial, .take hi hq⟩
  | asleep => exact .inl rfl
  | busy job => exact absurd (.finish hi) fun hstep => h (.finish i) _ ⟨trivial, hstep⟩
  | gone => exact .inr rfl

/-- When the workers are at rest and one of them has stayed, all jobs that had been put
    before the last look are taken. -/
theorem Inv.at_rest {s : State β} (h : Inv s) (hrest : (workers β).Stuck s)
    (hstay : ∃ w ∈ s.workers, w ≠ .gone) : s.notified ≤ s.taken.length := by
  obtain ⟨w, hw, hne⟩ := hstay
  obtain rfl | rfl := asleep_of_stuck hrest hw
  · exact h.asleep hw
  · exact absurd rfl hne

end SleepingQueue
