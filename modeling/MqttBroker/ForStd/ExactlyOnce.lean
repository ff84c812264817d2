import Mathlib.Logic.Function.Basic

/-!
# Exactly-once receivers

The receiving side of a two-phase handshake. A message is received under a key,
possibly several times over; when the sender releases the key, the message is
delivered, and a key that is released again delivers nothing. `ExactlyOnce` says
which histories of such a receiver are right.
-/

/-- What happens at a receiver. -/
inductive ReceiverEvent (κ : Type*) (μ : Type*) where
  | received (k : κ) (m : μ)
  | release (k : κ)
  | delivered (k : κ) (m : μ)
deriving DecidableEq

namespace ReceiverEvent

variable {κ μ : Type*} [DecidableEq κ]

/-- What an event does to the messages that wait for a release. -/
def apply (p : κ → Option μ) : ReceiverEvent κ μ → κ → Option μ
  | received k m => Function.update p k (some m)
  | release _ => p
  | delivered k _ => Function.update p k none

/-- The messages that wait for a release after a history. -/
def pending (h : List (ReceiverEvent κ μ)) : κ → Option μ := h.foldl apply fun _ => none

/-- The histories in which a release delivers the message received last under its
    key, unless that has been delivered, and nothing else is delivered. -/
inductive ExactlyOnce : List (ReceiverEvent κ μ) → Prop
  | nil : ExactlyOnce []
  | received {h : List (ReceiverEvent κ μ)} {k : κ} {m : μ} : ExactlyOnce h →
      ExactlyOnce (h ++ [.received k m])
  | release {h : List (ReceiverEvent κ μ)} {k : κ} : ExactlyOnce h →
      ExactlyOnce (h ++ .release k :: ((pending h k).map (.delivered k)).toList)

/-- A message that is received is pending under its key. -/
theorem pending_received (h : List (ReceiverEvent κ μ)) (k : κ) (m : μ) :
    pending (h ++ [.received k m]) = Function.update (pending h) k (some m) := by
  simp [pending, apply]

/-- After a release nothing waits under its key. -/
theorem pending_release (h : List (ReceiverEvent κ μ)) (k : κ) :
    pending (h ++ .release k :: ((pending h k).map (.delivered k)).toList) =
      Function.update (pending h) k none := by
  have hrelease : ∀ l, pending (h ++ .release k :: l) = l.foldl apply (pending h) := by
    simp [pending, apply]
  rw [hrelease]
  cases hk : pending h k with
  | none =>
    have hsame : Function.update (pending h) k none = pending h := by
      rw [← hk, Function.update_eq_self]
    rw [hsame]
    rfl
  | some m => rfl

/-- A delivery is the answer to a release of a message that waits. -/
theorem ExactlyOnce.pending_of_delivered {h : List (ReceiverEvent κ μ)} {k : κ} {m : μ}
    (hd : ExactlyOnce (h ++ [.delivered k m])) :
    ∃ h', h = h' ++ [.release k] ∧ pending h' k = some m := by
  generalize hl : h ++ [.delivered k m] = l at hd
  cases hd with
  | nil => simp at hl
  | received _ => simp at hl
  | @release h' k' _ =>
    cases hp : pending h' k' with
    | none => simp [hp] at hl
    | some m' =>
      rw [hp] at hl
      -- the last two events are the release and its delivery
      have hsplit : h' ++ ReceiverEvent.release k' :: (some (ReceiverEvent.delivered k' m')).toList =
          (h' ++ [.release k']) ++ [.delivered k' m'] := by simp
      obtain ⟨rfl, hlast⟩ := List.append_inj' (hl.trans hsplit) rfl
      obtain ⟨rfl, rfl⟩ : k = k' ∧ m = m' := by simpa using hlast
      exact ⟨h', rfl, hp⟩

/-! ## What a history owes to what was before it -/

omit [DecidableEq κ] in
/-- A list that ends in `x`, split at an element. -/
theorem eq_of_snoc_split {α : Type*} {l pre post : List α} {x d : α}
    (h : l ++ [x] = pre ++ d :: post) :
    (pre = l ∧ x = d) ∨ ∃ post', post = post' ++ [x] ∧ l = pre ++ d :: post' := by
  obtain rfl | ⟨post', y, rfl⟩ := List.eq_nil_or_concat post
  · obtain ⟨hpre, hx⟩ := List.append_inj' h rfl
    exact .inl ⟨hpre.symm, by simpa using hx⟩
  · have hsplit : l ++ [x] = (pre ++ d :: post') ++ [y] := by simpa using h
    obtain ⟨hl, hx⟩ := List.append_inj' hsplit rfl
    obtain rfl : x = y := by simpa using hx
    exact .inr ⟨post', List.concat_eq_append, hl⟩

/-- Every delivery is of a message that was held before the history or is received in
    it. -/
def Backed (Held : κ → μ → Prop) (h : List (ReceiverEvent κ μ)) : Prop :=
  ∀ pre k m post, h = pre ++ .delivered k m :: post → Held k m ∨ .received k m ∈ pre

/-- A message has been received under a key that has not been released since. -/
def Unreleased (h : List (ReceiverEvent κ μ)) (k : κ) (m : μ) : Prop :=
  ∃ pre post, h = pre ++ .received k m :: post ∧ .release k ∉ post

omit [DecidableEq κ]

/-- An empty history delivers nothing that has to be backed. -/
theorem backed_nil (Held : κ → μ → Prop) : Backed Held [] := by
  intro pre k m post h
  simp at h

/-- A history stays backed by an event that delivers only what was held before the history or
    received in it. -/
theorem Backed.snoc {Held : κ → μ → Prop} {h : List (ReceiverEvent κ μ)} (hb : Backed Held h)
    {e : ReceiverEvent κ μ} (he : ∀ k m, e = .delivered k m → Held k m ∨ .received k m ∈ h) :
    Backed Held (h ++ [e]) := by
  intro pre k m post hsplit
  -- the delivery is the new event, or it was in the history before
  obtain ⟨rfl, hlast⟩ | ⟨post', -, hh⟩ := eq_of_snoc_split hsplit
  · exact he k m hlast
  · exact hb pre k m post' hh

/-- Nothing was received in an empty history. -/
theorem not_unreleased_nil (k : κ) (m : μ) : ¬ Unreleased [] k m := by
  rintro ⟨pre, post, h, -⟩
  simp at h

/-- What is received and not released behind an event was received by it, or was there before
    and is not released by it. -/
theorem Unreleased.of_snoc {h : List (ReceiverEvent κ μ)} {e : ReceiverEvent κ μ} {k : κ} {m : μ}
    (hu : Unreleased (h ++ [e]) k m) :
    e = .received k m ∨ (Unreleased h k m ∧ e ≠ .release k) := by
  obtain ⟨pre, post, hsplit, hnot⟩ := hu
  obtain ⟨rfl, hlast⟩ | ⟨post', rfl, hh⟩ := eq_of_snoc_split hsplit
  · exact .inl hlast
  · refine .inr ⟨⟨pre, post', hh, fun hmem => hnot (by simp [hmem])⟩, ?_⟩
    rintro rfl
    exact hnot (by simp)

end ReceiverEvent
