import Mathlib.Data.Finset.Basic

/-!
# Sets kept by a log of writes

A `Write` makes a list of keys present or absent. `replay` applies a log to an
initial set. Membership after a replay is decided by the last write that names
the key (`mem_replay`), so two replicas fed by different logs over the same
initial set agree exactly when every key's last write says the same in both
(`replay_eq_iff`).
-/

universe u

/-- Make `keys` present, or absent. -/
structure Write (α : Type u) where
  present : Bool
  keys : List α
  deriving DecidableEq

namespace Write

variable {α : Type u} [DecidableEq α]

/-- One write to a set. -/
def apply (w : Write α) (s : Finset α) : Finset α :=
  if w.present then s ∪ w.keys.toFinset else s \ w.keys.toFinset

/-- A log of writes, oldest first. -/
def replay (s : Finset α) (log : List (Write α)) : Finset α :=
  log.foldl (fun s w => w.apply s) s

/-- What the last write naming `x` made of it. -/
def last (log : List (Write α)) (x : α) : Option Bool :=
  (log.reverse.find? fun w => x ∈ w.keys).map Write.present

@[simp] theorem replay_append (s : Finset α) (log log' : List (Write α)) :
    replay s (log ++ log') = replay (replay s log) log' :=
  List.foldl_append ..

@[simp] theorem replay_singleton (s : Finset α) (w : Write α) :
    replay s [w] = w.apply s := rfl

theorem mem_apply {w : Write α} {s : Finset α} {x : α} :
    x ∈ w.apply s ↔ if x ∈ w.keys then w.present = true else x ∈ s := by
  unfold apply
  by_cases hx : x ∈ w.keys <;> by_cases hp : w.present <;> simp [hx, hp]

theorem last_append_singleton (log : List (Write α)) (w : Write α) (x : α) :
    last (log ++ [w]) x = if x ∈ w.keys then some w.present else last log x := by
  unfold last
  rw [List.reverse_append, List.reverse_singleton, List.singleton_append, List.find?_cons]
  by_cases hx : x ∈ w.keys <;> simp [hx]

/-- A key has a last write iff some write names it. -/
theorem last_isSome {log : List (Write α)} {x : α} :
    (last log x).isSome ↔ ∃ w ∈ log, x ∈ w.keys := by
  simp [last]

/-- **The last write decides membership.** -/
theorem mem_replay {s : Finset α} {log : List (Write α)} {x : α} :
    x ∈ replay s log ↔ (last log x).elim (x ∈ s) (· = true) := by
  -- from the newest write back: it decides if it names the key
  induction log using List.reverseRecOn with
  | nil => rfl
  | append_singleton log w ih =>
    rw [replay_append, replay_singleton, mem_apply, last_append_singleton]
    by_cases hx : x ∈ w.keys
    · rw [if_pos hx, if_pos hx]
      rfl
    · rw [if_neg hx, if_neg hx]
      exact ih

/-- **Two logs over one initial set** that name the same keys end in the same
set iff every key's last write says the same in both. -/
theorem replay_eq_iff {s : Finset α} {log log' : List (Write α)}
    (hkeys : ∀ x, (∃ w ∈ log, x ∈ w.keys) ↔ ∃ w ∈ log', x ∈ w.keys) :
    replay s log = replay s log' ↔ ∀ x, last log x = last log' x := by
  constructor
  · intro heq x
    have hx : x ∈ replay s log ↔ x ∈ replay s log' := by rw [heq]
    rw [mem_replay, mem_replay] at hx
    -- a key named by neither log is not decided by a write
    have hboth := hkeys x
    rw [← last_isSome, ← last_isSome] at hboth
    cases h : last log x with
    | none =>
      cases h' : last log' x with
      | none => rfl
      | some b => simp [h, h'] at hboth
    | some b =>
      cases h' : last log' x with
      | none => simp [h, h'] at hboth
      | some b' =>
        rw [h, h'] at hx
        exact congrArg some (Bool.eq_iff_iff.mpr hx)
  · intro hlast
    ext x
    rw [mem_replay, mem_replay, hlast x]

end Write
