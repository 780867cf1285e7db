import Mathlib.Logic.Function.Basic

/-!
# Maps whose entries expire

A `TtlMap` keeps for each key at most one value with a deadline. Inserting at
time `s` with lifetime `d` replaces whatever the key held and sets the deadline
to `s + d`; `get` at time `t` returns a value exactly before its deadline. Apart
from that only `drop` removes an entry.
-/

universe u v

/-- A value and the time from which it is no longer returned. -/
structure Timed (ν : Type v) where
  value : ν
  deadline : Nat

/-- At most one timed value a key. -/
abbrev TtlMap (κ : Type u) (ν : Type v) := κ → Option (Timed ν)

namespace TtlMap

variable {κ : Type u} {ν : Type v}

/-- No entries. -/
def empty : TtlMap κ ν := fun _ => none

/-- The entry of `k` that is still live at `now`. -/
def lookup (m : TtlMap κ ν) (now : Nat) (k : κ) : Option (Timed ν) :=
  match m k with
  | some x => if now < x.deadline then some x else none
  | none => none

/-- The value of `k` at `now`. -/
def get (m : TtlMap κ ν) (now : Nat) (k : κ) : Option ν :=
  (m.lookup now k).map Timed.value

theorem lookup_eq_some {m : TtlMap κ ν} {now : Nat} {k : κ} {x : Timed ν} :
    m.lookup now k = some x ↔ m k = some x ∧ now < x.deadline := by
  unfold lookup
  cases m k with
  | none => simp
  | some y =>
    show (if now < y.deadline then some y else none) = some x ↔ _
    by_cases hlive : now < y.deadline
    · rw [if_pos hlive]
      constructor
      · intro h
        obtain rfl := Option.some.inj h
        exact ⟨rfl, hlive⟩
      · exact And.left
    · rw [if_neg hlive]
      constructor
      · intro h
        cases h
      · rintro ⟨h, hlive'⟩
        obtain rfl := Option.some.inj h
        exact absurd hlive' hlive

theorem get_eq_some {m : TtlMap κ ν} {now : Nat} {k : κ} {v : ν} :
    m.get now k = some v ↔ ∃ x, m k = some x ∧ now < x.deadline ∧ x.value = v := by
  rw [get, Option.map_eq_some_iff]
  constructor
  · rintro ⟨x, hx, rfl⟩
    obtain ⟨hk, hlive⟩ := lookup_eq_some.mp hx
    exact ⟨x, hk, hlive, rfl⟩
  · rintro ⟨x, hk, hlive, rfl⟩
    exact ⟨x, lookup_eq_some.mpr ⟨hk, hlive⟩, rfl⟩

variable [DecidableEq κ]

/-- Put `v` under `k` at time `now`, to live for `ttl`. -/
def insert (m : TtlMap κ ν) (now : Nat) (k : κ) (v : ν) (ttl : Nat) : TtlMap κ ν :=
  Function.update m k (some ⟨v, now + ttl⟩)

/-- Take away what `k` holds. -/
def drop (m : TtlMap κ ν) (k : κ) : TtlMap κ ν := Function.update m k none

theorem eq_some_of_drop {m : TtlMap κ ν} {k j : κ} {x : Timed ν} (h : m.drop k j = some x) :
    m j = some x := by
  unfold drop at h
  by_cases hj : j = k
  · subst hj
    rw [Function.update_self] at h
    cases h
  · rwa [Function.update_of_ne hj] at h

/-- Entries after an insertion: the new one, or an old one of another key. -/
theorem insert_eq_some {m : TtlMap κ ν} {now : Nat} {k j : κ} {v : ν} {ttl : Nat}
    {x : Timed ν} :
    m.insert now k v ttl j = some x ↔
      (j = k ∧ x = ⟨v, now + ttl⟩) ∨ (j ≠ k ∧ m j = some x) := by
  unfold insert
  by_cases h : j = k
  · subst h
    rw [Function.update_self]
    constructor
    · intro hx
      exact .inl ⟨rfl, (Option.some.inj hx).symm⟩
    · rintro (⟨-, rfl⟩ | ⟨hne, -⟩)
      · rfl
      · exact absurd rfl hne
  · rw [Function.update_of_ne h]
    simp [h]

end TtlMap
