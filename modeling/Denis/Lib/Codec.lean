import Mathlib.Logic.Equiv.Prod

/-!
# Self-delimiting codes

A `Codec` writes values on a stream of symbols and reads them off its front, and
one is the inverse of the other: whatever follows, what was written is read, and
only what was written is (`read_eq_some`). So nothing written is the beginning of
something else written (`write_append_inj`).

Codes are built from codes: one after another (`pair`), also where the first
decides how the second is written (`sigma`), a given number of symbols (`exactly`)
or of values (`many`), and values in one-to-one correspondence (`ofEquiv`).
-/

universe u v w

/-- A way to write values as symbols, read back off the front of a stream. -/
structure Codec (σ : Type u) (α : Type v) where
  write : α → List σ
  read : List σ → Option (α × List σ)
  read_eq_some : ∀ {input x rest}, read input = some (x, rest) ↔ input = write x ++ rest

namespace Codec

variable {σ : Type u} {α : Type v} {β : Type w}

@[simp] theorem read_write (C : Codec σ α) (x : α) (rest : List σ) :
    C.read (C.write x ++ rest) = some (x, rest) :=
  C.read_eq_some.mpr rfl

/-- What was written can be told apart, whatever follows. -/
theorem write_append_inj (C : Codec σ α) {x y : α} {r s : List σ}
    (h : C.write x ++ r = C.write y ++ s) : x = y ∧ r = s := by
  have hread := C.read_write x r
  rw [h, read_write] at hread
  obtain ⟨rfl, rfl⟩ := Prod.mk.inj (Option.some.inj hread)
  exact ⟨rfl, rfl⟩

/-- A value and then one of a code that it names. -/
def sigma {β : α → Type w} (C : Codec σ α) (D : (a : α) → Codec σ (β a)) :
    Codec σ (Σ a, β a) where
  write x := C.write x.1 ++ (D x.1).write x.2
  read input :=
    match C.read input with
    | none => none
    | some (a, input) =>
      match (D a).read input with
      | none => none
      | some (b, rest) => some (⟨a, b⟩, rest)
  read_eq_some {input x rest} := by
    constructor
    · intro h
      split at h
      · cases h
      · next a input' ha =>
        split at h
        · cases h
        · next b rest' hb =>
          obtain ⟨rfl, rfl⟩ := Prod.mk.inj (Option.some.inj h)
          rw [C.read_eq_some.mp ha, (D a).read_eq_some.mp hb, List.append_assoc]
    · rintro rfl
      simp only [List.append_assoc, read_write]

/-- The values of a type in one-to-one correspondence. -/
def ofEquiv (C : Codec σ α) (e : α ≃ β) : Codec σ β where
  write y := C.write (e.symm y)
  read input := (C.read input).map (Prod.map e id)
  read_eq_some {input y rest} := by
    rw [Option.map_eq_some_iff]
    constructor
    · rintro ⟨⟨x, rest'⟩, hread, h⟩
      obtain ⟨rfl, rfl⟩ := Prod.mk.inj h
      rw [C.read_eq_some.mp hread, Equiv.symm_apply_apply]
      rfl
    · rintro rfl
      exact ⟨(e.symm y, rest), C.read_write .., by simp⟩

/-- One value and then another. -/
def pair (C : Codec σ α) (D : Codec σ β) : Codec σ (α × β) :=
  (C.sigma fun _ => D).ofEquiv (Equiv.sigmaEquivProd α β)

@[simp] theorem pair_write (C : Codec σ α) (D : Codec σ β) (x : α × β) :
    (C.pair D).write x = C.write x.1 ++ D.write x.2 := rfl

/-- A given number of symbols. -/
def exactly (n : Nat) : Codec σ {xs : List σ // xs.length = n} where
  write xs := xs.1
  read input :=
    if h : n ≤ input.length then
      some (⟨input.take n, by rw [List.length_take, Nat.min_eq_left h]⟩, input.drop n)
    else none
  read_eq_some {input xs rest} := by
    obtain ⟨xs, hxs⟩ := xs
    constructor
    · intro h
      split at h
      · obtain ⟨htake, rfl⟩ := Prod.mk.inj (Option.some.inj h)
        rw [← congrArg Subtype.val htake, List.take_append_drop]
      · cases h
    · rintro rfl
      subst hxs
      simp

/-- Read a given number of values. -/
def readMany (C : Codec σ α) : Nat → List σ → Option (List α × List σ)
  | 0, input => some ([], input)
  | n + 1, input =>
    match C.read input with
    | none => none
    | some (x, input) =>
      match readMany C n input with
      | none => none
      | some (xs, rest) => some (x :: xs, rest)

theorem readMany_eq_some (C : Codec σ α) {n : Nat} {input : List σ} {xs : List α}
    {rest : List σ} :
    C.readMany n input = some (xs, rest) ↔
      xs.length = n ∧ input = xs.flatMap C.write ++ rest := by
  induction n generalizing input xs with
  | zero =>
    rw [readMany, Option.some.injEq, Prod.mk.injEq, List.length_eq_zero_iff]
    constructor
    · rintro ⟨rfl, rfl⟩
      exact ⟨rfl, rfl⟩
    · rintro ⟨rfl, rfl⟩
      exact ⟨rfl, rfl⟩
  | succ n ih =>
    rw [readMany]
    constructor
    · intro h
      split at h
      · cases h
      · next x input' hx =>
        split at h
        · cases h
        · next xs' rest' hxs =>
          obtain ⟨rfl, rfl⟩ := Prod.mk.inj (Option.some.inj h)
          obtain ⟨hlength, htail⟩ := ih.mp hxs
          rw [C.read_eq_some.mp hx, htail]
          exact ⟨by simp [hlength], by simp⟩
    · rintro ⟨hlength, rfl⟩
      cases xs with
      | nil => cases hlength
      | cons x xs =>
        have htail := ih.mpr ⟨Nat.succ.inj hlength, rfl⟩
        rw [List.flatMap_cons, List.append_assoc, read_write]
        simp only [htail]

/-- A given number of values. -/
def many (C : Codec σ α) (n : Nat) : Codec σ {xs : List α // xs.length = n} where
  write xs := xs.1.flatMap C.write
  read input :=
    match h : C.readMany n input with
    | none => none
    | some (xs, rest) => some (⟨xs, (C.readMany_eq_some.mp h).1⟩, rest)
  read_eq_some {input xs rest} := by
    obtain ⟨xs, hxs⟩ := xs
    constructor
    · intro h
      split at h
      · cases h
      · next ys rest' hread =>
        obtain ⟨hys, rfl⟩ := Prod.mk.inj (Option.some.inj h)
        rw [(C.readMany_eq_some.mp hread).2, ← congrArg Subtype.val hys]
    · intro h
      have hread := C.readMany_eq_some.mpr ⟨hxs, h⟩
      split
      · next hnone => cases hnone.symm.trans hread
      · next ys rest' hsome =>
        obtain ⟨rfl, rfl⟩ := Prod.mk.inj (Option.some.inj (hsome.symm.trans hread))
        rfl

/-- Read a whole stream as one value. -/
def decode (C : Codec σ α) (input : List σ) : Option α :=
  match C.read input with
  | some (x, []) => some x
  | _ => none

/-- **Decoding is the inverse of writing.** -/
theorem decode_eq_some (C : Codec σ α) {input : List σ} {x : α} :
    C.decode input = some x ↔ input = C.write x := by
  constructor
  · intro h
    unfold decode at h
    split at h
    · next y hread =>
      obtain rfl := Option.some.inj h
      rw [C.read_eq_some.mp hread, List.append_nil]
    · cases h
  · rintro rfl
    have hread := C.read_write x []
    rw [List.append_nil] at hread
    rw [decode, hread]

end Codec
