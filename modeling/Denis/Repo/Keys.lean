import Denis.Repo.Cache

/-!
# When two queries share a cache key

A key is `dns:`, the name, `:` and the type's text, in a buffer of 128 bytes
that refuses a piece it has no room for; what follows a refused piece is not
written. So a name longer than 124 bytes leaves only `dns:`, a name of exactly
124 bytes leaves no room for the `:`, and a type that does not fit after them is
left out. `queryKey_eq_iff` says which pairs of queries come to the same key;
`Distinguished` are the pairs for which that is no collision.
-/

namespace Denis

open Text

namespace HeaplessString

variable {N : Nat}

theorem write_cons_of_fits {buf : HeaplessString N} {piece : Str} {rest : List Str}
    (h : len buf.str + len piece ≤ N) :
    buf.write (piece :: rest) =
      write ⟨buf.str ++ piece, by rwa [len_append]⟩ rest := by
  rw [write, pushStr, dif_pos h]

theorem write_cons_of_not_fits {buf : HeaplessString N} {piece : Str} {rest : List Str}
    (h : ¬ len buf.str + len piece ≤ N) : buf.write (piece :: rest) = buf := by
  rw [write, pushStr, dif_neg h]

end HeaplessString

namespace Cache

variable (display : RecordType → Str)

/-- The room the key leaves for the type: its text, or nothing of it. -/
def keptType (query : Query) : Str :=
  if len query.name + 5 + len (display query.queryType) ≤ 128 then display query.queryType
  else []

/-- **The key**, by the length of the name. -/
theorem queryKey_eq (query : Query) :
    queryKey display query =
      if 124 < len query.name then ['d', 'n', 's', ':']
      else if len query.name = 124 then ['d', 'n', 's', ':'] ++ query.name
      else ['d', 'n', 's', ':'] ++ query.name ++ [':'] ++ keptType display query := by
  have hprefix : len ['d', 'n', 's', ':'] = 4 := by decide
  have hcolon : len [':'] = 1 := by decide
  have hempty : len ([] : Str) = 0 := rfl
  unfold queryKey
  rw [HeaplessString.write_cons_of_fits (by rw [HeaplessString.new, hprefix, hempty]; omega)]
  by_cases hlong : 124 < len query.name
  · rw [if_pos hlong, HeaplessString.write_cons_of_not_fits
      (by simp only [HeaplessString.new, List.nil_append, hprefix]; omega)]
    rfl
  · rw [if_neg hlong, HeaplessString.write_cons_of_fits
      (by simp only [HeaplessString.new, List.nil_append, hprefix]; omega)]
    by_cases hexact : len query.name = 124
    · rw [if_pos hexact, HeaplessString.write_cons_of_not_fits
        (by simp only [HeaplessString.new, List.nil_append, len_append, hprefix, hcolon]; omega)]
      rfl
    · rw [if_neg hexact, HeaplessString.write_cons_of_fits
        (by simp only [HeaplessString.new, List.nil_append, len_append, hprefix, hcolon]; omega)]
      unfold keptType
      by_cases hfits : len query.name + 5 + len (display query.queryType) ≤ 128
      · rw [if_pos hfits, HeaplessString.write_cons_of_fits
          (by simp only [HeaplessString.new, List.nil_append, len_append, hprefix, hcolon]; omega)]
        rfl
      · rw [if_neg hfits, HeaplessString.write_cons_of_not_fits
          (by simp only [HeaplessString.new, List.nil_append, len_append, hprefix, hcolon]; omega)]
        simp [HeaplessString.new]

/-- A name of exactly 124 bytes that reads as the other name, the `:` after it
and the type kept with it. -/
def Overlaps (q₁ q₂ : Query) : Prop :=
  len q₁.name = 124 ∧ q₁.name = q₂.name ++ [':'] ++ keptType display q₂

/-- Pairs of queries whose keys are the same. -/
def SameKey (q₁ q₂ : Query) : Prop :=
  (124 < len q₁.name ∧ 124 < len q₂.name) ∨
  (q₁.name = q₂.name ∧ keptType display q₁ = keptType display q₂) ∨
  Overlaps display q₁ q₂ ∨ Overlaps display q₂ q₁

/-- Pairs of queries that are for the same name and type, or are told apart by
their keys: not both names are too long for the key, equal names keep different
types, and neither name of 124 bytes reads as the other's name, `:` and type. -/
def Distinguished (q₁ q₂ : Query) : Prop :=
  (q₁.name = q₂.name ∧ q₁.queryType = q₂.queryType) ∨
  (¬ (124 < len q₁.name ∧ 124 < len q₂.name) ∧
    (q₁.name = q₂.name → keptType display q₁ ≠ keptType display q₂) ∧
    ¬ Overlaps display q₁ q₂ ∧ ¬ Overlaps display q₂ q₁)

variable {display} {q₁ q₂ : Query}

/-- Before a separator that the ends do not hold, equal texts have equal
beginnings. -/
theorem eq_of_append_cons {α : Type} {sep : α} {xs ys s t : List α} (hs : sep ∉ s) (ht : sep ∉ t)
    (h : xs ++ sep :: s = ys ++ sep :: t) : xs = ys ∧ s = t := by
  rcases List.append_eq_append_iff.mp h with ⟨zs, rfl, hzs⟩ | ⟨zs, rfl, hzs⟩
  · cases zs with
    | nil => exact ⟨by simp, (List.cons.inj hzs).2⟩
    | cons z zs =>
      rw [List.cons_append] at hzs
      exact absurd (by rw [(List.cons.inj hzs).2]; simp) hs
  · cases zs with
    | nil => exact ⟨by simp, (List.cons.inj hzs).2.symm⟩
    | cons z zs =>
      rw [List.cons_append] at hzs
      exact absurd (by rw [(List.cons.inj hzs).2]; simp) ht

theorem keptType_colon (hcolon : ∀ t, ':' ∉ display t) (query : Query) :
    ':' ∉ keptType display query := by
  unfold keptType
  split
  · exact hcolon _
  · simp

/-- A name that leaves no room for the `:` keeps no type. -/
theorem keptType_long {query : Query} (h : 124 ≤ len query.name) :
    keptType display query = [] := by
  unfold keptType
  rw [if_neg (by omega)]

/-- Overlapping names differ in length. -/
theorem Overlaps.lens (h : Overlaps display q₁ q₂) :
    len q₁.name = 124 ∧ len q₂.name < 124 := by
  have hcolon : len [':'] = 1 := by decide
  have hlen := congrArg len h.2
  rw [len_append, len_append, hcolon, h.1] at hlen
  exact ⟨h.1, by omega⟩

theorem sameKey_comm : SameKey display q₁ q₂ ↔ SameKey display q₂ q₁ := by
  unfold SameKey
  rw [and_comm (a := 124 < _), eq_comm (a := q₁.name), eq_comm (a := keptType display q₁),
    or_comm (a := Overlaps display q₁ q₂)]

/-- The pairs that share a key, the longer name first. -/
theorem queryKey_eq_iff_of_le (hcolon : ∀ t, ':' ∉ display t) (hle : len q₂.name ≤ len q₁.name) :
    queryKey display q₁ = queryKey display q₂ ↔ SameKey display q₁ q₂ := by
  have hkept₁ := keptType_colon hcolon q₁
  have hkept₂ := keptType_colon hcolon q₂
  have hnames : q₁.name = q₂.name → len q₁.name = len q₂.name := congrArg len
  have hsecond : ¬ Overlaps display q₂ q₁ := fun h => by
    have := h.lens
    omega
  rw [queryKey_eq, queryKey_eq, SameKey, or_iff_left hsecond]
  by_cases hlong₂ : 124 < len q₂.name
  · -- both names are too long
    rw [if_pos hlong₂, if_pos (by omega)]
    exact ⟨fun _ => .inl ⟨by omega, hlong₂⟩, fun _ => rfl⟩
  · by_cases hlong₁ : 124 < len q₁.name
    · -- only the first is
      have hfirst : ¬ Overlaps display q₁ q₂ := fun h => by
        have := h.lens
        omega
      rw [if_pos hlong₁, if_neg hlong₂]
      constructor
      · intro h
        split at h
        · next hexact =>
          have hnil : q₂.name = [] := by simpa using h
          rw [hnil] at hexact
          cases hexact
        · simp at h
      · rintro (⟨-, h⟩ | ⟨h, -⟩ | h)
        · exact absurd h hlong₂
        · have := hnames h
          omega
        · exact absurd h hfirst
    · rw [if_neg hlong₁, if_neg hlong₂, or_iff_right (fun h => hlong₁ h.1)]
      by_cases hexact₁ : len q₁.name = 124
      · by_cases hexact₂ : len q₂.name = 124
        · -- both names fill the key
          have hfirst : ¬ Overlaps display q₁ q₂ := fun h => by
            have := h.lens
            omega
          rw [if_pos hexact₁, if_pos hexact₂, List.append_cancel_left_eq, or_iff_left hfirst,
            keptType_long (by omega), keptType_long (by omega), and_iff_left rfl]
        · -- the first fills it, the second leaves room for the `:`
          rw [if_pos hexact₁, if_neg hexact₂, List.append_assoc, List.append_assoc,
            List.append_cancel_left_eq, ← List.append_assoc]
          constructor
          · exact fun h => .inr ⟨hexact₁, h⟩
          · rintro (⟨h, -⟩ | h)
            · have := hnames h
              omega
            · exact h.2
      · -- both leave room for it
        have hfirst : ¬ Overlaps display q₁ q₂ := fun h => hexact₁ h.1
        rw [if_neg hexact₁, if_neg (by omega), or_iff_left hfirst]
        simp only [List.append_assoc, List.append_cancel_left_eq, List.singleton_append]
        exact ⟨eq_of_append_cons hkept₁ hkept₂, fun ⟨hname, hkept⟩ => by rw [hname, hkept]⟩

/-- **Which queries share a key.** -/
theorem queryKey_eq_iff (hcolon : ∀ t, ':' ∉ display t) (q₁ q₂ : Query) :
    queryKey display q₁ = queryKey display q₂ ↔ SameKey display q₁ q₂ := by
  rcases Nat.le_total (len q₂.name) (len q₁.name) with hle | hle
  · exact queryKey_eq_iff_of_le hcolon hle
  · rw [eq_comm, queryKey_eq_iff_of_le hcolon hle, sameKey_comm]

/-- **Keys collide for the pairs that are not distinguished**, and no others:
sharing a key means being for the same name and type exactly there. -/
theorem eq_of_queryKey_iff (hcolon : ∀ t, ':' ∉ display t) (q₁ q₂ : Query) :
    (queryKey display q₁ = queryKey display q₂ →
      q₁.name = q₂.name ∧ q₁.queryType = q₂.queryType) ↔ Distinguished display q₁ q₂ := by
  rw [queryKey_eq_iff hcolon, SameKey, Distinguished]
  tauto

end Cache

end Denis
