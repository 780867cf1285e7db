import Denis.Lib.DomainName

/-!
# Byte offsets into a string

A string is searched for a byte in its UTF-8 form (`memchrIter`) and cut at the
offset found (`sliceFrom`), which is possible only between two characters. An
ASCII byte occurs in the UTF-8 form only as the character it stands for, so the
offset after it is always one to cut at: cutting after every occurrence gives
`suffixesAfter` of the character (`sliceFrom_memchrIter`).
-/

namespace Text

/-- The offsets of a byte, `i` being the offset of the first one. -/
def memchrIter (needle : UInt8) (i : Nat) : Bytes → List Nat
  | [] => []
  | b :: bs =>
    if b = needle then i :: memchrIter needle (i + 1) bs else memchrIter needle (i + 1) bs

/-- `&s[i..]`: `none` past the end and inside a character. -/
def sliceFrom : Str → Nat → Option Str
  | s, 0 => some s
  | [], _ + 1 => none
  | c :: s, i + 1 => if len [c] ≤ i + 1 then sliceFrom s (i + 1 - len [c]) else none

theorem len_cons (c : Char) (s : Str) : len (c :: s) = len [c] + len s :=
  len_append [c] s

theorem len_singleton_pos (c : Char) : 0 < len [c] := by
  have hlen : len [c] = c.utf8Size := by simp [len, utf8]
  rw [hlen]
  exact Char.utf8Size_pos c

/-- Cutting between two characters. -/
theorem sliceFrom_len (u v : Str) : sliceFrom (u ++ v) (len u) = some v := by
  induction u with
  | nil =>
    cases v with
    | nil => rfl
    | cons c v => rfl
  | cons c u ih =>
    have hpos := len_singleton_pos c
    obtain ⟨n, hn⟩ : ∃ n, len (c :: u) = n + 1 := ⟨len (c :: u) - 1, by rw [len_cons]; omega⟩
    have hcons := len_cons c u
    rw [hn, List.cons_append, sliceFrom, if_pos (by omega), ← hn, hcons, Nat.add_sub_cancel_left,
      ih]

/-- The byte of an ASCII character is in no other character. -/
theorem not_mem_utf8EncodeChar {a c : Char} (ha : a.toNat < 128) (hne : c ≠ a) :
    UInt8.ofNat a.toNat ∉ String.utf8EncodeChar c := by
  intro hmem
  rcases Nat.lt_or_ge c.toNat 128 with hc | hc
  · rw [utf8EncodeChar_ascii hc, List.mem_singleton] at hmem
    have hchar := congrArg charOf hmem
    rw [charOf_ofNat ha, charOf_ofNat hc] at hchar
    exact hne hchar.symm
  · have hhigh := utf8EncodeChar_high hc hmem
    rw [UInt8.toNat_ofNat'] at hhigh
    omega

theorem memchrIter_append {needle : UInt8} {xs : Bytes} (h : needle ∉ xs) (i : Nat) (ys : Bytes) :
    memchrIter needle i (xs ++ ys) = memchrIter needle (i + xs.length) ys := by
  induction xs generalizing i with
  | nil => rfl
  | cons x xs ih =>
    rw [List.mem_cons, not_or] at h
    rw [List.cons_append, memchrIter, if_neg (Ne.symm h.1), ih h.2, List.length_cons]
    congr 1
    omega

/-- The cuts in the second part of a string. -/
theorem sliceFrom_memchrIter_append {a : Char} (ha : a.toNat < 128) (u v : Str) :
    (memchrIter (UInt8.ofNat a.toNat) (len u) (utf8 v)).map (fun p => sliceFrom (u ++ v) (p + 1)) =
      (suffixesAfter a v).map some := by
  induction v generalizing u with
  | nil => rfl
  | cons c v ih =>
    have hsplit : utf8 (c :: v) = String.utf8EncodeChar c ++ utf8 v := rfl
    have hu : u ++ c :: v = (u ++ [c]) ++ v := by simp
    have hlen : len u + (String.utf8EncodeChar c).length = len (u ++ [c]) := by
      rw [len_append]
      simp [len, utf8]
    rw [hsplit, hu, suffixesAfter]
    by_cases hc : c = a
    · subst hc
      have hstep : len u + 1 = len (u ++ [c]) := by
        rw [← hlen, utf8EncodeChar_ascii ha]
        rfl
      rw [if_pos rfl, utf8EncodeChar_ascii ha, List.singleton_append, memchrIter, if_pos rfl,
        List.map_cons, List.map_cons, hstep, sliceFrom_len, ih]
    · rw [if_neg hc, memchrIter_append (not_mem_utf8EncodeChar ha hc), hlen, ih]

/-- **Cutting after every occurrence of an ASCII character** never fails, and
gives what follows each. -/
theorem sliceFrom_memchrIter {a : Char} (ha : a.toNat < 128) (s : Str) :
    (memchrIter (UInt8.ofNat a.toNat) 0 (utf8 s)).map (fun p => sliceFrom s (p + 1)) =
      (suffixesAfter a s).map some :=
  sliceFrom_memchrIter_append ha [] s

end Text
