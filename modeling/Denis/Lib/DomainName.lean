import Denis.Lib.Text

/-!
# Domain names on the wire (RFC 1035 §3.1)

A name is a list of labels of 1 to 63 arbitrary bytes; on the wire every label
is preceded by its length and a zero length byte ends the name. A `Label`
carries its bounds, so the wire form of any label list is well formed and
`decode` is its inverse whatever follows (`decode_wire`,
`decode_eq_some`).

`dotted` is the textual form compared in case-insensitive lookups: the labels
in ASCII lower case joined by dots. Its ends at dots are studied for arbitrary
separators: `mem_suffixesAfter` says what they are, and
`mem_suffixesAfter_intercalate` that for pieces free of the separator they are
exactly the joined ends of the piece list.
-/

universe u

/-! ## Ends of a list after a separator -/

section Separator

variable {α : Type u}

/-- Joining two nonempty runs of pieces puts one separator between them. -/
theorem intercalate_append (sep : α) {ls ms : List (List α)} (hls : ls ≠ [])
    (hms : ms ≠ []) :
    [sep].intercalate (ls ++ ms) =
      [sep].intercalate ls ++ sep :: [sep].intercalate ms := by
  induction ls with
  | nil => exact absurd rfl hls
  | cons l ls ih =>
    cases ls with
    | nil =>
      rw [List.singleton_append, List.intercalate_cons_of_ne_nil hms,
        List.intercalate_singleton]
      simp
    | cons l' ls =>
      have hne : l' :: ls ++ ms ≠ [] := by simp
      rw [List.cons_append, List.intercalate_cons_of_ne_nil hne, ih (by simp),
        List.intercalate_cons_cons]
      simp only [List.append_assoc]

/-- An element of the joined pieces that is not the separator is of a piece. -/
theorem mem_of_mem_intercalate {sep x : α} {ls : List (List α)} (hx : x ∈ [sep].intercalate ls)
    (hne : x ≠ sep) : ∃ l ∈ ls, x ∈ l := by
  induction ls with
  | nil => simp at hx
  | cons l ls ih =>
    by_cases hls : ls = []
    · subst hls
      rw [List.intercalate_singleton] at hx
      exact ⟨l, List.mem_cons_self .., hx⟩
    · rw [List.intercalate_cons_of_ne_nil hls, List.append_assoc, List.mem_append,
        List.singleton_append, List.mem_cons] at hx
      rcases hx with hx | hx | hx
      · exact ⟨l, List.mem_cons_self .., hx⟩
      · exact absurd hx hne
      · obtain ⟨m, hm, hxm⟩ := ih hx
        exact ⟨m, List.mem_cons_of_mem _ hm, hxm⟩

/-- Mapping the joined pieces is joining the mapped ones. -/
theorem map_intercalate {β : Type u} (f : α → β) (sep : α) (ls : List (List α)) :
    ([sep].intercalate ls).map f = [f sep].intercalate (ls.map (List.map f)) := by
  induction ls with
  | nil => rfl
  | cons l ls ih =>
    by_cases hls : ls = []
    · simp [hls]
    · rw [List.map_cons, List.intercalate_cons_of_ne_nil hls,
        List.intercalate_cons_of_ne_nil (by simpa using hls), List.map_append, List.map_append, ih]
      rfl

variable [DecidableEq α]

/-- The pieces of a mapped list are the pieces mapped, if the separator stands in
the same places. -/
theorem splitOn_map {f : α → α} {sep : α} (hf : ∀ x, f x = sep ↔ x = sep) (s : List α) :
    (s.map f).splitOn sep = (s.splitOn sep).map (List.map f) := by
  induction s with
  | nil => rfl
  | cons x s ih =>
    rw [List.map_cons, List.splitOn_cons_eq_if_modifyHead, List.splitOn_cons_eq_if_modifyHead, ih]
    by_cases hx : x = sep
    · rw [if_pos (beq_iff_eq.mpr ((hf x).mpr hx)), if_pos (beq_iff_eq.mpr hx)]
      rfl
    · rw [if_neg (by simpa [hf] using hx), if_neg (by simpa using hx)]
      obtain ⟨piece, rest, hsplit⟩ := List.exists_cons_of_ne_nil (List.splitOn_ne_nil sep s)
      rw [hsplit]
      rfl

/-- What follows each occurrence of `sep`, from the first on. -/
def suffixesAfter (sep : α) : List α → List (List α)
  | [] => []
  | x :: xs => if x = sep then xs :: suffixesAfter sep xs else suffixesAfter sep xs

theorem mem_suffixesAfter {sep : α} {xs s : List α} :
    s ∈ suffixesAfter sep xs ↔ ∃ pre, xs = pre ++ sep :: s := by
  induction xs with
  | nil => simp [suffixesAfter]
  | cons x xs ih =>
    have hcons : (∃ pre, x :: xs = pre ++ sep :: s) ↔
        (x = sep ∧ xs = s) ∨ ∃ pre, xs = pre ++ sep :: s := by
      constructor
      · rintro ⟨pre, h⟩
        cases pre with
        | nil => exact .inl (List.cons.inj h)
        | cons y pre => exact .inr ⟨pre, (List.cons.inj h).2⟩
      · rintro (⟨rfl, rfl⟩ | ⟨pre, rfl⟩)
        · exact ⟨[], rfl⟩
        · exact ⟨x :: pre, rfl⟩
    rw [suffixesAfter, hcons, ← ih]
    split
    · next h =>
      rw [List.mem_cons]
      constructor
      · rintro (rfl | hs)
        · exact .inl ⟨h, rfl⟩
        · exact .inr hs
      · rintro (⟨-, rfl⟩ | hs)
        · exact .inl rfl
        · exact .inr hs
    · next h =>
      constructor
      · exact .inr
      · rintro (⟨h', -⟩ | hs)
        · exact absurd h' h
        · exact hs

/-- A nonempty proper end of the pieces, joined, is an end after a separator. -/
theorem intercalate_mem_suffixesAfter (sep : α) {ls ms : List (List α)}
    (hls : ls ≠ []) (hms : ms ≠ []) :
    [sep].intercalate ms ∈ suffixesAfter sep ([sep].intercalate (ls ++ ms)) :=
  mem_suffixesAfter.mpr ⟨[sep].intercalate ls, intercalate_append sep hls hms⟩

theorem suffixesAfter_of_not_mem {sep : α} {xs : List α} (h : sep ∉ xs) :
    suffixesAfter sep xs = [] := by
  refine List.eq_nil_iff_forall_not_mem.mpr ?_
  intro s hs
  obtain ⟨pre, rfl⟩ := mem_suffixesAfter.mp hs
  exact h (by simp)

theorem suffixesAfter_append_cons {sep : α} {xs : List α} (h : sep ∉ xs)
    (ys : List α) :
    suffixesAfter sep (xs ++ sep :: ys) = ys :: suffixesAfter sep ys := by
  induction xs with
  | nil => simp [suffixesAfter]
  | cons x xs ih =>
    rw [List.mem_cons, not_or] at h
    rw [List.cons_append, suffixesAfter, if_neg (Ne.symm h.1), ih h.2]

/-- **Ends at separators are ends of the piece list**, when no piece holds the
separator. -/
theorem mem_suffixesAfter_intercalate {sep : α} {ls : List (List α)}
    (hsep : ∀ l ∈ ls, sep ∉ l) {s : List α} :
    s ∈ suffixesAfter sep ([sep].intercalate ls) ↔
      ∃ pre ms, pre ≠ [] ∧ ms ≠ [] ∧ ls = pre ++ ms ∧ s = [sep].intercalate ms := by
  constructor
  · intro hs
    -- the first piece holds no separator, so ends start at the one after it
    induction ls with
    | nil => simp [suffixesAfter] at hs
    | cons l ls ih =>
      have hl : sep ∉ l := hsep l (List.mem_cons_self ..)
      cases hls : ls with
      | nil =>
        subst hls
        rw [List.intercalate_singleton, suffixesAfter_of_not_mem hl] at hs
        cases hs
      | cons l' ls' =>
        have hne : ls ≠ [] := by simp [hls]
        rw [List.intercalate_cons_of_ne_nil hne, List.append_assoc, List.singleton_append,
          suffixesAfter_append_cons hl, List.mem_cons] at hs
        rcases hs with rfl | hs
        · exact ⟨[l], ls, by simp, hne, by simp [hls], rfl⟩
        · obtain ⟨pre, ms, -, hms, rfl, rfl⟩ :=
            ih (fun m hm => hsep m (List.mem_cons_of_mem _ hm)) hs
          exact ⟨l :: pre, ms, by simp, hms, by simp [← hls], rfl⟩
  · rintro ⟨pre, ms, hpre, hms, rfl, rfl⟩
    exact intercalate_mem_suffixesAfter sep hpre hms

end Separator

/-! ## Labels and names -/

namespace DomainName

open Text

/-- A label: 1 to 63 arbitrary bytes. -/
structure Label where
  bytes : Bytes
  pos : 0 < bytes.length
  le : bytes.length ≤ 63
  deriving DecidableEq

/-- A label on the wire: its length byte and its bytes. -/
def Label.wire (l : Label) : Bytes := UInt8.ofNat l.bytes.length :: l.bytes

/-- The labels of a name on the wire, without the ending zero byte. -/
def wire (ls : List Label) : Bytes := ls.flatMap Label.wire

/-- A label in ASCII lower case. -/
def Label.lower (l : Label) : Bytes := l.bytes.map toAsciiLowercase

/-- The text of a label of ASCII characters, in lower case. -/
def Label.text (l : Label) : Str := l.lower.map charOf

/-- The labels in lower case, joined by dots. -/
def dotted (ls : List Label) : Bytes := [46].intercalate (ls.map Label.lower)

@[simp] theorem wire_nil : wire [] = [] := rfl

@[simp] theorem wire_cons (l : Label) (ls : List Label) :
    wire (l :: ls) = UInt8.ofNat l.bytes.length :: (l.bytes ++ wire ls) := rfl

@[simp] theorem wire_append (ls ms : List Label) : wire (ls ++ ms) = wire ls ++ wire ms :=
  List.flatMap_append ..

@[simp] theorem Label.lower_length (l : Label) : l.lower.length = l.bytes.length :=
  List.length_map ..

theorem Label.length_toNat (l : Label) :
    (UInt8.ofNat l.bytes.length).toNat = l.bytes.length := by
  have := l.le
  rw [UInt8.toNat_ofNat']
  omega

theorem Label.length_ne_zero (l : Label) : UInt8.ofNat l.bytes.length ≠ 0 := by
  intro h
  have hzero := congrArg UInt8.toNat h
  rw [l.length_toNat] at hzero
  exact absurd hzero (Nat.ne_of_gt l.pos)

theorem Label.take_pos {n : UInt8} {rest : Bytes} (hzero : n.toNat ≠ 0)
    (hshort : ¬ rest.length < n.toNat) : 0 < (rest.take n.toNat).length := by
  rw [List.length_take]
  omega

theorem Label.take_le {n : UInt8} (rest : Bytes) (hlong : ¬ 63 < n.toNat) :
    (rest.take n.toNat).length ≤ 63 := by
  rw [List.length_take]
  omega

/-- Read a name: length byte 1 to 63 and that many bytes, until a zero length
byte; the labels and what follows the zero byte. -/
def decode : Bytes → Option (List Label × Bytes)
  | [] => none
  | n :: rest =>
    if hzero : n.toNat = 0 then some ([], rest)
    else if hlong : 63 < n.toNat then none
    else if hshort : rest.length < n.toNat then none
    else
      match decode (rest.drop n.toNat) with
      | none => none
      | some (ls, after) =>
        some (⟨rest.take n.toNat, Label.take_pos hzero hshort, Label.take_le rest hlong⟩ :: ls,
          after)
termination_by bs => bs.length
decreasing_by
  rw [List.length_drop, List.length_cons]
  omega

/-- **Decoding inverts the wire form**, whatever follows the name. -/
theorem decode_wire (ls : List Label) (rest : Bytes) :
    decode (wire ls ++ 0 :: rest) = some (ls, rest) := by
  induction ls with
  | nil => rw [wire_nil, List.nil_append, decode]; rfl
  | cons l ls ih =>
    have hlen := l.length_toNat
    have hpos := l.pos
    have hle := l.le
    rw [wire_cons, List.cons_append, decode, dif_neg (by omega), dif_neg (by omega),
      dif_neg (by rw [hlen]; simp)]
    have hdrop : (l.bytes ++ wire ls ++ 0 :: rest).drop
        (UInt8.ofNat l.bytes.length).toNat = wire ls ++ 0 :: rest := by
      rw [hlen, List.append_assoc, List.drop_left]
    have htake : (l.bytes ++ wire ls ++ 0 :: rest).take
        (UInt8.ofNat l.bytes.length).toNat = l.bytes := by
      rw [hlen, List.append_assoc, List.take_left]
    simp only [hdrop, ih, htake]

/-- Whatever decodes is a wire form, a zero byte and the rest. -/
theorem eq_wire_of_decode {bs rest : Bytes} {ls : List Label}
    (h : decode bs = some (ls, rest)) : bs = wire ls ++ 0 :: rest := by
  induction bs using decode.induct generalizing ls with
  | case1 => rw [decode] at h; cases h
  | case2 n after hzero =>
    rw [decode, dif_pos hzero] at h
    obtain ⟨rfl, rfl⟩ := Prod.mk.inj (Option.some.inj h)
    rw [wire_nil, List.nil_append, show n = 0 from UInt8.toNat_inj.mp hzero]
  | case3 n after hzero hlong =>
    rw [decode, dif_neg hzero, dif_pos hlong] at h
    cases h
  | case4 n after hzero hlong hshort =>
    rw [decode, dif_neg hzero, dif_neg hlong, dif_pos hshort] at h
    cases h
  | case5 n after hzero hlong hshort hnone ih =>
    rw [decode, dif_neg hzero, dif_neg hlong, dif_neg hshort, hnone] at h
    cases h
  | case6 n after hzero hlong hshort ms after' hsome ih =>
    rw [decode, dif_neg hzero, dif_neg hlong, dif_neg hshort] at h
    simp only [hsome] at h
    obtain ⟨rfl, rfl⟩ := Prod.mk.inj (Option.some.inj h)
    have hrest := ih hsome
    have hlen : (after.take n.toNat).length = n.toNat := by
      rw [List.length_take]
      omega
    rw [wire_cons, hlen, UInt8.ofNat_toNat, List.cons_append, List.append_assoc, ← hrest,
      List.take_append_drop]

/-- Two wire forms in front of the same bytes: one is an initial part of the
other. -/
theorem wire_append_eq {ls ms : List Label} {xs ys : Bytes} (h : wire ls ++ xs = wire ms ++ ys) :
    (∃ ks, ms = ls ++ ks ∧ xs = wire ks ++ ys) ∨ ∃ ks, ls = ms ++ ks ∧ ys = wire ks ++ xs := by
  induction ls generalizing ms with
  | nil => exact .inl ⟨ms, rfl, h⟩
  | cons l ls ih =>
    cases ms with
    | nil => exact .inr ⟨l :: ls, rfl, h.symm⟩
    | cons m ms =>
      simp only [wire_cons, List.cons_append, List.append_assoc] at h
      obtain ⟨hlength, hrest⟩ := List.cons.inj h
      have hlengths : l.bytes.length = m.bytes.length := by
        rw [← l.length_toNat, ← m.length_toNat, hlength]
      obtain ⟨hbytes, htails⟩ := List.append_inj hrest hlengths
      obtain rfl : l = m := by
        obtain ⟨_, _, _⟩ := l
        obtain ⟨_, _, _⟩ := m
        obtain rfl := hbytes
        rfl
      rcases ih htails with ⟨ks, rfl, hks⟩ | ⟨ks, rfl, hks⟩
      · exact .inl ⟨ks, rfl, hks⟩
      · exact .inr ⟨ks, rfl, hks⟩

/-- Decoding, characterized by the wire form. -/
theorem decode_eq_some {bs rest : Bytes} {ls : List Label} :
    decode bs = some (ls, rest) ↔ bs = wire ls ++ 0 :: rest :=
  ⟨eq_wire_of_decode, fun h => h ▸ decode_wire ls rest⟩

/-! ## Ends of a dotted name -/

theorem dotted_append {ls ms : List Label} (hls : ls ≠ []) (hms : ms ≠ []) :
    dotted (ls ++ ms) = dotted ls ++ 46 :: dotted ms := by
  rw [dotted, List.map_append, intercalate_append _ (by simpa using hls) (by simpa using hms)]
  rfl

@[simp] theorem dotted_singleton (l : Label) : dotted [l] = l.lower :=
  List.intercalate_singleton

theorem dotted_cons {l : Label} {ls : List Label} (hls : ls ≠ []) :
    dotted (l :: ls) = l.lower ++ 46 :: dotted ls := by
  rw [← List.singleton_append, dotted_append (by simp) hls, dotted_singleton]

end DomainName
