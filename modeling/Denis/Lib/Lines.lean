import Denis.Lib.Text

/-!
# Lines, comments and words

How line-oriented text is taken apart: `lines` is `str::lines`,
`splitWhitespace` is `str::split_whitespace`, and `beforeFirst` what stands
before a comment.

- Text put together from lines falls apart into them (`splitInclusive_flatMap`).
- The words of a text are those on either side of any white space in it
  (`splitWhitespace_append`), so white space around a text, its line end
  included, adds none.
-/

namespace Text

/-- `str::split_inclusive`: the pieces that end with `c`, and the one after the
last `c`, if it is not empty. -/
def splitInclusive (c : Char) : Str → List Str
  | [] => []
  | x :: s =>
    if x = c then [x] :: splitInclusive c s
    else
      match splitInclusive c s with
      | [] => [[x]]
      | piece :: rest => (x :: piece) :: rest

/-- A line without its `\n` or `\r\n`. -/
def stripLineEnd (line : Str) : Str :=
  if line.getLast? = some '\n' then
    if line.dropLast.getLast? = some '\r' then line.dropLast.dropLast else line.dropLast
  else line

/-- `str::lines`. -/
def lines (s : Str) : List Str := (splitInclusive '\n' s).map stripLineEnd

/-- `s.split(c).next().unwrap_or("")`. -/
def beforeFirst (c : Char) (s : Str) : Str := (s.splitOn c).headD []

/-- `str::split_whitespace`. -/
def splitWhitespace (s : Str) : List Str := (s.splitOnP isWhitespace).filter (· ≠ [])

/-! ## Lines -/

theorem splitInclusive_append_cons {c : Char} {body : Str} (h : c ∉ body) (s : Str) :
    splitInclusive c (body ++ c :: s) = (body ++ [c]) :: splitInclusive c s := by
  induction body with
  | nil => exact if_pos rfl
  | cons x body ih =>
    rw [List.mem_cons, not_or] at h
    obtain ⟨hne, hbody⟩ := h
    rw [List.cons_append, splitInclusive, if_neg (Ne.symm hne), ih hbody]
    rfl

theorem splitInclusive_of_not_mem {c : Char} {body : Str} (h : c ∉ body) :
    splitInclusive c body = if body = [] then [] else [body] := by
  induction body with
  | nil => rfl
  | cons x body ih =>
    rw [List.mem_cons, not_or] at h
    obtain ⟨hne, hbody⟩ := h
    rw [splitInclusive, if_neg (Ne.symm hne), ih hbody, if_neg (List.cons_ne_nil _ _)]
    cases body with
    | nil => rfl
    | cons y body => rfl

/-- **Text made of lines** falls apart into them. -/
theorem splitInclusive_flatMap {c : Char} {bodies : List Str} {last : Str}
    (h : ∀ body ∈ bodies, c ∉ body) (hlast : c ∉ last) :
    splitInclusive c (bodies.flatMap (· ++ [c]) ++ last) =
      bodies.map (· ++ [c]) ++ if last = [] then [] else [last] := by
  induction bodies with
  | nil => exact splitInclusive_of_not_mem hlast
  | cons body bodies ih =>
    have hrest := ih fun b hb => h b (List.mem_cons_of_mem _ hb)
    rw [List.flatMap_cons, List.append_assoc, List.append_assoc, List.singleton_append,
      splitInclusive_append_cons (h body (List.mem_cons_self ..)), hrest]
    rfl

theorem dropLast_append_of_getLast? {s : Str} {c : Char} (h : s.getLast? = some c) :
    s.dropLast ++ [c] = s := by
  obtain ⟨t, rfl⟩ := List.getLast?_eq_some_iff.mp h
  rw [List.dropLast_concat]

/-- A line end is white space. -/
theorem stripLineEnd_append (line : Str) :
    ∃ ending, line = stripLineEnd line ++ ending ∧ ∀ c ∈ ending, isWhitespace c = true := by
  unfold stripLineEnd
  split
  · next hlf =>
    split
    · next hcr =>
      refine ⟨['\r', '\n'], ?_, by simp [isWhitespace]⟩
      calc
        line = line.dropLast ++ ['\n'] := (dropLast_append_of_getLast? hlf).symm
        _ = (line.dropLast.dropLast ++ ['\r']) ++ ['\n'] := by
          rw [dropLast_append_of_getLast? hcr]
        _ = line.dropLast.dropLast ++ ['\r', '\n'] := List.append_assoc ..
    · exact ⟨['\n'], (dropLast_append_of_getLast? hlf).symm, by simp [isWhitespace]⟩
  · exact ⟨[], (List.append_nil _).symm, by simp⟩

/-! ## Comments -/

theorem beforeFirst_append_cons {c : Char} {s : Str} (h : c ∉ s) (comment : Str) :
    beforeFirst c (s ++ c :: comment) = s := by
  rw [beforeFirst, List.splitOn_append_cons_self_of_not_mem h]
  rfl

theorem beforeFirst_of_not_mem {c : Char} {s : Str} (h : c ∉ s) : beforeFirst c s = s := by
  rw [beforeFirst, List.splitOn_eq_singleton h]
  rfl

/-- Text ends before its comment, or has none. -/
theorem beforeFirst_cases (c : Char) (s : Str) :
    c ∉ s ∨ ∃ body comment, c ∉ body ∧ s = body ++ c :: comment := by
  by_cases h : c ∈ s
  · obtain ⟨body, comment, hs, hbody⟩ := List.eq_append_cons_of_mem h
    exact .inr ⟨body, comment, hbody, hs⟩
  · exact .inl h

/-! ## Words -/

@[simp] theorem splitWhitespace_nil : splitWhitespace [] = [] := by
  rw [splitWhitespace, List.splitOnP_nil]
  rfl

/-- **The words around white space.** -/
theorem splitWhitespace_append_cons {c : Char} (h : isWhitespace c = true) (s t : Str) :
    splitWhitespace (s ++ c :: t) = splitWhitespace s ++ splitWhitespace t := by
  rw [splitWhitespace, List.splitOnP_append_cons s t h, List.filter_append]
  rfl

/-- A text without white space is a word. -/
theorem splitWhitespace_word {word : Str} (hne : word ≠ [])
    (h : ∀ c ∈ word, isWhitespace c = false) : splitWhitespace word = [word] := by
  rw [splitWhitespace, List.splitOnP_eq_singleton h, List.filter_cons_of_pos (by simpa using hne)]
  rfl

variable {gap : Str} (hgap : ∀ c ∈ gap, isWhitespace c = true)

include hgap

/-- White space in front adds no word. -/
theorem splitWhitespace_gap_append (s : Str) :
    splitWhitespace (gap ++ s) = splitWhitespace s := by
  induction gap with
  | nil => rfl
  | cons c gap ih =>
    have hrest := ih fun d hd => hgap d (List.mem_cons_of_mem _ hd)
    have hsplit := splitWhitespace_append_cons (hgap c (List.mem_cons_self ..)) [] (gap ++ s)
    rwa [List.nil_append, splitWhitespace_nil, List.nil_append, hrest] at hsplit

/-- Nor does white space at the end. -/
theorem splitWhitespace_append_gap (s : Str) :
    splitWhitespace (s ++ gap) = splitWhitespace s := by
  cases gap with
  | nil => rw [List.append_nil]
  | cons c gap =>
    have hrest : splitWhitespace gap = [] := by
      have hnil := splitWhitespace_gap_append (fun d hd => hgap d (List.mem_cons_of_mem _ hd)) []
      rwa [List.append_nil, splitWhitespace_nil] at hnil
    rw [splitWhitespace_append_cons (hgap c (List.mem_cons_self ..)), hrest, List.append_nil]

/-- White space between two texts keeps their words apart. -/
theorem splitWhitespace_append (hne : gap ≠ []) (s t : Str) :
    splitWhitespace (s ++ gap ++ t) = splitWhitespace s ++ splitWhitespace t := by
  cases gap with
  | nil => exact absurd rfl hne
  | cons c gap =>
    rw [List.append_assoc, List.cons_append,
      splitWhitespace_append_cons (hgap c (List.mem_cons_self ..)),
      splitWhitespace_gap_append fun d hd => hgap d (List.mem_cons_of_mem _ hd)]

omit hgap

/-- A word: something without white space. -/
structure IsWord (s : Str) : Prop where
  ne_nil : s ≠ []
  solid : ∀ c ∈ s, isWhitespace c = false

/-- White space that sets words apart. -/
structure IsGap (s : Str) : Prop where
  ne_nil : s ≠ []
  white : ∀ c ∈ s, isWhitespace c = true

/-- **Words set apart** are the words of the text. -/
theorem splitWhitespace_words {first : Str} {rest : List (Str × Str)} (hfirst : IsWord first)
    (hrest : ∀ p ∈ rest, IsGap p.1 ∧ IsWord p.2) :
    splitWhitespace (first ++ rest.flatMap fun p => p.1 ++ p.2) =
      first :: rest.map Prod.snd := by
  induction rest generalizing first with
  | nil =>
    rw [List.flatMap_nil, List.append_nil]
    exact splitWhitespace_word hfirst.ne_nil hfirst.solid
  | cons p rest ih =>
    obtain ⟨hgap, hword⟩ := hrest p (List.mem_cons_self ..)
    have htail := ih hword fun q hq => hrest q (List.mem_cons_of_mem _ hq)
    calc
      splitWhitespace (first ++ (p :: rest).flatMap fun p => p.1 ++ p.2) =
          splitWhitespace (first ++ p.1 ++ (p.2 ++ rest.flatMap fun p => p.1 ++ p.2)) := by
        rw [List.flatMap_cons, List.append_assoc, List.append_assoc]
      _ = [first] ++ (p.2 :: rest.map Prod.snd) := by
        rw [splitWhitespace_append hgap.white hgap.ne_nil, htail,
          splitWhitespace_word hfirst.ne_nil hfirst.solid]
      _ = first :: (p :: rest).map Prod.snd := rfl

/-- Trimming takes no word away. -/
theorem splitWhitespace_trim (s : Str) : splitWhitespace (trim s) = splitWhitespace s := by
  have hfront : ∀ c ∈ s.takeWhile isWhitespace, isWhitespace c = true := fun c hc =>
    List.mem_takeWhile_imp hc
  have hback : ∀ c ∈ (s.dropWhile isWhitespace).rtakeWhile isWhitespace,
      isWhitespace c = true := fun c hc => List.mem_rtakeWhile_imp hc
  calc
    splitWhitespace (trim s) =
        splitWhitespace (trim s ++ (s.dropWhile isWhitespace).rtakeWhile isWhitespace) :=
      (splitWhitespace_append_gap hback _).symm
    _ = splitWhitespace (s.dropWhile isWhitespace) := by
      rw [trim, List.rdropWhile_append_rtakeWhile]
    _ = splitWhitespace (s.takeWhile isWhitespace ++ s.dropWhile isWhitespace) :=
      (splitWhitespace_gap_append hfront _).symm
    _ = splitWhitespace s := by rw [List.takeWhile_append_dropWhile]

end Text
