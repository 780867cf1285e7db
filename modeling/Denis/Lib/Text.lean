import Mathlib.Data.List.DropRight

/-!
# Text as scalar values, UTF-8 bytes and lossy decoding

A string is the list of its Unicode scalar values (`Str`); its bytes are their
UTF-8 encodings in order, and its length is counted in bytes. `fromUtf8Lossy`
is the decoder that never fails: it decodes maximal well-formed sequences and
puts one replacement character for every maximal ill-formed one.

What callers need of the lossy decoder is only how it treats ASCII:

- an ASCII byte decodes to itself and never is part of a longer sequence, so
  decoding splits at it (`fromUtf8Lossy_append_ascii`);
- conversely an ASCII end of the decoded text was that same text in the bytes
  (`fromUtf8Lossy_ascii_suffix`).
-/

namespace Text

/-- A string: its Unicode scalar values, in order. -/
abbrev Str := List Char

/-- A byte string. -/
abbrev Bytes := List UInt8

/-- The UTF-8 bytes of a string. -/
def utf8 (s : Str) : Bytes := s.flatMap String.utf8EncodeChar

/-- Length in bytes. -/
def len (s : Str) : Nat := (utf8 s).length

@[simp] theorem utf8_nil : utf8 [] = [] := rfl

@[simp] theorem utf8_append (s t : Str) : utf8 (s ++ t) = utf8 s ++ utf8 t :=
  List.flatMap_append ..

@[simp] theorem len_append (s t : Str) : len (s ++ t) = len s + len t := by
  rw [len, utf8_append, List.length_append]
  rfl

/-- Mapping what stays as it is. -/
theorem map_eq_self {α : Type*} {f : α → α} {l : List α} (h : ∀ x ∈ l, f x = x) : l.map f = l :=
  (List.map_congr_left h).trans (List.map_id l)

/-! ## ASCII -/

/-- Every character is below 128. -/
def IsAscii (s : Str) : Prop := ∀ c ∈ s, c.toNat < 128

/-- The character with a byte's code. -/
def charOf (b : UInt8) : Char := Char.ofNat b.toNat

/-- A byte's ASCII upper-case letters in lower case, all else unchanged. -/
def toAsciiLowercase (b : UInt8) : UInt8 :=
  if 65 ≤ b.toNat ∧ b.toNat ≤ 90 then b + 32 else b

/-- A byte that is a lower-case letter, a digit or an upper-case letter. -/
def isAsciiAlphanumeric (b : UInt8) : Bool :=
  (48 ≤ b.toNat && b.toNat ≤ 57) || (65 ≤ b.toNat && b.toNat ≤ 90) ||
    (97 ≤ b.toNat && b.toNat ≤ 122)

theorem charOf_toNat {b : UInt8} : (charOf b).toNat = b.toNat := by
  have hvalid : b.toNat.isValidChar := .inl (by have := b.toNat_lt; omega)
  rw [charOf, Char.ofNat, dif_pos hvalid]
  exact UInt32.toNat_ofNatLT ..

/-- Lower-casing changes no byte outside the upper-case letters. -/
theorem toAsciiLowercase_toNat (b : UInt8) :
    (toAsciiLowercase b).toNat =
      if 65 ≤ b.toNat ∧ b.toNat ≤ 90 then b.toNat + 32 else b.toNat := by
  unfold toAsciiLowercase
  split
  · rw [UInt8.toNat_add]
    show (b.toNat + 32) % 256 = b.toNat + 32
    omega
  · rfl

theorem utf8EncodeChar_ascii {c : Char} (hc : c.toNat < 128) :
    String.utf8EncodeChar c = [UInt8.ofNat c.toNat] := by
  have hsize : c.utf8Size = 1 := by
    rw [Char.utf8Size, if_pos]
    show c.val.toNat ≤ _
    exact Nat.le_of_lt_succ hc
  rw [String.utf8EncodeChar_eq_singleton hsize]
  congr 1

/-- The bytes of an ASCII string are its characters' codes. -/
theorem utf8_ascii {s : Str} (hs : IsAscii s) :
    utf8 s = s.map fun c => UInt8.ofNat c.toNat := by
  induction s with
  | nil => rfl
  | cons c s ih =>
    show String.utf8EncodeChar c ++ utf8 s = _
    rw [utf8EncodeChar_ascii (hs c (List.mem_cons_self ..)),
      ih fun d hd => hs d (List.mem_cons_of_mem _ hd)]
    rfl

theorem charOf_ofNat {c : Char} (hc : c.toNat < 128) :
    charOf (UInt8.ofNat c.toNat) = c := by
  apply Char.ext
  apply UInt32.toNat_inj.mp
  show (charOf (UInt8.ofNat c.toNat)).toNat = c.toNat
  rw [charOf_toNat, UInt8.toNat_ofNat']
  omega

/-- Every byte of a character beyond ASCII is beyond ASCII. -/
theorem utf8EncodeChar_high {c : Char} (hc : 128 ≤ c.toNat) {b : UInt8}
    (hb : b ∈ String.utf8EncodeChar c) : 128 ≤ b.toNat := by
  have hlarge : 128 ≤ c.val.toNat := hc
  unfold String.utf8EncodeChar at hb
  dsimp only at hb
  rw [if_neg (by omega)] at hb
  split at hb
  · simp at hb
    rcases hb with rfl | rfl <;> simp <;> omega
  · split at hb
    · simp at hb
      rcases hb with rfl | rfl | rfl <;> simp <;> omega
    · simp at hb
      rcases hb with rfl | rfl | rfl | rfl <;> simp <;> omega

/-- A string whose bytes are ASCII is ASCII. -/
theorem isAscii_of_utf8 {s : Str} (h : ∀ b ∈ utf8 s, b < 0x80) : IsAscii s := by
  intro c hc
  by_contra hlarge
  obtain ⟨b, hb⟩ := List.exists_mem_of_ne_nil _ (@String.utf8EncodeChar_ne_nil c)
  have hhigh := utf8EncodeChar_high (Nat.le_of_not_lt hlarge) hb
  have hlow : b.toNat < 128 := h b (List.mem_flatMap.mpr ⟨c, hc, hb⟩)
  omega

/-! ## Trimming and lower-casing -/

/-- Unicode White_Space. -/
def isWhitespace (c : Char) : Bool :=
  (9 ≤ c.toNat && c.toNat ≤ 13) || c.toNat == 0x20 || c.toNat == 0x85 || c.toNat == 0xA0 ||
    c.toNat == 0x1680 || (0x2000 ≤ c.toNat && c.toNat ≤ 0x200A) || c.toNat == 0x2028 ||
    c.toNat == 0x2029 || c.toNat == 0x202F || c.toNat == 0x205F || c.toNat == 0x3000

/-- Strip white space from both ends. -/
def trim (s : Str) : Str := (s.dropWhile isWhitespace).rdropWhile isWhitespace

/-- Strip every trailing `c`. -/
def trimEndMatches (c : Char) (s : Str) : Str := s.rdropWhile (· == c)

theorem trim_eq_self {s : Str} (hstart : ∀ c ∈ s.head?, isWhitespace c = false)
    (hfinish : ∀ c ∈ s.getLast?, isWhitespace c = false) : trim s = s := by
  have hdrop : s.dropWhile isWhitespace = s := by
    cases s with
    | nil => rfl
    | cons c s => exact List.dropWhile_cons_of_neg (by simp [hstart c rfl])
  rw [trim, hdrop, List.rdropWhile_eq_self_iff]
  intro hne
  simp [hfinish _ (List.getLast?_eq_some_getLast hne)]

theorem trimEndMatches_eq_self {c : Char} {s : Str} (h : s.getLast? ≠ some c) :
    trimEndMatches c s = s := by
  rw [trimEndMatches, List.rdropWhile_eq_self_iff]
  intro hne heq
  rw [List.getLast?_eq_some_getLast hne, beq_iff_eq.mp heq] at h
  exact h rfl

/-- However many are stripped. -/
theorem trimEndMatches_replicate (c : Char) (s : Str) (n : Nat) :
    trimEndMatches c (s ++ List.replicate n c) = trimEndMatches c s := by
  induction n with
  | zero => rw [List.replicate_zero, List.append_nil]
  | succ n ih =>
    rw [List.replicate_succ', ← List.append_assoc, trimEndMatches,
      List.rdropWhile_concat_pos (· == c) _ _ (beq_self_eq_true c)]
    exact ih

/-- Full Unicode lower-casing. The table is not spelled out: what is used of it
is that ASCII strings are lower-cased by the ASCII rule and that no upper-case
ASCII letter is left in a result. -/
structure Lowercase where
  toLowercase : Str → Str
  ascii : ∀ s, IsAscii s → toLowercase s = s.map Char.toLower
  noUpper : ∀ s, ∀ c ∈ toLowercase s, ¬ (65 ≤ c.toNat ∧ c.toNat ≤ 90)

/-- Lower-casing a character by the ASCII rule, as arithmetic. -/
theorem toLower_toNat (c : Char) :
    c.toLower.toNat = if 65 ≤ c.toNat ∧ c.toNat ≤ 90 then c.toNat + 32 else c.toNat := by
  have hiff : (c.val ≥ 'A'.val ∧ c.val ≤ 'Z'.val) ↔ (65 ≤ c.toNat ∧ c.toNat ≤ 90) := Iff.rfl
  delta Char.toLower
  split
  · next h =>
    have hle : c.val.toNat ≤ 90 := (hiff.mp h).2
    rw [if_pos (hiff.mp h)]
    show (c.val + 32).toNat = c.val.toNat + 32
    rw [UInt32.toNat_add]
    show (c.val.toNat + 32) % 4294967296 = _
    omega
  · next h => rw [if_neg fun h' => h (hiff.mpr h')]

/-- The ASCII rule alone, other characters left unchanged. -/
def Lowercase.asciiOnly : Lowercase where
  toLowercase s := s.map Char.toLower
  ascii _ _ := rfl
  noUpper s c hc := by
    obtain ⟨d, -, rfl⟩ := List.mem_map.mp hc
    rw [toLower_toNat]
    split <;> omega

/-! ## Lossy decoding -/

/-- Bytes in a closed range. -/
def within (lo hi : Nat) (b : UInt8) : Bool := lo ≤ b.toNat && b.toNat ≤ hi

/-- The second byte allowed after a leading byte; the ranges exclude overlong
forms, surrogates and values above 0x10FFFF. -/
def secondByte (b : UInt8) : UInt8 → Bool :=
  if b = 0xE0 then within 0xA0 0xBF
  else if b = 0xED then within 0x80 0x9F
  else if b = 0xF0 then within 0x90 0xBF
  else if b = 0xF4 then within 0x80 0x8F
  else within 0x80 0xBF

/-- What must follow a leading byte, one predicate a byte; `none` if the byte
cannot lead. -/
def followers (b : UInt8) : Option (List (UInt8 → Bool)) :=
  if b < 0x80 then some []
  else if b < 0xC2 then none
  else if b < 0xE0 then some [secondByte b]
  else if b < 0xF0 then some [secondByte b, within 0x80 0xBF]
  else if b < 0xF5 then some [secondByte b, within 0x80 0xBF, within 0x80 0xBF]
  else none

/-- Take the followers as far as they match: the bytes taken if all did, and
what is left. -/
def consume : List (UInt8 → Bool) → Bytes → Option Bytes × Bytes
  | [], bs => (some [], bs)
  | _ :: _, [] => (none, [])
  | p :: ps, c :: bs =>
    if p c then ((consume ps bs).1.map (c :: ·), (consume ps bs).2)
    else (none, c :: bs)

/-- The value bits of a leading byte. -/
def leadBits (b : UInt8) : Nat :=
  if b < 0x80 then b.toNat
  else if b < 0xE0 then b.toNat - 0xC0
  else if b < 0xF0 then b.toNat - 0xE0
  else b.toNat - 0xF0

/-- The scalar value of a leading byte and its followers. -/
def scalar (b : UInt8) (cs : Bytes) : Nat :=
  cs.foldl (fun acc c => acc * 64 + (c.toNat - 0x80)) (leadBits b)

/-- Decode one character: `none` for an ill-formed sequence, and the bytes
after it. -/
def decodeChar (b : UInt8) (rest : Bytes) : Option Char × Bytes :=
  match followers b with
  | none => (none, rest)
  | some ps => ((consume ps rest).1.map fun cs => Char.ofNat (scalar b cs),
      (consume ps rest).2)

theorem consume_length_le (ps : List (UInt8 → Bool)) (bs : Bytes) :
    (consume ps bs).2.length ≤ bs.length := by
  induction ps generalizing bs with
  | nil => exact Nat.le_refl _
  | cons p ps ih =>
    cases bs with
    | nil => exact Nat.le_refl _
    | cons c bs =>
      rw [consume]
      split
      · exact Nat.le_succ_of_le (ih bs)
      · exact Nat.le_refl _

theorem decodeChar_length_le (b : UInt8) (rest : Bytes) :
    (decodeChar b rest).2.length ≤ rest.length := by
  unfold decodeChar
  split
  · exact Nat.le_refl _
  · exact consume_length_le _ rest

/-- U+FFFD, put for every ill-formed sequence. -/
def replacementCharacter : Char := Char.ofNat 0xFFFD

/-- Decode, replacing what is ill-formed. -/
def fromUtf8Lossy : Bytes → Str
  | [] => []
  | b :: rest =>
    (decodeChar b rest).1.getD replacementCharacter ::
      fromUtf8Lossy (decodeChar b rest).2
termination_by bs => bs.length
decreasing_by exact Nat.lt_succ_of_le (decodeChar_length_le b rest)

@[simp] theorem fromUtf8Lossy_nil : fromUtf8Lossy [] = [] := by
  rw [fromUtf8Lossy]

theorem decodeChar_ascii {b : UInt8} (hb : b < 0x80) (rest : Bytes) :
    decodeChar b rest = (some (charOf b), rest) := by
  have hf : followers b = some [] := by rw [followers, if_pos hb]
  simp only [decodeChar, hf, consume, scalar, List.foldl_nil, leadBits, if_pos hb,
    Option.map_some, charOf]

/-- An ASCII byte decodes to its character. -/
theorem fromUtf8Lossy_cons_ascii {b : UInt8} (hb : b < 0x80) (rest : Bytes) :
    fromUtf8Lossy (b :: rest) = charOf b :: fromUtf8Lossy rest := by
  rw [fromUtf8Lossy, decodeChar_ascii hb]
  rfl

/-- ASCII bytes decode to their characters. -/
theorem fromUtf8Lossy_ascii {bs : Bytes} (hbs : ∀ b ∈ bs, b < 0x80) :
    fromUtf8Lossy bs = bs.map charOf := by
  induction bs with
  | nil => simp
  | cons b bs ih =>
    rw [fromUtf8Lossy_cons_ascii (hbs b (List.mem_cons_self ..)),
      ih fun c hc => hbs c (List.mem_cons_of_mem _ hc), List.map_cons]

/-- Decoding gives back an ASCII string. -/
theorem fromUtf8Lossy_utf8 {s : Str} (hs : IsAscii s) : fromUtf8Lossy (utf8 s) = s := by
  have hbytes : ∀ b ∈ utf8 s, b < 0x80 := by
    rw [utf8_ascii hs]
    intro b hb
    obtain ⟨c, hc, rfl⟩ := List.mem_map.mp hb
    have hlt := hs c hc
    rw [UInt8.lt_iff_toNat_lt, UInt8.toNat_ofNat']
    show c.toNat % 2 ^ 8 < 128
    omega
  rw [fromUtf8Lossy_ascii hbytes, utf8_ascii hs, List.map_map]
  exact map_eq_self fun c hc => charOf_ofNat (hs c hc)

/-! ### ASCII bytes delimit -/

theorem within_ascii {lo hi : Nat} (hlo : 0x80 ≤ lo) {a : UInt8} (ha : a < 0x80) :
    within lo hi a = false := by
  have hlt : a.toNat < 0x80 := ha
  have hnot : ¬ lo ≤ a.toNat := by omega
  simp [within, hnot]

theorem secondByte_ascii (b : UInt8) {a : UInt8} (ha : a < 0x80) :
    secondByte b a = false := by
  unfold secondByte
  split
  · exact within_ascii (by decide) ha
  · split
    · exact within_ascii (by decide) ha
    · split
      · exact within_ascii (by decide) ha
      · split
        · exact within_ascii (by decide) ha
        · exact within_ascii (by decide) ha

/-- No follower is an ASCII byte. -/
theorem followers_ascii {b : UInt8} {ps : List (UInt8 → Bool)}
    (hps : followers b = some ps) {a : UInt8} (ha : a < 0x80) :
    ∀ p ∈ ps, p a = false := by
  have hcont : within 0x80 0xBF a = false := within_ascii (by decide) ha
  have hsecond := secondByte_ascii b ha
  unfold followers at hps
  split at hps
  · obtain rfl := Option.some.inj hps
    simp
  · split at hps
    · cases hps
    · split at hps
      · obtain rfl := Option.some.inj hps
        simp [hsecond]
      · split at hps
        · obtain rfl := Option.some.inj hps
          simp [hsecond, hcont]
        · split at hps
          · obtain rfl := Option.some.inj hps
            simp [hsecond, hcont]
          · cases hps

/-- Followers that refuse `a` take the same bytes whether the text ends or `a`
comes next. -/
theorem consume_append {a : UInt8} {ps : List (UInt8 → Bool)}
    (hps : ∀ p ∈ ps, p a = false) (xs ys : Bytes) :
    consume ps (xs ++ a :: ys) = ((consume ps xs).1, (consume ps xs).2 ++ a :: ys) := by
  induction ps generalizing xs with
  | nil => rfl
  | cons p ps ih =>
    have hp : p a = false := hps p (List.mem_cons_self ..)
    cases xs with
    | nil => simp [consume, hp]
    | cons c xs =>
      have hrest := ih (fun q hq => hps q (List.mem_cons_of_mem _ hq)) xs
      simp only [List.cons_append, consume, hrest]
      split <;> rfl

theorem decodeChar_append {a : UInt8} (ha : a < 0x80) (b : UInt8) (xs ys : Bytes) :
    decodeChar b (xs ++ a :: ys) =
      ((decodeChar b xs).1, (decodeChar b xs).2 ++ a :: ys) := by
  unfold decodeChar
  split
  · rfl
  · next ps hps => rw [consume_append (followers_ascii hps ha)]

/-- **Decoding splits at an ASCII byte.** -/
theorem fromUtf8Lossy_append_ascii {a : UInt8} (ha : a < 0x80) (xs ys : Bytes) :
    fromUtf8Lossy (xs ++ a :: ys) =
      fromUtf8Lossy xs ++ charOf a :: fromUtf8Lossy ys := by
  induction xs using fromUtf8Lossy.induct with
  | case1 => rw [List.nil_append, fromUtf8Lossy_cons_ascii ha]; simp
  | case2 b rest ih =>
    rw [List.cons_append, fromUtf8Lossy, decodeChar_append ha, ih]
    conv_rhs => rw [fromUtf8Lossy]
    rfl

/-! ### ASCII text comes from ASCII bytes -/

/-- A byte in a range, as arithmetic. -/
theorem within_range {lo hi : Nat} {c : UInt8} (hc : within lo hi c = true) :
    lo ≤ c.toNat ∧ c.toNat ≤ hi := by
  simpa [within] using hc

/-- The ranges of a second byte, as arithmetic. -/
theorem secondByte_range {b c : UInt8} (hc : secondByte b c = true) :
    0x80 ≤ c.toNat ∧ c.toNat ≤ 0xBF ∧ (b.toNat = 0xE0 → 0xA0 ≤ c.toNat) ∧
      (b.toNat = 0xED → c.toNat ≤ 0x9F) ∧ (b.toNat = 0xF0 → 0x90 ≤ c.toNat) ∧
      (b.toNat = 0xF4 → c.toNat ≤ 0x8F) := by
  have heq {n : UInt8} (h : b = n) : b.toNat = n.toNat := congrArg UInt8.toNat h
  have hne {n : UInt8} (h : ¬ b = n) : b.toNat ≠ n.toNat := fun e => h (UInt8.toNat_inj.mp e)
  unfold secondByte at hc
  -- the leading bytes with a range of their own, one after the other
  split at hc
  · next hb =>
    have hlead : b.toNat = 0xE0 := heq hb
    have hrange := within_range hc
    omega
  · next hE0 =>
    have hE0' : b.toNat ≠ 0xE0 := hne hE0
    split at hc
    · next hb =>
      have hlead : b.toNat = 0xED := heq hb
      have hrange := within_range hc
      omega
    · next hED =>
      have hED' : b.toNat ≠ 0xED := hne hED
      split at hc
      · next hb =>
        have hlead : b.toNat = 0xF0 := heq hb
        have hrange := within_range hc
        omega
      · next hF0 =>
        have hF0' : b.toNat ≠ 0xF0 := hne hF0
        split at hc
        · next hb =>
          have hlead : b.toNat = 0xF4 := heq hb
          have hrange := within_range hc
          omega
        · next hF4 =>
          have hF4' : b.toNat ≠ 0xF4 := hne hF4
          have hrange := within_range hc
          omega

/-- What a complete sequence after a leading byte looks like. -/
theorem consume_some {p : UInt8 → Bool} {ps : List (UInt8 → Bool)} {bs cs : Bytes}
    (h : (consume (p :: ps) bs).1 = some cs) :
    ∃ c bs' cs', bs = c :: bs' ∧ p c = true ∧ (consume ps bs').1 = some cs' ∧
      cs = c :: cs' := by
  cases bs with
  | nil => cases h
  | cons c bs' =>
    rw [consume] at h
    split at h
    · next hp =>
      obtain ⟨cs', hcs', rfl⟩ := Option.map_eq_some_iff.mp h
      exact ⟨c, bs', cs', rfl, hp, hcs', rfl⟩
    · cases h

/-- The value of a sequence of two bytes. -/
theorem scalar_two {b : UInt8} (c : UInt8) (hb : ¬ b < 0x80) (hE0 : b < 0xE0) :
    scalar b [c] = (b.toNat - 0xC0) * 64 + (c.toNat - 0x80) := by
  simp only [scalar, List.foldl_cons, List.foldl_nil, leadBits, if_neg hb, if_pos hE0]

/-- The value of a sequence of three bytes. -/
theorem scalar_three {b : UInt8} (c d : UInt8) (hb : ¬ b < 0x80) (hE0 : ¬ b < 0xE0)
    (hF0 : b < 0xF0) :
    scalar b [c, d] = ((b.toNat - 0xE0) * 64 + (c.toNat - 0x80)) * 64 + (d.toNat - 0x80) := by
  simp only [scalar, List.foldl_cons, List.foldl_nil, leadBits, if_neg hb, if_neg hE0, if_pos hF0]

/-- The value of a sequence of four bytes. -/
theorem scalar_four {b : UInt8} (c d e : UInt8) (hb : ¬ b < 0x80) (hE0 : ¬ b < 0xE0)
    (hF0 : ¬ b < 0xF0) :
    scalar b [c, d, e] = (((b.toNat - 0xF0) * 64 + (c.toNat - 0x80)) * 64 +
      (d.toNat - 0x80)) * 64 + (e.toNat - 0x80) := by
  simp only [scalar, List.foldl_cons, List.foldl_nil, leadBits, if_neg hb, if_neg hE0, if_neg hF0]

/-- A well-formed sequence of two bytes or more has a scalar value, beyond
ASCII. -/
theorem scalar_nonAscii {b : UInt8} (hb : ¬ b < 0x80) {ps : List (UInt8 → Bool)}
    (hps : followers b = some ps) {bs cs : Bytes} (hcs : (consume ps bs).1 = some cs) :
    128 ≤ scalar b cs ∧ (scalar b cs).isValidChar := by
  unfold followers at hps
  rw [if_neg hb] at hps
  split at hps
  · cases hps
  · next hC2 =>
    have hlow : 0xC2 ≤ b.toNat := Nat.le_of_not_lt hC2
    split at hps
    · next hE0 =>
      -- two bytes
      have hhigh : b.toNat < 0xE0 := hE0
      obtain rfl := Option.some.inj hps
      obtain ⟨c, _, _, rfl, hc, hnil, rfl⟩ := consume_some hcs
      obtain rfl := Option.some.inj hnil
      have hsecond := secondByte_range hc
      rw [scalar_two c hb hE0, Nat.isValidChar]
      omega
    · next hE0 =>
      have hlow : 0xE0 ≤ b.toNat := Nat.le_of_not_lt hE0
      split at hps
      · next hF0 =>
        -- three bytes; the second excludes overlong forms and surrogates
        have hhigh : b.toNat < 0xF0 := hF0
        obtain rfl := Option.some.inj hps
        obtain ⟨c, _, _, rfl, hc, hrest, rfl⟩ := consume_some hcs
        obtain ⟨d, _, _, rfl, hd, hnil, rfl⟩ := consume_some hrest
        obtain rfl := Option.some.inj hnil
        have hsecond := secondByte_range hc
        have hthird := within_range hd
        rw [scalar_three c d hb hE0 hF0, Nat.isValidChar]
        omega
      · next hF0 =>
        have hlow : 0xF0 ≤ b.toNat := Nat.le_of_not_lt hF0
        split at hps
        · next hF5 =>
          -- four bytes; the second excludes what is past 0x10FFFF
          have hhigh : b.toNat < 0xF5 := hF5
          obtain rfl := Option.some.inj hps
          obtain ⟨c, _, _, rfl, hc, hrest, rfl⟩ := consume_some hcs
          obtain ⟨d, _, _, rfl, hd, hrest', rfl⟩ := consume_some hrest
          obtain ⟨e, _, _, rfl, he, hnil, rfl⟩ := consume_some hrest'
          obtain rfl := Option.some.inj hnil
          have hsecond := secondByte_range hc
          have hthird := within_range hd
          have hfourth := within_range he
          rw [scalar_four c d e hb hE0 hF0, Nat.isValidChar]
          omega
        · cases hps

theorem toNat_ofNat {n : Nat} (hn : n.isValidChar) : (Char.ofNat n).toNat = n := by
  rw [Char.ofNat, dif_pos hn]
  exact UInt32.toNat_ofNatLT ..

/-- A byte that is not ASCII never decodes to an ASCII character. -/
theorem decodeChar_nonAscii {b : UInt8} (hb : ¬ b < 0x80) (rest : Bytes) :
    128 ≤ ((decodeChar b rest).1.getD replacementCharacter).toNat := by
  have hrepl : 128 ≤ replacementCharacter.toNat := by decide
  unfold decodeChar
  split
  · exact hrepl
  · next ps hps =>
    cases hcs : (consume ps rest).1 with
    | none => simpa [hcs] using hrepl
    | some cs =>
      obtain ⟨hge, hvalid⟩ := scalar_nonAscii hb hps hcs
      simpa [toNat_ofNat hvalid] using hge

/-- Text decoded from bytes is ASCII only if the bytes are. -/
theorem fromUtf8Lossy_isAscii {bs : Bytes} (h : IsAscii (fromUtf8Lossy bs)) :
    ∀ b ∈ bs, b < 0x80 := by
  induction bs using fromUtf8Lossy.induct with
  | case1 => simp
  | case2 b rest ih =>
    rw [fromUtf8Lossy] at h
    by_cases hb : b < 0x80
    · rw [decodeChar_ascii hb] at h ih
      intro c hc
      rcases List.mem_cons.mp hc with rfl | hc
      · exact hb
      · exact ih (fun d hd => h d (List.mem_cons_of_mem _ hd)) c hc
    · have hlt := h _ (List.mem_cons_self ..)
      have hge := decodeChar_nonAscii hb rest
      omega

/-- Encoding gives back bytes whose text is ASCII. -/
theorem utf8_fromUtf8Lossy {bs : Bytes} (h : IsAscii (fromUtf8Lossy bs)) :
    utf8 (fromUtf8Lossy bs) = bs := by
  rw [utf8_ascii h, fromUtf8Lossy_ascii (fromUtf8Lossy_isAscii h), List.map_map]
  refine map_eq_self fun b _ => ?_
  show UInt8.ofNat (charOf b).toNat = b
  rw [charOf_toNat, UInt8.ofNat_toNat]

theorem consume_suffix (ps : List (UInt8 → Bool)) (bs : Bytes) : (consume ps bs).2 <:+ bs := by
  induction ps generalizing bs with
  | nil => exact List.suffix_refl bs
  | cons p ps ih =>
    cases bs with
    | nil => exact List.suffix_refl _
    | cons c bs =>
      rw [consume]
      split
      · exact (ih bs).trans (List.suffix_cons c bs)
      · exact List.suffix_refl _

/-- What is left after a character is an end of what was there. -/
theorem decodeChar_suffix (b : UInt8) (rest : Bytes) :
    (decodeChar b rest).2 <:+ rest := by
  unfold decodeChar
  split
  · exact List.suffix_refl _
  · exact consume_suffix _ rest

/-- **An ASCII end of the decoded text was in the bytes.** -/
theorem fromUtf8Lossy_ascii_suffix {bs : Bytes} {u s : Str} (hs : IsAscii s)
    (h : fromUtf8Lossy bs = u ++ s) : utf8 s <:+ bs := by
  induction bs using fromUtf8Lossy.induct generalizing u with
  | case1 =>
    rw [fromUtf8Lossy_nil] at h
    obtain ⟨-, rfl⟩ := List.append_eq_nil_iff.mp h.symm
    exact List.suffix_refl _
  | case2 b rest ih =>
    cases u with
    | nil =>
      -- the whole text is ASCII, so the bytes are its own
      rw [List.nil_append] at h
      refine ⟨[], ?_⟩
      rw [List.nil_append, ← h, @utf8_fromUtf8Lossy (b :: rest) (h ▸ hs)]
    | cons c u =>
      rw [fromUtf8Lossy, List.cons_append] at h
      have htail := ih (List.cons.inj h).2
      exact (htail.trans (decodeChar_suffix b rest)).trans (List.suffix_cons b rest)

end Text
