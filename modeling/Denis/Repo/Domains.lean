import Denis.Lib.DomainName
import Denis.Lib.Utf8
import Mathlib.Data.Finset.Basic

/-!
# Domain lists and the block decision (`repo/cache.rs`)

- `decide` and `anySuffixMatch` are the block decision of `cache.rs:386–426`.
  Both look at a name and at what follows each of its dots
  (`memchr_iter(b'.')`, then `&name[p + 1..]`), in order.
- `normalizeDomains` and `isValidDomain` are `cache.rs:474–493`.

`Covers` is the abstract reading of the search: a set covers a name if it holds
the name or one of its ends after a dot. `decide_iff` says the three-path code
computes "blocked and not allowed" in that reading.
-/

namespace Denis

open Text

/-- `DomainSet`. -/
abbrev DomainSet := Finset Str

namespace Repo

/-- `any_suffix_match` (`cache.rs:413–426`). -/
def anySuffixMatch (set : DomainSet) (name : Str) : Bool :=
  if set = ∅ then false
  else if name ∈ set then true
  else (suffixesAfter '.' name).any (· ∈ set)

/-- The loop of `decide` over the suffixes (`cache.rs:400–408`). -/
def decideLoop (block allow : DomainSet) : Bool → List Str → Bool
  | blocked, [] => blocked
  | blocked, suffix :: rest =>
    if suffix ∈ allow then false
    else decideLoop block allow (blocked || suffix ∈ block) rest

/-- `decide` (`cache.rs:388–410`). -/
def decide (block allow : DomainSet) (name : Str) : Bool :=
  if block = ∅ then false
  else if allow = ∅ then anySuffixMatch block name
  else if name ∈ allow then false
  else decideLoop block allow (name ∈ block) (suffixesAfter '.' name)

/-- Letters, digits, `-` and `_`. -/
def isHostnameByte (b : UInt8) : Bool := isAsciiAlphanumeric b || b == 45 || b == 95

/-- `is_valid_domain` (`cache.rs:482–493`). -/
def isValidDomain (d : Str) : Bool :=
  if d.isEmpty || 253 < len d || !d.contains '.' then false
  else
    (d.splitOn '.').all fun label =>
      !label.isEmpty && len label ≤ 63 && (utf8 label).all isHostnameByte

/-- `normalize_domains` (`cache.rs:474–480`). -/
def normalizeDomains (lc : Lowercase) (domains : List Str) : List Str :=
  (domains.map fun d => lc.toLowercase (trimEndMatches '.' (trim d))).filter isValidDomain

/-! ## The decision, abstractly -/

/-- The set holds the name or an end of it after a dot. -/
def Covers (set : DomainSet) (name : Str) : Prop :=
  name ∈ set ∨ ∃ s ∈ suffixesAfter '.' name, s ∈ set

theorem not_covers_empty (name : Str) : ¬ Covers ∅ name := by
  simp [Covers]

/-- A larger set covers more. -/
theorem Covers.mono {set set' : DomainSet} {name : Str} (h : set ⊆ set')
    (hc : Covers set name) : Covers set' name := by
  rcases hc with hname | ⟨s, hs, hset⟩
  · exact .inl (h hname)
  · exact .inr ⟨s, hs, h hset⟩

theorem anySuffixMatch_iff (set : DomainSet) (name : Str) :
    anySuffixMatch set name = true ↔ Covers set name := by
  unfold anySuffixMatch
  split
  · next hempty =>
    subst hempty
    simp [not_covers_empty]
  · split
    · next hname => simp [Covers, hname]
    · next hname => simp [Covers, hname]

/-- The loop: an allowed suffix wins whatever comes after it. -/
theorem decideLoop_iff (block allow : DomainSet) (blocked : Bool) (rest : List Str) :
    decideLoop block allow blocked rest = true ↔
      (blocked = true ∨ ∃ s ∈ rest, s ∈ block) ∧ ∀ s ∈ rest, s ∉ allow := by
  induction rest generalizing blocked with
  | nil => simp [decideLoop]
  | cons s rest ih =>
    rw [decideLoop]
    by_cases hallow : s ∈ allow
    · simp [hallow]
    · rw [if_neg hallow, ih]
      simp [hallow, or_assoc]

/-- **The block decision**: the block list covers the name and the allow list
does not. -/
theorem decide_iff (block allow : DomainSet) (name : Str) :
    decide block allow name = true ↔ Covers block name ∧ ¬ Covers allow name := by
  unfold decide
  split
  · next hblock =>
    subst hblock
    simp [not_covers_empty]
  · split
    · next hallow =>
      subst hallow
      rw [anySuffixMatch_iff]
      simp [not_covers_empty]
    · split
      · next hname => simp [Covers, hname]
      · next hname =>
        rw [decideLoop_iff]
        simp [Covers, hname]

theorem covers_iff {set : DomainSet} {name : Str} :
    Covers set name ↔ ∃ d ∈ set, d = name ∨ d ∈ suffixesAfter '.' name := by
  constructor
  · rintro (hname | ⟨d, hsuffix, hd⟩)
    · exact ⟨name, hname, .inl rfl⟩
    · exact ⟨d, hd, .inr hsuffix⟩
  · rintro ⟨d, hd, rfl | hsuffix⟩
    · exact .inl hd
    · exact .inr ⟨d, hsuffix, hd⟩

/-- An ASCII domain is decoded text, or what follows one of its dots, iff its
bytes are the bytes decoded, or what follows a dot byte of them. -/
theorem end_lossy_iff {d : Str} (hd : IsAscii d) (bs : Bytes) :
    (d = fromUtf8Lossy bs ∨ d ∈ suffixesAfter '.' (fromUtf8Lossy bs)) ↔
      utf8 d = bs ∨ utf8 d ∈ suffixesAfter 46 bs := by
  constructor
  · rintro (rfl | hsuffix)
    · exact .inl (utf8_fromUtf8Lossy hd)
    · -- the end and its dot are ASCII, so they were bytes of the name
      obtain ⟨u, hu⟩ := mem_suffixesAfter.mp hsuffix
      have hascii : IsAscii ('.' :: d) := by
        intro c hc
        rcases List.mem_cons.mp hc with rfl | hc
        · decide
        · exact hd c hc
      obtain ⟨w, hw⟩ := fromUtf8Lossy_ascii_suffix hascii hu
      exact .inr (mem_suffixesAfter.mpr ⟨w, hw.symm⟩)
  · rintro (rfl | hsuffix)
    · exact .inl (fromUtf8Lossy_utf8 hd).symm
    · obtain ⟨w, rfl⟩ := mem_suffixesAfter.mp hsuffix
      refine .inr (mem_suffixesAfter.mpr ⟨fromUtf8Lossy w, ?_⟩)
      rw [fromUtf8Lossy_append_ascii (by decide), fromUtf8Lossy_utf8 hd]
      rfl

/-- **A set of ASCII domains over decoded text** covers it iff one of them is
the bytes themselves or what follows a dot byte. -/
theorem covers_lossy {set : DomainSet} (hset : ∀ d ∈ set, IsAscii d) (bs : Bytes) :
    Covers set (fromUtf8Lossy bs) ↔ ∃ d ∈ set, utf8 d = bs ∨ utf8 d ∈ suffixesAfter 46 bs := by
  rw [covers_iff]
  exact exists_congr fun d => and_congr_right fun hd => end_lossy_iff (hset d hd) bs

/-- Over ASCII bytes any set can be read so: what it covers is ASCII. -/
theorem exists_of_covers_ascii {set : DomainSet} {bs : Bytes} (hbs : ∀ b ∈ bs, b < 0x80)
    (h : Covers set (fromUtf8Lossy bs)) :
    ∃ d ∈ set, utf8 d = bs ∨ utf8 d ∈ suffixesAfter 46 bs := by
  obtain ⟨d, hd, hend⟩ := covers_iff.mp h
  have htext : IsAscii (fromUtf8Lossy bs) := by
    rw [fromUtf8Lossy_ascii hbs]
    intro c hc
    obtain ⟨b, hb, rfl⟩ := List.mem_map.mp hc
    rw [charOf_toNat]
    exact hbs b hb
  have hascii : IsAscii d := by
    rcases hend with rfl | hsuffix
    · exact htext
    · obtain ⟨u, hu⟩ := mem_suffixesAfter.mp hsuffix
      exact fun c hc => htext c (by rw [hu]; simp [hc])
  exact ⟨d, hd, (end_lossy_iff hascii bs).mp hend⟩

/-! ## Valid domains -/

/-- What `is_valid_domain` checks. -/
structure ValidDomain (d : Str) : Prop where
  ne_nil : d ≠ []
  length : len d ≤ 253
  dot : '.' ∈ d
  labels : ∀ label ∈ d.splitOn '.', label ≠ [] ∧ len label ≤ 63 ∧
    ∀ b ∈ utf8 label, isHostnameByte b = true

theorem validDomain_of_isValidDomain {d : Str} (h : isValidDomain d = true) : ValidDomain d := by
  unfold isValidDomain at h
  split at h
  · cases h
  · next hhead =>
    simp only [Bool.or_eq_true, not_or, decide_eq_true_eq, List.isEmpty_iff,
      Bool.not_eq_true', Bool.not_eq_false, List.contains_iff_mem] at hhead
    obtain ⟨⟨hne, hlen⟩, hdot⟩ := hhead
    refine ⟨hne, by omega, hdot, ?_⟩
    intro label hlabel
    have hall := List.all_eq_true.mp h label hlabel
    simp only [Bool.and_eq_true, Bool.not_eq_true', List.isEmpty_eq_false_iff,
      decide_eq_true_eq, List.all_eq_true] at hall
    exact ⟨hall.1.1, hall.1.2, hall.2⟩

theorem isHostnameByte_ascii {b : UInt8} (h : isHostnameByte b = true) : b < 0x80 := by
  rw [UInt8.lt_iff_toNat_lt]
  show b.toNat < 128
  simp only [isHostnameByte, isAsciiAlphanumeric, Bool.or_eq_true, Bool.and_eq_true,
    decide_eq_true_eq, beq_iff_eq] at h
  rcases h with (h | rfl) | rfl
  · omega
  · decide
  · decide

/-- A letter in lower case stays one of host names. -/
theorem isHostnameByte_lower {b : UInt8} (h : isHostnameByte b = true) :
    isHostnameByte (toAsciiLowercase b) = true := by
  have hlower := toAsciiLowercase_toNat b
  have hdash : b = 45 ↔ b.toNat = 45 := UInt8.toNat_inj.symm
  have hunder : b = 95 ↔ b.toNat = 95 := UInt8.toNat_inj.symm
  have hdash' : toAsciiLowercase b = 45 ↔ (toAsciiLowercase b).toNat = 45 :=
    UInt8.toNat_inj.symm
  have hunder' : toAsciiLowercase b = 95 ↔ (toAsciiLowercase b).toNat = 95 :=
    UInt8.toNat_inj.symm
  simp only [isHostnameByte, isAsciiAlphanumeric, Bool.or_eq_true, Bool.and_eq_true,
    decide_eq_true_eq, beq_iff_eq, hdash, hunder, hdash', hunder'] at h ⊢
  split at hlower <;> omega

namespace ValidDomain

variable {d : Str}

/-- Every character of a valid domain is an ASCII one, a dot or of a label. -/
theorem mem_cases (h : ValidDomain d) {c : Char} (hc : c ∈ d) :
    c.toNat < 128 ∧ (c = '.' ∨ isHostnameByte (UInt8.ofNat c.toNat) = true) := by
  by_cases hdot : c = '.'
  · subst hdot
    exact ⟨by decide, .inl rfl⟩
  · have hjoin : ['.'].intercalate (d.splitOn '.') = d := List.intercalate_splitOn '.'
    rw [← hjoin] at hc
    obtain ⟨label, hlabel, hc⟩ := mem_of_mem_intercalate hc hdot
    have hbytes := (h.labels label hlabel).2.2
    have hascii := isAscii_of_utf8 (fun b hb => isHostnameByte_ascii (hbytes b hb)) c hc
    refine ⟨hascii, .inr (hbytes _ (List.mem_flatMap.mpr ⟨c, hc, ?_⟩))⟩
    rw [utf8EncodeChar_ascii hascii]
    exact List.mem_singleton_self _

theorem ascii (h : ValidDomain d) : IsAscii d := fun _ hc => (h.mem_cases hc).1

/-- None of its characters is white space. -/
theorem not_whitespace (h : ValidDomain d) {c : Char} (hc : c ∈ d) : isWhitespace c = false := by
  obtain ⟨hascii, rfl | hbyte⟩ := h.mem_cases hc
  · decide
  · have hnat : (UInt8.ofNat c.toNat).toNat = c.toNat := by
      rw [UInt8.toNat_ofNat']
      omega
    simp only [isHostnameByte, isAsciiAlphanumeric, Bool.or_eq_true, Bool.and_eq_true,
      decide_eq_true_eq, beq_iff_eq, ← UInt8.toNat_inj, hnat] at hbyte
    have h45 : (45 : UInt8).toNat = 45 := rfl
    have h95 : (95 : UInt8).toNat = 95 := rfl
    unfold isWhitespace
    simp only [Bool.or_eq_false_iff, Bool.and_eq_false_iff, decide_eq_false_iff_not,
      beq_eq_false_iff_ne]
    omega

/-- A valid domain does not end in a dot. -/
theorem not_dot_end (h : ValidDomain d) (e : Str) : d ≠ e ++ ['.'] := by
  rintro rfl
  have hempty : [] ∈ (e ++ ['.']).splitOn '.' := by
    rw [List.splitOn_append_cons_self]
    simp
  exact (h.labels [] hempty).1 rfl

/-- Nor do its bytes. -/
theorem getLast?_ne_dot (h : ValidDomain d) : ∃ b, (utf8 d).getLast? = some b ∧ b ≠ 46 := by
  rcases List.eq_nil_or_concat d with rfl | ⟨e, c, rfl⟩
  · exact absurd rfl h.ne_nil
  · rw [List.concat_eq_append] at h ⊢
    refine ⟨UInt8.ofNat c.toNat, ?_, fun hdot => ?_⟩
    · rw [utf8_ascii h.ascii]
      simp
    · have hc : c.toNat < 128 := h.ascii c (by simp)
      have hchar := charOf_ofNat hc
      rw [hdot] at hchar
      obtain rfl : c = '.' := hchar.symm
      exact h.not_dot_end e rfl

end ValidDomain

/-! ## Nothing to trim -/

/-- No white space around the text, and no dot at its end. -/
structure Bare (text : Str) : Prop where
  start : ∀ c ∈ text.head?, isWhitespace c = false
  finish : ∀ c ∈ text.getLast?, isWhitespace c = false ∧ c ≠ '.'

/-- There is nothing to trim or strip. -/
theorem Bare.normal {text : Str} (h : Bare text) : trimEndMatches '.' (trim text) = text := by
  rw [trim_eq_self h.start fun c hc => (h.finish c hc).1]
  exact trimEndMatches_eq_self fun hdot => (h.finish '.' hdot).2 rfl

theorem ValidDomain.bare {d : Str} (h : ValidDomain d) : Bare d where
  start c hc := h.not_whitespace (List.mem_of_mem_head? hc)
  finish := by
    intro c hc
    refine ⟨h.not_whitespace (List.mem_of_mem_getLast? hc), ?_⟩
    rintro rfl
    obtain ⟨e, he⟩ := List.getLast?_eq_some_iff.mp hc
    exact h.not_dot_end e he

/-! ## Lower case -/

/-- Checking accepts what it asks for. -/
theorem isValidDomain_of_validDomain {d : Str} (h : ValidDomain d) : isValidDomain d = true := by
  have hlength : ¬ 253 < len d := Nat.not_lt.mpr h.length
  rw [isValidDomain, if_neg (by simp [h.ne_nil, hlength, h.dot]), List.all_eq_true]
  intro label hlabel
  obtain ⟨hne, hle, hbytes⟩ := h.labels label hlabel
  simp [hne, hle, List.all_eq_true.mpr hbytes]

theorem toLower_eq_dot {c : Char} : c.toLower = '.' ↔ c = '.' := by
  have hdot : ('.' : Char).toNat = 46 := rfl
  rw [← Char.toNat_inj, ← Char.toNat_inj, toLower_toNat, hdot]
  split <;> omega

/-- **A valid domain is valid in lower case.** -/
theorem ValidDomain.lower {d : Str} (h : ValidDomain d) : ValidDomain (d.map Char.toLower) where
  ne_nil := by simpa using h.ne_nil
  length := by
    rw [len, ← map_toAsciiLowercase_utf8, List.length_map]
    exact h.length
  dot := List.mem_map.mpr ⟨'.', h.dot, rfl⟩
  labels := by
    intro label hlabel
    rw [splitOn_map fun _ => toLower_eq_dot] at hlabel
    obtain ⟨piece, hpiece, rfl⟩ := List.mem_map.mp hlabel
    obtain ⟨hne, hle, hbytes⟩ := h.labels piece hpiece
    refine ⟨by simpa using hne, ?_, ?_⟩
    · rwa [len, ← map_toAsciiLowercase_utf8, List.length_map]
    · rw [← map_toAsciiLowercase_utf8]
      intro b hb
      obtain ⟨c, hc, rfl⟩ := List.mem_map.mp hb
      exact isHostnameByte_lower (hbytes c hc)

end Repo

end Denis
