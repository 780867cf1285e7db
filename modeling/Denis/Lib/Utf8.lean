import Denis.Lib.Text

/-!
# Well-formed UTF-8 survives lossy decoding

The UTF-8 form of a string decodes to the string, whatever its characters
(`fromUtf8Lossy_wellFormed`), so lossy decoding tells well-formed byte strings
apart: only ill-formed bytes are lost. Lower-casing ASCII letters byte by byte
keeps a byte string well formed (`map_toAsciiLowercase_utf8`).
-/

namespace Text

/-- The bytes are the UTF-8 form of some string. -/
def WellFormed (bs : Bytes) : Prop := ∃ s : Str, bs = utf8 s

/-! ## Sequences of each length -/

/-- Followers that all match are taken. -/
theorem consume_append_all {ps : List (UInt8 → Bool)} {cs : Bytes}
    (h : List.Forall₂ (fun p c => p c = true) ps cs) (rest : Bytes) :
    consume ps (cs ++ rest) = (some cs, rest) := by
  induction h with
  | nil => rfl
  | cons hp _ ih => rw [List.cons_append, consume, if_pos hp, ih]; rfl

/-- A leading byte with the followers it asks for. -/
theorem decodeChar_append_all {b : UInt8} {ps : List (UInt8 → Bool)} {cs : Bytes}
    (hps : followers b = some ps) (h : List.Forall₂ (fun p c => p c = true) ps cs) (rest : Bytes) :
    decodeChar b (cs ++ rest) = (some (Char.ofNat (scalar b cs)), rest) := by
  simp only [decodeChar, hps, consume_append_all h, Option.map_some]

theorem within_of {lo hi : Nat} {c : UInt8} (hlo : lo ≤ c.toNat) (hhi : c.toNat ≤ hi) :
    within lo hi c = true := by
  simp [within, hlo, hhi]

/-- The second bytes allowed after a leading byte. -/
theorem secondByte_of {b c : UInt8} (hlo : 0x80 ≤ c.toNat) (hhi : c.toNat ≤ 0xBF)
    (hE0 : b.toNat = 0xE0 → 0xA0 ≤ c.toNat) (hED : b.toNat = 0xED → c.toNat ≤ 0x9F)
    (hF0 : b.toNat = 0xF0 → 0x90 ≤ c.toNat) (hF4 : b.toNat = 0xF4 → c.toNat ≤ 0x8F) :
    secondByte b c = true := by
  have heq {n : UInt8} (h : b = n) : b.toNat = n.toNat := congrArg UInt8.toNat h
  unfold secondByte
  split
  · next hb => exact within_of (hE0 (heq hb)) hhi
  · split
    · next hb => exact within_of hlo (hED (heq hb))
    · split
      · next hb => exact within_of (hF0 (heq hb)) hhi
      · split
        · next hb => exact within_of hlo (hF4 (heq hb))
        · exact within_of hlo hhi

theorem followers_two {b : UInt8} (hlo : 0xC2 ≤ b.toNat) (hhi : b.toNat < 0xE0) :
    followers b = some [secondByte b] := by
  have h80 : ¬ b < 0x80 := Nat.not_lt.mpr (show 0x80 ≤ b.toNat by omega)
  have hC2 : ¬ b < 0xC2 := Nat.not_lt.mpr hlo
  have hE0 : b < 0xE0 := hhi
  rw [followers, if_neg h80, if_neg hC2, if_pos hE0]

theorem followers_three {b : UInt8} (hlo : 0xE0 ≤ b.toNat) (hhi : b.toNat < 0xF0) :
    followers b = some [secondByte b, within 0x80 0xBF] := by
  have h80 : ¬ b < 0x80 := Nat.not_lt.mpr (show 0x80 ≤ b.toNat by omega)
  have hC2 : ¬ b < 0xC2 := Nat.not_lt.mpr (show 0xC2 ≤ b.toNat by omega)
  have hE0 : ¬ b < 0xE0 := Nat.not_lt.mpr hlo
  have hF0 : b < 0xF0 := hhi
  rw [followers, if_neg h80, if_neg hC2, if_neg hE0, if_pos hF0]

theorem followers_four {b : UInt8} (hlo : 0xF0 ≤ b.toNat) (hhi : b.toNat < 0xF5) :
    followers b = some [secondByte b, within 0x80 0xBF, within 0x80 0xBF] := by
  have h80 : ¬ b < 0x80 := Nat.not_lt.mpr (show 0x80 ≤ b.toNat by omega)
  have hC2 : ¬ b < 0xC2 := Nat.not_lt.mpr (show 0xC2 ≤ b.toNat by omega)
  have hE0 : ¬ b < 0xE0 := Nat.not_lt.mpr (show 0xE0 ≤ b.toNat by omega)
  have hF0 : ¬ b < 0xF0 := Nat.not_lt.mpr hlo
  have hF5 : b < 0xF5 := hhi
  rw [followers, if_neg h80, if_neg hC2, if_neg hE0, if_neg hF0, if_pos hF5]

/-! ## Decoding what was encoded -/

/-- A value of two bytes. -/
theorem decodeChar_two {v : Nat} (hlo : 0x7F < v) (hhi : v ≤ 0x7FF) (rest : Bytes) :
    decodeChar (UInt8.ofNat (v / 64 % 0x20 + 0xC0)) ([UInt8.ofNat (v % 0x40 + 0x80)] ++ rest) =
      (some (Char.ofNat v), rest) := by
  generalize hb : UInt8.ofNat (v / 64 % 0x20 + 0xC0) = b
  generalize hc : UInt8.ofNat (v % 0x40 + 0x80) = c
  have hb' : b.toNat = v / 64 + 0xC0 := by rw [← hb, UInt8.toNat_ofNat']; omega
  have hc' : c.toNat = v % 64 + 0x80 := by rw [← hc, UInt8.toNat_ofNat']; omega
  have hsecond : secondByte b c = true :=
    secondByte_of (by omega) (by omega) (by omega) (by omega) (by omega) (by omega)
  have hscalar : scalar b [c] = v := by
    rw [scalar_two c (Nat.not_lt.mpr (show 0x80 ≤ b.toNat by omega))
      (show b.toNat < 0xE0 by omega)]
    omega
  rw [decodeChar_append_all (followers_two (by omega) (by omega)) (.cons hsecond .nil), hscalar]

/-- A value of three bytes, not a surrogate. -/
theorem decodeChar_three {v : Nat} (hlo : 0x7FF < v) (hhi : v ≤ 0xFFFF)
    (hvalid : v < 0xD800 ∨ 0xDFFF < v) (rest : Bytes) :
    decodeChar (UInt8.ofNat (v / 4096 % 0x10 + 0xE0))
        ([UInt8.ofNat (v / 64 % 0x40 + 0x80), UInt8.ofNat (v % 0x40 + 0x80)] ++ rest) =
      (some (Char.ofNat v), rest) := by
  generalize hb : UInt8.ofNat (v / 4096 % 0x10 + 0xE0) = b
  generalize hc : UInt8.ofNat (v / 64 % 0x40 + 0x80) = c
  generalize hd : UInt8.ofNat (v % 0x40 + 0x80) = d
  have hb' : b.toNat = v / 4096 + 0xE0 := by rw [← hb, UInt8.toNat_ofNat']; omega
  have hc' : c.toNat = v / 64 % 64 + 0x80 := by rw [← hc, UInt8.toNat_ofNat']; omega
  have hd' : d.toNat = v % 64 + 0x80 := by rw [← hd, UInt8.toNat_ofNat']; omega
  -- no overlong form, no surrogate
  have hsecond : secondByte b c = true :=
    secondByte_of (by omega) (by omega) (by omega) (by omega) (by omega) (by omega)
  have hthird : within 0x80 0xBF d = true := within_of (by omega) (by omega)
  have hscalar : scalar b [c, d] = v := by
    rw [scalar_three c d (Nat.not_lt.mpr (show 0x80 ≤ b.toNat by omega))
      (Nat.not_lt.mpr (show 0xE0 ≤ b.toNat by omega)) (show b.toNat < 0xF0 by omega)]
    omega
  rw [decodeChar_append_all (followers_three (by omega) (by omega))
    (.cons hsecond (.cons hthird .nil)), hscalar]

/-- A value of four bytes. -/
theorem decodeChar_four {v : Nat} (hlo : 0xFFFF < v) (hhi : v < 0x110000) (rest : Bytes) :
    decodeChar (UInt8.ofNat (v / 262144 % 0x08 + 0xF0))
        ([UInt8.ofNat (v / 4096 % 0x40 + 0x80), UInt8.ofNat (v / 64 % 0x40 + 0x80),
          UInt8.ofNat (v % 0x40 + 0x80)] ++ rest) =
      (some (Char.ofNat v), rest) := by
  generalize hb : UInt8.ofNat (v / 262144 % 0x08 + 0xF0) = b
  generalize hc : UInt8.ofNat (v / 4096 % 0x40 + 0x80) = c
  generalize hd : UInt8.ofNat (v / 64 % 0x40 + 0x80) = d
  generalize he : UInt8.ofNat (v % 0x40 + 0x80) = e
  have hb' : b.toNat = v / 262144 + 0xF0 := by rw [← hb, UInt8.toNat_ofNat']; omega
  have hc' : c.toNat = v / 4096 % 64 + 0x80 := by rw [← hc, UInt8.toNat_ofNat']; omega
  have hd' : d.toNat = v / 64 % 64 + 0x80 := by rw [← hd, UInt8.toNat_ofNat']; omega
  have he' : e.toNat = v % 64 + 0x80 := by rw [← he, UInt8.toNat_ofNat']; omega
  -- no overlong form, nothing past the last scalar value
  have hsecond : secondByte b c = true :=
    secondByte_of (by omega) (by omega) (by omega) (by omega) (by omega) (by omega)
  have hthird : within 0x80 0xBF d = true := within_of (by omega) (by omega)
  have hfourth : within 0x80 0xBF e = true := within_of (by omega) (by omega)
  have hscalar : scalar b [c, d, e] = v := by
    rw [scalar_four c d e (Nat.not_lt.mpr (show 0x80 ≤ b.toNat by omega))
      (Nat.not_lt.mpr (show 0xE0 ≤ b.toNat by omega))
      (Nat.not_lt.mpr (show 0xF0 ≤ b.toNat by omega))]
    omega
  rw [decodeChar_append_all (followers_four (by omega) (by omega))
    (.cons hsecond (.cons hthird (.cons hfourth .nil))), hscalar]

/-- A character's bytes decode to it. -/
theorem decodeChar_utf8EncodeChar (c : Char) (rest : Bytes) :
    ∃ b cs, String.utf8EncodeChar c = b :: cs ∧ decodeChar b (cs ++ rest) = (some c, rest) := by
  have hvalid : c.val.toNat.isValidChar := c.valid
  rw [Nat.isValidChar] at hvalid
  have hchar : Char.ofNat c.val.toNat = c := Char.ofNat_toNat c
  generalize hv : c.val.toNat = v at hvalid hchar
  unfold String.utf8EncodeChar
  dsimp only
  rw [hv]
  by_cases h1 : v ≤ 0x7F
  · rw [if_pos h1]
    refine ⟨_, _, rfl, ?_⟩
    have hb : (UInt8.ofNat v).toNat = v := by rw [UInt8.toNat_ofNat']; omega
    have hascii : UInt8.ofNat v < 0x80 := show (UInt8.ofNat v).toNat < 0x80 by omega
    rw [List.nil_append, decodeChar_ascii hascii, charOf, hb, hchar]
  · by_cases h2 : v ≤ 0x7FF
    · rw [if_neg h1, if_pos h2]
      exact ⟨_, _, rfl, hchar ▸ decodeChar_two (by omega) h2 rest⟩
    · by_cases h3 : v ≤ 0xFFFF
      · rw [if_neg h1, if_neg h2, if_pos h3]
        exact ⟨_, _, rfl, hchar ▸ decodeChar_three (by omega) h3 (by omega) rest⟩
      · rw [if_neg h1, if_neg h2, if_neg h3]
        exact ⟨_, _, rfl, hchar ▸ decodeChar_four (by omega) (by omega) rest⟩

/-- **The bytes of a string decode to it.** -/
theorem fromUtf8Lossy_wellFormed (s : Str) : fromUtf8Lossy (utf8 s) = s := by
  induction s with
  | nil => exact fromUtf8Lossy_nil
  | cons c s ih =>
    obtain ⟨b, cs, hbytes, hdecode⟩ := decodeChar_utf8EncodeChar c (utf8 s)
    have hutf8 : utf8 (c :: s) = b :: (cs ++ utf8 s) := by
      show String.utf8EncodeChar c ++ utf8 s = _
      rw [hbytes, List.cons_append]
    rw [hutf8, fromUtf8Lossy, hdecode, ih]
    rfl

/-- Lossy decoding tells well-formed bytes apart. -/
theorem WellFormed.inj {bs cs : Bytes} (hbs : WellFormed bs) (hcs : WellFormed cs)
    (h : fromUtf8Lossy bs = fromUtf8Lossy cs) : bs = cs := by
  obtain ⟨s, rfl⟩ := hbs
  obtain ⟨t, rfl⟩ := hcs
  rw [fromUtf8Lossy_wellFormed, fromUtf8Lossy_wellFormed] at h
  rw [h]

/-! ## What keeps bytes well formed -/

/-- ASCII bytes are well formed. -/
theorem WellFormed.of_ascii {bs : Bytes} (hbs : ∀ b ∈ bs, b < 0x80) : WellFormed bs := by
  refine ⟨bs.map charOf, ?_⟩
  have hascii : IsAscii (fromUtf8Lossy bs) := by
    rw [fromUtf8Lossy_ascii hbs]
    intro c hc
    obtain ⟨b, hb, rfl⟩ := List.mem_map.mp hc
    rw [charOf_toNat]
    exact hbs b hb
  rw [← fromUtf8Lossy_ascii hbs, utf8_fromUtf8Lossy hascii]

theorem WellFormed.append {bs cs : Bytes} (hbs : WellFormed bs) (hcs : WellFormed cs) :
    WellFormed (bs ++ cs) := by
  obtain ⟨s, rfl⟩ := hbs
  obtain ⟨t, rfl⟩ := hcs
  exact ⟨s ++ t, (utf8_append s t).symm⟩

/-- Joining at an ASCII byte. -/
theorem WellFormed.intercalate {a : UInt8} (ha : a < 0x80) {pieces : List Bytes}
    (h : ∀ bs ∈ pieces, WellFormed bs) : WellFormed ([a].intercalate pieces) := by
  have hsep : WellFormed [a] := .of_ascii (by simpa using ha)
  induction pieces with
  | nil => exact ⟨[], rfl⟩
  | cons bs pieces ih =>
    have hbs := h bs (List.mem_cons_self ..)
    have hrest := ih fun cs hcs => h cs (List.mem_cons_of_mem _ hcs)
    by_cases hnil : pieces = []
    · subst hnil
      rwa [List.intercalate_singleton]
    · rw [List.intercalate_cons_of_ne_nil hnil]
      exact (hbs.append hsep).append hrest

/-- Lower-casing the ASCII letters of a byte string is lower-casing those of the
string. -/
theorem map_toAsciiLowercase_utf8 (s : Str) :
    (utf8 s).map toAsciiLowercase = utf8 (s.map Char.toLower) := by
  induction s with
  | nil => rfl
  | cons c s ih =>
    show (String.utf8EncodeChar c ++ utf8 s).map toAsciiLowercase =
      String.utf8EncodeChar c.toLower ++ utf8 (s.map Char.toLower)
    rw [List.map_append, ih]
    congr 1
    have hlower := toLower_toNat c
    rcases Nat.lt_or_ge c.toNat 128 with hc | hc
    · have hc' : c.toLower.toNat < 128 := by
        rw [hlower]
        split <;> omega
      have hbyte : (UInt8.ofNat c.toNat).toNat = c.toNat := by rw [UInt8.toNat_ofNat']; omega
      rw [utf8EncodeChar_ascii hc, utf8EncodeChar_ascii hc', List.map_singleton]
      congr 1
      refine UInt8.toNat_inj.mp ?_
      rw [toAsciiLowercase_toNat, hbyte, UInt8.toNat_ofNat', hlower]
      split <;> omega
    · -- beyond ASCII neither changes anything
      have hsame : c.toLower = c := by
        refine Char.ext (UInt32.toNat_inj.mp ?_)
        show c.toLower.toNat = c.toNat
        rw [hlower, if_neg (by omega)]
      rw [hsame]
      refine map_eq_self fun b hb => ?_
      have hhigh := utf8EncodeChar_high hc hb
      refine UInt8.toNat_inj.mp ?_
      rw [toAsciiLowercase_toNat, if_neg (by omega)]

theorem WellFormed.lower {bs : Bytes} (h : WellFormed bs) :
    WellFormed (bs.map toAsciiLowercase) := by
  obtain ⟨s, rfl⟩ := h
  exact ⟨_, map_toAsciiLowercase_utf8 s⟩

end Text
