import Denis.Lib.Text

/-!
# Bytes as lower-case hexadecimal digits

Two digits a byte, high half first, `0`–`9` and `a`–`f`. Every character of a
text is one of the sixteen digits (`digit_of_mem_encode`), which is what puts it
into a header or a URL unescaped.
-/

namespace Hex

open Text

/-- The digit of a half byte. -/
def digit (n : Nat) : Char := Char.ofNat (if n < 10 then 48 + n else 87 + n)

/-- The two digits of a byte. -/
def encodeByte (b : UInt8) : Str := [digit (b.toNat / 16), digit (b.toNat % 16)]

/-- The digits of a byte string. -/
def encode (bytes : Bytes) : Str := bytes.flatMap encodeByte

theorem digit_toNat {n : Nat} (hn : n < 16) :
    (digit n).toNat = if n < 10 then 48 + n else 87 + n := by
  unfold digit
  refine toNat_ofNat (.inl ?_)
  split <;> omega

theorem halves_lt (b : UInt8) : b.toNat / 16 < 16 ∧ b.toNat % 16 < 16 := by
  have hlt := b.toNat_lt
  omega

/-- Every character of a text is a lower-case hexadecimal digit. -/
theorem digit_of_mem_encode {bytes : Bytes} {c : Char} (hc : c ∈ encode bytes) :
    ∃ n < 16, c = digit n := by
  obtain ⟨b, -, hmem⟩ := List.mem_flatMap.mp hc
  obtain ⟨hhi, hlo⟩ := halves_lt b
  rcases List.mem_cons.mp hmem with rfl | hmem
  · exact ⟨_, hhi, rfl⟩
  · obtain rfl := List.mem_singleton.mp hmem
    exact ⟨_, hlo, rfl⟩

end Hex
