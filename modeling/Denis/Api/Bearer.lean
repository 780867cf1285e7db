import Denis.Lib.Hex

/-!
# Presenting a token (`api/auth.rs`)

A token is 32 bytes drawn at random, in hexadecimal; a client presents it as
`Authorization: Bearer <token>`. What `require_auth` reads of a header is given
exactly (`bearerToken_eq_some`), and a token drawn is read back as it is, in the
one spelling the code accepts (`bearerToken_randomToken`).
-/

namespace Denis

open Text

/-- `HeaderValue::to_str`: visible ASCII, blanks and tabs. -/
def headerToStr (value : Bytes) : Option Str :=
  if value.all fun b => b == 9 || (32 ≤ b.toNat && b.toNat < 127) then some (value.map charOf)
  else none

/-- What comes before the token. -/
def bearerPrefix : Str := ['B', 'e', 'a', 'r', 'e', 'r', ' ']

/-- The token of a request, from its `Authorization` header
(`auth.rs:395–399`). -/
def bearerToken (authorization : Option Bytes) : Option Str :=
  (authorization.bind headerToStr).bind fun h => h.dropPrefix? bearerPrefix

/-- `random_token` (`auth.rs:428–438`), of the bytes `fill_bytes` draws. -/
def randomToken (bytes : Vector UInt8 32) : Str := Hex.encode bytes.toList

/-- **The headers that carry a token.** -/
theorem bearerToken_eq_some {authorization : Option Bytes} {token : Str} :
    bearerToken authorization = some token ↔
      ∃ value, authorization = some value ∧ headerToStr value = some (bearerPrefix ++ token) := by
  unfold bearerToken
  constructor
  · intro h
    obtain ⟨text, htext, hstrip⟩ := Option.bind_eq_some_iff.mp h
    obtain ⟨value, rfl, hvalue⟩ := Option.bind_eq_some_iff.mp htext
    obtain ⟨head, rfl, hhead⟩ := List.dropPrefix?_eq_some_iff.mp hstrip
    rw [beq_iff_eq.mp hhead] at hvalue
    exact ⟨value, rfl, hvalue⟩
  · rintro ⟨value, rfl, hvalue⟩
    rw [Option.bind_some, hvalue, Option.bind_some, List.dropPrefix?_eq_some_iff]
    exact ⟨bearerPrefix, rfl, beq_self_eq_true _⟩

/-- Printable ASCII is a header as it is. -/
theorem headerToStr_utf8 {s : Str} (hs : ∀ c ∈ s, 32 ≤ c.toNat ∧ c.toNat < 127) :
    headerToStr (utf8 s) = some s := by
  have hascii : IsAscii s := fun c hc => Nat.lt_trans (hs c hc).2 (by decide)
  rw [utf8_ascii hascii]
  have hcode : ∀ c ∈ s, (UInt8.ofNat c.toNat).toNat = c.toNat := by
    intro c hc
    rw [UInt8.toNat_ofNat', Nat.mod_eq_of_lt]
    have hlt := (hs c hc).2
    omega
  rw [headerToStr, if_pos, List.map_map]
  · refine congrArg some (map_eq_self fun c hc => ?_)
    exact charOf_ofNat (hascii c hc)
  · rw [List.all_eq_true]
    intro b hb
    obtain ⟨c, hc, rfl⟩ := List.mem_map.mp hb
    obtain ⟨hlo, hhi⟩ := hs c hc
    rw [hcode c hc]
    simp [hlo, hhi]

/-- **A token drawn is read back** from the header that presents it. -/
theorem bearerToken_randomToken (bytes : Vector UInt8 32) :
    bearerToken (some (utf8 (bearerPrefix ++ randomToken bytes))) = some (randomToken bytes) := by
  refine bearerToken_eq_some.mpr ⟨_, rfl, headerToStr_utf8 fun c hc => ?_⟩
  have hhead : ∀ c ∈ bearerPrefix, 32 ≤ c.toNat ∧ c.toNat < 127 := by simp [bearerPrefix]
  rcases List.mem_append.mp hc with hc | hc
  · exact hhead c hc
  · obtain ⟨n, hn, rfl⟩ := Hex.digit_of_mem_encode hc
    rw [Hex.digit_toNat hn]
    split <;> omega

end Denis
