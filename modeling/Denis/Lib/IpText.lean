import Denis.Lib.Text

/-!
# Addresses as text

The reader of IP addresses behind `str::parse`: dotted decimal numbers without
leading zeros, or groups of hexadecimal digits with at most one `::` and an
IPv4 address for the last two. A reader takes what it accepts off the front of
the text and returns the rest; an address is parsed if nothing is left.

What is proved is which texts can be addresses at all: a reader that succeeds
has taken hexadecimal digits, colons and dots, and did not stop after a dot
(`Takes`).
-/

namespace IpText

open Text

/-- An address: the numbers of an IPv4 one, the groups of an IPv6 one. -/
inductive Addr
  | v4 (octets : List Nat)
  | v6 (groups : List Nat)
  deriving DecidableEq, Repr

/-- `char::to_digit`. -/
def toDigit (radix : Nat) (c : Char) : Option Nat :=
  let digit :=
    if 48 ≤ c.toNat ∧ c.toNat ≤ 57 then some (c.toNat - 48)
    else if 97 ≤ c.toNat ∧ c.toNat ≤ 122 then some (c.toNat - 97 + 10)
    else if 65 ≤ c.toNat ∧ c.toNat ≤ 90 then some (c.toNat - 65 + 10)
    else none
  digit.filter (· < radix)

/-- `read_given_char`. -/
def readGivenChar (target : Char) : Str → Option Str
  | [] => none
  | c :: s => if c = target then some s else none

/-- `read_number`: a number up to `bound`, of at most `maxDigits` digits. -/
def readNumber (radix maxDigits : Nat) (allowZeroPrefix : Bool) (bound : Nat) (s : Str) :
    Option (Nat × Str) :=
  let digits := s.takeWhile fun c => (toDigit radix c).isSome
  let value := digits.foldl (fun n c => n * radix + (toDigit radix c).getD 0) 0
  if digits = [] || maxDigits < digits.length then none
  else if !allowZeroPrefix && digits.head? = some '0' && 1 < digits.length then none
  else if bound < value then none
  else some (value, s.drop digits.length)

/-- `read_separator`: a separator before every part but the first. -/
def readSeparator {α : Type} (sep : Char) (first : Bool) (inner : Str → Option (α × Str))
    (s : Str) : Option (α × Str) :=
  if first then inner s else (readGivenChar sep s).bind inner

/-- The loop of `read_ipv4_addr`, with so many numbers left. -/
def readOctets : Nat → Bool → Str → Option (List Nat × Str)
  | 0, _, s => some ([], s)
  | left + 1, first, s =>
    (readSeparator '.' first (readNumber 10 3 false 255) s).bind fun (octet, s) =>
      (readOctets left false s).map fun (octets, s) => (octet :: octets, s)

/-- `read_ipv4_addr`. -/
def readIpv4Addr (s : Str) : Option (List Nat × Str) := readOctets 4 true s

/-- Two bytes to a group. -/
def toGroups : List Nat → List Nat
  | hi :: lo :: rest => (hi * 256 + lo) :: toGroups rest
  | _ => []

/-- `read_groups` with so many groups left: those read, whether they end in an
IPv4 address, and the rest. -/
def readGroups : Nat → Bool → Str → List Nat × Bool × Str
  | 0, _, s => ([], false, s)
  | left + 1, first, s =>
    -- an address in dots takes the room of two groups
    match if left = 0 then none else readSeparator ':' first readIpv4Addr s with
    | some (octets, rest) => (toGroups octets, true, rest)
    | none =>
      match readSeparator ':' first (readNumber 16 4 true 65535) s with
      | some (group, rest) =>
        let (groups, ipv4, rest) := readGroups left false rest
        (group :: groups, ipv4, rest)
      | none => ([], false, s)

/-- `read_ipv6_addr`. -/
def readIpv6Addr (s : Str) : Option (List Nat × Str) :=
  let (head, ipv4, s) := readGroups 8 true s
  if head.length = 8 then some (head, s)
  else if ipv4 then none
  else
    ((readGivenChar ':' s).bind (readGivenChar ':')).map fun s =>
      let (tail, _, s) := readGroups (8 - (head.length + 1)) true s
      (head ++ List.replicate (8 - head.length - tail.length) 0 ++ tail, s)

/-- `read_ip_addr`. -/
def readIpAddr (s : Str) : Option (Addr × Str) :=
  match readIpv4Addr s with
  | some (octets, s) => some (.v4 octets, s)
  | none => (readIpv6Addr s).map fun (groups, s) => (.v6 groups, s)

/-- `IpAddr::from_str`. -/
def parse (s : Str) : Option Addr :=
  (readIpAddr s).bind fun (addr, rest) => if rest = [] then some addr else none

example : parse "192.0.2.01".toList = none := by decide +kernel

example : parse "::ffff:192.0.2.1".toList =
    some (.v6 [0, 0, 0, 0, 0, 65535, 49152, 513]) := by decide +kernel

/-! ## What readers take -/

/-- A character of an address. -/
def IsAddrChar (c : Char) : Prop := (toDigit 16 c).isSome = true ∨ c = ':' ∨ c = '.'

/-- Digits are decimal digits or letters. -/
theorem toDigit_range {radix : Nat} {c : Char} (h : (toDigit radix c).isSome = true) :
    48 ≤ c.toNat ∧ c.toNat ≤ 57 ∨ 97 ≤ c.toNat ∧ c.toNat ≤ 122 ∨
      65 ≤ c.toNat ∧ c.toNat ≤ 90 := by
  unfold toDigit at h
  by_cases hdigit : 48 ≤ c.toNat ∧ c.toNat ≤ 57
  · exact .inl hdigit
  · by_cases hlower : 97 ≤ c.toNat ∧ c.toNat ≤ 122
    · exact .inr (.inl hlower)
    · by_cases hupper : 65 ≤ c.toNat ∧ c.toNat ≤ 90
      · exact .inr (.inr hupper)
      · rw [if_neg hdigit, if_neg hlower, if_neg hupper] at h
        cases h

/-- Addresses hold no white space. -/
theorem IsAddrChar.not_whitespace {c : Char} (h : IsAddrChar c) : isWhitespace c = false := by
  rcases h with hdigit | rfl | rfl
  · have hrange := toDigit_range hdigit
    simp only [isWhitespace, Bool.or_eq_false_iff, Bool.and_eq_false_iff,
      decide_eq_false_iff_not, beq_eq_false_iff_ne]
    omega
  · decide
  · decide

/-- A reader took something, characters of an address, and did not stop after a
dot. -/
def Takes (s rest : Str) : Prop :=
  ∃ pre c, s = pre ++ c :: rest ∧ (∀ x ∈ pre, IsAddrChar x) ∧ IsAddrChar c ∧ c ≠ '.'

theorem Takes.trans {s s' rest : Str} (h : Takes s s') (h' : Takes s' rest) : Takes s rest := by
  obtain ⟨pre, c, rfl, hpre, hc, -⟩ := h
  obtain ⟨pre', c', rfl, hpre', hc', hdot⟩ := h'
  refine ⟨pre ++ c :: pre', c', by simp, fun x hx => ?_, hc', hdot⟩
  rcases List.mem_append.mp hx with hx | hx
  · exact hpre x hx
  · rcases List.mem_cons.mp hx with rfl | hx
    · exact hc
    · exact hpre' x hx

theorem Takes.cons {c : Char} {s rest : Str} (hc : IsAddrChar c) (h : Takes s rest) :
    Takes (c :: s) rest := by
  obtain ⟨pre, d, rfl, hpre, hd, hdot⟩ := h
  refine ⟨c :: pre, d, rfl, fun x hx => ?_, hd, hdot⟩
  rcases List.mem_cons.mp hx with rfl | hx
  · exact hc
  · exact hpre x hx

/-- A digit of a smaller radix is one of a larger. -/
theorem toDigit_mono {radix radix' : Nat} (hle : radix ≤ radix') {c : Char}
    (h : (toDigit radix c).isSome = true) : (toDigit radix' c).isSome = true := by
  obtain ⟨n, hn⟩ := Option.isSome_iff_exists.mp h
  obtain ⟨hdigit, hlt⟩ := Option.filter_eq_some_iff.mp hn
  rw [toDigit, hdigit, Option.filter_some, if_pos]
  · rfl
  · have := of_decide_eq_true hlt
    exact decide_eq_true (by omega)

/-- A dot is no digit. -/
theorem toDigit_dot (radix : Nat) : toDigit radix '.' = none := rfl

theorem readGivenChar_eq {target : Char} {s rest : Str} (h : readGivenChar target s = some rest) :
    s = target :: rest := by
  cases s with
  | nil => cases h
  | cons c s =>
    rw [readGivenChar] at h
    split at h
    · next hc => rw [hc, Option.some.inj h]
    · cases h

theorem readNumber_takes {radix maxDigits bound n : Nat} {allow : Bool} {s rest : Str}
    (hradix : radix ≤ 16) (h : readNumber radix maxDigits allow bound s = some (n, rest)) :
    Takes s rest := by
  unfold readNumber at h
  dsimp only at h
  split at h
  · cases h
  · next hdigits =>
    split at h
    · cases h
    · split at h
      · cases h
      · obtain ⟨-, rfl⟩ := Prod.mk.inj (Option.some.inj h)
        have hsplit := s.takeWhile_append_dropWhile (p := fun c => (toDigit radix c).isSome)
        have hmem : ∀ x ∈ s.takeWhile fun c => (toDigit radix c).isSome,
            (toDigit radix x).isSome = true := fun x hx =>
          List.mem_takeWhile_imp (p := fun c => (toDigit radix c).isSome) hx
        revert hdigits hsplit hmem
        generalize (s.takeWhile fun c => (toDigit radix c).isSome) = digits
        intro hdigits hsplit hmem
        rcases List.eq_nil_or_concat digits with rfl | ⟨pre, c, rfl⟩
        · simp at hdigits
        · rw [List.concat_eq_append] at hmem hsplit ⊢
          have hc := hmem c (by simp)
          refine ⟨pre, c, ?_, fun x hx => .inl (toDigit_mono hradix (hmem x (by simp [hx]))),
            .inl (toDigit_mono hradix hc), ?_⟩
          · rw [← hsplit, List.drop_left, List.append_assoc]
            rfl
          · rintro rfl
            rw [toDigit_dot] at hc
            cases hc

theorem readSeparator_takes {α : Type} {sep : Char} {first : Bool}
    {inner : Str → Option (α × Str)} {a : α} {s rest : Str} (hsep : IsAddrChar sep)
    (hinner : ∀ {s}, inner s = some (a, rest) → Takes s rest)
    (h : readSeparator sep first inner s = some (a, rest)) : Takes s rest := by
  unfold readSeparator at h
  split at h
  · exact hinner h
  · obtain ⟨s', hchar, h⟩ := Option.bind_eq_some_iff.mp h
    rw [readGivenChar_eq hchar]
    exact (hinner h).cons hsep

/-- By induction on the numbers left: one is read, then the others, if any. -/
theorem readOctets_takes {left : Nat} {first : Bool} {octets : List Nat} {s rest : Str}
    (h : readOctets (left + 1) first s = some (octets, rest)) : Takes s rest := by
  induction left generalizing first octets s with
  | zero =>
    obtain ⟨⟨octet, s'⟩, hread, h⟩ := Option.bind_eq_some_iff.mp h
    obtain ⟨-, rfl⟩ := Prod.mk.inj (Option.some.inj h)
    exact readSeparator_takes (.inr (.inr rfl)) (readNumber_takes (by decide)) hread
  | succ left ih =>
    obtain ⟨⟨octet, s'⟩, hread, h⟩ := Option.bind_eq_some_iff.mp h
    obtain ⟨⟨octets', s''⟩, hrest, h⟩ := Option.map_eq_some_iff.mp h
    obtain ⟨-, rfl⟩ := Prod.mk.inj h
    exact (readSeparator_takes (.inr (.inr rfl)) (readNumber_takes (by decide)) hread).trans
      (ih hrest)

theorem readIpv4Addr_takes {octets : List Nat} {s rest : Str}
    (h : readIpv4Addr s = some (octets, rest)) : Takes s rest :=
  readOctets_takes h

/-- Groups are read or nothing is taken. -/
theorem readGroups_takes (left : Nat) (first : Bool) (s : Str) :
    (readGroups left first s).2.2 = s ∧ (readGroups left first s).1 = [] ∨
      Takes s (readGroups left first s).2.2 := by
  induction left generalizing first s with
  | zero => exact .inl ⟨rfl, rfl⟩
  | succ left ih =>
    rw [readGroups]
    split
    · next octets rest hread =>
      split at hread
      · cases hread
      · exact .inr (readSeparator_takes (.inr (.inl rfl)) readIpv4Addr_takes hread)
    · split
      · next group rest hread =>
        have hgroup := readSeparator_takes (.inr (.inl rfl)) (readNumber_takes (by decide)) hread
        rcases ih false rest with ⟨hrest, -⟩ | htakes
        · refine .inr ?_
          show Takes s (readGroups left false rest).2.2
          rwa [hrest]
        · exact .inr (hgroup.trans htakes)
      · exact .inl ⟨rfl, rfl⟩

theorem readIpv6Addr_takes {groups : List Nat} {s rest : Str}
    (h : readIpv6Addr s = some (groups, rest)) : Takes s rest := by
  unfold readIpv6Addr at h
  have hhead := readGroups_takes 8 true s
  revert h hhead
  generalize readGroups 8 true s = read
  obtain ⟨head, ipv4, s'⟩ := read
  intro h hhead
  dsimp only at h hhead
  split at h
  · next hfull =>
    obtain ⟨-, rfl⟩ := Prod.mk.inj (Option.some.inj h)
    rcases hhead with ⟨-, rfl⟩ | htakes
    · cases hfull
    · exact htakes
  · split at h
    · cases h
    · obtain ⟨s'', hcolons, h⟩ := Option.map_eq_some_iff.mp h
      obtain ⟨-, rfl⟩ := Prod.mk.inj h
      obtain ⟨s₁, hcolon, hcolon'⟩ := Option.bind_eq_some_iff.mp hcolons
      have hgap : Takes s' s'' := by
        rw [readGivenChar_eq hcolon, readGivenChar_eq hcolon']
        exact ⟨[':'], ':', rfl, by simp [IsAddrChar], .inr (.inl rfl), by decide⟩
      have hfront : Takes s s'' := by
        rcases hhead with ⟨rfl, -⟩ | htakes
        · exact hgap
        · exact htakes.trans hgap
      rcases readGroups_takes (8 - (head.length + 1)) true s'' with ⟨hrest, -⟩ | htakes
      · rwa [hrest]
      · exact hfront.trans htakes

/-- **The texts that are addresses** hold no other characters and do not end in
a dot. -/
theorem parse_takes {s : Str} {addr : Addr} (h : parse s = some addr) : Takes s [] := by
  obtain ⟨⟨addr', rest⟩, hread, h⟩ := Option.bind_eq_some_iff.mp h
  dsimp only at h
  split at h
  · next hrest =>
    subst hrest
    unfold readIpAddr at hread
    split at hread
    · next octets s' hoctets =>
      obtain ⟨-, rfl⟩ := Prod.mk.inj (Option.some.inj hread)
      exact readIpv4Addr_takes hoctets
    · obtain ⟨⟨groups, s'⟩, hgroups, hread⟩ := Option.map_eq_some_iff.mp hread
      obtain ⟨-, rfl⟩ := Prod.mk.inj hread
      exact readIpv6Addr_takes hgroups
  · cases h

end IpText
