import Denis.Handler.Accepted
import Denis.Handler.Upstream
import Denis.Repo.Domains

/-!
# Parsing what was encoded

`parseUdp_wire` says what `parse_udp` makes of a packet with a well-formed name
whose labels do not start with a zero byte: the name in lower case, joined by
dots, and the type, or the error. Two results follow from it:

- a query encoded as the packet builders do is parsed to what was encoded
  (`parseUdp_queryPacket`);
- the limit on the length of a name is one octet off: the ending zero byte is
  not counted (`name_limit_iff`).
-/

namespace Denis

open Text DomainName

/-! ## Labels of host names -/

/-- A label of letters, digits, `-` and `_`, read in lower case. -/
def HostLabel (l : Label) : Prop := ∀ b ∈ l.lower, Repo.isHostnameByte b = true

namespace HostLabel

variable {l : Label}

theorem of_bytes (h : ∀ b ∈ l.bytes, Repo.isHostnameByte b = true) : HostLabel l := by
  intro b hb
  obtain ⟨c, hc, rfl⟩ := List.mem_map.mp hb
  exact Repo.isHostnameByte_lower (h c hc)

/-- Host labels hold no zero byte. -/
theorem visible (h : HostLabel l) : Parser.Visible l = true := by
  obtain ⟨bytes, hpos, hle⟩ := l
  cases bytes with
  | nil => cases hpos
  | cons b bytes =>
    have hb := h (toAsciiLowercase b) (List.mem_cons_self ..)
    have hne : b ≠ 0 := by
      rintro rfl
      exact absurd hb (by decide)
    simpa [Parser.Visible] using hne

/-- Host labels hold no dot. -/
theorem no_dot (h : HostLabel l) : 46 ∉ l.lower := fun hdot => absurd (h 46 hdot) (by decide)

end HostLabel

/-- The dotted name of host labels is ASCII. -/
theorem dotted_ascii {ls : List Label} (hls : ∀ l ∈ ls, HostLabel l) :
    ∀ b ∈ dotted ls, b < 0x80 := by
  intro b hb
  by_cases hdot : b = 46
  · subst hdot
    decide
  · obtain ⟨m, hm, hbm⟩ := mem_of_mem_intercalate hb hdot
    obtain ⟨l, hl, rfl⟩ := List.mem_map.mp hm
    exact Repo.isHostnameByte_ascii (hls l hl b hbm)

/-- The name read of host labels is their texts joined by dots. -/
theorem fromUtf8Lossy_dotted {ls : List Label} (hls : ∀ l ∈ ls, HostLabel l) :
    fromUtf8Lossy (dotted ls) = ['.'].intercalate (ls.map Label.text) := by
  rw [fromUtf8Lossy_ascii (dotted_ascii hls), dotted, map_intercalate, List.map_map]
  rfl

namespace Parser

/-! ## Packets with a well-formed name -/

section Wire

variable {hdr rest : Bytes} {ls : List Label}

/-- What is read of a packet with visible labels, by the bytes after the name. -/
def readWire (packet : Bytes) (ls : List Label) (rest : Bytes) : Except ParseError Query :=
  if 255 < (wire ls).length then .error .nameTooLong
  else
    match rest with
    | hi :: lo :: _ => .ok ⟨fromUtf8Lossy (dotted ls), ⟨u16FromBeBytes hi lo⟩, packet,
        header + (wire ls).length + 5⟩
    | _ => .error .truncated

/-- **`parse_udp` on a name of visible labels.** -/
theorem parseUdp_wire (hhdr : hdr.length = header) (hls : ∀ l ∈ ls, Visible l = true) :
    parseUdp (hdr ++ (wire ls ++ 0 :: rest)) =
      readWire (hdr ++ (wire ls ++ 0 :: rest)) ls rest := by
  have hlong : ¬ (hdr ++ (wire ls ++ 0 :: rest)).length < header := by
    rw [List.length_append]
    omega
  have hend : (hdr ++ (wire ls ++ 0 :: rest)).drop (header + (wire ls).length) = 0 :: rest := by
    rw [← hhdr, ← List.drop_drop, List.drop_left, List.drop_left]
  rw [parseUdp, if_neg hlong, parseQuestion_wire hhdr hls]
  unfold readWire
  by_cases hlimit : 255 < (wire ls).length
  · rw [if_pos hlimit, if_pos hlimit]
  · rw [if_neg hlimit, if_neg hlimit]
    dsimp only
    cases rest with
    | nil => rw [parseQtype_short hend (by simp)]
    | cons hi rest =>
      cases rest with
      | nil => rw [parseQtype_short hend (by simp)]
      | cons lo rest => rw [(parseQtype_eq_ok_iff hend).mpr ⟨hi, lo, rest, rfl, rfl⟩]

end Wire

/-! ## The round trip -/

/-- The bytes of a type or class, read back. -/
theorem u16FromBeBytes_toNat (n : UInt16) :
    u16FromBeBytes (UInt8.ofNat (n.toNat / 256)) (UInt8.ofNat n.toNat) = n := by
  have hlt := n.toNat_lt
  refine UInt16.toNat_inj.mp ?_
  rw [u16FromBeBytes, UInt16.toNat_ofNat', UInt8.toNat_ofNat', UInt8.toNat_ofNat']
  omega

/-- Two bytes can be told from the number they are read as. -/
theorem u16FromBeBytes_inj {a b c d : UInt8} (h : u16FromBeBytes a b = u16FromBeBytes c d) :
    a = c ∧ b = d := by
  have ha := a.toNat_lt
  have hb := b.toNat_lt
  have hc := c.toNat_lt
  have hd := d.toNat_lt
  have hnat := congrArg UInt16.toNat h
  rw [u16FromBeBytes, u16FromBeBytes, UInt16.toNat_ofNat', UInt16.toNat_ofNat'] at hnat
  exact ⟨UInt8.toNat_inj.mp (by omega), UInt8.toNat_inj.mp (by omega)⟩

/-- A query as `query_packet` (`parser.rs:118–128`) and `build_query`
(`loadgen.rs:142–156`) build it, of any header, labels, type and class. -/
def queryPacket (hdr : Bytes) (labels : List Label) (qtype qclass : UInt16) : Bytes :=
  hdr ++ wire labels ++ [0] ++ UpstreamResponse.u16BeBytes qtype.toNat ++
    UpstreamResponse.u16BeBytes qclass.toNat

/-- **Parsing undoes encoding**, whatever follows the question. -/
theorem parseUdp_queryPacket {hdr : Bytes} (hhdr : hdr.length = 12) {labels : List Label}
    (hhost : ∀ l ∈ labels, ∀ b ∈ l.bytes, Repo.isHostnameByte b = true)
    (hfits : (wire labels).length + 1 ≤ 255) (qtype qclass : UInt16) (trailing : Bytes) :
    parseUdp (queryPacket hdr labels qtype qclass ++ trailing) =
      .ok {
        name := ['.'].intercalate (labels.map Label.text)
        queryType := ⟨qtype⟩
        raw := queryPacket hdr labels qtype qclass ++ trailing
        answerOffset := (queryPacket hdr labels qtype qclass).length } := by
  have hlabels : ∀ l ∈ labels, HostLabel l := fun l hl => HostLabel.of_bytes (hhost l hl)
  have hpacket : queryPacket hdr labels qtype qclass ++ trailing =
      hdr ++ (wire labels ++ 0 :: (UpstreamResponse.u16BeBytes qtype.toNat ++
        UpstreamResponse.u16BeBytes qclass.toNat ++ trailing)) := by
    simp [queryPacket]
  have hoffset : (queryPacket hdr labels qtype qclass).length =
      header + (wire labels).length + 5 := by
    simp [queryPacket, UpstreamResponse.u16BeBytes, hhdr, header]
    omega
  rw [hoffset, hpacket, parseUdp_wire hhdr fun l hl => (hlabels l hl).visible]
  unfold readWire
  rw [if_neg (by omega), ← fromUtf8Lossy_dotted hlabels]
  show Except.ok (Query.mk _ ⟨u16FromBeBytes (UInt8.ofNat (qtype.toNat / 256))
    (UInt8.ofNat qtype.toNat)⟩ _ _) = _
  rw [u16FromBeBytes_toNat]

/-- A label of two bytes. -/
def twoBytes (a b : UInt8) : Label := ⟨[a, b], Nat.two_pos, by simp⟩

/-- The label `ab`. -/
def abLabel : Label := twoBytes 97 98

/-- The label `CD`. -/
def cdLabel : Label := twoBytes 67 68

/-- A query for `ab.CD A`, with a byte after it. -/
theorem parseUdp_ab_CD :
    parseUdp (queryPacket (List.replicate 12 0) [abLabel, cdLabel] 1 1 ++ [0]) =
      .ok {
        name := ['.'].intercalate ([abLabel, cdLabel].map Label.text)
        queryType := ⟨1⟩
        raw := queryPacket (List.replicate 12 0) [abLabel, cdLabel] 1 1 ++ [0]
        answerOffset := (queryPacket (List.replicate 12 0) [abLabel, cdLabel] 1 1).length } :=
  parseUdp_queryPacket (by decide) (by decide +kernel) (by decide) 1 1 [0]

example : ['.'].intercalate ([abLabel, cdLabel].map Label.text) = ['a', 'b', '.', 'c', 'd'] := by
  decide

/-! ## The limit on names -/

/-- **The 255-octet limit is exact** for all names but those of 256 octets, the
ending zero byte counted. -/
theorem name_limit_iff {hdr rest : Bytes} {ls : List Label} (hhdr : hdr.length = 12)
    (hls : ∀ l ∈ ls, Visible l = true) (hrest : 4 ≤ rest.length) :
    (parseUdp (hdr ++ (wire ls ++ 0 :: rest)) = .error .nameTooLong ↔
      255 < (wire ls).length + 1) ↔ (wire ls).length + 1 ≠ 256 := by
  have hlong : parseUdp (hdr ++ (wire ls ++ 0 :: rest)) = .error .nameTooLong ↔
      255 < (wire ls).length := by
    rw [parseUdp_wire hhdr hls]
    unfold readWire
    by_cases hlimit : 255 < (wire ls).length
    · simp [hlimit]
    · rw [if_neg hlimit]
      match rest, hrest with
      | hi :: lo :: rest, _ => simp [hlimit]
  rw [hlong]
  omega

/-- A name of seven octets is within the limit. -/
theorem short_name_within : (parseUdp (List.replicate 12 0 ++
      (wire [abLabel, cdLabel] ++ 0 :: [0, 1, 0, 1])) = .error .nameTooLong ↔
    255 < (wire [abLabel, cdLabel]).length + 1) ↔ (wire [abLabel, cdLabel]).length + 1 ≠ 256 :=
  name_limit_iff (by decide) (by decide) (by decide)

/-- A label of the letter `a`, repeated. -/
def aLabel (n : Nat) (hpos : 0 < n) (hle : n ≤ 63) : Label :=
  ⟨List.replicate n 97, by rwa [List.length_replicate], by rwa [List.length_replicate]⟩

/-- Three labels of 63 bytes and one of 62: 256 octets with the ending zero
byte. -/
def longLabels : List Label :=
  [aLabel 63 (by decide) (by decide), aLabel 63 (by decide) (by decide),
    aLabel 63 (by decide) (by decide), aLabel 62 (by decide) (by decide)]

/-- **A name of 256 octets is accepted.** -/
theorem name_of_256_octets_accepted : (∀ l ∈ longLabels, Visible l = true) ∧
    255 < (wire longLabels).length + 1 ∧
    parseUdp (List.replicate 12 0 ++ (wire longLabels ++ 0 :: [0, 1, 0, 1])) ≠
      .error .nameTooLong := by
  have hvisible : ∀ l ∈ longLabels, Visible l = true := by decide +kernel
  have hlength : (wire longLabels).length = 255 := by decide +kernel
  refine ⟨hvisible, by omega, ?_⟩
  rw [parseUdp_wire (by decide) hvisible]
  simp [readWire, hlength]

end Parser

end Denis
