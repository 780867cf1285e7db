import Denis.Handler.Scan

/-!
# The packets `parse_udp` accepts

Every byte vector the scanner accepts, and what it makes of it, without its loop
(`parseUdp_eq_ok_iff`): labels none of which starts with a zero byte, then a zero
byte, then two bytes of type. The zero byte may be a length byte or, as the
scanner tests for it in both states, the byte after one (`Scanned.zeroLed`).

Two readings of the question fail on some of these packets:

- the question is the one on the wire, except where the scanner took the first
  byte of a label for the end of the name (`decoded_iff`);
- the class is in the packet, except where fewer than two bytes follow the type,
  which nothing checks (`complete_iff`).
-/

namespace Denis

open Text DomainName

namespace Parser

/-- Bytes on which the scan ends: visible labels, then a zero byte, read as a
length byte or (`zeroLed`) after one, then `rest`. -/
inductive Scanned : Bytes → List Label → Bool → Bytes → Prop
  | ended {ls : List Label} {rest : Bytes} :
      (∀ l ∈ ls, Visible l = true) → Scanned (wire ls ++ 0 :: rest) ls false rest
  | zeroLed {ls : List Label} {n : UInt8} {rest : Bytes} :
      (∀ l ∈ ls, Visible l = true) → n ≠ 0 → n.toNat ≤ 63 →
      Scanned (wire ls ++ n :: 0 :: rest) ls true rest

/-- The bytes themselves, by where the zero byte was read. -/
theorem Scanned.bytes {bs : Bytes} {ls : List Label} {zeroLed : Bool} {rest : Bytes}
    (h : Scanned bs ls zeroLed rest) : (∀ l ∈ ls, Visible l = true) ∧
      ((zeroLed = false ∧ bs = wire ls ++ 0 :: rest) ∨
        ∃ n, zeroLed = true ∧ n ≠ 0 ∧ n.toNat ≤ 63 ∧ bs = wire ls ++ n :: 0 :: rest) := by
  cases h with
  | ended hls => exact ⟨hls, .inl ⟨rfl, rfl⟩⟩
  | zeroLed hls hn hle => exact ⟨hls, .inr ⟨_, rfl, hn, hle, rfl⟩⟩

/-- The bytes taken for the name: its last label has a dot only if the zero byte
was not a length byte. -/
def nameBytes (ls : List Label) (zeroLed : Bool) : Bytes := if zeroLed then dots ls else dotted ls

/-- The index of the zero byte. -/
def nameEnd (ls : List Label) (zeroLed : Bool) : Nat :=
  header + (wire ls).length + if zeroLed then 1 else 0

/-- The loop variables, as what has been read: visible labels, with the dot after
the last of them decided by the next byte; in state `Scan` a length byte too. -/
def Reading (data : Bytes) (s : Scanner) : Prop :=
  ∃ ls, (∀ l ∈ ls, Visible l = true) ∧ (wire ls).length ≤ 255 ∧
    match s.state with
    | .length => ∃ tail, data.drop header = wire ls ++ tail ∧
        s.idx = header + (wire ls).length ∧
        ∀ n, tail.head? = some n → s.buf = nameBytes ls (n != 0)
    | .scan => ∃ n tail, data.drop header = wire ls ++ n :: tail ∧ n ≠ 0 ∧ n.toNat ≤ 63 ∧
        s.idx = header + (wire ls).length + 1 ∧ s.len = n.toNat ∧ s.buf = dots ls

variable {data : Bytes} {s s' : Scanner}

/-- A byte of the packet is a byte of what has been read or the first after it. -/
theorem getElem?_read {pre tail : Bytes} (h : data.drop header = pre ++ tail) :
    data[header + pre.length]? = tail.head? := by
  rw [← List.getElem?_drop, h, List.getElem?_append_right (Nat.le_refl _), Nat.sub_self,
    List.head?_eq_getElem?]

theorem dots_concat (ls : List Label) (l : Label) :
    dots (ls ++ [l]) = dots ls ++ l.lower ++ [46] := by
  simp [dots]

/-- What is read of the name after one more label. -/
theorem nameBytes_concat (ls : List Label) (l : Label) (n : UInt8) :
    nameBytes (ls ++ [l]) (n != 0) =
      if n ≠ 0 then dots ls ++ l.lower ++ [46] else dots ls ++ l.lower := by
  unfold nameBytes
  by_cases hn : n = 0
  · simp [hn, dotted_concat]
  · simp [hn, dots_concat]

theorem reading_start (data : Bytes) :
    Reading data { idx := header, len := 0, state := .length, buf := [] } := by
  refine ⟨[], by simp, by simp, data.drop header, rfl, rfl, ?_⟩
  intro n _
  unfold nameBytes
  split <;> rfl

/-- The bytes after a length byte, if the first is not zero, are a visible
label. -/
theorem exists_label {n first : UInt8} {tail : Bytes} (hn : n ≠ 0) (hle : n.toNat ≤ 63)
    (hlong : n.toNat ≤ tail.length) (hfirst : tail.head? = some first) (hne : first ≠ 0) :
    ∃ l : Label, l.bytes = tail.take n.toNat ∧ l.bytes.length = n.toNat ∧
      l.wire = n :: l.bytes ∧ Visible l = true := by
  have hpos : 0 < n.toNat := Nat.pos_of_ne_zero fun hzero => hn (UInt8.toNat_inj.mp hzero)
  have hlength : (tail.take n.toNat).length = n.toNat := by
    rw [List.length_take]
    omega
  refine ⟨⟨tail.take n.toNat, by omega, by omega⟩, rfl, hlength, ?_, ?_⟩
  · show UInt8.ofNat (tail.take n.toNat).length :: tail.take n.toNat = n :: tail.take n.toNat
    rw [hlength, UInt8.ofNat_toNat]
  · simp [Visible, List.head?_take, Nat.ne_of_gt hpos, hfirst, hne]

theorem reading_turn (hs : Reading data s) (h : turn data s = .next s') : Reading data s' := by
  obtain ⟨ls, hls, hfits, hstate⟩ := hs
  rcases turn_next h with ⟨byte, hbyte, hne, hle, hlength, rfl⟩ |
      ⟨first, label, byte, hfirst, hne, hscan, hlabel, hroom, hafter, rfl⟩
  · -- a length byte
    rw [hlength] at hstate
    obtain ⟨tail, hdata, hidx, hbuf⟩ := hstate
    rw [hidx, getElem?_read hdata] at hbyte
    obtain ⟨tail, rfl⟩ := List.head?_eq_some_iff.mp hbyte
    refine ⟨ls, hls, hfits, byte, tail, hdata, hne, hle, by rw [hidx], rfl, ?_⟩
    rw [hbuf byte rfl, nameBytes, if_pos (by simpa using hne)]
  · -- a label, whose bytes follow its length byte
    rw [hscan] at hstate
    obtain ⟨n, tail, hdata, hn, hle, hidx, hlen, hbuf⟩ := hstate
    have hdata' : data.drop header = (wire ls ++ [n]) ++ tail := by rw [hdata]; simp
    have hidx' : s.idx = header + (wire ls ++ [n]).length := by simp [hidx]; omega
    obtain ⟨-, hstop, hslice⟩ := slice_eq_some hlabel
    have htail : data.drop s.idx = tail := by
      rw [hidx', ← List.drop_drop, hdata', List.drop_left]
    have hlong : n.toNat ≤ tail.length := by
      rw [← htail, List.length_drop]
      omega
    rw [hidx', getElem?_read hdata'] at hfirst
    obtain ⟨l, hbytes, hlength, hwire, hvisible⟩ := exists_label hn hle hlong hfirst hne
    rw [htail, Nat.add_sub_cancel_left, hlen, ← hbytes] at hslice
    subst hslice
    have hwires : wire (ls ++ [l]) = wire ls ++ n :: l.bytes := by
      rw [wire_append]
      simp [← hwire, Label.wire]
    have hlengths : (wire (ls ++ [l])).length = (wire ls).length + n.toNat + 1 := by
      rw [hwires]
      simp
      omega
    have hdata'' : data.drop header = wire (ls ++ [l]) ++ tail.drop n.toNat := by
      rw [hwires, hdata, hbytes]
      simp
    refine ⟨ls ++ [l], ?_, ?_, tail.drop n.toNat, hdata'', ?_, ?_⟩
    · intro m hm
      rcases List.mem_append.mp hm with hm | hm
      · exact hls m hm
      · rw [List.mem_singleton.mp hm]
        exact hvisible
    · rw [hbuf, dots_length, maxName] at hroom
      omega
    · show s.idx + s.len = _
      omega
    · intro m hm
      have hindex : s.idx + s.len = header + (wire (ls ++ [l])).length := by omega
      rw [hindex, getElem?_read hdata'', hm] at hafter
      obtain rfl := Option.some.inj hafter
      rw [nameBytes_concat, hbuf]
      rfl

/-- **What the scanner accepts.** -/
theorem parseQuestion_eq_ok_iff {buf : Bytes} {idx : Nat} :
    parseQuestion data = .ok (buf, idx) ↔ ∃ ls zeroLed rest,
      Scanned (data.drop header) ls zeroLed rest ∧ (wire ls).length ≤ 255 ∧
        buf = nameBytes ls zeroLed ∧ idx = nameEnd ls zeroLed := by
  constructor
  · intro h
    obtain ⟨t, ⟨ls, hls, hfits, hstate⟩, hturn⟩ := parseQuestionLoop_ok (I := Reading data)
      (fun _ _ => reading_turn) (reading_start data) h
    obtain ⟨hzero, rfl, rfl⟩ := turn_done hturn
    cases hs : t.state with
    | length =>
      rw [hs] at hstate
      obtain ⟨tail, hdata, hidx, hbuf⟩ := hstate
      rw [hidx, getElem?_read hdata] at hzero
      obtain ⟨tail, rfl⟩ := List.head?_eq_some_iff.mp hzero
      refine ⟨ls, false, tail, hdata ▸ .ended hls, hfits, hbuf 0 rfl, hidx⟩
    | scan =>
      rw [hs] at hstate
      obtain ⟨n, tail, hdata, hn, hle, hidx, -, hbuf⟩ := hstate
      have hdata' : data.drop header = (wire ls ++ [n]) ++ tail := by rw [hdata]; simp
      have hidx' : t.idx = header + (wire ls ++ [n]).length := by simp [hidx]; omega
      rw [hidx', getElem?_read hdata'] at hzero
      obtain ⟨tail, rfl⟩ := List.head?_eq_some_iff.mp hzero
      exact ⟨ls, true, tail, hdata ▸ .zeroLed hls hn hle, hfits, hbuf, hidx⟩
  · rintro ⟨ls, zeroLed, rest, hscanned, hfits, rfl, rfl⟩
    have hdata := List.take_append_drop header data
    obtain ⟨hls, ⟨rfl, hbytes⟩ | ⟨n, rfl, hn, hle, hbytes⟩⟩ := hscanned.bytes
    · have hhdr : (data.take header).length = header := header_length (by rw [hbytes]; simp)
      rw [hbytes] at hdata
      rw [← hdata, parseQuestion_wire hhdr hls, if_neg (by omega)]
      rfl
    · have hhdr : (data.take header).length = header := header_length (by rw [hbytes]; simp)
      rw [hbytes] at hdata
      rw [← hdata, parseQuestion_zeroByte hhdr hls hn hle, if_neg (by omega)]
      rfl

/-! ## From the scan to the query -/

section Scanned

variable {ls : List Label} {zeroLed : Bool} {rest : Bytes}

/-- The packet from the zero byte on. -/
theorem Scanned.drop (h : Scanned (data.drop header) ls zeroLed rest) :
    data.drop (nameEnd ls zeroLed) = 0 :: rest := by
  obtain ⟨-, ⟨rfl, hbytes⟩ | ⟨n, rfl, -, -, hbytes⟩⟩ := h.bytes
  · show data.drop (header + (wire ls).length) = _
    rw [← List.drop_drop, hbytes, List.drop_left]
  · show data.drop (header + (wire ls).length + 1) = _
    rw [← List.drop_drop, ← List.drop_drop, hbytes, List.drop_left]
    rfl

/-- The packet's length. -/
theorem Scanned.length (h : Scanned (data.drop header) ls zeroLed rest) :
    data.length = nameEnd ls zeroLed + 1 + rest.length := by
  have hlength := congrArg List.length h.drop
  rw [List.length_drop, List.length_cons] at hlength
  omega

/-- The type is read of the packet from the zero byte on. -/
theorem parseQtype_drop (data : Bytes) (idx : Nat) :
    parseQtype data idx = parseQtype (data.drop idx) 0 := by
  simp only [parseQtype, List.getElem?_drop, Nat.zero_add]

/-- It is the two bytes after that byte. -/
theorem parseQtype_eq_ok_iff {idx : Nat} {qtype : UInt16} (h : data.drop idx = 0 :: rest) :
    parseQtype data idx = .ok qtype ↔
      ∃ hi lo rest', rest = hi :: lo :: rest' ∧ qtype = u16FromBeBytes hi lo := by
  rw [parseQtype_drop, h]
  cases rest with
  | nil => simp [parseQtype]
  | cons hi rest =>
    cases rest with
    | nil => simp [parseQtype]
    | cons lo rest => simp [parseQtype, eq_comm]

/-- Fewer than two bytes there are an error. -/
theorem parseQtype_short {idx : Nat} (h : data.drop idx = 0 :: rest) (hshort : rest.length < 2) :
    parseQtype data idx = .error .truncated := by
  rw [parseQtype_drop, h]
  cases rest with
  | nil => rfl
  | cons hi rest =>
    cases rest with
    | nil => rfl
    | cons lo rest =>
      rw [List.length_cons, List.length_cons] at hshort
      omega

end Scanned

/-- **The packets `parse_udp` accepts, and the query it makes of them.** -/
theorem parseUdp_eq_ok_iff {q : Query} :
    parseUdp data = .ok q ↔ ∃ ls zeroLed hi lo rest,
      Scanned (data.drop header) ls zeroLed (hi :: lo :: rest) ∧ (wire ls).length ≤ 255 ∧
        q = ⟨fromUtf8Lossy (nameBytes ls zeroLed), ⟨u16FromBeBytes hi lo⟩, data,
          nameEnd ls zeroLed + 5⟩ := by
  constructor
  · intro h
    obtain ⟨-, qname, idx, qtype, hquestion, hqtype, rfl⟩ := parseUdp_eq_ok h
    obtain ⟨ls, zeroLed, rest, hscanned, hfits, rfl, rfl⟩ := parseQuestion_eq_ok_iff.mp hquestion
    obtain ⟨hi, lo, rest, rfl, rfl⟩ := (parseQtype_eq_ok_iff hscanned.drop).mp hqtype
    exact ⟨ls, zeroLed, hi, lo, rest, hscanned, hfits, rfl⟩
  · rintro ⟨ls, zeroLed, hi, lo, rest, hscanned, hfits, rfl⟩
    have hlong : ¬ data.length < header := by
      rw [hscanned.length, nameEnd]
      omega
    have hquestion := parseQuestion_eq_ok_iff.mpr ⟨ls, zeroLed, _, hscanned, hfits, rfl, rfl⟩
    have hqtype := (parseQtype_eq_ok_iff hscanned.drop).mpr ⟨hi, lo, rest, rfl, rfl⟩
    simp only [parseUdp, if_neg hlong, hquestion, hqtype]

/-- What is read ends with the type: anything may follow. -/
theorem Scanned.split {bs rest : Bytes} {ls : List Label} {zeroLed : Bool} {hi lo : UInt8}
    (h : Scanned bs ls zeroLed (hi :: lo :: rest)) :
    ∃ pre, header + pre.length = nameEnd ls zeroLed + 3 ∧ bs = pre ++ rest ∧
      ∀ rest', Scanned (pre ++ rest') ls zeroLed (hi :: lo :: rest') := by
  obtain ⟨hls, ⟨rfl, rfl⟩ | ⟨n, rfl, hn, hle, rfl⟩⟩ := h.bytes
  · refine ⟨wire ls ++ [0, hi, lo], ?_, by simp, fun rest' => ?_⟩
    · rw [nameEnd, List.length_append]
      rfl
    · rw [List.append_assoc]
      exact .ended hls
  · refine ⟨wire ls ++ [n, 0, hi, lo], ?_, by simp, fun rest' => ?_⟩
    · rw [nameEnd, List.length_append]
      rfl
    · rw [List.append_assoc]
      exact .zeroLed hls hn hle

/-- **What goes on like an accepted packet, from the header to the type, is read
like it.** -/
theorem parseUdp_of_prefix {data' : Bytes} {q : Query} (h : parseUdp data = .ok q)
    (hlike : (data.take (q.answerOffset - 2)).drop header <+: data'.drop header) :
    parseUdp data' = .ok { q with raw := data' } := by
  obtain ⟨ls, zeroLed, hi, lo, rest, hscanned, hfits, rfl⟩ := parseUdp_eq_ok_iff.mp h
  obtain ⟨pre, hlength, hpre, hscanned'⟩ := hscanned.split
  obtain ⟨rest', hrest'⟩ := hlike
  have hread : nameEnd ls zeroLed + 5 - 2 - header = pre.length := by omega
  have hdata' : data'.drop header = pre ++ rest' := by
    rw [← hrest', List.drop_take]
    dsimp only
    rw [hread, hpre, List.take_left]
  exact parseUdp_eq_ok_iff.mpr ⟨ls, zeroLed, hi, lo, rest', hdata' ▸ hscanned' rest', hfits, rfl⟩

/-! ## The question on the wire -/

/-- The query is the question the packet asks: the bytes after the header decode
as a name, the query's name is its labels in lower case joined by dots, its type
is the two bytes after the zero length byte and its answer offset is 5 past that
byte. -/
def AsOnWire (data : Bytes) (q : Query) : Prop :=
  ∃ ls hi lo rest, decode (data.drop header) = some (ls, hi :: lo :: rest) ∧
    q.name = fromUtf8Lossy (dotted ls) ∧ q.queryType = ⟨u16FromBeBytes hi lo⟩ ∧
    q.answerOffset = header + (wire ls).length + 5

/-- After labels of at most 255 octets none of which starts with a zero byte, and
a length byte, comes a zero byte and at least two more. -/
def ZeroLedLabel (data : Bytes) : Prop :=
  ∃ ls n hi lo rest, (∀ l ∈ ls, Visible l = true) ∧ (wire ls).length ≤ 255 ∧ n ≠ 0 ∧
    n.toNat ≤ 63 ∧ data.drop header = wire ls ++ n :: 0 :: hi :: lo :: rest

/-- **Decoded questions are the wire questions** of all packets but those with a
label that starts with a zero byte where the scanner gets to see it. -/
theorem decoded_iff (data : Bytes) :
    (∀ q, parseUdp data = .ok q → AsOnWire data q) ↔ ¬ ZeroLedLabel data := by
  constructor
  · rintro hall ⟨ls, n, hi, lo, rest, hls, hfits, hn, hle, hdata⟩
    have hscanned : Scanned (data.drop header) ls true (hi :: lo :: rest) :=
      hdata ▸ .zeroLed hls hn hle
    obtain ⟨ms, _, _, _, hdecode, -, -, hoffset⟩ :=
      hall _ (parseUdp_eq_ok_iff.mpr ⟨ls, true, hi, lo, rest, hscanned, hfits, rfl⟩)
    have hend : (wire ms).length = (wire ls).length + 1 := by
      have : nameEnd ls true + 5 = header + (wire ms).length + 5 := hoffset
      rw [nameEnd, if_pos rfl] at this
      omega
    -- no label fits in the one byte between
    rw [eq_wire_of_decode hdecode] at hdata
    rcases wire_append_eq hdata with ⟨ks, rfl, -⟩ | ⟨ks, rfl, -⟩
    · rw [wire_append, List.length_append] at hend
      omega
    · cases ks with
      | nil => simp at hend
      | cons k ks =>
        have hpos := k.pos
        rw [wire_append, wire_cons] at hend
        simp only [List.length_append, List.length_cons] at hend
        omega
  · intro hno q h
    obtain ⟨ls, zeroLed, hi, lo, rest, hscanned, hfits, rfl⟩ := parseUdp_eq_ok_iff.mp h
    obtain ⟨hls, ⟨rfl, hbytes⟩ | ⟨n, rfl, hn, hle, hbytes⟩⟩ := hscanned.bytes
    · exact ⟨ls, hi, lo, rest, hbytes ▸ decode_wire ls _, rfl, rfl, rfl⟩
    · exact absurd ⟨ls, n, hi, lo, rest, hls, hfits, hn, hle, hbytes⟩ hno

/-- A query for a label of one zero byte and the labels `ab` and `cd`. -/
def zeroLedQuery : Bytes :=
  [0, 7, 1, 0, 0, 1, 0, 0, 0, 0, 0, 0] ++ [1, 0, 2, 97, 98, 2, 99, 100, 0] ++ [0, 1, 0, 1]

/-- **A zero byte inside a label ends the name**: nothing is left of the name of
`zeroLedQuery`, and what follows is read as its type. -/
theorem zero_led_label_misread :
    ∃ q, parseUdp zeroLedQuery = .ok q ∧ ¬ AsOnWire zeroLedQuery q := by
  refine ⟨⟨[], ⟨609⟩, zeroLedQuery, 18⟩, by decide +kernel, ?_⟩
  rintro ⟨ls, hi, lo, rest, hdecode, -, -, hoffset⟩
  have hdecoded : decode (zeroLedQuery.drop header) =
      some ([⟨[0], by decide, by decide⟩, ⟨[97, 98], by decide, by decide⟩,
        ⟨[99, 100], by decide, by decide⟩], [0, 1, 0, 1]) := by decide +kernel
  obtain ⟨rfl, -⟩ := Prod.mk.inj (Option.some.inj (hdecode.symm.trans hdecoded))
  exact absurd hoffset (by decide)

/-! ## The whole question -/

/-- After the name, of at most 255 octets without its end, come two bytes of type
and at most one more. -/
def ClassCut (data : Bytes) : Prop :=
  ∃ ls zeroLed hi lo rest, Scanned (data.drop header) ls zeroLed (hi :: lo :: rest) ∧
    (wire ls).length ≤ 255 ∧ rest.length < 2

/-- **An accepted query contains its whole question** unless the packet is cut in
its class. -/
theorem complete_iff (data : Bytes) :
    (∀ q, parseUdp data = .ok q → q.answerOffset ≤ q.raw.length) ↔ ¬ ClassCut data := by
  constructor
  · rintro hall ⟨ls, zeroLed, hi, lo, rest, hscanned, hfits, hcut⟩
    have hle : nameEnd ls zeroLed + 5 ≤ data.length :=
      hall _ (parseUdp_eq_ok_iff.mpr ⟨ls, zeroLed, hi, lo, rest, hscanned, hfits, rfl⟩)
    have hlength := hscanned.length
    rw [List.length_cons, List.length_cons] at hlength
    omega
  · intro hwhole q h
    obtain ⟨ls, zeroLed, hi, lo, rest, hscanned, hfits, rfl⟩ := parseUdp_eq_ok_iff.mp h
    have hlength := hscanned.length
    rw [List.length_cons, List.length_cons] at hlength
    have hclass : 2 ≤ rest.length := by
      by_contra hcut
      exact hwhole ⟨ls, zeroLed, hi, lo, rest, hscanned, hfits, Nat.lt_of_not_le hcut⟩
    show nameEnd ls zeroLed + 5 ≤ data.length
    omega

/-- A query for `ab A` that ends after its type. -/
def cutQuery : Bytes := [0, 7, 1, 0, 0, 1, 0, 0, 0, 0, 0, 0] ++ [2, 97, 98, 0] ++ [0, 1]

/-- **A query without a class is accepted.** -/
theorem cut_class_accepted :
    ∃ q, parseUdp cutQuery = .ok q ∧ ¬ q.answerOffset ≤ q.raw.length :=
  ⟨⟨['a', 'b'], RecordType.a, cutQuery, 20⟩, by decide +kernel, by decide⟩

end Parser

end Denis
