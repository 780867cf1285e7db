import Denis.Handler.Parser
import Denis.Lib.DomainName

/-!
# What the scanner reads of a wire name

`parse_question` against the wire format of `Denis.Lib.DomainName`. On a name
none of whose labels starts with a zero byte the two agree: the scanner returns
the dotted name and the index of the ending zero byte, or `NameTooLong` past 255
octets (`parseQuestion_wire`). A label that does start with a zero byte ends the
scan there, for the zero byte is tested before the state: what is returned is
the labels before it, each with its dot (`parseQuestion_zeroLed`).
-/

namespace Denis

open Text DomainName

namespace Parser

/-- A label whose first byte is not zero. -/
def Visible (l : Label) : Bool := l.bytes.head? != some 0

/-- The labels before the first that starts with a zero byte. -/
def visible (ls : List Label) : List Label := ls.takeWhile Visible

/-- Labels in lower case, each followed by a dot. -/
def dots (ls : List Label) : Bytes := ls.flatMap fun l => l.lower ++ [46]

@[simp] theorem dots_nil : dots [] = [] := rfl

@[simp] theorem dots_cons (l : Label) (ls : List Label) :
    dots (l :: ls) = l.lower ++ [46] ++ dots ls := rfl

theorem dotted_concat (ls : List Label) (l : Label) : dotted (ls ++ [l]) = dots ls ++ l.lower := by
  induction ls with
  | nil => simp
  | cons m ls ih =>
    rw [List.cons_append, dotted_cons (by simp), ih, dots_cons]
    simp

theorem dots_length (ls : List Label) : (dots ls).length = (wire ls).length := by
  induction ls with
  | nil => rfl
  | cons l ls ih =>
    rw [dots_cons, wire_cons]
    simp only [List.length_append, List.length_cons, List.length_nil, Label.lower_length, ih]
    omega

@[simp] theorem wire_label_length (l : Label) : l.wire.length = l.bytes.length + 1 := rfl

theorem getElem?_append_cons {α : Type} (pre : List α) (x : α) (rest : List α) :
    (pre ++ x :: rest)[pre.length]? = some x := by
  simp

theorem slice_append (pre label rest : Bytes) :
    slice (pre ++ (label ++ rest)) pre.length (pre.length + label.length) = some label := by
  rw [slice, if_pos (by simp)]
  simp

/-- The turn over a zero byte, in either state: the loop ends. -/
theorem turn_zero {data : Bytes} {s : Scanner} (h : data[s.idx]? = some 0) :
    turn data s = .done s.buf s.idx := by
  unfold turn
  rw [h]
  rfl

section Label

variable {pre tail buf : Bytes} {l : Label} {len : Nat}

/-- The turn over a length byte, whatever follows it. -/
theorem turn_length_byte {n : UInt8} (hn : n ≠ 0) (hle : n.toNat ≤ 63) :
    turn (pre ++ n :: tail) ⟨pre.length, len, .length, buf⟩ =
      .next ⟨pre.length + 1, n.toNat, .scan, buf⟩ := by
  have hpointer : ¬ 0xC0 ≤ n := by
    rw [UInt8.le_iff_toNat_le]
    show ¬ 192 ≤ n.toNat
    omega
  unfold turn
  dsimp only
  rw [getElem?_append_cons]
  dsimp only
  rw [if_neg hn, if_neg hpointer, if_neg (by rw [maxLabel]; omega)]

/-- The turn over the length byte of a label. -/
theorem turn_length :
    turn (pre ++ (l.wire ++ tail)) ⟨pre.length, len, .length, buf⟩ =
      .next ⟨pre.length + 1, l.bytes.length, .scan, buf⟩ := by
  have hlen := l.length_toNat
  have hturn : turn (pre ++ UInt8.ofNat l.bytes.length :: (l.bytes ++ tail))
      ⟨pre.length, len, .length, buf⟩ =
        .next ⟨pre.length + 1, (UInt8.ofNat l.bytes.length).toNat, .scan, buf⟩ :=
    turn_length_byte l.length_ne_zero (by rw [hlen]; exact l.le)
  rw [hlen] at hturn
  exact hturn

/-- After the length byte of a visible label comes a byte that is not zero. -/
theorem getElem?_visible (pre tail : Bytes) (hl : Visible l = true) :
    ∃ b, (pre ++ (l.wire ++ tail))[pre.length + 1]? = some b ∧ b ≠ 0 := by
  obtain ⟨bytes, hpos, hle⟩ := l
  cases bytes with
  | nil => cases hpos
  | cons b bytes =>
    refine ⟨b, ?_, by simpa [Visible] using hl⟩
    simp [Label.wire]

/-- The turn over a visible label that makes the name too long. -/
theorem turn_scan_long (hl : Visible l = true) (hlong : 255 < buf.length + l.bytes.length + 1) :
    turn (pre ++ (l.wire ++ tail)) ⟨pre.length + 1, l.bytes.length, .scan, buf⟩ =
      .error .nameTooLong := by
  obtain ⟨b, hb, hne⟩ := getElem?_visible pre tail hl
  have hslice : slice (pre ++ (l.wire ++ tail)) (pre.length + 1)
      (pre.length + 1 + l.bytes.length) = some l.bytes := by
    have h := slice_append (pre ++ [UInt8.ofNat l.bytes.length]) l.bytes tail
    simpa [Label.wire] using h
  unfold turn
  dsimp only
  rw [hb]
  dsimp only
  rw [if_neg hne, hslice]
  exact if_pos hlong

/-- The turn over a visible label: it is copied, with a dot unless the next byte
is zero. -/
theorem turn_scan {n : UInt8} (hl : Visible l = true)
    (hfits : buf.length + l.bytes.length + 1 ≤ 255) :
    turn (pre ++ (l.wire ++ n :: tail)) ⟨pre.length + 1, l.bytes.length, .scan, buf⟩ =
      .next ⟨pre.length + l.wire.length, l.bytes.length, .length,
        if n ≠ 0 then buf ++ l.lower ++ [46] else buf ++ l.lower⟩ := by
  obtain ⟨b, hb, hne⟩ := getElem?_visible pre (n :: tail) hl
  have hslice : slice (pre ++ (l.wire ++ n :: tail)) (pre.length + 1)
      (pre.length + 1 + l.bytes.length) = some l.bytes := by
    have h := slice_append (pre ++ [UInt8.ofNat l.bytes.length]) l.bytes (n :: tail)
    simpa [Label.wire] using h
  have hstop : pre.length + 1 + l.bytes.length = (pre ++ l.wire).length := by
    simp
    omega
  have hafter : (pre ++ (l.wire ++ n :: tail))[pre.length + 1 + l.bytes.length]? = some n := by
    rw [hstop, ← List.append_assoc]
    exact getElem?_append_cons ..
  unfold turn
  dsimp only
  rw [hb]
  dsimp only
  rw [if_neg hne, hslice]
  dsimp only
  rw [if_neg (by rw [maxName]; omega), hafter, hstop, List.length_append]
  rfl

/-- The loop over one visible label. -/
theorem loop_label {n : UInt8} (hl : Visible l = true)
    (hfits : buf.length + l.bytes.length + 1 ≤ 255) :
    parseQuestionLoop (pre ++ (l.wire ++ n :: tail)) ⟨pre.length, len, .length, buf⟩ =
      parseQuestionLoop (pre ++ (l.wire ++ n :: tail))
        ⟨(pre ++ l.wire).length, l.bytes.length, .length,
          if n ≠ 0 then buf ++ l.lower ++ [46] else buf ++ l.lower⟩ := by
  rw [parseQuestionLoop_next turn_length, parseQuestionLoop_next (turn_scan hl hfits),
    List.length_append]

/-- The loop over a visible label that makes the name too long. -/
theorem loop_label_long (hl : Visible l = true)
    (hlong : 255 < buf.length + l.bytes.length + 1) :
    parseQuestionLoop (pre ++ (l.wire ++ tail)) ⟨pre.length, len, .length, buf⟩ =
      .error .nameTooLong := by
  rw [parseQuestionLoop_next turn_length, parseQuestionLoop_error (turn_scan_long hl hlong)]

end Label

/-- **The loop over visible labels** followed by a byte that is not zero: all are
copied with their dots, unless they take more than 255 octets. -/
theorem loop_labels (pre tail buf : Bytes) (len : Nat) {ls : List Label} {n : UInt8}
    (hls : ∀ l ∈ ls, Visible l = true) (hn : n ≠ 0) (hbuf : buf.length ≤ 255) :
    (255 < buf.length + (wire ls).length ∧
      parseQuestionLoop (pre ++ (wire ls ++ n :: tail)) ⟨pre.length, len, .length, buf⟩ =
        .error .nameTooLong) ∨
    (buf.length + (wire ls).length ≤ 255 ∧ ∃ len',
      parseQuestionLoop (pre ++ (wire ls ++ n :: tail)) ⟨pre.length, len, .length, buf⟩ =
        parseQuestionLoop (pre ++ (wire ls ++ n :: tail))
          ⟨(pre ++ wire ls).length, len', .length, buf ++ dots ls⟩) := by
  induction ls generalizing pre buf len with
  | nil => exact .inr ⟨by simpa using hbuf, len, by simp⟩
  | cons l ls ih =>
    have hl := hls l (List.mem_cons_self ..)
    have hlen : (wire (l :: ls)).length = l.bytes.length + 1 + (wire ls).length := by
      rw [wire_cons]
      simp
      omega
    have hdata : pre ++ (wire (l :: ls) ++ n :: tail) =
        pre ++ (l.wire ++ (wire ls ++ n :: tail)) := by
      simp [Label.wire]
    rw [hdata, hlen]
    by_cases hlong : 255 < buf.length + l.bytes.length + 1
    · exact .inl ⟨by omega, loop_label_long hl hlong⟩
    · -- the byte after this label is the next length byte, or `n`: not zero
      obtain ⟨m, tail', htail, hm⟩ : ∃ m tail', wire ls ++ n :: tail = m :: tail' ∧ m ≠ 0 := by
        cases ls with
        | nil => exact ⟨n, tail, rfl, hn⟩
        | cons l' ls => exact ⟨_, _, rfl, l'.length_ne_zero⟩
      have hstep : parseQuestionLoop (pre ++ (l.wire ++ (wire ls ++ n :: tail)))
            ⟨pre.length, len, .length, buf⟩ =
          parseQuestionLoop (pre ++ l.wire ++ (wire ls ++ n :: tail))
            ⟨(pre ++ l.wire).length, l.bytes.length, .length, buf ++ l.lower ++ [46]⟩ := by
        rw [htail, loop_label hl (by omega), if_pos hm, List.append_assoc pre]
      have hbuf' : (buf ++ l.lower ++ [46]).length = buf.length + l.bytes.length + 1 := by
        simp
        omega
      rcases ih (pre ++ l.wire) (buf ++ l.lower ++ [46]) l.bytes.length
          (fun m hm => hls m (List.mem_cons_of_mem _ hm)) (by omega) with
        ⟨hlong', herror⟩ | ⟨hfits, len', hrest⟩
      · exact .inl ⟨by omega, hstep.trans herror⟩
      · refine .inr ⟨by omega, len', ?_⟩
        rw [hstep, hrest]
        simp [Label.wire]

/-- **The scanner on visible labels** agrees with the wire format: the dotted
name and the index of the ending zero byte, or `NameTooLong` past 255 octets
(the zero byte not counted). -/
theorem parseQuestion_wire {hdr rest : Bytes} {ls : List Label} (hhdr : hdr.length = header)
    (hls : ∀ l ∈ ls, Visible l = true) :
    parseQuestion (hdr ++ (wire ls ++ 0 :: rest)) =
      if 255 < (wire ls).length then .error .nameTooLong
      else .ok (dotted ls, header + (wire ls).length) := by
  unfold parseQuestion
  rw [← hhdr]
  -- the last label is apart: the zero byte after it saves its dot
  rcases List.eq_nil_or_concat ls with rfl | ⟨ms, l, rfl⟩
  · rw [if_neg (by simp)]
    refine parseQuestionLoop_done ?_
    simp [turn, dotted]
  · rw [List.concat_eq_append] at hls ⊢
    have hl : Visible l = true := hls l (by simp)
    have hlen : (wire (ms ++ [l])).length = (wire ms).length + (l.bytes.length + 1) := by
      simp
    have hdata : hdr ++ (wire (ms ++ [l]) ++ 0 :: rest) =
        hdr ++ (wire ms ++ UInt8.ofNat l.bytes.length :: (l.bytes ++ 0 :: rest)) := by
      simp
    have hdata' : hdr ++ (wire ms ++ UInt8.ofNat l.bytes.length :: (l.bytes ++ 0 :: rest)) =
        hdr ++ wire ms ++ (l.wire ++ 0 :: rest) := by
      simp [Label.wire]
    rw [hdata, hlen]
    rcases loop_labels hdr (l.bytes ++ 0 :: rest) [] 0
        (fun m hm => hls m (List.mem_append_left _ hm)) l.length_ne_zero (Nat.zero_le _) with
      ⟨hlong, herror⟩ | ⟨hfits, len', hloop⟩
    · rw [if_pos (by simp at hlong; omega), herror]
    · have hbuf : ([] ++ dots ms).length = (wire ms).length := dots_length ms
      rw [hloop, hdata']
      by_cases hlong : 255 < (wire ms).length + (l.bytes.length + 1)
      · rw [if_pos hlong, loop_label_long hl (by omega)]
      · rw [if_neg hlong, loop_label hl (by omega), if_neg (by simp)]
        refine (@parseQuestionLoop_done _ (dots ms ++ l.lower) _
          (hdr ++ wire ms ++ l.wire).length ?_).trans ?_
        · have hzero : (hdr ++ wire ms ++ (l.wire ++ 0 :: rest))[
              (hdr ++ wire ms ++ l.wire).length]? = some 0 := by
            rw [← List.append_assoc]
            exact getElem?_append_cons ..
          exact turn_zero hzero
        · rw [dotted_concat]
          simp

/-- **The scanner on a zero byte after a length byte**: it stops there, with the
labels before and their dots. -/
theorem parseQuestion_zeroByte {hdr rest : Bytes} {ls : List Label} {n : UInt8}
    (hhdr : hdr.length = header) (hls : ∀ l ∈ ls, Visible l = true) (hn : n ≠ 0)
    (hle : n.toNat ≤ 63) :
    parseQuestion (hdr ++ (wire ls ++ n :: 0 :: rest)) =
      if 255 < (wire ls).length then .error .nameTooLong
      else .ok (dots ls, header + (wire ls).length + 1) := by
  unfold parseQuestion
  rw [← hhdr]
  rcases loop_labels hdr (0 :: rest) [] 0 hls hn (Nat.zero_le _) with
    ⟨hlong, herror⟩ | ⟨hfits, len', hloop⟩
  · rw [if_pos (by simpa using hlong), herror]
  · have hzero : (hdr ++ wire ls ++ n :: 0 :: rest)[(hdr ++ wire ls).length + 1]? = some 0 := by
      rw [List.getElem?_append_right (by omega), Nat.add_sub_cancel_left]
      rfl
    rw [if_neg (by simpa using hfits), hloop, ← List.append_assoc,
      parseQuestionLoop_next (turn_length_byte hn hle), parseQuestionLoop_done (turn_zero hzero)]
    simp

/-- **The scanner on a label that starts with a zero byte** after visible ones:
it stops inside the label. -/
theorem parseQuestion_zeroLed {hdr rest : Bytes} {ls : List Label} {l : Label}
    (hhdr : hdr.length = header) (hls : ∀ l ∈ ls, Visible l = true) (hl : Visible l = false) :
    parseQuestion (hdr ++ (wire ls ++ (l.wire ++ rest))) =
      if 255 < (wire ls).length then .error .nameTooLong
      else .ok (dots ls, header + (wire ls).length + 1) := by
  obtain ⟨bytes, hpos, hle⟩ := l
  cases bytes with
  | nil => cases hpos
  | cons b bytes =>
    have hb : b = 0 := by simpa [Visible] using hl
    subst hb
    let l : Label := ⟨0 :: bytes, hpos, hle⟩
    exact parseQuestion_zeroByte hhdr hls l.length_ne_zero (by rw [l.length_toNat]; exact l.le)

/-! ## Packets whose name decodes -/

theorem visible_all {ls : List Label} {l : Label} (hl : l ∈ visible ls) : Visible l = true :=
  List.mem_takeWhile_imp hl

/-- A label list up to its first label that starts with a zero byte. -/
theorem eq_visible_append {ls : List Label} (h : visible ls ≠ ls) :
    ∃ l ms, ls = visible ls ++ l :: ms ∧ Visible l = false := by
  obtain ⟨ms, hms⟩ := List.takeWhile_prefix Visible (l := ls)
  have hdrop : ls.dropWhile Visible = ms := by
    have hsplit := List.takeWhile_append_dropWhile (p := Visible) (l := ls)
    exact List.append_cancel_left (hsplit.trans hms.symm)
  cases ms with
  | nil => exact absurd (by simpa [visible] using hms) h
  | cons l ms =>
    refine ⟨l, ms, hms.symm, ?_⟩
    have hhead := List.head?_dropWhile_not Visible ls
    rw [hdrop] at hhead
    simpa using hhead

/-- The bytes the scanner takes for the name. -/
def scannedName (ls : List Label) : Bytes :=
  if visible ls = ls then dotted ls else dots (visible ls)

/-- Where the scanner stops. -/
def scanEnd (ls : List Label) : Nat :=
  header + (wire (visible ls)).length + if visible ls = ls then 0 else 1

/-- The scanner rejects the packet: the labels it gets to see are too long, or
the type is cut off after the byte it stops at. -/
def Rejects (packet : Bytes) (ls : List Label) : Prop :=
  255 < (wire (visible ls)).length ∨ packet.length < scanEnd ls + 3

theorem parseQtype_eq (data : Bytes) (idx : Nat) :
    (∃ qtype, parseQtype data idx = .ok qtype) ↔ idx + 3 ≤ data.length := by
  constructor
  · rintro ⟨qtype, h⟩
    have := parseQtype_ok h
    omega
  · intro h
    have h1 : data[idx + 1]? = some data[idx + 1] := List.getElem?_eq_getElem (by omega)
    have h2 : data[idx + 2]? = some data[idx + 2] := List.getElem?_eq_getElem (by omega)
    rw [parseQtype, h1, h2]
    exact ⟨_, rfl⟩

/-- A packet with bytes after its header has a whole header. -/
theorem header_length {packet : Bytes} (h : packet.drop header ≠ []) :
    (packet.take header).length = header := by
  rw [List.length_take]
  by_contra hshort
  exact h (List.drop_eq_nil_of_le (by omega))

section Decoded

variable {packet rest : Bytes} {ls : List Label}

theorem parseQuestion_decoded (h : decode (packet.drop header) = some (ls, rest)) :
    parseQuestion packet =
      if 255 < (wire (visible ls)).length then .error .nameTooLong
      else .ok (scannedName ls, scanEnd ls) := by
  have hbytes := eq_wire_of_decode h
  have hhdr : (packet.take header).length = header := header_length (by rw [hbytes]; simp)
  have hpacket : packet = packet.take header ++ (wire ls ++ 0 :: rest) := by
    rw [← hbytes, List.take_append_drop]
  -- the header is any 12 bytes from here on
  generalize packet.take header = hdr at hhdr hpacket
  subst hpacket
  by_cases hvisible : visible ls = ls
  · rw [parseQuestion_wire hhdr fun l hl => visible_all (hvisible ▸ hl), hvisible, scannedName,
      if_pos hvisible, scanEnd, if_pos hvisible, hvisible, Nat.add_zero]
  · obtain ⟨l, ms, hls, hl⟩ := eq_visible_append hvisible
    have hwire : wire ls ++ 0 :: rest =
        wire (visible ls) ++ (l.wire ++ (wire ms ++ 0 :: rest)) := by
      conv_lhs => rw [hls]
      simp [Label.wire]
    rw [hwire, parseQuestion_zeroLed hhdr (fun _ => visible_all) hl, scannedName,
      if_neg hvisible, scanEnd, if_neg hvisible]

/-- **`parse_udp` on a packet whose name decodes** fails exactly if the scanner
rejects it. -/
theorem parseUdp_decoded_error (h : decode (packet.drop header) = some (ls, rest)) :
    (∀ query, parseUdp packet ≠ .ok query) ↔ Rejects packet ls := by
  have hquestion := parseQuestion_decoded h
  constructor
  · -- a packet that is not rejected parses
    intro hnone
    by_contra hrejects
    rw [Rejects, not_or, Nat.not_lt, Nat.not_lt] at hrejects
    obtain ⟨hfits, htype⟩ := hrejects
    obtain ⟨qtype, hqtype⟩ := (parseQtype_eq packet (scanEnd ls)).mpr htype
    rw [if_neg (by omega)] at hquestion
    have hlong : ¬ packet.length < header := by
      rw [scanEnd] at htype
      omega
    refine hnone ⟨fromUtf8Lossy (scannedName ls), ⟨qtype⟩, packet, scanEnd ls + 5⟩ ?_
    simp only [parseUdp, if_neg hlong, hquestion, hqtype]
  · intro hrejects query hok
    obtain ⟨-, qname, idx, qtype, hquestion', hqtype, -⟩ := parseUdp_eq_ok hok
    rw [hquestion] at hquestion'
    rcases hrejects with hlong | hshort
    · rw [if_pos hlong] at hquestion'
      cases hquestion'
    · split at hquestion'
      · cases hquestion'
      · obtain ⟨rfl, rfl⟩ := Prod.mk.inj (Except.ok.inj hquestion')
        have := parseQtype_ok hqtype
        omega

/-- The name of a query parsed from a packet whose name decodes. -/
theorem parseUdp_decoded_name (h : decode (packet.drop header) = some (ls, rest)) {query : Query}
    (hok : parseUdp packet = .ok query) : query.name = fromUtf8Lossy (scannedName ls) := by
  obtain ⟨-, qname, idx, qtype, hquestion, -, rfl⟩ := parseUdp_eq_ok hok
  rw [parseQuestion_decoded h] at hquestion
  split at hquestion
  · cases hquestion
  · obtain ⟨rfl, rfl⟩ := Prod.mk.inj (Except.ok.inj hquestion)
    rfl

end Decoded

end Parser

end Denis
