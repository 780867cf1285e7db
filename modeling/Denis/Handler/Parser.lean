import Denis.Config
import Denis.Lib.Text

/-!
# The question parser (`handler/parser.rs`)

`Parser::parse_udp` reads the first question of a packet. Its core is the
two-state loop of `parse_question`: in state `Length` it reads a length byte,
in state `Scan` it copies a label. `turn` is one turn of that loop and
`parseQuestionLoop` repeats it; every turn either ends the loop or lowers
`Scanner.fuel`, so the loop is a total function.

A zero byte ends the loop in *either* state, before the state is looked at
(parser.rs:58–60).
-/

namespace Denis

open Text

/-- `Query` (`handler/query.rs:43–49`). -/
structure Query where
  name : Str
  queryType : RecordType
  raw : Bytes
  answerOffset : Nat
  deriving DecidableEq

/-- `ParseError` (`parser.rs:7–19`). -/
inductive ParseError
  | tooShort (len : Nat)
  | truncated
  | labelTooLong (n : UInt8)
  | nameTooLong
  | compressionPointer
  deriving DecidableEq, Repr

namespace Parser

/-- `HEADER`. -/
def header : Nat := 12

/-- `MAX_LABEL`. -/
def maxLabel : Nat := 63

/-- `MAX_NAME`. -/
def maxName : Nat := 255

/-- `ParseState` (`parser.rs:21–24`). -/
inductive ParseState
  | length
  | scan
  deriving DecidableEq, Repr

/-- The loop variables of `parse_question`. -/
structure Scanner where
  idx : Nat
  len : Nat
  state : ParseState
  buf : Bytes
  deriving DecidableEq

/-- `slice::get(start..stop)`. -/
def slice (data : Bytes) (start stop : Nat) : Option Bytes :=
  if start ≤ stop ∧ stop ≤ data.length then some ((data.drop start).take (stop - start))
  else none

/-- What a turn of the loop comes to: the variables for the next turn, or the
loop's result. -/
inductive Turn
  | next (s : Scanner)
  | done (buf : Bytes) (idx : Nat)
  | error (e : ParseError)

/-- One turn of the loop of `parse_question` (`parser.rs:57–90`). -/
def turn (data : Bytes) (s : Scanner) : Turn :=
  match data[s.idx]? with
  | none => .error .truncated
  | some byte =>
    -- tested in both states, so on the first byte of a label too
    if byte = 0 then .done s.buf s.idx
    else
      match s.state with
      | .length =>
        if 0xC0 ≤ byte then .error .compressionPointer
        else if maxLabel < byte.toNat then .error (.labelTooLong byte)
        else .next { s with len := byte.toNat, idx := s.idx + 1, state := .scan }
      | .scan =>
        let stop := s.idx + s.len
        match slice data s.idx stop with
        | none => .error .truncated
        | some label =>
          if maxName < s.buf.length + label.length + 1 then .error .nameTooLong
          else
            let buf := s.buf ++ label.map toAsciiLowercase
            -- a dot follows unless the next byte ends the name
            match data[stop]? with
            | none => .error .truncated
            | some byte =>
              .next { s with
                idx := stop, state := .length,
                buf := if byte ≠ 0 then buf ++ [46] else buf }

/-- Bounds the turns left: two for every byte not passed yet, one more in state
`Scan`. -/
def Scanner.fuel (data : Bytes) (s : Scanner) : Nat :=
  2 * (data.length - s.idx) + if s.state = .scan then 1 else 0

theorem slice_eq_some {data label : Bytes} {start stop : Nat}
    (h : slice data start stop = some label) :
    start ≤ stop ∧ stop ≤ data.length ∧ label = (data.drop start).take (stop - start) := by
  unfold slice at h
  split at h
  · next hbound => exact ⟨hbound.1, hbound.2, (Option.some.inj h).symm⟩
  · cases h

/-- What a turn that goes on can be: a length byte was read, or a label was
copied and the byte after it looked at. -/
theorem turn_next {data : Bytes} {s s' : Scanner} (h : turn data s = .next s') :
    (∃ byte, data[s.idx]? = some byte ∧ byte ≠ 0 ∧ byte.toNat ≤ maxLabel ∧
      s.state = .length ∧
      s' = { s with len := byte.toNat, idx := s.idx + 1, state := .scan }) ∨
    (∃ first label byte, data[s.idx]? = some first ∧ first ≠ 0 ∧ s.state = .scan ∧
      slice data s.idx (s.idx + s.len) = some label ∧
      s.buf.length + label.length + 1 ≤ maxName ∧ data[s.idx + s.len]? = some byte ∧
      s' = { s with
        idx := s.idx + s.len, state := .length,
        buf := if byte ≠ 0 then s.buf ++ label.map toAsciiLowercase ++ [46]
          else s.buf ++ label.map toAsciiLowercase }) := by
  unfold turn at h
  split at h
  · cases h
  · next byte hbyte =>
    split at h
    · cases h
    · next hne =>
      split at h
      · next hstate =>
        split at h
        · cases h
        · split at h
          · cases h
          · next hle =>
            cases h
            exact .inl ⟨byte, hbyte, hne, Nat.le_of_not_lt hle, hstate, rfl⟩
      · next hstate =>
        dsimp only at h
        split at h
        · cases h
        · next label hlabel =>
          split at h
          · cases h
          · next hfits =>
            split at h
            · cases h
            · next after hafter =>
              cases h
              exact .inr ⟨byte, label, after, hbyte, hne, hstate, hlabel,
                Nat.le_of_not_lt hfits, hafter, rfl⟩

/-- The loop is left at a zero byte. -/
theorem turn_done {data buf : Bytes} {s : Scanner} {idx : Nat}
    (h : turn data s = .done buf idx) : data[s.idx]? = some 0 ∧ buf = s.buf ∧ idx = s.idx := by
  unfold turn at h
  split at h
  · cases h
  · next byte hbyte =>
    split at h
    · next hzero =>
      cases h
      exact ⟨hzero ▸ hbyte, rfl, rfl⟩
    · split at h
      · split at h
        · cases h
        · split at h <;> cases h
      · dsimp only at h
        split at h
        · cases h
        · split at h
          · cases h
          · split at h <;> cases h

theorem turn_fuel {data : Bytes} {s s' : Scanner} (h : turn data s = .next s') :
    s'.fuel data < s.fuel data := by
  rcases turn_next h with ⟨byte, hbyte, -, -, hstate, rfl⟩ |
      ⟨first, label, byte, hfirst, -, hstate, hlabel, -, -, rfl⟩
  · -- a byte is passed: two turns less, one more for the state
    have hlt : s.idx < data.length := (List.getElem?_eq_some_iff.mp hbyte).1
    simp only [Scanner.fuel, hstate, if_true]
    simp
    omega
  · have hstop := (slice_eq_some hlabel).2.1
    simp only [Scanner.fuel, hstate, if_true]
    simp
    omega

/-- The loop of `parse_question` from given loop variables. -/
def parseQuestionLoop (data : Bytes) (s : Scanner) : Except ParseError (Bytes × Nat) :=
  match _h : turn data s with
  | .next s' => parseQuestionLoop data s'
  | .done buf idx => .ok (buf, idx)
  | .error e => .error e
termination_by s.fuel data
decreasing_by exact turn_fuel _h

/-- `Parser::parse_question` (`parser.rs:50–94`). -/
def parseQuestion (data : Bytes) : Except ParseError (Bytes × Nat) :=
  parseQuestionLoop data { idx := header, len := 0, state := .length, buf := [] }

/-- `u16::from_be_bytes`. -/
def u16FromBeBytes (hi lo : UInt8) : UInt16 := UInt16.ofNat (hi.toNat * 256 + lo.toNat)

/-- `Parser::parse_qtype` (`parser.rs:97–101`). -/
def parseQtype (data : Bytes) (idx : Nat) : Except ParseError UInt16 :=
  match data[idx + 1]? with
  | none => .error .truncated
  | some hi =>
    match data[idx + 2]? with
    | none => .error .truncated
    | some lo => .ok (u16FromBeBytes hi lo)

/-- `Parser::parse_ttl` (`parser.rs:104–110`). -/
def parseTtl (data : Bytes) (idx : Nat) : UInt32 :=
  match slice data (idx + 6) (idx + 6 + 4) with
  | some [b0, b1, b2, b3] =>
    UInt32.ofNat (((b0.toNat * 256 + b1.toNat) * 256 + b2.toNat) * 256 + b3.toNat)
  | _ => 0

/-- `Parser::parse_udp` (`parser.rs:29–47`). -/
def parseUdp (data : Bytes) : Except ParseError Query :=
  if data.length < header then .error (.tooShort data.length)
  else
    match parseQuestion data with
    | .error e => .error e
    | .ok (qname, idx) =>
      match parseQtype data idx with
      | .error e => .error e
      | .ok qtype =>
        .ok {
          name := fromUtf8Lossy qname
          queryType := ⟨qtype⟩
          raw := data
          answerOffset := idx + 5 }

/-! ## Turns of the loop, as rewriting -/

/-- The loop is a turn, then the loop again where the turn goes on. -/
theorem parseQuestionLoop_eq (data : Bytes) (s : Scanner) :
    parseQuestionLoop data s =
      match turn data s with
      | .next s' => parseQuestionLoop data s'
      | .done buf idx => .ok (buf, idx)
      | .error e => .error e := by
  conv_lhs => rw [parseQuestionLoop]
  split
  · next h => rw [h]
  · next h => rw [h]
  · next h => rw [h]

theorem parseQuestionLoop_next {data : Bytes} {s s' : Scanner} (h : turn data s = .next s') :
    parseQuestionLoop data s = parseQuestionLoop data s' := by
  rw [parseQuestionLoop_eq, h]

theorem parseQuestionLoop_done {data buf : Bytes} {s : Scanner} {idx : Nat}
    (h : turn data s = .done buf idx) : parseQuestionLoop data s = .ok (buf, idx) := by
  rw [parseQuestionLoop_eq, h]

theorem parseQuestionLoop_error {data : Bytes} {s : Scanner} {e : ParseError}
    (h : turn data s = .error e) : parseQuestionLoop data s = .error e := by
  rw [parseQuestionLoop_eq, h]

/-- **Loop rule.** A property of the loop variables that every turn keeps holds
where the loop ends. -/
theorem parseQuestionLoop_ok {data buf : Bytes} {idx : Nat} {I : Scanner → Prop}
    (hkeep : ∀ s s', I s → turn data s = .next s' → I s') {s : Scanner} (hI : I s)
    (h : parseQuestionLoop data s = .ok (buf, idx)) :
    ∃ t, I t ∧ turn data t = .done buf idx := by
  induction s using parseQuestionLoop.induct data with
  | case1 s s' hturn ih =>
    rw [parseQuestionLoop_next hturn] at h
    exact ih (hkeep s s' hI hturn) h
  | case2 s buf' idx' hturn =>
    rw [parseQuestionLoop_done hturn] at h
    obtain ⟨rfl, rfl⟩ := Prod.mk.inj (Except.ok.inj h)
    exact ⟨s, hI, hturn⟩
  | case3 s e hturn =>
    rw [parseQuestionLoop_error hturn] at h
    cases h

/-- What `parse_udp` returned, piece by piece. -/
theorem parseUdp_eq_ok {data : Bytes} {q : Query} (h : parseUdp data = .ok q) :
    header ≤ data.length ∧ ∃ qname idx qtype, parseQuestion data = .ok (qname, idx) ∧
      parseQtype data idx = .ok qtype ∧
      q = ⟨fromUtf8Lossy qname, ⟨qtype⟩, data, idx + 5⟩ := by
  unfold parseUdp at h
  split at h
  · cases h
  · next hlen =>
    split at h
    · cases h
    · next qname idx hquestion =>
      split at h
      · cases h
      · next qtype hqtype =>
        exact ⟨Nat.le_of_not_lt hlen, qname, idx, qtype, hquestion, hqtype,
          (Except.ok.inj h).symm⟩

/-- A parsed query keeps the packet it came from. -/
theorem parseUdp_raw {data : Bytes} {q : Query} (h : parseUdp data = .ok q) : q.raw = data := by
  obtain ⟨-, qname, idx, qtype, -, -, rfl⟩ := parseUdp_eq_ok h
  rfl

/-! ## Bounds on what was read -/

/-- The loop variables stay within the length limit of a name: in state
`Length` the next byte is `buf.length` past the header, or it is the ending
zero byte; in state `Scan` the length byte has been passed too. -/
structure Scanner.Within (data : Bytes) (s : Scanner) : Prop where
  low : header ≤ s.idx
  buf : s.buf.length ≤ maxName
  length : s.state = .length →
    s.idx ≤ header + s.buf.length ∨ (data[s.idx]? = some 0 ∧ s.idx ≤ header + maxName)
  scan : s.state = .scan → s.idx ≤ header + s.buf.length + 1

theorem turn_within {data : Bytes} {s s' : Scanner} (hs : s.Within data)
    (h : turn data s = .next s') : s'.Within data := by
  obtain ⟨hlow, hbuf, hlength, hscan⟩ := hs
  rcases turn_next h with ⟨byte, hbyte, hne, -, hstate, rfl⟩ |
      ⟨first, label, byte, -, -, hstate, hlabel, hfits, hafter, rfl⟩
  · refine ⟨Nat.le_succ_of_le hlow, hbuf, by simp, fun _ => ?_⟩
    rcases hlength hstate with hle | ⟨hzero, -⟩
    · exact Nat.succ_le_succ hle
    · rw [hbyte] at hzero
      exact absurd (Option.some.inj hzero) hne
  · -- the label copied may have left no room for its dot, if the name ends after it
    have hidx := hscan hstate
    obtain ⟨-, hstop, hslice⟩ := slice_eq_some hlabel
    have hlen : label.length = s.len := by
      rw [hslice, List.length_take, List.length_drop]
      omega
    refine ⟨Nat.le_add_right_of_le hlow, ?_, fun _ => ?_, by simp⟩
    · split <;> simp <;> omega
    · by_cases hzero : byte = 0
      · exact .inr ⟨hzero ▸ hafter, by show s.idx + s.len ≤ _; omega⟩
      · refine .inl ?_
        rw [if_pos hzero]
        simp
        omega

/-- The loop of `parse_question` is left from variables within the limit. -/
theorem parseQuestion_within {data buf : Bytes} {idx : Nat}
    (h : parseQuestion data = .ok (buf, idx)) :
    ∃ t : Scanner, t.Within data ∧ turn data t = .done buf idx :=
  parseQuestionLoop_ok (I := Scanner.Within data) (fun _ _ => turn_within)
    ⟨Nat.le_refl _, Nat.zero_le _, fun _ => .inl (Nat.le_refl _), by simp⟩ h

/-- `parse_question` ends at a zero byte at most 256 past the header. -/
theorem parseQuestion_bounds {data buf : Bytes} {idx : Nat}
    (h : parseQuestion data = .ok (buf, idx)) :
    header ≤ idx ∧ idx ≤ header + maxName + 1 ∧ data[idx]? = some 0 := by
  obtain ⟨t, ⟨hlow, hbuf, hlength, hscan⟩, hturn⟩ := parseQuestion_within h
  obtain ⟨hzero, -, rfl⟩ := turn_done hturn
  refine ⟨hlow, ?_, hzero⟩
  cases hstate : t.state with
  | length =>
    rcases hlength hstate with hle | ⟨-, hle⟩ <;> omega
  | scan =>
    have hle := hscan hstate
    omega

/-- The name `parse_question` returns is no longer than a name may be. -/
theorem parseQuestion_buf {data buf : Bytes} {idx : Nat}
    (h : parseQuestion data = .ok (buf, idx)) : buf.length ≤ maxName := by
  obtain ⟨t, hwithin, hturn⟩ := parseQuestion_within h
  obtain ⟨-, rfl, -⟩ := turn_done hturn
  exact hwithin.buf

/-- `parse_qtype` reads the two bytes after the ending zero byte. -/
theorem parseQtype_ok {data : Bytes} {idx : Nat} {qtype : UInt16}
    (h : parseQtype data idx = .ok qtype) : idx + 2 < data.length := by
  unfold parseQtype at h
  split at h
  · cases h
  · split at h
    · cases h
    · next lo hlo => exact (List.getElem?_eq_some_iff.mp hlo).1

end Parser

/-- What holds of the sizes in every query `parse_udp` returns. -/
structure Query.Bounded (query : Query) : Prop where
  raw : 15 ≤ query.raw.length
  low : 17 ≤ query.answerOffset
  high : query.answerOffset ≤ 273
  fits : query.answerOffset ≤ query.raw.length + 2

/-- **Parsed queries are bounded**, whatever the packet. -/
theorem Parser.parseUdp_bounded {data : Bytes} {query : Query}
    (h : parseUdp data = .ok query) : query.Bounded := by
  obtain ⟨-, qname, idx, qtype, hquestion, hqtype, rfl⟩ := parseUdp_eq_ok h
  obtain ⟨hlow, hhigh, -⟩ := parseQuestion_bounds hquestion
  have hfits := parseQtype_ok hqtype
  rw [header, maxName] at hhigh
  rw [header] at hlow
  refine ⟨?_, ?_, ?_, ?_⟩ <;> dsimp only <;> omega

end Denis
