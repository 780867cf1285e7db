import Denis.Handler.Parser

/-!
# The question scanner stops

`parseQuestionLoop` is a total function because every turn lowers
`Scanner.fuel`. This module says what that means of the loop itself, turn by
turn: `Turns data n s t` is a run of `n` turns, and no such run from the start
of `parse_question` is longer than twice the bytes behind the header
(`turns_fuel`). The run that cannot go on ends in what the function returns
(`turns_end`), and the bounds of `Scanner.Within` then hold of it.
-/

namespace Denis

open Text

namespace Parser

/-- The result a turn ends the loop with; `none` if the loop goes on. -/
def Turn.result : Turn → Option (Except ParseError (Bytes × Nat))
  | .next _ => none
  | .done buf idx => some (.ok (buf, idx))
  | .error e => some (.error e)

/-- The loop variables before the first turn (`parser.rs:51–54`). -/
def Scanner.start : Scanner := { idx := header, len := 0, state := .length, buf := [] }

/-- `n` turns, none of which ends the loop, lead from `s` to `t`. -/
inductive Turns (data : Bytes) : Nat → Scanner → Scanner → Prop
  | refl (s : Scanner) : Turns data 0 s s
  | turn {n : Nat} {s s' t : Scanner} :
      turn data s = .next s' → Turns data n s' t → Turns data (n + 1) s t

variable {data : Bytes} {s t : Scanner} {n : Nat}

/-- The fuel pays for every turn. -/
theorem turns_fuel (h : Turns data n s t) : n + t.fuel data ≤ s.fuel data := by
  induction h with
  | refl s => exact (Nat.zero_add _).le
  | turn hturn _ ih =>
    have hlt := turn_fuel hturn
    omega

/-- From any loop variables some run of turns ends in the loop's result. -/
theorem turns_end (data : Bytes) (s : Scanner) :
    ∃ n t, Turns data n s t ∧ (turn data t).result = some (parseQuestionLoop data s) := by
  induction s using parseQuestionLoop.induct data with
  | case1 s s' hturn ih =>
    obtain ⟨n, t, hturns, hresult⟩ := ih
    exact ⟨n + 1, t, .turn hturn hturns, by rw [hresult, parseQuestionLoop_next hturn]⟩
  | case2 s buf idx hturn =>
    exact ⟨0, s, .refl s, by rw [hturn, parseQuestionLoop_done hturn]; rfl⟩
  | case3 s e hturn =>
    exact ⟨0, s, .refl s, by rw [hturn, parseQuestionLoop_error hturn]; rfl⟩

/-- **The scanner terminates within bounds**: no run of turns is longer than
twice the bytes behind the header, one ends in what `parse_question` returns,
and a name returned ends at a zero byte within the 255 octets of a name. -/
theorem parseQuestion_terminates_within_bounds (data : Bytes) :
    (∀ n t, Turns data n .start t → n ≤ 2 * (data.length - header)) ∧
    (∃ n t, Turns data n .start t ∧ (turn data t).result = some (parseQuestion data)) ∧
    (∀ buf idx, parseQuestion data = .ok (buf, idx) →
      idx < data.length ∧ data[idx]? = some 0 ∧ idx ≤ 268 ∧ buf.length ≤ 255) ∧
    ∀ query, parseUdp data = .ok query → query.answerOffset ≤ 273 := by
  refine ⟨?_, turns_end data .start, ?_, fun query h => (parseUdp_bounded h).high⟩
  · intro n t hturns
    have hfuel := turns_fuel hturns
    have hstart : Scanner.start.fuel data = 2 * (data.length - header) := rfl
    omega
  · intro buf idx h
    obtain ⟨-, hhigh, hzero⟩ := parseQuestion_bounds h
    exact ⟨(List.getElem?_eq_some_iff.mp hzero).1, hzero, hhigh, parseQuestion_buf h⟩

end Parser

end Denis
