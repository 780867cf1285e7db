import Mathlib.Data.List.Basic

/-!
# Length-prefixed frames

Messages on a stream, each behind its length in a fixed number of symbols. A
`LengthCode` is how lengths are written; `frame` puts a message on the stream and
`deframe` reads the stream back, all of it or not at all. Messages whose length
the code can hold survive (`deframe_frames`).
-/

namespace Framing

universe u

variable {α : Type u}

/-- The first `n` symbols and the rest, if there are as many. -/
def readExact (n : Nat) (input : List α) : Option (List α × List α) :=
  if n ≤ input.length then some (input.take n, input.drop n) else none

theorem readExact_append {n : Nat} {xs : List α} (rest : List α) (hn : xs.length = n) :
    readExact n (xs ++ rest) = some (xs, rest) := by
  subst hn
  rw [readExact, if_pos (by simp), List.take_left, List.drop_left]

/-- Reading uses symbols up. -/
theorem readExact_length {n : Nat} {input xs rest : List α}
    (h : readExact n input = some (xs, rest)) : n + rest.length = input.length := by
  unfold readExact at h
  split at h
  · next hle =>
    obtain ⟨-, rfl⟩ := Prod.mk.inj (Option.some.inj h)
    rw [List.length_drop]
    omega
  · cases h

/-- A way to write lengths, in as many symbols for each: those below `limit` can
be read back. -/
structure LengthCode (α : Type u) where
  width : Nat
  limit : Nat
  put : Nat → List α
  get : List α → Nat
  width_pos : 0 < width
  put_length : ∀ n, (put n).length = width
  get_put : ∀ n, n < limit → get (put n) = n

namespace LengthCode

variable (C : LengthCode α)

/-- A message behind its length. -/
def frame (msg : List α) : List α := C.put msg.length ++ msg

/-- The first message on a stream and what is behind it. -/
def readFrame (input : List α) : Option (List α × List α) :=
  match readExact C.width input with
  | none => none
  | some (length, input) => readExact (C.get length) input

variable {C}

theorem readFrame_length {input msg rest : List α} (h : C.readFrame input = some (msg, rest)) :
    rest.length < input.length := by
  have hpos := C.width_pos
  unfold readFrame at h
  split at h
  · cases h
  · next length input' hlength =>
    have h₁ := readExact_length hlength
    have h₂ := readExact_length h
    omega

variable (C) in
/-- The messages on a stream of frames. -/
def deframe (input : List α) : Option (List (List α)) :=
  match input with
  | [] => some []
  | a :: input =>
    match _hread : C.readFrame (a :: input) with
    | none => none
    | some (msg, rest) => (deframe rest).map (msg :: ·)
termination_by input.length
decreasing_by exact readFrame_length _hread

theorem readFrame_frame {msg : List α} (hmsg : msg.length < C.limit) (rest : List α) :
    C.readFrame (C.frame msg ++ rest) = some (msg, rest) := by
  rw [readFrame, frame, List.append_assoc, readExact_append _ (C.put_length _)]
  dsimp only
  rw [C.get_put _ hmsg, readExact_append _ rfl]

/-- A frame is read as its message. -/
theorem deframe_frame_append {msg : List α} (hmsg : msg.length < C.limit) (rest : List α) :
    C.deframe (C.frame msg ++ rest) = (C.deframe rest).map (msg :: ·) := by
  have hread := readFrame_frame hmsg rest
  have hpos : 0 < (C.frame msg ++ rest).length := by
    have := readFrame_length hread
    omega
  generalize C.frame msg ++ rest = input at hread hpos
  match input, hpos with
  | a :: input, _ =>
    rw [deframe]
    split
    · next hnone => cases hnone.symm.trans hread
    · next msg' rest' hsome =>
      obtain ⟨rfl, rfl⟩ := Prod.mk.inj (Option.some.inj (hsome.symm.trans hread))
      rfl

/-- **Frames are read back.** -/
theorem deframe_frames {msgs : List (List α)} (hmsgs : ∀ msg ∈ msgs, msg.length < C.limit) :
    C.deframe (msgs.flatMap C.frame) = some msgs := by
  induction msgs with
  | nil => rw [List.flatMap_nil, deframe]
  | cons msg msgs ih =>
    rw [List.flatMap_cons, deframe_frame_append (hmsgs msg (List.mem_cons_self ..)),
      ih fun m hm => hmsgs m (List.mem_cons_of_mem _ hm)]
    rfl

end LengthCode

end Framing
