import Mathlib.Data.List.Basic

/-!
# Checked accesses to a buffer

The accesses that stop a program out of range: reading and writing one element,
cutting a buffer short, and overwriting a stretch of it. Each returns `none`
where the program would stop, and a lemma says what it returns in range.
-/

namespace Indexing

universe u

variable {α : Type u} {xs src : List α} {i lo hi n : Nat}

/-- `xs[i]`. -/
def index (xs : List α) (i : Nat) : Option α := xs[i]?

/-- `xs[i] = v`. -/
def store (xs : List α) (i : Nat) (v : α) : Option (List α) :=
  if i < xs.length then some (xs.set i v) else none

/-- `&xs[..n]`. -/
def sliceTo (xs : List α) (n : Nat) : Option (List α) :=
  if n ≤ xs.length then some (xs.take n) else none

/-- `xs[lo..hi].copy_from_slice(src)`: the lengths must agree too. -/
def copyRange (xs : List α) (lo hi : Nat) (src : List α) : Option (List α) :=
  if lo ≤ hi ∧ hi ≤ xs.length ∧ src.length = hi - lo then
    some (xs.take lo ++ src ++ xs.drop hi)
  else none

/-- `xs[lo..hi].fill(v)`. -/
def fillRange (xs : List α) (lo hi : Nat) (v : α) : Option (List α) :=
  copyRange xs lo hi (List.replicate (hi - lo) v)

theorem index_eq (h : i < xs.length) (d : α) : index xs i = some (xs.getD i d) := by
  rw [index, List.getD_eq_getElem?_getD, List.getElem?_eq_getElem h, Option.getD_some]

theorem store_eq (h : i < xs.length) (v : α) : store xs i v = some (xs.set i v) := if_pos h

theorem sliceTo_eq (h : n ≤ xs.length) : sliceTo xs n = some (xs.take n) := if_pos h

/-- Overwriting a stretch, element by element. -/
theorem copyRange_eq (hlo : lo ≤ hi) (hhi : hi ≤ xs.length) (hsrc : src.length = hi - lo) :
    copyRange xs lo hi src =
      some (xs.mapIdx fun i x => if lo ≤ i ∧ i < hi then src.getD (i - lo) x else x) := by
  rw [copyRange, if_pos ⟨hlo, hhi, hsrc⟩, Option.some.injEq]
  refine List.ext_getElem? fun i => ?_
  rw [List.getElem?_mapIdx, List.append_assoc]
  rcases Nat.lt_or_ge i lo with hbefore | hlow
  · rw [List.getElem?_append_left (by rw [List.length_take]; omega),
      List.getElem?_take_of_lt hbefore]
    simp [Nat.not_le_of_lt hbefore]
  · have htake : (xs.take lo).length = lo := by
      rw [List.length_take]
      omega
    rw [List.getElem?_append_right (by omega), htake]
    rcases Nat.lt_or_ge i hi with hin | hafter
    · have hx : i < xs.length := by omega
      rw [List.getElem?_append_left (by omega), List.getElem?_eq_getElem hx, Option.map_some,
        if_pos ⟨hlow, hin⟩, List.getD_eq_getElem?_getD,
        List.getElem?_eq_getElem (show i - lo < src.length by omega), Option.getD_some]
    · rw [List.getElem?_append_right (by omega), List.getElem?_drop, hsrc]
      have hoffset : hi + (i - lo - (hi - lo)) = i := by omega
      have hout : ¬ (lo ≤ i ∧ i < hi) := by omega
      rw [hoffset]
      simp [hout]

theorem fillRange_eq (hlo : lo ≤ hi) (hhi : hi ≤ xs.length) (v : α) :
    fillRange xs lo hi v =
      some (xs.mapIdx fun i x => if lo ≤ i ∧ i < hi then v else x) := by
  rw [fillRange, copyRange_eq hlo hhi List.length_replicate, Option.some.injEq]
  refine List.ext_getElem? fun i => ?_
  rw [List.getElem?_mapIdx, List.getElem?_mapIdx]
  congr 1
  funext x
  by_cases hin : lo ≤ i ∧ i < hi
  · rw [if_pos hin, if_pos hin, List.getD_eq_getElem?_getD,
      List.getElem?_replicate_of_lt (by omega), Option.getD_some]
  · rw [if_neg hin, if_neg hin]

/-! ## Receiving into a buffer -/

/-- A datagram received into a buffer: its bytes as far as there is room, over
what was there, and how many they are. -/
def recvFrom (buf datagram : List α) : List α × Nat :=
  (datagram.take buf.length ++ buf.drop datagram.length, min datagram.length buf.length)

variable {buf datagram : List α}

theorem recvFrom_length : (recvFrom buf datagram).1.length = buf.length := by
  simp only [recvFrom, List.length_append, List.length_take, List.length_drop]
  omega

/-- The bytes received. -/
theorem recvFrom_take :
    (recvFrom buf datagram).1.take (recvFrom buf datagram).2 = datagram.take buf.length := by
  have hlength : (datagram.take buf.length).length = min datagram.length buf.length := by
    rw [List.length_take, Nat.min_comm]
  rw [recvFrom, ← hlength, List.take_left]

theorem recvFrom_getD (h : i < (recvFrom buf datagram).2) (d : α) :
    (recvFrom buf datagram).1.getD i d = (datagram.take buf.length).getD i d := by
  have hlength : i < (datagram.take buf.length).length := by
    rw [List.length_take, Nat.min_comm]
    exact h
  rw [recvFrom, List.getD_eq_getElem?_getD, List.getD_eq_getElem?_getD,
    List.getElem?_append_left hlength]

end Indexing
