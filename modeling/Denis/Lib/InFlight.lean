import Mathlib.Data.List.Perm.Basic
import Mathlib.Data.Multiset.AddSub
import Mathlib.Data.Multiset.MapFold

/-!
# Things in flight

What is under way is kept in lists, and where in its list a thing stands does not
matter: taking one off, and moving one on to another list, up to the order.
-/

namespace InFlight

variable {α β : Type*} {l l' : List α} {i : Nat} {x : α}

theorem perm_of_getElem? (h : l[i]? = some x) : l.Perm (x :: l.eraseIdx i) := by
  obtain ⟨hi, rfl⟩ := List.getElem?_eq_some_iff.mp h
  exact (List.getElem_cons_eraseIdx_perm hi).symm

/-- What it counts for goes with it. -/
theorem coe_map_taken (h : l[i]? = some x) (f : α → β) :
    (l.map f : Multiset β) = f x ::ₘ ((l.eraseIdx i).map f : Multiset β) :=
  Multiset.coe_eq_coe.mpr ((perm_of_getElem? h).map f)

theorem coe_map_concat (l : List α) (x : α) (f : α → β) :
    ((l ++ [x]).map f : Multiset β) = (l.map f : Multiset β) + {f x} := by
  rw [List.map_append, ← Multiset.coe_add]
  rfl

/-- What another list has of it is there too, and can be taken. -/
theorem exists_taken (h : l.Perm (x :: l')) : ∃ j, l[j]? = some x ∧ (l.eraseIdx j).Perm l' := by
  obtain ⟨j, hj⟩ := List.mem_iff_getElem?.mp (h.mem_iff.mpr List.mem_cons_self)
  exact ⟨j, hj, ((perm_of_getElem? hj).symm.trans h).cons_inv⟩

/-- An element moves from one list to the next, -/
theorem perm_passed (h : l.Perm (x :: l')) (r : List α) : (l' ++ (r ++ [x])).Perm (l ++ r) := by
  rw [← List.append_assoc]
  exact (List.perm_append_singleton x (l' ++ r)).trans (h.symm.append_right r)

/-- with others behind that, -/
theorem perm_moved (h : l.Perm (x :: l')) (r d : List α) :
    (l' ++ (r ++ [x]) ++ d).Perm (l ++ r ++ d) :=
  (perm_passed h r).append_right d

/-- or to the one after. -/
theorem perm_moved_last (h : l.Perm (x :: l')) (r d : List α) :
    (l' ++ r ++ (d ++ [x])).Perm (l ++ r ++ d) := by
  rw [← List.append_assoc]
  exact (List.perm_append_singleton x (l' ++ r ++ d)).trans
    ((h.symm.append_right r).append_right d)

/-- What is added to the first of two is added to both. -/
theorem perm_added (l r : List α) (x : α) : (l ++ [x] ++ r).Perm (l ++ r ++ [x]) := by
  rw [List.append_assoc, List.append_assoc]
  exact List.perm_append_comm.append_left l

/-- Of a list without repetitions, all but one element. -/
theorem filter_ne_perm [DecidableEq α] (h : l.Perm (x :: l')) (hnodup : l.Nodup) :
    (l.filter fun y => y ≠ x).Perm l' := by
  refine (h.filter _).trans ?_
  obtain ⟨hx, -⟩ := List.nodup_cons.mp (h.nodup_iff.mp hnodup)
  rw [List.filter_cons_of_neg (by simp), List.filter_eq_self.mpr]
  exact fun y hy => decide_eq_true (by rintro rfl; exact hx hy)

end InFlight
