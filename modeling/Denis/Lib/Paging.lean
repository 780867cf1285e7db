import Mathlib.Data.List.Nodup
import Mathlib.Data.List.Perm.Basic

/-!
# Pages of a sorted listing

`ORDER BY … LIMIT … OFFSET …` over rows that may change between two pages. An
element is on a page iff its rank (how many elements come before it) is in the
page's range (`mem_page_iff`), so what becomes of an element is what becomes of
its rank: rows added only raise it, rows removed only lower it (`rank_mono`).

`Walk` is a reader that asks for page after page. While rows are only added,
everything there at the beginning has been listed or is still to come
(`Walk.Ahead`); while rows are only removed, nothing listed is to come again
(`Walk.Behind`).
-/

universe u

/-- A total order by which a database sorts. -/
structure Collation (α : Type u) where
  le : α → α → Bool
  trans : ∀ a b c, le a b = true → le b c = true → le a c = true
  total : ∀ a b, (le a b || le b a) = true
  antisymm : ∀ a b, le a b = true → le b a = true → a = b

namespace Collation

variable {α : Type u} (c : Collation α)

/-- `ORDER BY`. -/
def sort (rows : List α) : List α := rows.mergeSort c.le

/-- `ORDER BY … LIMIT limit OFFSET offset`. -/
def page (rows : List α) (limit offset : Nat) : List α :=
  ((c.sort rows).drop offset).take limit

/-- How many elements come before `x`. -/
def rank (rows : List α) (x : α) : Nat := rows.countP fun y => c.le y x && !c.le x y

variable {c} {rows rows' : List α} {x : α}

theorem mem_sort : x ∈ c.sort rows ↔ x ∈ rows := List.mem_mergeSort

theorem length_sort : (c.sort rows).length = rows.length := List.length_mergeSort rows

theorem nodup_sort (h : rows.Nodup) : (c.sort rows).Nodup :=
  (List.mergeSort_perm rows c.le).nodup_iff.mpr h

theorem pairwise_sort : (c.sort rows).Pairwise fun a b => c.le a b = true :=
  List.pairwise_mergeSort c.trans c.total rows

theorem length_page (limit offset : Nat) :
    (c.page rows limit offset).length = min limit (rows.length - offset) := by
  rw [page, List.length_take, List.length_drop, length_sort]

/-- **The rank of an element is its place** in the sorted listing. -/
theorem getElem?_rank (hnodup : rows.Nodup) (hx : x ∈ rows) :
    (c.sort rows)[c.rank rows x]? = some x := by
  have hsorted : (c.sort rows).Pairwise _ := pairwise_sort (c := c)
  have hdistinct := nodup_sort (c := c) hnodup
  have hcount : c.rank rows x = (c.sort rows).countP fun y => c.le y x && !c.le x y :=
    ((List.mergeSort_perm rows c.le).countP_eq _).symm
  obtain ⟨before, after, hsplit⟩ := List.append_of_mem (mem_sort (c := c).mpr hx)
  rw [hsplit] at hsorted hdistinct hcount ⊢
  obtain ⟨-, hafter, hbefore⟩ := List.pairwise_append.mp hsorted
  -- before `x` all come before it, from `x` on none does
  have hall : before.countP (fun y => c.le y x && !c.le x y) = before.length := by
    rw [List.countP_eq_length]
    intro y hy
    have hle := hbefore y hy x List.mem_cons_self
    have hne : c.le x y ≠ true := by
      intro hback
      obtain rfl := c.antisymm _ _ hle hback
      exact (List.nodup_append.mp hdistinct).2.2 y hy y List.mem_cons_self rfl
    simp [hle, hne]
  have hnone : (x :: after).countP (fun y => c.le y x && !c.le x y) = 0 := by
    rw [List.countP_eq_zero]
    intro y hy
    rcases List.mem_cons.mp hy with rfl | hy
    · simp
    · simp [List.rel_of_pairwise_cons hafter hy]
  rw [hcount, List.countP_append, hall, hnone, Nat.add_zero,
    List.getElem?_append_right (Nat.le_refl _), Nat.sub_self, List.getElem?_cons_zero]

theorem rank_lt (hnodup : rows.Nodup) (hx : x ∈ rows) : c.rank rows x < rows.length := by
  obtain ⟨hlt, -⟩ := List.getElem?_eq_some_iff.mp (getElem?_rank (c := c) hnodup hx)
  rwa [length_sort] at hlt

/-- **An element is on a page** iff its rank is in the page's range. -/
theorem mem_page_iff (hnodup : rows.Nodup) (hx : x ∈ rows) {limit offset : Nat} :
    x ∈ c.page rows limit offset ↔
      offset ≤ c.rank rows x ∧ c.rank rows x < offset + limit := by
  have hplace := getElem?_rank (c := c) hnodup hx
  rw [page, List.mem_iff_getElem?]
  constructor
  · rintro ⟨i, hget⟩
    obtain ⟨hi, -⟩ := List.getElem?_eq_some_iff.mp hget
    rw [List.length_take] at hi
    rw [List.getElem?_take_of_lt (by omega), List.getElem?_drop] at hget
    have hsame : offset + i = c.rank rows x := by
      obtain ⟨hlt, -⟩ := List.getElem?_eq_some_iff.mp hget
      exact (List.getElem?_inj hlt (nodup_sort hnodup)).mp (hget.trans hplace.symm)
    omega
  · rintro ⟨hle, hlt⟩
    refine ⟨c.rank rows x - offset, ?_⟩
    rw [List.getElem?_take_of_lt (by omega), List.getElem?_drop, Nat.add_sub_cancel' hle]
    exact hplace

/-- More rows, a rank no lower. -/
theorem rank_mono (hnodup : rows.Nodup) (hsub : ∀ y ∈ rows, y ∈ rows') (x : α) :
    c.rank rows x ≤ c.rank rows' x :=
  (List.subperm_of_subset hnodup hsub).countP_le _

/-- **A page goes on** where those before it end. -/
theorem take_append_page (limit n : Nat) :
    (c.sort rows).take (n * limit) ++ c.page rows limit (n * limit) =
      (c.sort rows).take ((n + 1) * limit) := by
  rw [page, Nat.succ_mul]
  exact (List.take_add ..).symm

end Collation

/-- A reader that asks for page after page: how many pages it has asked for, and
what they listed. -/
structure Walk (α : Type u) where
  asked : Nat
  listed : List α

namespace Walk

variable {α : Type u} {c : Collation α} {limit : Nat} {rows rows' : List α} {w : Walk α} {x : α}

/-- Before the first page. -/
def start : Walk α := ⟨0, []⟩

/-- Ask for the next page. -/
def next (c : Collation α) (limit : Nat) (rows : List α) (w : Walk α) : Walk α :=
  ⟨w.asked + 1, w.listed ++ c.page rows limit (w.asked * limit)⟩

/-! ## Rows are only added -/

/-- The element is there, and was listed or is still to come. -/
def Ahead (c : Collation α) (limit : Nat) (rows : List α) (w : Walk α) (x : α) : Prop :=
  x ∈ rows ∧ (x ∈ w.listed ∨ w.asked * limit ≤ c.rank rows x)

theorem Ahead.start (hx : x ∈ rows) : Ahead c limit rows start x :=
  ⟨hx, .inr (by simp [Walk.start])⟩

theorem Ahead.grow (h : Ahead c limit rows w x) (hnodup : rows.Nodup)
    (hsub : ∀ y ∈ rows, y ∈ rows') : Ahead c limit rows' w x :=
  ⟨hsub x h.1, h.2.imp_right fun hle => Nat.le_trans hle (Collation.rank_mono hnodup hsub x)⟩

theorem Ahead.next (h : Ahead c limit rows w x) (hnodup : rows.Nodup) :
    Ahead c limit rows (w.next c limit rows) x := by
  refine ⟨h.1, ?_⟩
  rcases h.2 with hlisted | hle
  · exact .inl (List.mem_append_left _ hlisted)
  · by_cases hlt : c.rank rows x < w.asked * limit + limit
    · exact .inl (List.mem_append_right _ ((Collation.mem_page_iff hnodup h.1).mpr ⟨hle, hlt⟩))
    · refine .inr ?_
      show (w.asked + 1) * limit ≤ c.rank rows x
      rw [Nat.succ_mul]
      exact Nat.le_of_not_lt hlt

/-- **A page that is not full ends the listing**: what was still to come is on
it. -/
theorem Ahead.finish (h : Ahead c limit rows w x) (hnodup : rows.Nodup)
    (hlast : (c.page rows limit (w.asked * limit)).length < limit) :
    x ∈ (w.next c limit rows).listed := by
  rcases (h.next hnodup).2 with hlisted | hle
  · exact hlisted
  · have hlt := Collation.rank_lt (c := c) hnodup h.1
    rw [Collation.length_page] at hlast
    change (w.asked + 1) * limit ≤ _ at hle
    rw [Nat.succ_mul] at hle
    omega

/-! ## Rows are only removed -/

/-- Nothing was listed twice, and what was listed and is still there is not to
come again. -/
structure Behind (c : Collation α) (limit : Nat) (rows : List α) (w : Walk α) : Prop where
  nodup : w.listed.Nodup
  passed : ∀ x ∈ rows, x ∈ w.listed → c.rank rows x < w.asked * limit

theorem Behind.start : Behind c limit rows start := ⟨List.nodup_nil, by simp [Walk.start]⟩

theorem Behind.shrink (h : Behind c limit rows w) (hnodup : rows'.Nodup)
    (hsub : ∀ y ∈ rows', y ∈ rows) : Behind c limit rows' w :=
  ⟨h.nodup, fun x hx hlisted =>
    Nat.lt_of_le_of_lt (Collation.rank_mono hnodup hsub x) (h.passed x (hsub x hx) hlisted)⟩

theorem mem_of_mem_page {offset : Nat} (hx : x ∈ c.page rows limit offset) : x ∈ rows :=
  Collation.mem_sort.mp (List.mem_of_mem_drop (List.mem_of_mem_take hx))

theorem Behind.next (h : Behind c limit rows w) (hnodup : rows.Nodup) :
    Behind c limit rows (w.next c limit rows) := by
  refine ⟨List.nodup_append.mpr ⟨h.nodup, ?_, ?_⟩, ?_⟩
  · exact (((List.take_sublist _ _).trans (List.drop_sublist _ _)).nodup
      (Collation.nodup_sort hnodup))
  · rintro x hlisted y hy rfl
    -- a listed element has been passed, and the page starts where the last ended
    have hx := mem_of_mem_page hy
    have hpassed := h.passed x hx hlisted
    have hrange := (Collation.mem_page_iff hnodup hx).mp hy
    omega
  · intro x hx hlisted
    show c.rank rows x < (w.asked + 1) * limit
    rw [Nat.succ_mul]
    rcases List.mem_append.mp hlisted with hlisted | hpage
    · have hpassed := h.passed x hx hlisted
      omega
    · exact ((Collation.mem_page_iff hnodup hx).mp hpage).2

end Walk
