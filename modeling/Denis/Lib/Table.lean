import Mathlib.Data.Finset.Dedup
import Mathlib.Data.List.Basic
import Mathlib.Data.List.Nodup

/-!
# Keyed tables

A table is a list of rows no two of which share a key, so a table that breaks
its `PRIMARY KEY` cannot be built. The statements are the ones programs issue
one at a time, each atomic, each with the number of rows it affected:

- `insert`: `INSERT`, refused when the key is taken;
- `insertIgnore`: `INSERT … ON CONFLICT (key) DO NOTHING`, row by row;
- `deleteWhere`: `DELETE … WHERE`;
- `updateWhere`: `UPDATE … SET … WHERE`, of columns that are not the key.

Each statement has one lemma for the keys it leaves and one for the rows it
counts. `insertIgnore_append` says that inserting in parts is inserting at
once, which is all a chunked insert needs.
-/

universe u v

/-- Rows with pairwise distinct keys. -/
structure Table {ρ : Type u} {κ : Type v} (key : ρ → κ) where
  rows : List ρ
  unique : (rows.map key).Nodup

namespace Table

variable {ρ : Type u} {κ : Type v} {key : ρ → κ}

/-- The table without rows. -/
def empty (key : ρ → κ) : Table key := ⟨[], List.nodup_nil⟩

/-- The keys taken. -/
def keys (t : Table key) : List κ := t.rows.map key

/-- How many rows there are. -/
def size (t : Table key) : Nat := t.rows.length

/-! ## Deleting -/

theorem unique_filter (t : Table key) (p : ρ → Bool) : ((t.rows.filter p).map key).Nodup :=
  (List.filter_sublist.map key).nodup t.unique

/-- `DELETE … WHERE`: the table and the rows deleted. -/
def deleteWhere (t : Table key) (p : ρ → Bool) : Table key × Nat :=
  (⟨t.rows.filter (fun r => !p r), unique_filter t _⟩, t.rows.countP p)

/-- Deleted and left make up the table. -/
theorem size_deleteWhere (t : Table key) (p : ρ → Bool) :
    (t.deleteWhere p).1.size + (t.deleteWhere p).2 = t.size := by
  show (t.rows.filter fun r => !p r).length + t.rows.countP p = t.rows.length
  rw [← List.countP_eq_length_filter, List.length_eq_countP_add_countP p, Nat.add_comm]
  simp

theorem mem_deleteWhere {t : Table key} {p : ρ → Bool} {r : ρ} :
    r ∈ (t.deleteWhere p).1.rows ↔ r ∈ t.rows ∧ p r = false := by
  show r ∈ t.rows.filter (fun r => !p r) ↔ _
  rw [List.mem_filter, Bool.not_eq_true']

/-! ## Updating -/

theorem unique_map {t : Table key} {f : ρ → ρ} (hf : ∀ r, key (f r) = key r) :
    ((t.rows.map f).map key).Nodup := by
  rw [List.map_map, show key ∘ f = key from funext hf]
  exact t.unique

theorem key_ite (p : ρ → Bool) {f : ρ → ρ} (hf : ∀ r, key (f r) = key r) (r : ρ) :
    key (if p r then f r else r) = key r := by
  split
  · exact hf r
  · rfl

/-- `UPDATE … SET … WHERE`: the table and the rows updated. -/
def updateWhere (t : Table key) (p : ρ → Bool) (f : ρ → ρ) (hf : ∀ r, key (f r) = key r) :
    Table key × Nat :=
  (⟨t.rows.map fun r => if p r then f r else r, unique_map (key_ite p hf)⟩, t.rows.countP p)

/-! ## Inserting -/

theorem unique_append {t : Table key} {r : ρ} (h : key r ∉ t.keys) :
    ((t.rows ++ [r]).map key).Nodup := by
  rw [List.map_append, List.map_singleton]
  exact List.nodup_append.mpr ⟨t.unique, List.nodup_singleton _, fun k hk k' hk' heq =>
    h (List.mem_singleton.mp hk' ▸ heq ▸ hk)⟩

variable [DecidableEq κ]

/-- `INSERT`: the table with the row, unless its key is taken. -/
def insert (t : Table key) (r : ρ) : Option (Table key) :=
  if h : key r ∈ t.keys then none else some ⟨t.rows ++ [r], unique_append h⟩

/-- `INSERT … ON CONFLICT (key) DO NOTHING`: the table and the rows inserted. -/
def insertIgnore (t : Table key) : List ρ → Table key × Nat
  | [] => (t, 0)
  | r :: rs =>
    match t.insert r with
    | none => t.insertIgnore rs
    | some t' => ((t'.insertIgnore rs).1, (t'.insertIgnore rs).2 + 1)

theorem insert_eq_none {t : Table key} {r : ρ} : t.insert r = none ↔ key r ∈ t.keys := by
  unfold insert
  split
  · next h => simp [h]
  · next h => simp [h]

theorem insert_eq_some {t t' : Table key} {r : ρ} (h : t.insert r = some t') :
    key r ∉ t.keys ∧ t'.rows = t.rows ++ [r] := by
  unfold insert at h
  split at h
  · cases h
  · next hfree =>
    obtain rfl := Option.some.inj h
    exact ⟨hfree, rfl⟩

/-- A key after an insert was there or is the row's. -/
theorem mem_keys_insert {t t' : Table key} {r : ρ} (h : t.insert r = some t') (k : κ) :
    k ∈ t'.keys ↔ k ∈ t.keys ∨ k = key r := by
  rw [keys, (insert_eq_some h).2, List.map_append, List.mem_append]
  simp [keys]

/-- **The keys after an insert with conflicts ignored**: those there, and those
inserted or ignored. -/
theorem mem_keys_insertIgnore (t : Table key) (rs : List ρ) (k : κ) :
    k ∈ (t.insertIgnore rs).1.keys ↔ k ∈ t.keys ∨ k ∈ rs.map key := by
  induction rs generalizing t with
  | nil => simp [insertIgnore]
  | cons r rs ih =>
    rw [insertIgnore, List.map_cons, List.mem_cons]
    cases hins : t.insert r with
    | none =>
      show k ∈ (t.insertIgnore rs).1.keys ↔ _
      rw [ih t]
      constructor
      · exact fun h => h.imp_right .inr
      · rintro (h | rfl | h)
        · exact .inl h
        · -- the conflicting key is taken
          exact .inl (insert_eq_none.mp hins)
        · exact .inr h
    | some t' =>
      show k ∈ (t'.insertIgnore rs).1.keys ↔ _
      rw [ih t', mem_keys_insert hins, or_assoc]

/-- **The rows an insert counts** are those it adds. -/
theorem size_insertIgnore (t : Table key) (rs : List ρ) :
    (t.insertIgnore rs).1.size = t.size + (t.insertIgnore rs).2 := by
  induction rs generalizing t with
  | nil => rfl
  | cons r rs ih =>
    rw [insertIgnore]
    cases hins : t.insert r with
    | none => exact ih t
    | some t' =>
      have hsize : t'.size = t.size + 1 := by
        rw [size, (insert_eq_some hins).2, List.length_append]
        rfl
      show (t'.insertIgnore rs).1.size = t.size + ((t'.insertIgnore rs).2 + 1)
      rw [ih t', hsize]
      omega

/-- No more rows are inserted than given. -/
theorem insertIgnore_le (t : Table key) (rs : List ρ) :
    (t.insertIgnore rs).2 ≤ rs.length := by
  induction rs generalizing t with
  | nil => exact Nat.le_refl 0
  | cons r rs ih =>
    rw [insertIgnore, List.length_cons]
    cases t.insert r with
    | none => exact Nat.le_succ_of_le (ih t)
    | some t' => exact Nat.succ_le_succ (ih t')

/-- **Inserting in parts is inserting at once**, in the rows left and in the
rows counted. -/
theorem insertIgnore_append (t : Table key) (rs rs' : List ρ) :
    t.insertIgnore (rs ++ rs') =
      (((t.insertIgnore rs).1.insertIgnore rs').1,
        (t.insertIgnore rs).2 + ((t.insertIgnore rs).1.insertIgnore rs').2) := by
  induction rs generalizing t with
  | nil => simp [insertIgnore]
  | cons r rs ih =>
    rw [List.cons_append, insertIgnore, insertIgnore]
    cases t.insert r with
    | none => exact ih t
    | some t' =>
      show ((t'.insertIgnore (rs ++ rs')).1, (t'.insertIgnore (rs ++ rs')).2 + 1) = _
      rw [ih t']
      simp [Nat.add_right_comm]

/-! ## Deleting by key -/

/-- Deleting by key leaves the other keys. -/
theorem mem_keys_deleteWhere (t : Table key) (k k' : κ) :
    k' ∈ (t.deleteWhere fun r => key r = k).1.keys ↔ k' ∈ t.keys ∧ k' ≠ k := by
  simp only [keys, List.mem_map, mem_deleteWhere, decide_eq_false_iff_not]
  constructor
  · rintro ⟨r, ⟨hr, hne⟩, rfl⟩
    exact ⟨⟨r, hr, rfl⟩, hne⟩
  · rintro ⟨⟨r, hr, rfl⟩, hne⟩
    exact ⟨r, ⟨hr, hne⟩, rfl⟩

/-- Deleting by key takes a row iff the key is taken. -/
theorem deleteWhere_pos {t : Table key} {k : κ} :
    0 < (t.deleteWhere fun r => key r = k).2 ↔ k ∈ t.keys := by
  show 0 < t.rows.countP _ ↔ _
  rw [List.countP_pos_iff, keys, List.mem_map]
  simp

end Table
