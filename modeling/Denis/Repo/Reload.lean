import Denis.Repo.Decision
import Denis.Repo.Store
import Mathlib.Data.Finset.Card

/-!
# Reading the lists from the database (`repo/cache.rs`)

`load_set` reads a table row by row, `while let Some(Ok(domain))`, so the first
error ends the loop like the last row does, and what was read so far replaces
the list in memory. `read_blocklist_db_memory` and `read_allowlist_db_memory`
return nothing: no failure is reported.

`RowStream` is what the database yields of a table: its domains in some order,
and possibly an error at some place; `RowRead` yields one of any table. The list
in force afterwards is the whole table iff the error, if any, comes after the
last row (`reload_complete_iff`).
-/

namespace Denis

open Text

/-- An error of the row stream: how many rows came before it, and what the
stream would yield next. -/
structure RowFault where
  position : Nat
  error : CacheError
  rest : List (Except CacheError Str)

/-- The rows of `SELECT domain FROM …`: the domains of the table, in an order
the database chooses, and the error it meets, if it meets one. -/
structure RowStream {ρ : Type} {key : ρ → Str} (t : Table key) where
  order : List Str
  perm : order.Perm t.keys
  fault : Option RowFault

namespace RowStream

variable {ρ : Type} {key : ρ → Str} {t : Table key}

/-- The rows yielded before the error, or all. -/
def before (stream : RowStream t) : List Str :=
  match stream.fault with
  | none => stream.order
  | some f => stream.order.take f.position

/-- What the stream yields. -/
def items (stream : RowStream t) : List (Except CacheError Str) :=
  match stream.fault with
  | none => stream.order.map .ok
  | some f => (stream.order.take f.position).map .ok ++ .error f.error :: f.rest

end RowStream

/-- How a table is read before it is known which rows it holds: the order they
come in, and the error met, if one is. -/
structure RowRead where
  order : List Str → List Str
  perm : ∀ keys, (order keys).Perm keys
  fault : Option RowFault

/-- The rows of a table so read. -/
def RowRead.stream (read : RowRead) {ρ : Type} {key : ρ → Str} (t : Table key) : RowStream t :=
  ⟨read.order t.keys, read.perm t.keys, read.fault⟩

/-- The loop of `load_set` (`cache.rs:380–382`). -/
def loadLoop : DomainSet → List (Except CacheError Str) → DomainSet
  | set, .ok domain :: rest => loadLoop (insert domain set) rest
  -- `Some(Err(_))` does not match `Some(Ok(domain))` either
  | set, .error _ :: _ => set
  | set, [] => set

/-- `load_set` (`cache.rs:375–384`). -/
def loadSet (items : List (Except CacheError Str)) : DomainSet := loadLoop ∅ items

/-- What a call that reads a list leaves: the lists in force, and the failure it
reports. -/
structure Reload where
  lists : Lists
  reported : Option CacheError

namespace Lists

variable (lists : Lists)

/-- `Cache::read_blocklist_db_memory` (`cache.rs:330–333`), which returns
`()`. -/
def readBlocklistDbMemory (items : List (Except CacheError Str)) : Reload :=
  ⟨{ lists with blockList := loadSet items }, none⟩

/-- `Cache::read_allowlist_db_memory` (`cache.rs:335–338`). -/
def readAllowlistDbMemory (items : List (Except CacheError Str)) : Reload :=
  ⟨{ lists with allowList := loadSet items }, none⟩

end Lists

/-- **No partial list**: the list after the call is all of the table, or it is
the list before and the failure is reported. -/
def CompleteOrReported {ρ : Type} {key : ρ → Str} (t : Table key) (before after : DomainSet)
    (reported : Option CacheError) : Prop :=
  after = t.keys.toFinset ∨ (after = before ∧ reported ≠ none)

section Load

variable {ρ : Type} {key : ρ → Str} {t : Table key} (stream : RowStream t)

/-- The loop takes rows until it meets something else. -/
theorem loadLoop_rows (set : DomainSet) (rows : List Str) (tail : List (Except CacheError Str))
    (htail : ∀ domain rest, tail ≠ .ok domain :: rest) :
    loadLoop set (rows.map .ok ++ tail) = set ∪ rows.toFinset := by
  induction rows generalizing set with
  | nil =>
    rw [List.map_nil, List.nil_append, List.toFinset_nil, Finset.union_empty]
    unfold loadLoop
    split
    · next domain rest => exact absurd rfl (htail domain rest)
    · rfl
    · rfl
  | cons row rows ih =>
    rw [List.map_cons, List.cons_append, loadLoop, ih, List.toFinset_cons,
      Finset.insert_union, Finset.union_insert]

/-- **What is loaded** are the rows before the error. -/
theorem loadSet_items : loadSet stream.items = stream.before.toFinset := by
  unfold RowStream.items RowStream.before
  cases stream.fault with
  | none =>
    have hrows := loadLoop_rows ∅ stream.order [] (by simp)
    rwa [List.append_nil, Finset.empty_union] at hrows
  | some f =>
    have hrows := loadLoop_rows ∅ (stream.order.take f.position) (.error f.error :: f.rest) (by simp)
    rwa [Finset.empty_union] at hrows

/-- They are rows of the table. -/
theorem loadSet_subset : loadSet stream.items ⊆ t.keys.toFinset := by
  intro domain hdomain
  rw [loadSet_items, List.mem_toFinset] at hdomain
  rw [List.mem_toFinset, ← stream.perm.mem_iff]
  unfold RowStream.before at hdomain
  split at hdomain
  · exact hdomain
  · exact List.mem_of_mem_take hdomain

/-- Without an error, all of them. -/
theorem loadSet_whole (hread : stream.fault = none) : loadSet stream.items = t.keys.toFinset := by
  rw [loadSet_items, RowStream.before, hread]
  exact List.toFinset_eq_of_perm _ _ stream.perm

/-- They are all of the table iff no row comes after the error: keys are
distinct. -/
theorem before_complete_iff :
    stream.before.toFinset = t.keys.toFinset ↔ ∀ f, stream.fault = some f → t.size ≤ f.position := by
  have horder : stream.order.toFinset = t.keys.toFinset := List.toFinset_eq_of_perm _ _ stream.perm
  have hlength : stream.order.length = t.size := by
    rw [stream.perm.length_eq, Table.keys, List.length_map, Table.size]
  have hnodup : stream.order.Nodup := stream.perm.nodup_iff.mpr t.unique
  unfold RowStream.before
  cases hfault : stream.fault with
  | none => simp [horder]
  | some f =>
    rw [← horder]
    constructor
    · rintro hsame _ ⟨⟩
      -- as many domains are loaded as rows were read
      have hcard := congrArg Finset.card hsame
      rw [List.toFinset_card_of_nodup hnodup,
        List.toFinset_card_of_nodup ((List.take_sublist _ _).nodup hnodup), List.length_take,
        hlength] at hcard
      omega
    · intro hlast
      show (stream.order.take f.position).toFinset = _
      rw [List.take_of_length_le (hlength ▸ hlast f rfl)]

/-- **What is blocked afterwards**: the names that a row before the error
covers. -/
theorem blocked_after_reload (lists : Lists) (name : Str) :
    Repo.decide (lists.readBlocklistDbMemory stream.items).lists.blockList lists.allowList name =
        true ↔
      (∃ domain ∈ stream.before, Repo.EndsIn name domain) ∧
        ¬ ∃ domain ∈ lists.allowList, Repo.EndsIn name domain := by
  have hloaded : (lists.readBlocklistDbMemory stream.items).lists.blockList =
      stream.before.toFinset := loadSet_items stream
  rw [hloaded, Repo.decide_iff, Repo.covers_iff_endsIn, Repo.covers_iff_endsIn]
  simp only [List.mem_toFinset]

end Load

/-- **A reload puts the whole table in force** or reports its failure iff no
error of the row stream comes before the last row, in both lists. -/
theorem reload_complete_iff (lists : Lists) (s : ListStore) (blocked : RowStream s.blocked)
    (allowed : RowStream s.allowed) :
    (CompleteOrReported s.blocked lists.blockList
        (lists.readBlocklistDbMemory blocked.items).lists.blockList
        (lists.readBlocklistDbMemory blocked.items).reported ↔
      ∀ f, blocked.fault = some f → s.blocked.size ≤ f.position) ∧
    (CompleteOrReported s.allowed lists.allowList
        (lists.readAllowlistDbMemory allowed.items).lists.allowList
        (lists.readAllowlistDbMemory allowed.items).reported ↔
      ∀ f, allowed.fault = some f → s.allowed.size ≤ f.position) := by
  constructor
  · rw [← before_complete_iff, ← loadSet_items]
    simp [CompleteOrReported, Lists.readBlocklistDbMemory]
  · rw [← before_complete_iff, ← loadSet_items]
    simp [CompleteOrReported, Lists.readAllowlistDbMemory]

/-- A table of two domains whose second row fails: the reload installs the first
alone and reports nothing. -/
theorem partial_list_installed :
    ∃ (s : ListStore) (lists : Lists) (blocked : RowStream s.blocked),
      blocked.fault = some ⟨1, .sql "connection lost", []⟩ ∧
      (lists.readBlocklistDbMemory blocked.items).lists.blockList ⊂ s.blocked.keys.toFinset ∧
      ¬ CompleteOrReported s.blocked lists.blockList
        (lists.readBlocklistDbMemory blocked.items).lists.blockList
        (lists.readBlocklistDbMemory blocked.items).reported := by
  refine ⟨⟨⟨∅, ∅⟩, ⟨[⟨['x'], ['a', '.', 'b']⟩, ⟨['x'], ['c', '.', 'd']⟩], by decide⟩,
    Table.empty _⟩, ⟨∅, ∅⟩, ⟨[['a', '.', 'b'], ['c', '.', 'd']], .refl _, _⟩, rfl, ?_, ?_⟩
  · show loadLoop ∅ [.ok ['a', '.', 'b'], .error (.sql "connection lost")] ⊂ _
    decide
  · rintro (hsame | ⟨-, hreported⟩)
    · have hloaded : loadLoop ∅ [.ok ['a', '.', 'b'], .error (.sql "connection lost")] =
        {['a', '.', 'b'], ['c', '.', 'd']} := hsame
      exact absurd hloaded (by decide)
    · exact hreported rfl

end Denis
