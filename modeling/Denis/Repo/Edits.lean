import Denis.Lib.Machine
import Denis.Lib.WriteLog
import Denis.Repo.Lists
import Mathlib.Data.List.Perm.Basic

/-!
# Editing the block list in memory and in the database (`repo/cache.rs`)

`add_block_domains` and `remove_block_domain` update the list in memory under
`write_lock`, release it, and then run their SQL: one `INSERT … ON CONFLICT
(domain) DO NOTHING` for every 1000 domains, or one `DELETE`. Calls of any
number interleave between these half-steps. A restart reads the list back from
the table.

Memory and table are two replicas of one set, each fed the same writes in an
order of its own, so they end equal iff for every domain the last write is the
same in both (`agree_iff_last_writes`). Nothing in the code orders the two, and
`remove_overtakes_add` is a run that ends apart.
-/

namespace Denis

open Text

/-- A row of table `blocked` (`cache.rs:343–346`). -/
structure BlockedRow where
  list : Str
  domain : Str
  deriving DecidableEq

/-- Table `blocked`; `domain` is its primary key. -/
abbrev BlockedTable := List BlockedRow

namespace BlockedTable

/-- The domains of the rows, as `load_set` reads them (`cache.rs:375–384`). -/
def domains (table : BlockedTable) : DomainSet := (table.map BlockedRow.domain).toFinset

/-- `INSERT INTO blocked … ON CONFLICT (domain) DO NOTHING`, row by row. -/
def insert (table : BlockedTable) (list : Str) (chunk : List Str) : BlockedTable :=
  chunk.foldl
    (fun table d => if table.any (·.domain = d) then table else table ++ [⟨list, d⟩]) table

/-- `DELETE FROM blocked WHERE domain = …`. -/
def delete (table : BlockedTable) (domain : Str) : BlockedTable :=
  table.filter (·.domain ≠ domain)

theorem mem_domains {table : BlockedTable} {d : Str} :
    d ∈ table.domains ↔ ∃ row ∈ table, row.domain = d := by
  simp [domains]

theorem domains_insert (table : BlockedTable) (list : Str) (chunk : List Str) :
    (table.insert list chunk).domains = table.domains ∪ chunk.toFinset := by
  induction chunk generalizing table with
  | nil => simp [insert]
  | cons d chunk ih =>
    rw [insert, List.foldl_cons, ← insert, ih]
    ext x
    by_cases hd : table.any (·.domain = d)
    · -- a conflicting row is left as it is
      have hmem : d ∈ table.domains := mem_domains.mpr (by simpa using hd)
      rw [if_pos hd, Finset.mem_union, Finset.mem_union, List.toFinset_cons, Finset.mem_insert]
      constructor
      · exact fun h => h.imp_right .inr
      · rintro (h | rfl | h)
        · exact .inl h
        · exact .inl hmem
        · exact .inr h
    · have hrow : domains (table ++ [⟨list, d⟩]) = Insert.insert d table.domains := by
        ext y
        rw [Finset.mem_insert, mem_domains, mem_domains]
        constructor
        · rintro ⟨row, hrow, rfl⟩
          rcases List.mem_append.mp hrow with hrow | hrow
          · exact .inr ⟨row, hrow, rfl⟩
          · exact .inl (by rw [List.mem_singleton.mp hrow])
        · rintro (rfl | ⟨row, hrow, rfl⟩)
          · exact ⟨_, List.mem_append_right _ (List.mem_singleton_self _), rfl⟩
          · exact ⟨row, List.mem_append_left _ hrow, rfl⟩
      rw [if_neg hd, hrow, Finset.mem_union, Finset.mem_union, Finset.mem_insert,
        List.toFinset_cons, Finset.mem_insert, or_assoc, or_left_comm]

theorem domains_delete (table : BlockedTable) (domain : Str) :
    (table.delete domain).domains = table.domains \ [domain].toFinset := by
  ext x
  rw [Finset.mem_sdiff, mem_domains, mem_domains]
  constructor
  · rintro ⟨row, hrow, rfl⟩
    obtain ⟨hmem, hne⟩ := List.mem_filter.mp hrow
    exact ⟨⟨row, hmem, rfl⟩, by simpa using hne⟩
  · rintro ⟨⟨row, hmem, rfl⟩, hne⟩
    exact ⟨row, List.mem_filter.mpr ⟨hmem, by simpa using hne⟩, rfl⟩

end BlockedTable

/-- A call whose in-memory half is done: the SQL statements it has left. -/
inductive SqlCall
  | insert (list : Str) (chunks : List (List Str))
  | delete (domain : Str)
  deriving DecidableEq

namespace SqlCall

/-- The domains the statements left name. -/
def keys : SqlCall → List Str
  | insert _ chunks => chunks.flatten
  | delete domain => [domain]

/-- The next statement, what it makes of the table, and the call after it. -/
def next (table : BlockedTable) : SqlCall → Option (BlockedTable × Write Str × List SqlCall)
  | insert _ [] => none
  | insert list [chunk] => some (table.insert list chunk, ⟨true, chunk⟩, [])
  | insert list (chunk :: chunk' :: rest) =>
    some (table.insert list chunk, ⟨true, chunk⟩, [insert list (chunk' :: rest)])
  | delete domain => some (table.delete domain, ⟨false, [domain]⟩, [])

/-- **What a statement does**: it applies its write to the table's domains, and
the statements left name the other domains. -/
theorem next_eq_some {table table' : BlockedTable} {call : SqlCall} {w : Write Str}
    {rest : List SqlCall} (h : call.next table = some (table', w, rest)) :
    table'.domains = w.apply table.domains ∧
      ∀ d, d ∈ call.keys ↔ d ∈ w.keys ∨ ∃ c ∈ rest, d ∈ c.keys := by
  match call, h with
  | insert list [chunk], h =>
    obtain ⟨rfl, rfl, rfl⟩ := by simpa [next] using h
    exact ⟨BlockedTable.domains_insert .., by simp [keys]⟩
  | insert list (chunk :: chunk' :: chunks), h =>
    obtain ⟨rfl, rfl, rfl⟩ := by simpa [next] using h
    exact ⟨BlockedTable.domains_insert .., by simp [keys]⟩
  | delete domain, h =>
    obtain ⟨rfl, rfl, rfl⟩ := by simpa [next] using h
    exact ⟨BlockedTable.domains_delete .., by simp [keys]⟩

end SqlCall

/-- The block list in memory, its table, and the calls between their halves. -/
structure Editing where
  blockList : DomainSet
  table : BlockedTable
  pending : List SqlCall
  deriving DecidableEq

/-- The half-steps. -/
inductive EditStep
  | addBlockDomains (list : Str) (domains : List Str)
  | removeBlockDomain (domain : Str)
  | sql (i : Nat)

/-- Which replica a half-step wrote. -/
inductive Replica
  | memory (w : Write Str)
  | table (w : Write Str)
  deriving DecidableEq

namespace Editing

variable (lc : Lowercase)

/-- One half-step: an in-memory update under `write_lock` (`cache.rs:208–216`,
`266–273`), or the next SQL statement of a call (`cache.rs:219–227`, `275–279`).
Adding no valid domain returns at once. -/
def step (s : Editing) : EditStep → Option (Editing × List Replica)
  | .addBlockDomains list domains =>
    let valid := Repo.normalizeDomains lc domains
    if valid = [] then some (s, [])
    else
      some ({ s with
        blockList := cowInsert s.blockList valid
        pending := s.pending ++ [.insert list (insertChunks valid)] }, [.memory ⟨true, valid⟩])
  | .removeBlockDomain domain =>
    let lower := lc.toLowercase domain
    some ({ s with
      blockList := s.blockList.erase lower
      pending := s.pending ++ [.delete lower] }, [.memory ⟨false, [lower]⟩])
  | .sql i =>
    match s.pending[i]? with
    | none => none
    | some call =>
      match call.next s.table with
      | none => none
      | some (table, w, rest) =>
        some ({ s with table, pending := s.pending.eraseIdx i ++ rest }, [.table w])

/-- Concurrent edits as a machine. -/
abbrev machine : Machine Editing EditStep Replica := ⟨step lc⟩

/-- A restart: the list is read back from the table (`cache.rs:330–333`). -/
def restart (s : Editing) : Editing := { s with blockList := s.table.domains, pending := [] }

/-- The writes to memory, oldest first. -/
def memoryWrites (h : List Replica) : List (Write Str) :=
  h.filterMap fun
    | .memory w => some w
    | .table _ => none

/-- The writes to the table, oldest first. -/
def tableWrites (h : List Replica) : List (Write Str) :=
  h.filterMap fun
    | .memory _ => none
    | .table w => some w

@[simp] theorem memoryWrites_append (h h' : List Replica) :
    memoryWrites (h ++ h') = memoryWrites h ++ memoryWrites h' :=
  List.filterMap_append

@[simp] theorem tableWrites_append (h h' : List Replica) :
    tableWrites (h ++ h') = tableWrites h ++ tableWrites h' :=
  List.filterMap_append

@[simp] theorem memoryWrites_memory (w : Write Str) : memoryWrites [.memory w] = [w] := rfl

@[simp] theorem memoryWrites_table (w : Write Str) : memoryWrites [.table w] = [] := rfl

@[simp] theorem tableWrites_memory (w : Write Str) : tableWrites [.memory w] = [] := rfl

@[simp] theorem tableWrites_table (w : Write Str) : tableWrites [.table w] = [w] := rfl

variable {lc}

/-- **What a half-step can be**: nothing, a write to memory that leaves its
statements pending, or a pending write to the table. -/
theorem step_cases {s s' : Editing} {e : EditStep} {out : List Replica}
    (h : step lc s e = some (s', out)) :
    (s' = s ∧ out = []) ∨
    (∃ w call, out = [.memory w] ∧ s'.blockList = w.apply s.blockList ∧ s'.table = s.table ∧
      s'.pending = s.pending ++ [call] ∧ call.keys = w.keys) ∨
    (∃ i call w rest, s.pending[i]? = some call ∧ out = [.table w] ∧
      s'.blockList = s.blockList ∧ s'.table.domains = w.apply s.table.domains ∧
      s'.pending = s.pending.eraseIdx i ++ rest ∧
      ∀ d, d ∈ call.keys ↔ d ∈ w.keys ∨ ∃ c ∈ rest, d ∈ c.keys) := by
  cases e with
  | addBlockDomains list domains =>
    rw [step] at h
    split at h
    · obtain ⟨rfl, rfl⟩ := Prod.mk.inj (Option.some.inj h)
      exact .inl ⟨rfl, rfl⟩
    · obtain ⟨rfl, rfl⟩ := Prod.mk.inj (Option.some.inj h)
      exact .inr (.inl ⟨_, _, rfl, cowInsert_eq .., rfl, rfl, insertChunks_flatten _⟩)
  | removeBlockDomain domain =>
    obtain ⟨rfl, rfl⟩ := Prod.mk.inj (Option.some.inj h)
    refine .inr (.inl ⟨_, _, rfl, ?_, rfl, rfl, rfl⟩)
    show s.blockList.erase _ = s.blockList \ [_].toFinset
    rw [List.toFinset_cons, List.toFinset_nil, insert_empty_eq, Finset.sdiff_singleton_eq_erase]
  | sql i =>
    rw [step] at h
    split at h
    · cases h
    · next call hcall =>
      split at h
      · cases h
      · next table w rest hnext =>
        obtain ⟨rfl, rfl⟩ := Prod.mk.inj (Option.some.inj h)
        obtain ⟨htable, hkeys⟩ := SqlCall.next_eq_some hnext
        exact .inr (.inr ⟨i, call, w, rest, hcall, rfl, rfl, htable, rfl, hkeys⟩)

section Lists

variable {α : Type} {p : α → Prop}

theorem exists_mem_append {xs ys : List α} :
    (∃ x ∈ xs ++ ys, p x) ↔ (∃ x ∈ xs, p x) ∨ ∃ x ∈ ys, p x := by
  simp only [List.mem_append, or_and_right, exists_or]

theorem exists_mem_append_singleton {xs : List α} {y : α} :
    (∃ x ∈ xs ++ [y], p x) ↔ (∃ x ∈ xs, p x) ∨ p y := by
  rw [exists_mem_append]
  simp

/-- An element taken out of a list, and the rest. -/
theorem exists_mem_eraseIdx {xs : List α} {i : Nat} {y : α} (h : xs[i]? = some y) :
    (∃ x ∈ xs, p x) ↔ p y ∨ ∃ x ∈ xs.eraseIdx i, p x := by
  obtain ⟨hi, rfl⟩ := List.getElem?_eq_some_iff.mp h
  have hperm := List.getElem_cons_eraseIdx_perm hi
  constructor
  · rintro ⟨x, hx, hp⟩
    rcases List.mem_cons.mp (hperm.mem_iff.mpr hx) with rfl | hx
    · exact .inl hp
    · exact .inr ⟨x, hx, hp⟩
  · rintro (hp | ⟨x, hx, hp⟩)
    · exact ⟨_, List.getElem_mem hi, hp⟩
    · exact ⟨x, List.mem_of_mem_eraseIdx hx, hp⟩

end Lists

/-- **What edits keep**: each replica is the replay of its own writes, and the
domains written to memory are those written to the table or pending. -/
structure Replicas (initial : DomainSet) (h : List Replica) (s : Editing) : Prop where
  memory : s.blockList = Write.replay initial (memoryWrites h)
  table : s.table.domains = Write.replay initial (tableWrites h)
  keys : ∀ d, (∃ w ∈ memoryWrites h, d ∈ w.keys) ↔
    (∃ w ∈ tableWrites h, d ∈ w.keys) ∨ ∃ call ∈ s.pending, d ∈ call.keys

theorem replicas_step {initial : DomainSet} {h : List Replica} {s s' : Editing} {e : EditStep}
    {out : List Replica} (hs : Replicas initial h s) (hstep : step lc s e = some (s', out)) :
    Replicas initial (h ++ out) s' := by
  rcases step_cases hstep with ⟨rfl, rfl⟩ |
      ⟨w, call, rfl, hlist, htable, hpending, hkeys⟩ |
      ⟨i, call, w, rest, hcall, rfl, hlist, htable, hpending, hkeys⟩
  · rwa [List.append_nil]
  · refine ⟨by simp [hlist, hs.memory], by simp [htable, hs.table], ?_⟩
    intro d
    have hd := hs.keys d
    rw [memoryWrites_append, memoryWrites_memory, tableWrites_append, tableWrites_memory,
      List.append_nil, hpending, exists_mem_append_singleton, exists_mem_append_singleton, hd,
      hkeys, or_assoc]
  · -- the statement's domains move from pending to written
    refine ⟨by simp [hlist, hs.memory], by simp [htable, hs.table], ?_⟩
    intro d
    have hd := hs.keys d
    rw [exists_mem_eraseIdx hcall, hkeys d] at hd
    rw [memoryWrites_append, memoryWrites_table, tableWrites_append, tableWrites_table,
      List.append_nil, hpending, exists_mem_append_singleton, exists_mem_append, hd]
    simp only [or_assoc, or_left_comm, or_comm]

/-- **Memory and table after concurrent edits.** Over any run of half-steps from
an agreeing state, once every call has returned, the list in memory is the
table's (so a restart changes nothing) iff for every domain the last write to
memory that names it and the last write to the table that names it do the same:
both add it or both remove it. -/
theorem agree_iff_last_writes {table : BlockedTable} {es : List EditStep} {t : Editing}
    {outs : List Replica}
    (hrun : (machine lc).run ⟨table.domains, table, []⟩ es = some (t, outs))
    (hreturned : t.pending = []) :
    (t.blockList = t.table.domains ∧ t.restart = t) ↔
      ∀ d, Write.last (memoryWrites outs) d = Write.last (tableWrites outs) d := by
  obtain ⟨hmemory, htable, hkeys⟩ := Machine.run_history (M := machine lc)
    (C := fun _ _ => True) (J := Replicas table.domains)
    (fun _ _ _ _ _ hs _ hstep => replicas_step hs hstep) (h := [])
    ⟨rfl, rfl, fun d => by simp [memoryWrites, tableWrites]⟩ (Machine.along_true _ _) hrun
  rw [List.nil_append] at hmemory htable hkeys
  -- nothing is pending, so both replicas have seen the same domains
  have hsame : ∀ d, (∃ w ∈ memoryWrites outs, d ∈ w.keys) ↔
      ∃ w ∈ tableWrites outs, d ∈ w.keys := by
    intro d
    rw [hkeys d, hreturned]
    simp
  have hrestart : t.restart = t ↔ t.table.domains = t.blockList := by
    obtain ⟨blockList, rows, pending⟩ := t
    obtain rfl : pending = [] := hreturned
    simp [restart]
  rw [← Write.replay_eq_iff hsame (s := table.domains), ← hmemory, ← htable, hrestart]
  exact ⟨And.left, fun h => ⟨h, h.symm⟩⟩

/-- Calls that do not overlap: a domain added, then removed again. -/
theorem sequential_edits_agree : ∃ t outs,
    (machine .asciiOnly).run ⟨BlockedTable.domains [], [], []⟩
      [.addBlockDomains ['l'] [['a', '.', 'b']], .sql 0, .removeBlockDomain ['A', '.', 'b'],
        .sql 0] = some (t, outs) ∧ t.blockList = t.table.domains ∧ t.restart = t := by
  obtain ⟨⟨t, outs⟩, hrun, hend⟩ := Option.map_eq_some_iff.mp
    (show ((machine .asciiOnly).run ⟨BlockedTable.domains [], [], []⟩
      [.addBlockDomains ['l'] [['a', '.', 'b']], .sql 0, .removeBlockDomain ['A', '.', 'b'],
        .sql 0]).map (fun p => (p.1.pending, p.2)) =
      some ([], [.memory ⟨true, [['a', '.', 'b']]⟩, .table ⟨true, [['a', '.', 'b']]⟩,
        .memory ⟨false, [['a', '.', 'b']]⟩, .table ⟨false, [['a', '.', 'b']]⟩])
      by decide +kernel)
  obtain ⟨hpending, rfl⟩ := Prod.mk.inj hend
  exact ⟨t, _, hrun, (agree_iff_last_writes hrun hpending).mpr fun _ => rfl⟩

/-- **A removal overtakes an addition**: added and removed in memory in this
order, deleted and inserted in the table in the other, the domain is in the
table only. -/
theorem remove_overtakes_add : ∃ es t outs,
    (machine .asciiOnly).run ⟨BlockedTable.domains [], [], []⟩ es = some (t, outs) ∧
    t.pending = [] ∧ t.blockList ≠ t.table.domains := by
  obtain ⟨⟨t, outs⟩, hrun, hend⟩ := Option.map_eq_some_iff.mp
    (show ((machine .asciiOnly).run ⟨BlockedTable.domains [], [], []⟩
      [.addBlockDomains ['l'] [['a', '.', 'b']], .removeBlockDomain ['a', '.', 'b'], .sql 1,
        .sql 0]).map Prod.fst = some ⟨∅, [⟨['l'], ['a', '.', 'b']⟩], []⟩ by decide +kernel)
  obtain rfl : t = _ := hend
  exact ⟨_, _, outs, hrun, rfl, by decide⟩

end Editing

end Denis
