import Denis.Lib.Table
import Denis.Repo.Edits

/-!
# The lists and their tables (`repo/cache.rs`)

`add_block_domains`, `add_allow_domains` and `remove_block_domain` as whole
calls: the list in memory is replaced first, then the statements run, one
`INSERT … ON CONFLICT (domain) DO NOTHING` for every 1000 domains or one
`DELETE`. `Faults` says which statement of a call the database refuses; a
refused statement changes nothing and ends the call with its error.

The two `add_*` functions differ in the list and the table they write, so they
are one definition, `addDomains`. Its two lemmas say everything callers need:
`insertLoop_eq` for the table (one insert of the chunks executed) and
`call_lists` for the memory (the update of `Update`, whatever fails).
-/

namespace Denis

open Text

/-- The error the `i`-th statement of a call fails with, if it does. -/
abbrev Faults := Nat → Option CacheError

/-- A database that refuses nothing. -/
def Faults.never : Faults := fun _ => none

/-- The lists in memory and tables `blocked` and `allowed`
(`cache.rs:340–357`). -/
structure ListStore where
  lists : Lists
  blocked : Table BlockedRow.domain
  allowed : Table (id : Str → Str)

/-! ## Inserting -/

section Insert

variable {ρ : Type} {key : ρ → Str} (row : Str → ρ) (faults : Faults)

/-- The loop over the chunks (`cache.rs:218–227`, `248–256`), from the statement
numbered `i`; `row` are the values of a domain. -/
def insertLoop : Table key → Nat → List (List Str) → Nat → Table key × Except CacheError Nat
  | t, _, [], added => (t, .ok added)
  | t, i, chunk :: rest, added =>
    match faults i with
    | some e => (t, .error e)
    | none =>
      let (t', rows) := t.insertIgnore (chunk.map row)
      insertLoop t' (i + 1) rest (added + rows)

/-- The chunks inserted before the first failing statement. -/
def executed : Nat → List (List Str) → List (List Str)
  | _, [] => []
  | i, chunk :: rest => if (faults i).isSome then [] else chunk :: executed (i + 1) rest

/-- The error of the first failing statement. -/
def firstError : Nat → List (List Str) → Option CacheError
  | _, [] => none
  | i, _ :: rest => (faults i).or (firstError (i + 1) rest)

/-- `add_block_domains` and `add_allow_domains` on their list and table
(`cache.rs:203–233`, `237–263`). -/
def addDomains (lc : Lowercase) (list : DomainSet) (t : Table key) (domains : List Str) :
    DomainSet × Table key × Except CacheError AddOutcome :=
  let valid := Repo.normalizeDomains lc domains
  if valid = [] then (list, t, .ok ⟨0, 0⟩)
  else
    let (t', added) := insertLoop row faults t 0 (insertChunks valid) 0
    (cowInsert list valid, t', added.map fun added => ⟨added, valid.length⟩)

end Insert

/-- The calls, with their arguments. -/
inductive EditCall
  | addBlockDomains (list : Str) (domains : List Str)
  | addBlockDomain (list domain : Str)
  | addAllowDomains (domains : List Str)
  | addAllowDomain (domain : Str)
  | removeBlockDomain (domain : Str)

/-- What they return. -/
inductive EditAnswer
  | added (result : Except CacheError AddOutcome)
  | removed (result : Except CacheError Bool)
  deriving DecidableEq

namespace EditAnswer

/-- The error returned, if one is. -/
def error? : EditAnswer → Option CacheError
  | added (.error e) => some e
  | removed (.error e) => some e
  | _ => none

end EditAnswer

namespace ListStore

variable (lc : Lowercase) (faults : Faults) (s : ListStore)

/-- `Cache::add_block_domains` (`cache.rs:203–233`). -/
def addBlockDomains (list : Str) (domains : List Str) :
    ListStore × Except CacheError AddOutcome :=
  let (blockList, blocked, result) :=
    addDomains (BlockedRow.mk list) faults lc s.lists.blockList s.blocked domains
  ({ s with lists := { s.lists with blockList }, blocked }, result)

/-- `Cache::add_allow_domains` (`cache.rs:237–263`). -/
def addAllowDomains (domains : List Str) : ListStore × Except CacheError AddOutcome :=
  let (allowList, allowed, result) :=
    addDomains id faults lc s.lists.allowList s.allowed domains
  ({ s with lists := { s.lists with allowList }, allowed }, result)

/-- `Cache::remove_block_domain` (`cache.rs:265–282`). -/
def removeBlockDomain (domain : Str) : ListStore × Except CacheError Bool :=
  let lower := lc.toLowercase domain
  let removed := decide (lower ∈ s.lists.blockList)
  let memory := { s.lists with blockList := s.lists.blockList.erase lower }
  match faults 0 with
  | some e => ({ s with lists := memory }, .error e)
  | none =>
    ({ s with
      lists := memory
      blocked := (s.blocked.deleteWhere fun row => row.domain = lower).1 }, .ok removed)

/-- A call; `add_block_domain` and `add_allow_domain` pass a slice of one
(`cache.rs:189–201`). -/
def call : EditCall → ListStore × EditAnswer
  | .addBlockDomains list domains =>
    (s.addBlockDomains lc faults list domains).map id .added
  | .addBlockDomain list domain => (s.addBlockDomains lc faults list [domain]).map id .added
  | .addAllowDomains domains => (s.addAllowDomains lc faults domains).map id .added
  | .addAllowDomain domain => (s.addAllowDomains lc faults [domain]).map id .added
  | .removeBlockDomain domain => (s.removeBlockDomain lc faults domain).map id .removed

end ListStore

/-! ## What the calls do -/

section Insert

variable {ρ : Type} {key : ρ → Str} {row : Str → ρ} {faults : Faults}

/-- The chunks executed are the first ones. -/
theorem executed_initial (i : Nat) (chunks : List (List Str)) :
    executed faults i chunks <+: chunks := by
  induction chunks generalizing i with
  | nil => exact List.nil_prefix
  | cons chunk rest ih =>
    rw [executed]
    split
    · exact List.nil_prefix
    · exact List.prefix_cons_iff.mpr (.inr ⟨_, rfl, ih (i + 1)⟩)

/-- Without an error every chunk is executed. -/
theorem executed_eq {i : Nat} {chunks : List (List Str)} (h : firstError faults i chunks = none) :
    executed faults i chunks = chunks := by
  induction chunks generalizing i with
  | nil => rfl
  | cons chunk rest ih =>
    obtain ⟨hi, hrest⟩ := Option.or_eq_none_iff.mp h
    rw [executed, hi, ih hrest]
    rfl

theorem firstError_never (i : Nat) (chunks : List (List Str)) :
    firstError .never i chunks = none := by
  induction chunks generalizing i with
  | nil => rfl
  | cons chunk rest ih => exact ih (i + 1)

/-- **The loop over the chunks is one insert** of the chunks executed, and its
count is what that insert affects. -/
theorem insertLoop_eq (t : Table key) (i : Nat) (chunks : List (List Str)) (added : Nat) :
    insertLoop row faults t i chunks added =
      ((t.insertIgnore ((executed faults i chunks).flatten.map row)).1,
        match firstError faults i chunks with
        | some e => .error e
        | none =>
          .ok (added + (t.insertIgnore ((executed faults i chunks).flatten.map row)).2)) := by
  induction chunks generalizing t i added with
  | nil => rfl
  | cons chunk rest ih =>
    rw [insertLoop, executed, firstError]
    cases faults i with
    | some e => rfl
    | none =>
      show insertLoop row faults (t.insertIgnore (chunk.map row)).1 (i + 1) rest
        (added + (t.insertIgnore (chunk.map row)).2) = _
      rw [ih]
      -- the chunk and those after it, inserted in parts or at once
      have happend := t.insertIgnore_append (chunk.map row)
        ((executed faults (i + 1) rest).flatten.map row)
      simp only [Option.isSome_none, Bool.false_eq_true, if_false, Option.none_or,
        List.flatten_cons, List.map_append, happend, Nat.add_assoc]

end Insert

namespace EditCall

/-- What a call does in memory. -/
def update : EditCall → Update
  | addBlockDomains _ domains => .addBlockDomains domains
  | addBlockDomain _ domain => .addBlockDomains [domain]
  | addAllowDomains domains => .addAllowDomains domains
  | addAllowDomain domain => .addAllowDomains [domain]
  | removeBlockDomain domain => .removeBlockDomain domain

end EditCall

namespace ListStore

variable (lc : Lowercase) (faults : Faults) (s : ListStore)

theorem addDomains_list {ρ : Type} {key : ρ → Str} (row : Str → ρ) (list : DomainSet)
    (t : Table key) (domains : List Str) :
    (addDomains row faults lc list t domains).1 =
      cowInsert list (Repo.normalizeDomains lc domains) := by
  unfold addDomains
  dsimp only
  split
  · next hnone => rw [hnone]; rfl
  · rfl

/-- **A call changes memory whether or not its statements fail.** -/
theorem call_lists (c : EditCall) : (s.call lc faults c).1.lists = c.update.apply lc s.lists := by
  have hblock : ∀ list domains, (s.addBlockDomains lc faults list domains).1.lists =
      (Update.addBlockDomains domains).apply lc s.lists := by
    intro list domains
    rw [Update.apply, ← addDomains_list lc faults (BlockedRow.mk list) _ s.blocked]
    rfl
  have hallow : ∀ domains, (s.addAllowDomains lc faults domains).1.lists =
      (Update.addAllowDomains domains).apply lc s.lists := by
    intro domains
    rw [Update.apply, ← addDomains_list lc faults id _ s.allowed]
    rfl
  cases c with
  | addBlockDomains list domains => exact hblock list domains
  | addBlockDomain list domain => exact hblock list [domain]
  | addAllowDomains domains => exact hallow domains
  | addAllowDomain domain => exact hallow [domain]
  | removeBlockDomain domain =>
    show (s.removeBlockDomain lc faults domain).1.lists = _
    unfold removeBlockDomain
    dsimp only
    split <;> rfl

end ListStore

end Denis
