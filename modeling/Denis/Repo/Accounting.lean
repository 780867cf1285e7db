import Denis.Repo.Store

/-!
# List accounting (`repo/cache.rs`, `api/mod.rs`)

Calls one after another on a database that refuses nothing. What they keep is
`Consistent`: each list is its table, and holds lower-case valid domains only.
From there one call is accounted for (`accounted_call`): the rows an addition
counts are the growth of the table, no more than the domains it considered,
no more than its inputs, so `AddResult::from_outcome` subtracts without
underflow, and a removal says whether it took a row.

The counts hold for any chunking and any repetitions because the whole call is
one `insertIgnore` of its valid domains (`addDomains_never`).
-/

namespace Denis

open Text

/-- `AddResult` (`api/mod.rs:49–54`). -/
structure AddResult where
  added : Nat
  skipped : Nat
  invalid : Nat
  deriving DecidableEq

/-- `AddResult::from_outcome` (`api/mod.rs:56–64`); `none` where a subtraction
underflows. -/
def AddResult.fromOutcome (outcome : AddOutcome) (totalInput : Nat) : Option AddResult :=
  if outcome.added ≤ outcome.considered ∧ outcome.considered ≤ totalInput then
    some {
      added := outcome.added
      skipped := outcome.considered - outcome.added
      invalid := totalInput - outcome.considered }
  else none

/-- A valid domain that lower-casing leaves as it is. -/
structure LowerDomain (lc : Lowercase) (d : Str) : Prop where
  valid : Repo.isValidDomain d = true
  lower : lc.toLowercase d = d

/-- A valid domain that lower-casing made is in lower case. -/
theorem lowerDomain_of_valid {lc : Lowercase} {s : Str}
    (hvalid : Repo.isValidDomain (lc.toLowercase s) = true) :
    LowerDomain lc (lc.toLowercase s) := by
  refine ⟨hvalid, ?_⟩
  rw [lc.ascii _ (Repo.validDomain_of_isValidDomain hvalid).ascii]
  -- lower-casing has left no capital letter
  refine map_eq_self fun c hc => ?_
  refine Char.toNat_inj.mp ?_
  rw [toLower_toNat, if_neg (lc.noUpper _ c hc)]

/-- `normalize_domains` makes lower-case valid domains. -/
theorem lowerDomain_of_mem {lc : Lowercase} {domains : List Str} {d : Str}
    (h : d ∈ Repo.normalizeDomains lc domains) : LowerDomain lc d := by
  obtain ⟨hmem, hvalid⟩ := List.mem_filter.mp h
  obtain ⟨s, -, rfl⟩ := List.mem_map.mp hmem
  exact lowerDomain_of_valid hvalid

theorem length_normalizeDomains (lc : Lowercase) (domains : List Str) :
    (Repo.normalizeDomains lc domains).length ≤ domains.length := by
  rw [← @List.length_map _ _ domains fun d => lc.toLowercase (trimEndMatches '.' (trim d))]
  exact List.length_filter_le _ _

/-- **An addition that nothing refuses** is one insert of the valid domains. -/
theorem addDomains_never {ρ : Type} {key : ρ → Str} (row : Str → ρ) (lc : Lowercase)
    (list : DomainSet) (t : Table key) (domains : List Str) :
    let valid := Repo.normalizeDomains lc domains
    let inserted := t.insertIgnore (valid.map row)
    addDomains row .never lc list t domains =
      (cowInsert list valid, inserted.1, .ok ⟨inserted.2, valid.length⟩) := by
  intro valid inserted
  unfold addDomains
  dsimp only
  split
  · next hnone =>
    have hvalid : valid = [] := hnone
    show _ = (cowInsert list valid, (t.insertIgnore (valid.map row)).1,
      Except.ok (AddOutcome.mk (t.insertIgnore (valid.map row)).2 valid.length))
    rw [hvalid]
    rfl
  · rw [insertLoop_eq, firstError_never, executed_eq (firstError_never _ _),
      insertChunks_flatten, Nat.zero_add]
    rfl

namespace ListStore

variable (lc : Lowercase)

/-- **What sequential calls keep**: each list is its table, and holds
lower-case valid domains only. -/
structure Consistent (s : ListStore) : Prop where
  block : s.lists.blockList = s.blocked.keys.toFinset
  allow : s.lists.allowList = s.allowed.keys.toFinset
  blockLower : ∀ d ∈ s.lists.blockList, LowerDomain lc d
  allowLower : ∀ d ∈ s.lists.allowList, LowerDomain lc d

/-- Calls one after another, none of whose statements fails. -/
def edits (s : ListStore) (calls : List EditCall) : ListStore :=
  calls.foldl (fun s c => (s.call lc .never c).1) s

/-- How many inputs a call has: the total the handlers pass to `from_outcome`
(`api/mod.rs:268–278`, `280–291`). -/
def inputs : EditCall → Nat
  | .addBlockDomains _ domains => domains.length
  | .addBlockDomain _ _ => 1
  | .addAllowDomains domains => domains.length
  | .addAllowDomain _ => 1
  | .removeBlockDomain _ => 1

/-- An addition of so many inputs to a table of a size, accounted for. -/
def AddAccounted (before after inputs : Nat) (answer : EditAnswer) : Prop :=
  ∃ outcome, answer = .added (.ok outcome) ∧ after = before + outcome.added ∧
    outcome.added ≤ outcome.considered ∧ outcome.considered ≤ inputs ∧
    ∃ result, AddResult.fromOutcome outcome inputs = some result ∧
      result.added + result.skipped + result.invalid = inputs

/-- A call from `s` to `s'`, accounted for by its answer. -/
def Accounted (s s' : ListStore) (answer : EditAnswer) : EditCall → Prop
  | .addBlockDomains list domains =>
    AddAccounted s.blocked.size s'.blocked.size (inputs (.addBlockDomains list domains)) answer
  | .addBlockDomain list domain =>
    AddAccounted s.blocked.size s'.blocked.size (inputs (.addBlockDomain list domain)) answer
  | .addAllowDomains domains =>
    AddAccounted s.allowed.size s'.allowed.size (inputs (.addAllowDomains domains)) answer
  | .addAllowDomain domain =>
    AddAccounted s.allowed.size s'.allowed.size (inputs (.addAllowDomain domain)) answer
  | .removeBlockDomain _ =>
    ∃ removed, answer = .removed (.ok removed) ∧
      (removed = true ↔ s'.blocked.size < s.blocked.size)

/-- Counts in the order the stages take them can be subtracted. -/
theorem addAccounted_of_le {before after inputs added considered : Nat}
    (hgrowth : after = before + added) (hadded : added ≤ considered)
    (hconsidered : considered ≤ inputs) :
    AddAccounted before after inputs (.added (.ok ⟨added, considered⟩)) := by
  refine ⟨_, rfl, hgrowth, hadded, hconsidered, _, if_pos ⟨hadded, hconsidered⟩, ?_⟩
  show added + (considered - added) + (inputs - considered) = inputs
  omega

section Adding

variable {lc} {ρ : Type} {key : ρ → Str} {row : Str → ρ} (hrow : ∀ d, key (row d) = d)

include hrow

/-- The domains of the rows made of some domains. -/
theorem map_key_row (domains : List Str) : (domains.map row).map key = domains := by
  rw [List.map_map]
  exact map_eq_self fun d _ => hrow d

/-- A list that is its table still is after the same domains were added to
both. -/
theorem toFinset_insertIgnore {list : DomainSet} {t : Table key}
    (h : list = t.keys.toFinset) (domains : List Str) :
    cowInsert list domains = (t.insertIgnore (domains.map row)).1.keys.toFinset := by
  ext d
  rw [cowInsert_eq, Finset.mem_union, List.mem_toFinset, List.mem_toFinset,
    Table.mem_keys_insertIgnore, map_key_row hrow, h, List.mem_toFinset]

omit hrow in
/-- **An addition, accounted for.** -/
theorem addDomains_accounted (list : DomainSet) (t : Table key) (domains : List Str) :
    AddAccounted t.size (addDomains row .never lc list t domains).2.1.size domains.length
      (.added (addDomains row .never lc list t domains).2.2) := by
  rw [addDomains_never]
  refine addAccounted_of_le (Table.size_insertIgnore ..) ?_ (length_normalizeDomains lc domains)
  have hle := t.insertIgnore_le ((Repo.normalizeDomains lc domains).map row)
  rwa [List.length_map] at hle

end Adding

variable {lc}

/-- Membership in a list after an addition: what is new is lower-case and
valid. -/
theorem lowerDomain_cowInsert {list : DomainSet} {domains : List Str}
    (h : ∀ d ∈ list, LowerDomain lc d) :
    ∀ d ∈ cowInsert list (Repo.normalizeDomains lc domains), LowerDomain lc d := by
  intro d hd
  rw [cowInsert_eq, Finset.mem_union, List.mem_toFinset] at hd
  rcases hd with hd | hd
  · exact h d hd
  · exact lowerDomain_of_mem hd

theorem addBlockDomains_consistent {s : ListStore} (h : s.Consistent lc) (list : Str)
    (domains : List Str) : (s.addBlockDomains lc .never list domains).1.Consistent lc := by
  unfold addBlockDomains
  rw [addDomains_never]
  exact ⟨toFinset_insertIgnore (fun _ => rfl) h.block _, h.allow,
    lowerDomain_cowInsert h.blockLower, h.allowLower⟩

theorem addAllowDomains_consistent {s : ListStore} (h : s.Consistent lc) (domains : List Str) :
    (s.addAllowDomains lc .never domains).1.Consistent lc := by
  unfold addAllowDomains
  rw [addDomains_never]
  exact ⟨h.block, toFinset_insertIgnore (fun _ => rfl) h.allow _, h.blockLower,
    lowerDomain_cowInsert h.allowLower⟩

theorem removeBlockDomain_consistent {s : ListStore} (h : s.Consistent lc) (domain : Str) :
    (s.removeBlockDomain lc .never domain).1.Consistent lc := by
  refine ⟨?_, h.allow, ?_, h.allowLower⟩
  · show s.lists.blockList.erase (lc.toLowercase domain) =
      (s.blocked.deleteWhere _).1.keys.toFinset
    ext d
    rw [Finset.mem_erase, List.mem_toFinset, Table.mem_keys_deleteWhere, h.block,
      List.mem_toFinset, and_comm]
  · intro d hd
    exact h.blockLower d (Finset.mem_of_mem_erase hd)

/-- **A call keeps consistency.** -/
theorem consistent_call {s : ListStore} (h : s.Consistent lc) (c : EditCall) :
    (s.call lc .never c).1.Consistent lc := by
  cases c with
  | addBlockDomains list domains => exact addBlockDomains_consistent h list domains
  | addBlockDomain list domain => exact addBlockDomains_consistent h list [domain]
  | addAllowDomains domains => exact addAllowDomains_consistent h domains
  | addAllowDomain domain => exact addAllowDomains_consistent h [domain]
  | removeBlockDomain domain => exact removeBlockDomain_consistent h domain

/-- So do calls one after another. -/
theorem consistent_edits {s : ListStore} (h : s.Consistent lc) (calls : List EditCall) :
    (s.edits lc calls).Consistent lc := by
  induction calls generalizing s with
  | nil => exact h
  | cons c calls ih => exact ih (consistent_call h c)

/-- **A call from a consistent state is accounted for.** -/
theorem accounted_call {s : ListStore} (h : s.Consistent lc) (c : EditCall) :
    Accounted s (s.call lc .never c).1 (s.call lc .never c).2 c := by
  cases c with
  | addBlockDomains list domains => exact addDomains_accounted _ s.blocked domains
  | addBlockDomain list domain => exact addDomains_accounted _ s.blocked [domain]
  | addAllowDomains domains => exact addDomains_accounted _ s.allowed domains
  | addAllowDomain domain => exact addDomains_accounted _ s.allowed [domain]
  | removeBlockDomain domain =>
    refine ⟨_, rfl, ?_⟩
    have hpos : 0 < (s.blocked.deleteWhere fun row => row.domain = lc.toLowercase domain).2 ↔ _ :=
      Table.deleteWhere_pos
    have hsize := s.blocked.size_deleteWhere fun row => row.domain = lc.toLowercase domain
    show decide (lc.toLowercase domain ∈ s.lists.blockList) = true ↔
      (s.blocked.deleteWhere fun row => row.domain = lc.toLowercase domain).1.size < _
    rw [decide_eq_true_iff, h.block, List.mem_toFinset, ← hpos]
    omega

/-- **List accounting.** However many calls come first, each list is its table
with lower-case valid domains only, before and after the next call, and that
call's answer accounts for it. -/
theorem edits_account {s : ListStore} (h : s.Consistent lc) (calls : List EditCall)
    (c : EditCall) :
    (s.edits lc calls).Consistent lc ∧
      ((s.edits lc calls).call lc .never c).1.Consistent lc ∧
      Accounted (s.edits lc calls) ((s.edits lc calls).call lc .never c).1
        ((s.edits lc calls).call lc .never c).2 c := by
  have hreached := consistent_edits h calls
  exact ⟨hreached, consistent_call hreached c, accounted_call hreached c⟩

/-- Empty tables and lists. -/
def empty : ListStore := ⟨⟨∅, ∅⟩, .empty _, .empty _⟩

theorem empty_consistent : empty.Consistent lc :=
  ⟨rfl, rfl, by simp [empty], by simp [empty]⟩

/-- Five inputs to a table of `a.b`: a domain it has, a new one twice, an
invalid one and another new one. -/
theorem bulk_addition_accounted :
    let s := empty.edits .asciiOnly [.addBlockDomain ['l'] ['A', '.', 'b']]
    let r := s.call .asciiOnly .never (.addBlockDomains ['l'] [['a', '.', 'b'], ['c', '.', 'd'],
      ['x'], ['C', '.', 'd', '.'], ['e', '.', 'f']])
    r.2 = .added (.ok ⟨2, 4⟩) ∧ r.1.blocked.size = s.blocked.size + 2 := by
  intro s r
  have hanswer : r.2 = .added (.ok ⟨2, 4⟩) := by decide +kernel
  obtain ⟨-, -, outcome, houtcome, hgrowth, -⟩ := edits_account empty_consistent
    [.addBlockDomain ['l'] ['A', '.', 'b']] (.addBlockDomains ['l'] [['a', '.', 'b'],
      ['c', '.', 'd'], ['x'], ['C', '.', 'd', '.'], ['e', '.', 'f']])
  obtain rfl : ⟨2, 4⟩ = outcome := by injection hanswer.symm.trans houtcome with h; injection h
  exact ⟨hanswer, hgrowth⟩

end ListStore

end Denis
