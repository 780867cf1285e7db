import Denis.Repo.Domains

/-!
# The two lists in memory (`repo/cache.rs`)

`Lists` are the contents of `block_list` and `allow_list`. Each is replaced
whole: `cow_insert` and `remove_block_domain` clone the set, change the clone
and store it under `write_lock`, so an `Update` is atomic. There is no update
that removes from the allow list (`Update.allowList_subset`).
-/

namespace Denis

open Text

/-- The contents of `Cache::block_list` and `Cache::allow_list`. -/
structure Lists where
  blockList : DomainSet
  allowList : DomainSet

/-- `cow_insert` (`cache.rs:284–292`). -/
def cowInsert (target : DomainSet) (domains : List Str) : DomainSet :=
  domains.foldl (fun new d => insert d new) target

theorem cowInsert_eq (target : DomainSet) (domains : List Str) :
    cowInsert target domains = target ∪ domains.toFinset := by
  induction domains generalizing target with
  | nil => simp [cowInsert]
  | cons d domains ih =>
    rw [cowInsert, List.foldl_cons, ← cowInsert, ih]
    ext x
    simp only [Finset.mem_union, Finset.mem_insert, List.toFinset_cons, List.mem_toFinset]
    tauto

/-- The in-memory part of `add_block_domains`, `add_allow_domains` and
`remove_block_domain`, with their arguments. -/
inductive Update
  | addBlockDomains (domains : List Str)
  | addAllowDomains (domains : List Str)
  | removeBlockDomain (domain : Str)

namespace Update

variable (lc : Lowercase)

/-- What an update makes of the lists (`cache.rs:216`, `246`, `266–273`). -/
def apply (lists : Lists) : Update → Lists
  | addBlockDomains domains =>
    { lists with blockList := cowInsert lists.blockList (Repo.normalizeDomains lc domains) }
  | addAllowDomains domains =>
    { lists with allowList := cowInsert lists.allowList (Repo.normalizeDomains lc domains) }
  | removeBlockDomain domain =>
    { lists with blockList := lists.blockList.erase (lc.toLowercase domain) }

/-- The allow list only grows. -/
theorem allowList_subset (lists : Lists) (u : Update) :
    lists.allowList ⊆ (u.apply lc lists).allowList := by
  cases u with
  | addBlockDomains domains => exact Finset.Subset.refl _
  | addAllowDomains domains =>
    rw [apply, cowInsert_eq]
    exact Finset.subset_union_left
  | removeBlockDomain domain => exact Finset.Subset.refl _

/-- Only the removal of a domain takes it off the block list. -/
theorem mem_blockList {lists : Lists} {u : Update} {d : Str} (hd : d ∈ lists.blockList)
    (hkept : ∀ domain, u = removeBlockDomain domain → lc.toLowercase domain ≠ d) :
    d ∈ (u.apply lc lists).blockList := by
  cases u with
  | addBlockDomains domains =>
    rw [apply, cowInsert_eq]
    exact Finset.mem_union_left _ hd
  | addAllowDomains domains => exact hd
  | removeBlockDomain domain =>
    exact Finset.mem_erase.mpr ⟨(hkept domain rfl).symm, hd⟩

/-- A domain stays blocked through updates none of which removes it. -/
theorem mem_blockList_foldl {lists : Lists} {updates : List Update} {d : Str}
    (hd : d ∈ lists.blockList)
    (hkept : ∀ domain, removeBlockDomain domain ∈ updates → lc.toLowercase domain ≠ d) :
    d ∈ (updates.foldl (apply lc) lists).blockList := by
  induction updates generalizing lists with
  | nil => exact hd
  | cons u updates ih =>
    refine ih (mem_blockList lc hd fun domain hu => ?_) fun domain hmem =>
      hkept domain (List.mem_cons_of_mem _ hmem)
    exact hkept domain (hu ▸ List.mem_cons_self ..)

end Update

/-! ## A call of `add_block_domains` -/

/-- `MAX_INSERT_CHUNK`. -/
def maxInsertChunk : Nat := 1000

/-- `valid.chunks(MAX_INSERT_CHUNK)`. -/
def insertChunks (valid : List Str) : List (List Str) :=
  if valid = [] then []
  else valid.take maxInsertChunk :: insertChunks (valid.drop maxInsertChunk)
termination_by valid.length
decreasing_by
  have hpos : 0 < valid.length := List.length_pos_iff.mpr (by assumption)
  rw [List.length_drop, maxInsertChunk]
  omega

theorem insertChunks_flatten (valid : List Str) : (insertChunks valid).flatten = valid := by
  induction valid using insertChunks.induct with
  | case1 => rw [insertChunks]; rfl
  | case2 valid hne ih =>
    rw [insertChunks, if_neg hne, List.flatten_cons, ih, List.take_append_drop]

/-- `CacheError` (`cache.rs:19–25`), without Redis. -/
inductive CacheError
  | sql (message : String)
  deriving DecidableEq

/-- `AddOutcome` (`cache.rs:35–38`). -/
structure AddOutcome where
  added : Nat
  considered : Nat
  deriving DecidableEq

/-- The loop over the chunks (`cache.rs:218–227`), over what executing an
`INSERT` returns: the rows affected or an error. -/
def insertAll (execute : Str → List Str → Except CacheError Nat) (list : Str) :
    List (List Str) → Nat → Except CacheError Nat
  | [], added => .ok added
  | chunk :: rest, added =>
    match execute list chunk with
    | .error e => .error e
    | .ok rows => insertAll execute list rest (added + rows)

/-- `Cache::add_block_domains` (`cache.rs:203–233`): the lists it leaves in
memory and its result. -/
def addBlockDomains (lc : Lowercase) (execute : Str → List Str → Except CacheError Nat)
    (lists : Lists) (list : Str) (domains : List Str) : Lists × Except CacheError AddOutcome :=
  let valid := Repo.normalizeDomains lc domains
  if valid = [] then (lists, .ok ⟨0, 0⟩)
  else
    ({ lists with blockList := cowInsert lists.blockList valid },
      (insertAll execute list (insertChunks valid) 0).map fun added => ⟨added, valid.length⟩)

/-- `Cache::add_block_domain` (`cache.rs:194–201`). -/
def addBlockDomain (lc : Lowercase) (execute : Str → List Str → Except CacheError Nat)
    (lists : Lists) (list domain : Str) : Lists × Except CacheError AddOutcome :=
  addBlockDomains lc execute lists list [domain]

end Denis
