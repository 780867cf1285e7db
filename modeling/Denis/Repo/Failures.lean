import Denis.Repo.Accounting

/-!
# Failing list edits (`repo/cache.rs`)

A call that returns an error has changed the list in memory all the same: the
list is replaced before the first statement (`cache.rs:216`, `246`, `266–273`)
and nothing puts it back, while `patch_config` persists before it stores. The
table keeps the chunks inserted before the failing one and nothing else.

`failed_call_agrees_iff` says for which failures list and table are equal all
the same: those whose unexecuted statements would have changed nothing in
memory. `failed_addition_splits` is one that is not.
-/

namespace Denis

open Text

namespace ListStore

variable (lc : Lowercase) (faults : Faults)

/-- The list a call edits equals its table. -/
def Agrees (s : ListStore) : EditCall → Prop
  | .addBlockDomains _ _ => s.lists.blockList = s.blocked.keys.toFinset
  | .addBlockDomain _ _ => s.lists.blockList = s.blocked.keys.toFinset
  | .addAllowDomains _ => s.lists.allowList = s.allowed.keys.toFinset
  | .addAllowDomain _ => s.lists.allowList = s.allowed.keys.toFinset
  | .removeBlockDomain _ => s.lists.blockList = s.blocked.keys.toFinset

/-- Each valid domain given is on the list or in a chunk inserted before the
first failing one. -/
def Covered (list : DomainSet) (domains : List Str) : Prop :=
  ∀ d ∈ Repo.normalizeDomains lc domains,
    d ∈ list ∨ d ∈ (executed faults 0 (insertChunks (Repo.normalizeDomains lc domains))).flatten

/-- What the failing statement and those after it would have written is in
memory already. -/
def Harmless (s : ListStore) : EditCall → Prop
  | .addBlockDomains _ domains => Covered lc faults s.lists.blockList domains
  | .addBlockDomain _ domain => Covered lc faults s.lists.blockList [domain]
  | .addAllowDomains domains => Covered lc faults s.lists.allowList domains
  | .addAllowDomain domain => Covered lc faults s.lists.allowList [domain]
  | .removeBlockDomain domain => lc.toLowercase domain ∉ s.lists.blockList

variable {lc} {faults}

/-- What is executed was given. -/
theorem mem_of_executed {d : Str} {valid : List Str}
    (h : d ∈ (executed faults 0 (insertChunks valid)).flatten) : d ∈ valid := by
  obtain ⟨rest, hrest⟩ := @executed_initial faults 0 (insertChunks valid)
  rw [← insertChunks_flatten valid, ← hrest, List.flatten_append]
  exact List.mem_append_left _ h

/-- **An addition, whatever fails of it**: list and table stay equal iff the
domains not inserted were on the list. -/
theorem addDomains_agrees_iff {ρ : Type} {key : ρ → Str} {row : Str → ρ}
    (hrow : ∀ d, key (row d) = d) {list : DomainSet} {t : Table key}
    (h : list = t.keys.toFinset) (domains : List Str) :
    (addDomains row faults lc list t domains).1 =
        (addDomains row faults lc list t domains).2.1.keys.toFinset ↔
      Covered lc faults list domains := by
  unfold addDomains Covered
  dsimp only
  split
  · next hnone => simp [h, hnone]
  · rw [insertLoop_eq, cowInsert_eq, Finset.ext_iff]
    simp only [Finset.mem_union, List.mem_toFinset, Table.mem_keys_insertIgnore,
      map_key_row hrow, h]
    constructor
    · intro hsame d hd
      exact (hsame d).mp (.inr hd)
    · intro hcovered d
      constructor
      · rintro (hd | hd)
        · exact .inl hd
        · exact hcovered d hd
      · exact fun hd => hd.imp_right mem_of_executed

/-- **A removal that fails** leaves list and table equal iff there was nothing
to remove. -/
theorem removeBlockDomain_agrees_iff {s : ListStore}
    (h : s.lists.blockList = s.blocked.keys.toFinset) {domain : Str} {e : CacheError}
    (hfail : (s.removeBlockDomain lc faults domain).2 = .error e) :
    (s.removeBlockDomain lc faults domain).1.lists.blockList =
        (s.removeBlockDomain lc faults domain).1.blocked.keys.toFinset ↔
      lc.toLowercase domain ∉ s.lists.blockList := by
  unfold removeBlockDomain at hfail ⊢
  dsimp only at hfail ⊢
  cases hfault : faults 0 with
  | none =>
    rw [hfault] at hfail
    cases hfail
  | some e' =>
    show s.lists.blockList.erase (lc.toLowercase domain) = s.blocked.keys.toFinset ↔ _
    rw [← h, Finset.erase_eq_self]

/-- The error of a removal. -/
theorem removed_error {result : Except CacheError Bool} {e : CacheError}
    (h : (EditAnswer.removed result).error? = some e) : result = .error e := by
  cases result with
  | error e' => exact congrArg _ (Option.some.inj h)
  | ok removed => cases h

/-- **When a failed edit leaves memory and database equal.** Whatever call
returns an error, whichever of its statements fails: a list that was its table
still is iff what the statements not executed would have written is in memory
already, i.e. an addition's domains outside the chunks inserted were on the list
and a removal's domain was not. -/
theorem failed_call_agrees_iff {s : ListStore} {c : EditCall} {e : CacheError}
    (hagree : s.Agrees c) (hfail : (s.call lc faults c).2.error? = some e) :
    (s.call lc faults c).1.Agrees c ↔ Harmless lc faults s c := by
  cases c with
  | addBlockDomains list domains => exact addDomains_agrees_iff (fun _ => rfl) hagree domains
  | addBlockDomain list domain => exact addDomains_agrees_iff (fun _ => rfl) hagree [domain]
  | addAllowDomains domains => exact addDomains_agrees_iff (fun _ => rfl) hagree domains
  | addAllowDomain domain => exact addDomains_agrees_iff (fun _ => rfl) hagree [domain]
  | removeBlockDomain domain => exact removeBlockDomain_agrees_iff hagree (removed_error hfail)

/-- A database that refuses every statement. -/
def locked : Faults := fun _ => some (.sql "database is locked")

/-- Adding again what the list has does no harm. -/
theorem repeated_addition_agrees :
    ((empty.edits .asciiOnly [.addBlockDomain ['l'] ['a', '.', 'b']]).call .asciiOnly locked
      (.addBlockDomain ['l'] ['A', '.', 'b'])).1.Agrees
        (.addBlockDomain ['l'] ['A', '.', 'b']) := by
  refine (@failed_call_agrees_iff _ _ _ _ (.sql "database is locked") ?_ ?_).mpr ?_
  · exact (consistent_edits empty_consistent _).block
  · decide +kernel
  · show Covered _ _ _ _
    unfold Covered
    decide +kernel

/-- **A failed addition takes effect in memory only**: the error answer hides a
block that a restart forgets. -/
theorem failed_addition_splits : ∃ (s : ListStore) (c : EditCall) (e : CacheError),
    s.Agrees c ∧ (s.call .asciiOnly locked c).2.error? = some e ∧
      ¬ (s.call .asciiOnly locked c).1.Agrees c := by
  refine ⟨empty, .addBlockDomain ['l'] ['a', '.', 'b'], .sql "database is locked", rfl,
    by decide +kernel, ?_⟩
  show ¬ (empty.call .asciiOnly locked (.addBlockDomain ['l'] ['a', '.', 'b'])).1.lists.blockList =
    (empty.call .asciiOnly locked (.addBlockDomain ['l'] ['a', '.', 'b'])).1.blocked.keys.toFinset
  decide +kernel

end ListStore

end Denis
