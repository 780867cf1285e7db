import Denis.Repo.Accounting
import Denis.Repo.DomainList

/-!
# Importing a list (`repo/cache.rs`, `api/mod.rs`)

`block_add_url` parses the text at a URL and adds what it parsed. Parsing strips
dots and lower-cases the tokens of a line, adding trims, strips and lower-cases
its strings, and both keep what is valid then. A valid domain is ASCII and has
nothing to trim or strip, so adding changes nothing about a parsed list: it
reports no invalid entry and stores exactly what was parsed (`imports_agree`).

This rests on lower-casing leaving no capital letter behind. That it acts by the
ASCII rule on ASCII strings is not enough (`capital_survives`).
-/

namespace Denis

open Text

variable {lc : Lowercase}

/-- **Lower-case valid domains are left as they are.** -/
theorem normalizeDomains_eq_self {domains : List Str} (h : ∀ d ∈ domains, LowerDomain lc d) :
    Repo.normalizeDomains lc domains = domains := by
  have hmap : (domains.map fun d => lc.toLowercase (trimEndMatches '.' (trim d))) = domains := by
    refine map_eq_self fun d hd => ?_
    have hbare := (Repo.validDomain_of_isValidDomain (h d hd).valid).bare
    rw [hbare.normal]
    exact (h d hd).lower
  rw [Repo.normalizeDomains, hmap, List.filter_eq_self]
  exact fun d hd => (h d hd).valid

theorem normalizeDomains_idempotent (lc : Lowercase) (domains : List Str) :
    Repo.normalizeDomains lc (Repo.normalizeDomains lc domains) =
      Repo.normalizeDomains lc domains :=
  normalizeDomains_eq_self fun _ => lowerDomain_of_mem

/-- The domains of a line are valid tokens. -/
theorem Repo.mem_tokenDomains {toLowercase : Str → Str} {tokens : List Str} {d : Str}
    (h : d ∈ tokenDomains toLowercase tokens) :
    isValidDomain d = true ∧ ∃ token, d = tokenDomain toLowercase token := by
  cases tokens with
  | nil => cases h
  | cons first tokens =>
    rw [tokenDomains] at h
    split at h
    · obtain ⟨hmem, hvalid⟩ := List.mem_filter.mp h
      obtain ⟨token, -, rfl⟩ := List.mem_map.mp hmem
      exact ⟨hvalid, token, rfl⟩
    · obtain ⟨hmem, hvalid⟩ := List.mem_filter.mp h
      exact ⟨hvalid, first, List.mem_singleton.mp hmem⟩

/-- **`parse_domain_list` makes lower-case valid domains**, as `normalize_domains`
does. -/
theorem lowerDomain_of_parsed {text d : Str}
    (h : d ∈ Repo.parseDomainList lc.toLowercase text) : LowerDomain lc d := by
  rw [Repo.parseDomainList_eq] at h
  obtain ⟨line, -, hd⟩ := List.mem_flatMap.mp h
  rw [Repo.parseLine_eq] at hd
  obtain ⟨hvalid, token, rfl⟩ := Repo.mem_tokenDomains hd
  exact lowerDomain_of_valid hvalid

/-- **What an addition that succeeds reports**, whichever statements could have
failed, and what it leaves in the table. -/
theorem addDomains_ok {ρ : Type} {key : ρ → Str} {row : Str → ρ} {faults : Faults}
    {list : DomainSet} {t : Table key} {domains : List Str} {outcome : AddOutcome}
    (h : (addDomains row faults lc list t domains).2.2 = .ok outcome) :
    (addDomains row faults lc list t domains).2.1 =
        (t.insertIgnore ((Repo.normalizeDomains lc domains).map row)).1 ∧
      outcome = ⟨(t.insertIgnore ((Repo.normalizeDomains lc domains).map row)).2,
        (Repo.normalizeDomains lc domains).length⟩ := by
  unfold addDomains at h ⊢
  dsimp only at h ⊢
  split at h
  · next hnone =>
    rw [if_pos hnone, hnone]
    exact ⟨rfl, (Except.ok.inj h).symm⟩
  · next hsome =>
    rw [if_neg hsome]
    rw [insertLoop_eq] at h ⊢
    cases hfirst : firstError faults 0 (insertChunks (Repo.normalizeDomains lc domains)) with
    | some e =>
      rw [hfirst] at h
      cases h
    | none =>
      rw [hfirst, executed_eq hfirst, insertChunks_flatten] at h
      rw [executed_eq hfirst, insertChunks_flatten]
      refine ⟨rfl, (Except.ok.inj h).symm.trans ?_⟩
      rw [Nat.zero_add]

/-! ## Imports -/

/-- An error answer of the handler: the list could not be fetched, or a
statement failed. -/
inductive ImportError
  | badRequest (message : Str)
  | internal (error : CacheError)
  deriving DecidableEq

namespace ListStore

/-- `block_add_url` (`api/mod.rs:293–316`), with what fetching the URL returned.
Its result is `none` where `from_outcome` underflows. -/
def blockAddUrl (lc : Lowercase) (faults : Faults) (s : ListStore) (url : Str)
    (list : Option Str) (fetched : Except Str Str) :
    ListStore × Except ImportError (Option AddResult) :=
  match fetched with
  | .error message => (s, .error (.badRequest message))
  | .ok body =>
    let domains := Repo.parseDomainList lc.toLowercase body
    match s.addBlockDomains lc faults (list.getD url) domains with
    | (s', .error e) => (s', .error (.internal e))
    | (s', .ok outcome) => (s', .ok (AddResult.fromOutcome outcome domains.length))

/-- What an import that succeeds reports and stores: nothing invalid, and what
was parsed. -/
def Imported (s s' : ListStore) (parsed : List Str) :
    Except ImportError (Option AddResult) → Prop
  | .error _ => True
  | .ok result =>
    (∃ added skipped, added + skipped = parsed.length ∧ result = some ⟨added, skipped, 0⟩) ∧
      s'.lists.blockList = s.lists.blockList ∪ parsed.toFinset ∧
      ∀ d, d ∈ s'.blocked.keys ↔ d ∈ s.blocked.keys ∨ d ∈ parsed

/-- The counts of an addition all of whose inputs were valid. -/
theorem fromOutcome_valid {added total : Nat} (h : added ≤ total) :
    AddResult.fromOutcome ⟨added, total⟩ total = some ⟨added, total - added, 0⟩ := by
  rw [AddResult.fromOutcome, if_pos ⟨h, Nat.le_refl _⟩]
  show some (AddResult.mk added (total - added) (total - total)) = _
  rw [Nat.sub_self]

/-- **An import stores what was parsed.** -/
theorem blockAddUrl_imported (lc : Lowercase) (faults : Faults) (s : ListStore) (url : Str)
    (list : Option Str) (body : Str) :
    Imported s (s.blockAddUrl lc faults url list (.ok body)).1
      (Repo.parseDomainList lc.toLowercase body)
      (s.blockAddUrl lc faults url list (.ok body)).2 := by
  have hsame := normalizeDomains_eq_self fun d => @lowerDomain_of_parsed lc body d
  have hlist := addDomains_list lc faults (BlockedRow.mk (list.getD url)) s.lists.blockList
    s.blocked (Repo.parseDomainList lc.toLowercase body)
  have hok := @addDomains_ok lc _ _ (BlockedRow.mk (list.getD url)) faults s.lists.blockList
    s.blocked (Repo.parseDomainList lc.toLowercase body)
  rw [blockAddUrl, addBlockDomains]
  revert hsame hlist hok
  generalize Repo.parseDomainList lc.toLowercase body = parsed
  intro hsame hlist hok
  rw [hsame] at hlist hok
  revert hlist hok
  generalize addDomains _ faults lc s.lists.blockList s.blocked parsed = addition
  obtain ⟨blockList, blocked, result⟩ := addition
  intro hlist hok
  cases result with
  | error e => exact trivial
  | ok outcome =>
    obtain ⟨rfl, rfl⟩ := hok rfl
    have hle := s.blocked.insertIgnore_le (parsed.map (BlockedRow.mk (list.getD url)))
    rw [List.length_map] at hle
    refine ⟨⟨_, _, Nat.add_sub_cancel' hle, fromOutcome_valid hle⟩, ?_, fun d => ?_⟩
    · exact hlist.trans (cowInsert_eq ..)
    · rw [Table.mem_keys_insertIgnore, map_key_row fun _ => rfl]

/-- **The two normalisations agree.** Parsing a list makes lower-case valid
domains, which normalising leaves alone; an import reports none of them invalid
and stores them all; and normalising twice is normalising once. -/
theorem imports_agree (lc : Lowercase) :
    (∀ text, (∀ d ∈ Repo.parseDomainList lc.toLowercase text, LowerDomain lc d) ∧
      Repo.normalizeDomains lc (Repo.parseDomainList lc.toLowercase text) =
        Repo.parseDomainList lc.toLowercase text) ∧
    (∀ (faults : Faults) (s : ListStore) (url : Str) (list : Option Str) (body : Str),
      Imported s (s.blockAddUrl lc faults url list (.ok body)).1
        (Repo.parseDomainList lc.toLowercase body)
        (s.blockAddUrl lc faults url list (.ok body)).2) ∧
    ∀ domains, Repo.normalizeDomains lc (Repo.normalizeDomains lc domains) =
      Repo.normalizeDomains lc domains :=
  ⟨fun _ => ⟨fun _ => lowerDomain_of_parsed,
      normalizeDomains_eq_self fun _ => lowerDomain_of_parsed⟩,
    blockAddUrl_imported lc, normalizeDomains_idempotent lc⟩

end ListStore

/-- ASCII letters in lower case, and the full-width `A` as a capital one. -/
def capitalA (s : Str) : Str := s.map fun c => if c = 'Ａ' then 'A' else c.toLower

/-- **The ASCII rule alone is not enough**: what a function does beyond ASCII can
leave a capital letter in a valid domain. -/
theorem capital_survives :
    (∀ s, IsAscii s → capitalA s = s.map Char.toLower) ∧
      ['A', '.', 'b'] ∈ Repo.parseDomainList capitalA ['Ａ', '.', 'b'] ∧
      ['A', '.', 'b'].map Char.toLower ≠ ['A', '.', 'b'] := by
  refine ⟨fun s hs => List.map_congr_left fun c hc => if_neg ?_, by decide +kernel, by decide⟩
  rintro rfl
  exact absurd (hs _ hc) (by decide)

end Denis
