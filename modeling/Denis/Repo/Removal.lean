import Denis.Repo.Accounting

/-!
# Removing what was added (`repo/cache.rs`)

An addition trims its text, strips trailing dots and lower-cases; a removal
lower-cases only. So the text that added a domain removes it again iff there
was nothing to trim or strip (`removes_added_iff`), and a text with a trailing
dot adds a domain which the same text does not remove (`dotted_text_stays`).
-/

namespace Denis

open Text

/-- White space and dots have no case: where a text starts or ends with one, so
does the text lower-cased. -/
structure KeepsEnds (lc : Lowercase) : Prop where
  start : ∀ c s, isWhitespace c = true → (lc.toLowercase (c :: s)).head? = some c
  finish : ∀ c s, isWhitespace c = true ∨ c = '.' →
    (lc.toLowercase (s ++ [c])).getLast? = some c

variable {lc : Lowercase} {text : Str}

/-- A text that lower-casing makes a valid domain is bare. -/
theorem bare_of_valid (hlc : KeepsEnds lc)
    (h : Repo.isValidDomain (lc.toLowercase text) = true) : Repo.Bare text := by
  have hbare := (Repo.validDomain_of_isValidDomain h).bare
  constructor
  · intro c hc
    by_contra hspace
    rw [Bool.not_eq_false] at hspace
    obtain ⟨s, rfl⟩ := List.head?_eq_some_iff.mp hc
    exact absurd hspace (by simp [hbare.start c (hlc.start c s hspace)])
  · intro c hc
    obtain ⟨s, rfl⟩ := List.getLast?_eq_some_iff.mp hc
    constructor
    · by_contra hspace
      rw [Bool.not_eq_false] at hspace
      exact absurd hspace (by simp [(hbare.finish c (hlc.finish c s (.inl hspace))).1])
    · rintro rfl
      exact (hbare.finish '.' (hlc.finish '.' s (.inr rfl))).2 rfl

theorem keepsEnds_asciiOnly : KeepsEnds .asciiOnly := by
  have hsame : ∀ c : Char, isWhitespace c = true ∨ c = '.' → c.toLower = c := by
    intro c hc
    apply Char.toNat_inj.mp
    rw [toLower_toNat]
    refine if_neg fun hupper => ?_
    rcases hc with hspace | rfl
    · simp only [isWhitespace, Bool.or_eq_true, Bool.and_eq_true, decide_eq_true_eq,
        beq_iff_eq] at hspace
      omega
    · exact absurd hupper (by decide)
  constructor
  · intro c s hc
    show ((c :: s).map Char.toLower).head? = some c
    rw [List.map_cons, List.head?_cons, hsame c (.inl hc)]
  · intro c s hc
    show ((s ++ [c]).map Char.toLower).getLast? = some c
    rw [List.map_append, List.map_singleton, List.getLast?_concat, hsame c hc]

namespace ListStore

variable {s : ListStore} {d : Str}

/-- The domain is in neither the list nor its table. -/
structure Unlisted (s : ListStore) (d : Str) : Prop where
  memory : d ∉ s.lists.blockList
  table : d ∉ s.blocked.keys

/-- **What a removal leaves** of a listed domain: nothing iff it is the text
lower-cased. -/
theorem removed_iff (hd : d ∈ s.lists.blockList) :
    (s.call lc .never (.removeBlockDomain text)).2 = .removed (.ok true) ∧
        (s.call lc .never (.removeBlockDomain text)).1.Unlisted d ↔
      lc.toLowercase text = d := by
  have hremoved : s.call lc .never (.removeBlockDomain text) =
      ({ s with
        lists := { s.lists with blockList := s.lists.blockList.erase (lc.toLowercase text) }
        blocked := (s.blocked.deleteWhere fun row => row.domain = lc.toLowercase text).1 },
        .removed (.ok (decide (lc.toLowercase text ∈ s.lists.blockList)))) := rfl
  rw [hremoved]
  constructor
  · rintro ⟨-, hmemory, -⟩
    by_contra hne
    exact hmemory (Finset.mem_erase.mpr ⟨Ne.symm hne, hd⟩)
  · rintro rfl
    refine ⟨by rw [decide_eq_true hd], Finset.notMem_erase _ _, ?_⟩
    rw [Table.mem_keys_deleteWhere]
    exact fun h => h.2 rfl

/-- **An addition that considers its text** lists the domain it makes of it. -/
theorem addBlockDomain_listed {s' : ListStore} {list : Str} {added : Nat}
    (h : s.call lc .never (.addBlockDomain list text) = (s', .added (.ok ⟨added, 1⟩))) :
    Repo.normalizeDomains lc [text] = [lc.toLowercase (trimEndMatches '.' (trim text))] ∧
      lc.toLowercase (trimEndMatches '.' (trim text)) ∈ s'.lists.blockList := by
  have hadded : s.addBlockDomains lc .never list [text] = (s', .ok ⟨added, 1⟩) := by
    obtain ⟨hstate, hanswer⟩ := Prod.mk.inj h
    exact Prod.ext hstate (EditAnswer.added.inj hanswer)
  unfold addBlockDomains at hadded
  rw [addDomains_never] at hadded
  obtain ⟨rfl, hresult⟩ := Prod.mk.inj hadded
  have hlength : (Repo.normalizeDomains lc [text]).length = 1 :=
    (AddOutcome.mk.inj (Except.ok.inj hresult)).2
  have hnormal : Repo.normalizeDomains lc [text] =
      [lc.toLowercase (trimEndMatches '.' (trim text))] :=
    (List.filter_sublist (l := [_])).eq_of_length hlength
  refine ⟨hnormal, ?_⟩
  show _ ∈ cowInsert s.lists.blockList _
  rw [cowInsert_eq, hnormal]
  exact Finset.mem_union_right _ (List.mem_toFinset.mpr (List.mem_singleton_self _))

/-- **When the text that added a domain removes it.** Whatever is listed, after
an addition that considered its one text, removing that text answers `true` and
leaves the domain added in neither list nor table iff the text is bare. -/
theorem removes_added_iff (hlc : KeepsEnds lc) {s' : ListStore} {list : Str} {added : Nat}
    (h : s.call lc .never (.addBlockDomain list text) = (s', .added (.ok ⟨added, 1⟩))) :
    (∃ d, Repo.normalizeDomains lc [text] = [d] ∧
        (s'.call lc .never (.removeBlockDomain text)).2 = .removed (.ok true) ∧
        (s'.call lc .never (.removeBlockDomain text)).1.Unlisted d) ↔
      Repo.Bare text := by
  obtain ⟨hnormal, hlisted⟩ := addBlockDomain_listed h
  have hvalid : Repo.isValidDomain (lc.toLowercase (trimEndMatches '.' (trim text))) = true :=
    (lowerDomain_of_mem (hnormal ▸ List.mem_singleton_self _)).valid
  constructor
  · rintro ⟨d, hd, hremoved⟩
    obtain rfl := (List.cons.inj (hnormal.symm.trans hd)).1
    rw [← (removed_iff hlisted).mp hremoved] at hvalid
    exact bare_of_valid hlc hvalid
  · intro hbare
    refine ⟨_, hnormal, (removed_iff hlisted).mpr ?_⟩
    rw [hbare.normal]

/-- A text in other letters is removed. -/
theorem bare_text_removed :
    let r := empty.call .asciiOnly .never (.addBlockDomain ['l'] ['A', '.', 'b'])
    ∃ d, Repo.normalizeDomains .asciiOnly [['A', '.', 'b']] = [d] ∧
      (r.1.call .asciiOnly .never (.removeBlockDomain ['A', '.', 'b'])).2 = .removed (.ok true) ∧
      (r.1.call .asciiOnly .never (.removeBlockDomain ['A', '.', 'b'])).1.Unlisted d :=
  (@removes_added_iff _ _ empty keepsEnds_asciiOnly _ ['l'] 1
    (Prod.ext rfl (by decide +kernel))).mpr ⟨by simp [isWhitespace], by simp [isWhitespace]⟩

/-- **A text with a trailing dot** adds a domain and does not remove it. -/
theorem dotted_text_stays :
    let r := empty.call .asciiOnly .never (.addBlockDomain ['l'] ['a', '.', 'b', '.'])
    r.2 = .added (.ok ⟨1, 1⟩) ∧
      (r.1.call .asciiOnly .never (.removeBlockDomain ['a', '.', 'b', '.'])).2 =
        .removed (.ok false) ∧
      ['a', '.', 'b'] ∈
        (r.1.call .asciiOnly .never (.removeBlockDomain ['a', '.', 'b', '.'])).1.blocked.keys := by
  decide +kernel

end ListStore

end Denis
