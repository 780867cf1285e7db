import Denis.Lib.ByteOffset
import Denis.Repo.Domains

/-!
# The block decision at byte offsets (`repo/cache.rs:386–426`)

`decide` and `any_suffix_match` find the dots of a name with `memchr_iter` and
cut the name after each, `&name[p + 1..]`. `Checked.decide` follows them offset
by offset, with `none` for a cut the code would panic on. It computes
`Repo.decide` (`Checked.decide_eq`), so no cut is ever off a character boundary.

`decide_reference` is the decision without offsets: some blocked domain is the
name or its end after a dot, and no allowed one is.
-/

namespace Denis

open Text

namespace Checked

/-- The loop of `any_suffix_match` over the dots found (`cache.rs:420–424`). -/
def anySuffixLoop (set : DomainSet) (name : Str) : List Nat → Option Bool
  | [] => some false
  | p :: rest =>
    match sliceFrom name (p + 1) with
    | none => none
    | some suffix => if suffix ∈ set then some true else anySuffixLoop set name rest

/-- `any_suffix_match` (`cache.rs:413–426`). -/
def anySuffixMatch (set : DomainSet) (name : Str) : Option Bool :=
  if set = ∅ then some false
  else if name ∈ set then some true
  else anySuffixLoop set name (memchrIter 46 0 (utf8 name))

/-- The loop of `decide` over the dots found (`cache.rs:400–408`). -/
def decideLoop (block allow : DomainSet) (name : Str) : Bool → List Nat → Option Bool
  | blocked, [] => some blocked
  | blocked, p :: rest =>
    match sliceFrom name (p + 1) with
    | none => none
    | some suffix =>
      if suffix ∈ allow then some false
      else
        let blocked := if !blocked && suffix ∈ block then true else blocked
        decideLoop block allow name blocked rest

/-- `decide` (`cache.rs:388–410`). -/
def decide (block allow : DomainSet) (name : Str) : Option Bool :=
  if block = ∅ then some false
  else if allow = ∅ then anySuffixMatch block name
  else if name ∈ allow then some false
  else decideLoop block allow name (name ∈ block) (memchrIter 46 0 (utf8 name))

variable {block allow : DomainSet} {name : Str}

theorem anySuffixLoop_eq {ps : List Nat} {suffixes : List Str}
    (h : ps.map (fun p => sliceFrom name (p + 1)) = suffixes.map some) :
    anySuffixLoop block name ps = some (suffixes.any (· ∈ block)) := by
  induction ps generalizing suffixes with
  | nil =>
    obtain rfl := List.map_eq_nil_iff.mp h.symm
    rfl
  | cons p ps ih =>
    cases suffixes with
    | nil => cases h
    | cons s suffixes =>
      obtain ⟨hhead, hrest⟩ := List.cons.inj h
      have hs : sliceFrom name (p + 1) = some s := hhead
      rw [anySuffixLoop, hs]
      by_cases hmem : s ∈ block
      · simp [hmem]
      · simp [hmem, ih hrest]

theorem decideLoop_eq {ps : List Nat} {suffixes : List Str} (blocked : Bool)
    (h : ps.map (fun p => sliceFrom name (p + 1)) = suffixes.map some) :
    decideLoop block allow name blocked ps =
      some (Repo.decideLoop block allow blocked suffixes) := by
  induction ps generalizing suffixes blocked with
  | nil =>
    obtain rfl := List.map_eq_nil_iff.mp h.symm
    rfl
  | cons p ps ih =>
    cases suffixes with
    | nil => cases h
    | cons s suffixes =>
      obtain ⟨hhead, hrest⟩ := List.cons.inj h
      have hs : sliceFrom name (p + 1) = some s := hhead
      have hflag : (if !blocked && s ∈ block then true else blocked) =
          (blocked || s ∈ block) := by
        cases blocked <;> simp
      rw [decideLoop, hs, Repo.decideLoop]
      by_cases hmem : s ∈ allow
      · simp [hmem]
      · simp only [hmem, if_false, hflag]
        exact ih _ hrest

/-- The cuts after the dots of a name. -/
theorem slices (name : Str) :
    (memchrIter 46 0 (utf8 name)).map (fun p => sliceFrom name (p + 1)) =
      (suffixesAfter '.' name).map some :=
  sliceFrom_memchrIter (a := '.') (by decide) name

theorem anySuffixMatch_eq (set : DomainSet) (name : Str) :
    anySuffixMatch set name = some (Repo.anySuffixMatch set name) := by
  unfold anySuffixMatch Repo.anySuffixMatch
  by_cases hempty : set = ∅
  · rw [if_pos hempty, if_pos hempty]
  · by_cases hname : name ∈ set
    · rw [if_neg hempty, if_neg hempty, if_pos hname, if_pos hname]
    · rw [if_neg hempty, if_neg hempty, if_neg hname, if_neg hname,
        anySuffixLoop_eq (slices name)]

/-- **The decision never cuts off a character boundary.** -/
theorem decide_eq (block allow : DomainSet) (name : Str) :
    decide block allow name = some (Repo.decide block allow name) := by
  unfold decide Repo.decide
  by_cases hblock : block = ∅
  · rw [if_pos hblock, if_pos hblock]
  · by_cases hallow : allow = ∅
    · rw [if_neg hblock, if_neg hblock, if_pos hallow, if_pos hallow, anySuffixMatch_eq]
    · by_cases hname : name ∈ allow
      · rw [if_neg hblock, if_neg hblock, if_neg hallow, if_neg hallow, if_pos hname,
          if_pos hname]
      · rw [if_neg hblock, if_neg hblock, if_neg hallow, if_neg hallow, if_neg hname,
          if_neg hname, decideLoop_eq _ (slices name)]

end Checked

namespace Repo

/-- A name is a domain or ends in a dot and the domain. -/
def EndsIn (name d : Str) : Prop := name = d ∨ '.' :: d <:+ name

/-- `decide` without its early exits for empty sets: the general loop. -/
def decideGeneral (block allow : DomainSet) (name : Str) : Bool :=
  if name ∈ allow then false
  else decideLoop block allow (name ∈ block) (suffixesAfter '.' name)

theorem mem_suffixesAfter_iff {name d : Str} :
    d ∈ suffixesAfter '.' name ↔ '.' :: d <:+ name := by
  rw [mem_suffixesAfter]
  constructor
  · rintro ⟨pre, rfl⟩
    exact ⟨pre, rfl⟩
  · rintro ⟨pre, rfl⟩
    exact ⟨pre, rfl⟩

/-- Covering a name is having a domain it ends in. -/
theorem covers_iff_endsIn {set : DomainSet} {name : Str} :
    Covers set name ↔ ∃ d ∈ set, EndsIn name d := by
  rw [covers_iff]
  constructor
  · rintro ⟨d, hd, rfl | hsuffix⟩
    · exact ⟨d, hd, .inl rfl⟩
    · exact ⟨d, hd, .inr (mem_suffixesAfter_iff.mp hsuffix)⟩
  · rintro ⟨d, hd, rfl | hsuffix⟩
    · exact ⟨_, hd, .inl rfl⟩
    · exact ⟨d, hd, .inr (mem_suffixesAfter_iff.mpr hsuffix)⟩

/-- The general loop, whatever the sets. -/
theorem decideGeneral_iff (block allow : DomainSet) (name : Str) :
    decideGeneral block allow name = true ↔ Covers block name ∧ ¬ Covers allow name := by
  unfold decideGeneral
  split
  · next hname => simp [Covers, hname]
  · next hname =>
    rw [decideLoop_iff]
    simp [Covers, hname]

/-- **The decision and its reference**, for arbitrary sets and names: at byte
offsets as without, a name is blocked iff it ends in a blocked domain and in no
allowed one. The exits for empty sets agree with the general loop, and one
allowed end overrides every blocked one. -/
theorem decide_reference (block allow : DomainSet) (name : Str) :
    Checked.decide block allow name = some (decide block allow name) ∧
    (decide block allow name = true ↔
      (∃ b ∈ block, EndsIn name b) ∧ ¬ ∃ a ∈ allow, EndsIn name a) ∧
    decide block allow name = decideGeneral block allow name ∧
    ((∃ a ∈ allow, EndsIn name a) → decide block allow name = false) := by
  have hdecide := decide_iff block allow name
  have hreference := hdecide
  rw [covers_iff_endsIn, covers_iff_endsIn] at hreference
  refine ⟨Checked.decide_eq block allow name, hreference, ?_, ?_⟩
  · exact Bool.eq_iff_iff.mpr (hdecide.trans (decideGeneral_iff block allow name).symm)
  · intro hallowed
    refine Bool.eq_false_iff.mpr ?_
    intro hblocked
    exact (hreference.mp hblocked).2 hallowed

end Repo

end Denis
