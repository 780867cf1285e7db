import Denis.Lib.Machine
import Denis.Repo.Lists

/-!
# `is_blocked` reads two lists in two steps

`Cache::is_blocked` loads the block list, then the allow list, then decides
(`cache.rs:141–145`), while the lists change under it. The two sets it decides
on may never have been current together; still the value it returns is the
decision on the lists of one moment between its loads (`isBlocked_atomic`): the
moment of the first load if the decision there agrees, else the moment of the
second. The allow list only growing, and being loaded second, is what makes one
of the two agree.
-/

namespace Denis

open Text

/-- Where a call of `is_blocked` stands. -/
inductive Reader
  | started
  | loaded (block : DomainSet)
  | returned (blocked : Bool)

/-- The lists and a call of `is_blocked` over them. -/
structure Reading where
  lists : Lists
  reader : Reader

/-- A step: an update by some other call, or the next load of this one. -/
inductive ReadingStep
  | update (u : Update)
  | load

namespace Reading

variable (lc : Lowercase) (name : Str)

/-- The steps of `is_blocked` for a name among updates. -/
def step (r : Reading) : ReadingStep → Option (Reading × List Unit)
  | .update u => some ({ r with lists := u.apply lc r.lists }, [])
  | .load =>
    match r.reader with
    | .started => some ({ r with reader := .loaded r.lists.blockList }, [])
    -- the block list is the one loaded before, the allow list is of this moment
    | .loaded block =>
      some ({ r with reader := .returned (Repo.decide block r.lists.allowList name) }, [])
    | .returned _ => none

/-- `is_blocked` among updates as a machine. -/
abbrev machine : Machine Reading ReadingStep Unit := ⟨step lc name⟩

/-- The call is between its two loads. -/
def Between (r : Reading) : Prop := ∃ block, r.reader = .loaded block

variable {lc name}

/-- A step that starts the call is its first load. -/
theorem step_starts {r r' : Reading} {e : ReadingStep} {out : List Unit}
    (h : step lc name r e = some (r', out)) (hr : r.reader = .started)
    (hr' : r'.reader ≠ .started) : r' = { r with reader := .loaded r.lists.blockList } := by
  cases e with
  | update u =>
    obtain ⟨rfl, -⟩ := Prod.mk.inj (Option.some.inj h)
    exact absurd hr hr'
  | load =>
    rw [step, hr] at h
    exact (Prod.mk.inj (Option.some.inj h)).1.symm

/-- A step that makes the call return is its second load. -/
theorem step_returns {r r' : Reading} {e : ReadingStep} {out : List Unit} {block : DomainSet}
    (h : step lc name r e = some (r', out)) (hr : r.reader = .loaded block)
    (hr' : ∃ v, r'.reader = .returned v) :
    r'.reader = .returned (Repo.decide block r.lists.allowList name) := by
  cases e with
  | update u =>
    obtain ⟨rfl, -⟩ := Prod.mk.inj (Option.some.inj h)
    obtain ⟨v, hv⟩ := hr'
    rw [show _ = r.reader from rfl, hr] at hv
    cases hv
  | load =>
    rw [step, hr] at h
    obtain ⟨rfl, -⟩ := Prod.mk.inj (Option.some.inj h)
    rfl

/-- Once loaded, the block list stays what it was until the call returns, and
the allow list only grows. -/
theorem step_loaded {r r' : Reading} {e : ReadingStep} {out : List Unit} {block allow : DomainSet}
    (h : step lc name r e = some (r', out))
    (hr : (r.reader = .loaded block ∨ ∃ v, r.reader = .returned v) ∧ allow ⊆ r.lists.allowList) :
    (r'.reader = .loaded block ∨ ∃ v, r'.reader = .returned v) ∧
      allow ⊆ r'.lists.allowList := by
  cases e with
  | update u =>
    -- no update takes a domain off the allow list
    obtain ⟨rfl, -⟩ := Prod.mk.inj (Option.some.inj h)
    exact ⟨hr.1, hr.2.trans (u.allowList_subset lc r.lists)⟩
  | load =>
    rcases hr with ⟨hloaded | ⟨v, hv⟩, hallow⟩
    · rw [step, hloaded] at h
      obtain ⟨rfl, -⟩ := Prod.mk.inj (Option.some.inj h)
      exact ⟨.inr ⟨_, rfl⟩, hallow⟩
    · rw [step, hv] at h
      cases h

/-- A returned value stays. -/
theorem step_returned {r r' : Reading} {e : ReadingStep} {out : List Unit} {v : Bool}
    (hr : r.reader = .returned v) (h : step lc name r e = some (r', out)) :
    r'.reader = .returned v := by
  cases e with
  | update u =>
    obtain ⟨rfl, -⟩ := Prod.mk.inj (Option.some.inj h)
    exact hr
  | load =>
    rw [step, hr] at h
    cases h

/-- **One of the two moments agrees**: with the allow list grown in between, the
decision on the early block list and the late allow list is that on the early
pair or that on the late pair. -/
theorem decide_early_or_late (block block' : DomainSet) {allow allow' : DomainSet}
    (hallow : allow ⊆ allow') (name : Str) :
    Repo.decide block allow' name = Repo.decide block allow name ∨
      Repo.decide block allow' name = Repo.decide block' allow' name := by
  by_cases hcovers : Repo.Covers allow' name
  · -- allowed at the later moment: both decisions there are false
    have hfalse (b : DomainSet) : Repo.decide b allow' name = false :=
      Bool.eq_false_iff.mpr fun h => ((Repo.decide_iff ..).mp h).2 hcovers
    exact .inr (by rw [hfalse, hfalse])
  · have hearly : ¬ Repo.Covers allow name := fun h => hcovers (h.mono hallow)
    refine .inl (Bool.eq_iff_iff.mpr ?_)
    rw [Repo.decide_iff, Repo.decide_iff]
    simp [hcovers, hearly]

/-- **`is_blocked` is linearizable.** Whatever updates happen around and between
its loads, the value it returns is the decision on the lists of one moment at
which it stood between them. -/
theorem isBlocked_atomic {lists : Lists} {es : List ReadingStep} {t : Reading} {outs : List Unit}
    {v : Bool} (hrun : (machine lc name).run ⟨lists, .started⟩ es = some (t, outs))
    (hv : t.reader = .returned v) :
    ∃ pre post m outs', es = pre ++ post ∧
      (machine lc name).run ⟨lists, .started⟩ pre = some (m, outs') ∧ m.Between ∧
      v = Repo.decide m.lists.blockList m.lists.allowList name := by
  -- the first load, from `a` to `b`
  obtain ⟨pre, e, mid, a, b, h₁, out₁, h₂, rfl, hpre, ha, hload, hb, hrest⟩ :=
    Machine.run_enters (P := fun r => r.reader ≠ .started) hrun (by simp) (by simp [hv])
  obtain rfl := step_starts hload (not_not.mp ha) hb
  have hfirst : (machine lc name).run ⟨lists, .started⟩ (pre ++ [e]) =
      some ({ a with reader := .loaded a.lists.blockList }, h₁ ++ out₁) :=
    Machine.run_append.mpr ⟨a, h₁, out₁, hpre,
      Machine.run_cons_eq_some.mpr ⟨_, out₁, [], hload, rfl, by simp⟩, rfl⟩
  -- the second load, from `c` to `d`
  obtain ⟨mid', e', post, c, d, h₃, out₃, h₄, rfl, hmid, hc, hload', hd, hpost⟩ :=
    Machine.run_enters (P := fun r => ∃ v, r.reader = .returned v) hrest (by simp) ⟨v, hv⟩
  obtain ⟨hloaded, hallow⟩ := Machine.run_invariant (M := machine lc name)
    (J := fun r => (r.reader = .loaded a.lists.blockList ∨ ∃ v, r.reader = .returned v) ∧
      a.lists.allowList ⊆ r.lists.allowList)
    (s := { a with reader := .loaded a.lists.blockList })
    (fun _ _ _ _ hr h => step_loaded h hr) ⟨.inl rfl, Finset.Subset.refl _⟩ hmid
  have hloaded := hloaded.resolve_right hc
  have hreturned := Machine.run_invariant (M := machine lc name)
    (fun _ _ _ _ hr h => step_returned hr h) (step_returns hload' hloaded hd) hpost
  obtain rfl : v = _ := Reader.returned.inj (hv.symm.trans hreturned)
  rcases decide_early_or_late a.lists.blockList c.lists.blockList hallow
    name with hearly | hlate
  · exact ⟨pre ++ [e], mid' ++ e' :: post, _, _, by simp, hfirst, ⟨_, rfl⟩, hearly⟩
  · exact ⟨pre ++ [e] ++ mid', e' :: post, c, _, by simp,
      Machine.run_append.mpr ⟨_, _, _, hfirst, hmid, rfl⟩, ⟨_, hloaded⟩, hlate⟩

/-- A domain allowed between the loads and unblocked before the second. -/
theorem isBlocked_between_edits :
    let es := [.load, .update (.addAllowDomains [['a', '.', 'b']]),
      .update (.removeBlockDomain ['a', '.', 'b']), .load]
    ∃ pre post m outs', es = pre ++ post ∧
      (machine .asciiOnly ['a', '.', 'b']).run ⟨⟨{['a', '.', 'b']}, ∅⟩, .started⟩ pre =
        some (m, outs') ∧ m.Between ∧
      false = Repo.decide m.lists.blockList m.lists.allowList ['a', '.', 'b'] :=
  isBlocked_atomic (t := ⟨⟨_, _⟩, _⟩) rfl (congrArg Reader.returned (by decide +kernel))

end Reading

end Denis
