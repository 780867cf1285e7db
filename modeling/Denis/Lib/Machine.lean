import Mathlib.Data.List.Basic

/-!
# Labelled machines and their runs

A `Machine` is a partial step function: at a state, a label is either refused
(`none`) or taken, giving a successor state and the outputs the step emits in
order. A run feeds a list of labels; it exists only if no label is refused.
The labels carry every choice the environment makes (what arrives, when, what
fails), so "for every run" is "for every list of labels".

The rules of this module are the only inductions over runs a development
needs:

- `run_history`: a property `J` of (outputs so far, state) that every step
  keeps holds at the end of the run; `run_trace`: the same with the labels so far;
- `along_iff_outputs`: if at every state satisfying an invariant the label
  condition `C` says exactly that the step's outputs are good, then all labels
  of a run meet `C` iff all its outputs are good;
- `along_iff_visits`: the same for the states a run goes through;
- `run_last_change`: where a run gives a value its last change;
- `run_simulation`, `run_forward`, `run_refines`: from steps of two machines to
  their runs;
- `Justified`: the shape of "every output is explained by an earlier one".

Label conditions are stated at the state the step is taken from (`Along`), so
they can speak about the state before the step and nothing later.
-/

universe u v w

/-- A partial step function over states `σ`, labels `ε` and outputs `ο`. -/
structure Machine (σ : Type u) (ε : Type v) (ο : Type w) where
  step : σ → ε → Option (σ × List ο)

namespace Machine

variable {σ : Type u} {ε : Type v} {ο : Type w} (M : Machine σ ε ο)

/-- Feed a list of labels; the outputs are those of the steps, in order. -/
def run : σ → List ε → Option (σ × List ο)
  | s, [] => some (s, [])
  | s, e :: es =>
    match M.step s e with
    | none => none
    | some (s', out) =>
      match run s' es with
      | none => none
      | some (t, outs) => some (t, out ++ outs)

/-- `C` holds of every label of a run, at the state the label is taken from. -/
def Along (C : σ → ε → Prop) : σ → List ε → Prop
  | _, [] => True
  | s, e :: es => C s e ∧ ∀ s' out, M.step s e = some (s', out) → Along C s' es

/-- Where the label condition is decidable, so is holding along a run. -/
instance Along.decidable {C : σ → ε → Prop} [∀ s e, Decidable (C s e)] :
    ∀ s es, Decidable (M.Along C s es)
  | _, [] => .isTrue trivial
  | s, e :: es =>
    match h : M.step s e with
    | none => decidable_of_iff (C s e) ⟨fun hC => ⟨hC, fun _ _ h' => by rw [h] at h'; cases h'⟩,
        And.left⟩
    | some (s', _) =>
      have := Along.decidable (C := C) s' es
      decidable_of_iff (C s e ∧ M.Along C s' es)
        ⟨fun ⟨hC, hes⟩ => ⟨hC, fun _ _ h' => by cases h.symm.trans h'; exact hes⟩,
          fun ⟨hC, hes⟩ => ⟨hC, hes _ _ h⟩⟩

variable {M}

@[simp] theorem run_nil (s : σ) : M.run s [] = some (s, []) := rfl

/-- A run of `e :: es` is a step followed by a run of `es`. -/
theorem run_cons_eq_some {s t : σ} {e : ε} {es : List ε} {h : List ο} :
    M.run s (e :: es) = some (t, h) ↔
      ∃ s' out outs, M.step s e = some (s', out) ∧
        M.run s' es = some (t, outs) ∧ h = out ++ outs := by
  constructor
  · intro hrun
    rw [run] at hrun
    split at hrun
    · cases hrun
    · next s' out hstep =>
      split at hrun
      · cases hrun
      · next t' outs hrest =>
        obtain ⟨rfl, rfl⟩ := Prod.mk.inj (Option.some.inj hrun)
        exact ⟨s', out, outs, hstep, hrest, rfl⟩
  · rintro ⟨s', out, outs, hstep, hrest, rfl⟩
    simp only [run, hstep, hrest]

/-- Runs compose: a run of `es ++ fs` is a run of `es` followed by one of
`fs`. -/
theorem run_append {s t : σ} {es fs : List ε} {h : List ο} :
    M.run s (es ++ fs) = some (t, h) ↔
      ∃ m h₁ h₂, M.run s es = some (m, h₁) ∧ M.run m fs = some (t, h₂) ∧
        h = h₁ ++ h₂ := by
  induction es generalizing s h with
  | nil => simp
  | cons e es ih =>
    rw [List.cons_append, run_cons_eq_some]
    constructor
    · rintro ⟨s', out, outs, hstep, hrest, rfl⟩
      obtain ⟨m, h₁, h₂, hes, hfs, rfl⟩ := ih.mp hrest
      exact ⟨m, out ++ h₁, h₂, run_cons_eq_some.mpr ⟨s', out, h₁, hstep, hes, rfl⟩,
        hfs, (List.append_assoc ..).symm⟩
    · rintro ⟨m, h₁, h₂, hes, hfs, rfl⟩
      obtain ⟨s', out, outs, hstep, hrest, rfl⟩ := run_cons_eq_some.mp hes
      exact ⟨s', out, outs ++ h₂, hstep, ih.mpr ⟨m, outs, h₂, hrest, hfs, rfl⟩,
        List.append_assoc ..⟩

/-- The trivial label condition holds along every run. -/
theorem along_true (s : σ) (es : List ε) : M.Along (fun _ _ => True) s es := by
  induction es generalizing s with
  | nil => trivial
  | cons e es ih => exact ⟨trivial, fun s' _ _ => ih s'⟩

/-- A run that ends in `P` and does not start there has a step that enters it. -/
theorem run_enters {P : σ → Prop} {s t : σ} {es : List ε} {h : List ο}
    (hrun : M.run s es = some (t, h)) (hs : ¬ P s) (ht : P t) :
    ∃ pre e post m m' h₁ out h₂, es = pre ++ e :: post ∧ M.run s pre = some (m, h₁) ∧ ¬ P m ∧
      M.step m e = some (m', out) ∧ P m' ∧ M.run m' post = some (t, h₂) := by
  induction es generalizing s h with
  | nil =>
    obtain ⟨rfl, -⟩ := Prod.mk.inj (Option.some.inj hrun)
    exact absurd ht hs
  | cons e es ih =>
    obtain ⟨s', out, outs, hstep, hrest, -⟩ := run_cons_eq_some.mp hrun
    by_cases hs' : P s'
    · exact ⟨[], e, es, s, s', [], out, outs, rfl, rfl, hs, hstep, hs', hrest⟩
    · obtain ⟨pre, e', post, m, m', h₁, out', h₂, rfl, hpre, hm, hstep', hm', hpost⟩ :=
        ih hrest hs'
      exact ⟨e :: pre, e', post, m, m', out ++ h₁, out', h₂, rfl,
        run_cons_eq_some.mpr ⟨s', out, h₁, hstep, hpre, rfl⟩, hm, hstep', hm', hpost⟩

/-- A condition on labels alone holds along a run if it holds of each. -/
theorem along_of_forall {C : ε → Prop} {es : List ε} (h : ∀ e ∈ es, C e) (s : σ) :
    M.Along (fun _ => C) s es := by
  induction es generalizing s with
  | nil => trivial
  | cons e es ih =>
    exact ⟨h e (List.mem_cons_self ..), fun s' _ _ =>
      ih (fun e' he' => h e' (List.mem_cons_of_mem _ he')) s'⟩

/-- A condition along a run is one on every label and the state before it. -/
theorem along_iff_split {C : σ → ε → Prop} {s : σ} {es : List ε} :
    M.Along C s es ↔ ∀ pre e post m h, es = pre ++ e :: post → M.run s pre = some (m, h) →
      C m e := by
  induction es generalizing s with
  | nil => simp [Along]
  | cons e es ih =>
    constructor
    · rintro ⟨hC, hlater⟩ pre e' post m h heq hpre
      cases pre with
      | nil =>
        obtain ⟨rfl, -⟩ := List.cons.inj heq
        obtain ⟨rfl, -⟩ := Prod.mk.inj (Option.some.inj hpre)
        exact hC
      | cons a pre =>
        obtain ⟨rfl, rfl⟩ := List.cons.inj heq
        obtain ⟨s', out, outs, hs, hrest, -⟩ := run_cons_eq_some.mp hpre
        exact ih.mp (hlater s' out hs) pre e' post m outs rfl hrest
    · intro hall
      refine ⟨hall [] e es s [] rfl rfl, ?_⟩
      intro s' out hs
      refine ih.mpr ?_
      intro pre e' post m h heq hpre
      exact hall (e :: pre) e' post m (out ++ h) (congrArg (e :: ·) heq)
        (run_cons_eq_some.mpr ⟨s', out, h, hs, hpre, rfl⟩)

/-- The states a run goes through: those after its prefixes. -/
def Visits (M : Machine σ ε ο) (s : σ) (es : List ε) (m : σ) : Prop :=
  ∃ pre post h, es = pre ++ post ∧ M.run s pre = some (m, h)

/-- A condition along a run of two parts. -/
theorem along_append {C : σ → ε → Prop} {s : σ} {es fs : List ε} :
    M.Along C s (es ++ fs) ↔
      M.Along C s es ∧ ∀ m h, M.run s es = some (m, h) → M.Along C m fs := by
  induction es generalizing s with
  | nil =>
    refine ⟨fun hfs => ⟨trivial, ?_⟩, fun h => h.2 s [] rfl⟩
    intro m h hrun
    obtain ⟨rfl, -⟩ := Prod.mk.inj (Option.some.inj hrun)
    exact hfs
  | cons e es ih =>
    constructor
    · rintro ⟨hC, hlater⟩
      refine ⟨⟨hC, fun s' out hs => (ih.mp (hlater s' out hs)).1⟩, ?_⟩
      intro m h hrun
      obtain ⟨s', out, outs, hs, hrest, -⟩ := run_cons_eq_some.mp hrun
      exact (ih.mp (hlater s' out hs)).2 m outs hrest
    · rintro ⟨⟨hC, hes⟩, hfs⟩
      refine ⟨hC, fun s' out hs => ih.mpr ⟨hes s' out hs, ?_⟩⟩
      intro m h hrun
      exact hfs m (out ++ h) (run_cons_eq_some.mpr ⟨s', out, h, hs, hrun, rfl⟩)

/-! ## Invariants over the outputs so far and the state -/

/-- **Run rule.** If every step meeting `C` keeps `J` (of the outputs so far
and the state), then `J` holds after every run whose labels meet `C`. -/
theorem run_history {C : σ → ε → Prop} {J : List ο → σ → Prop}
    (hstep : ∀ h s e s' out, J h s → C s e → M.step s e = some (s', out) →
      J (h ++ out) s')
    {h : List ο} {s t : σ} {es : List ε} {outs : List ο} (hJ : J h s)
    (hC : M.Along C s es) (hrun : M.run s es = some (t, outs)) :
    J (h ++ outs) t := by
  induction es generalizing h s outs with
  | nil =>
    obtain ⟨rfl, rfl⟩ := Prod.mk.inj (Option.some.inj hrun)
    simpa using hJ
  | cons e es ih =>
    obtain ⟨s', out, rest, hs, hrest, rfl⟩ := run_cons_eq_some.mp hrun
    rw [← List.append_assoc]
    exact ih (hstep h s e s' out hJ hC.1 hs) (hC.2 s' out hs) hrest

/-- The run rule for a property of the labels and outputs so far and the state. -/
theorem run_trace {J : List ε → List ο → σ → Prop}
    (hstep : ∀ l h s e s' out, J l h s → M.step s e = some (s', out) →
      J (l ++ [e]) (h ++ out) s')
    {l : List ε} {h : List ο} {s t : σ} {es : List ε} {outs : List ο} (hJ : J l h s)
    (hrun : M.run s es = some (t, outs)) : J (l ++ es) (h ++ outs) t := by
  induction es generalizing l h s outs with
  | nil =>
    obtain ⟨rfl, rfl⟩ := Prod.mk.inj (Option.some.inj hrun)
    simpa using hJ
  | cons e es ih =>
    obtain ⟨s', out, rest, hs, hrest, rfl⟩ := run_cons_eq_some.mp hrun
    have hlater := ih (hstep l h s e s' out hJ hs) hrest
    rwa [List.append_assoc, List.append_assoc] at hlater

/-- The run rule for a property of the state alone, with no label condition. -/
theorem run_invariant {J : σ → Prop}
    (hstep : ∀ s e s' out, J s → M.step s e = some (s', out) → J s')
    {s t : σ} {es : List ε} {outs : List ο} (hJ : J s)
    (hrun : M.run s es = some (t, outs)) : J t :=
  run_history (C := fun _ _ => True) (J := fun _ => J)
    (fun _ s e s' out hj _ hs => hstep s e s' out hj hs) (h := []) hJ
    (along_true s es) hrun

/-- The run rule for outputs: if steps from states satisfying `J` keep `J` and
emit only what satisfies `P`, so do runs. -/
theorem run_outputs {J : σ → Prop} {P : ο → Prop}
    (hstep : ∀ s e s' out, J s → M.step s e = some (s', out) → J s' ∧ ∀ o ∈ out, P o)
    {s t : σ} {es : List ε} {outs : List ο} (hJ : J s)
    (hrun : M.run s es = some (t, outs)) : J t ∧ ∀ o ∈ outs, P o := by
  refine run_history (C := fun _ _ => True) (J := fun h s => J s ∧ ∀ o ∈ h, P o)
    (fun h s e s' out hj _ hs => ?_) (h := []) ⟨hJ, by simp⟩ (along_true s es) hrun
  obtain ⟨hkeep, hout⟩ := hstep s e s' out hj.1 hs
  refine ⟨hkeep, ?_⟩
  intro o ho
  rcases List.mem_append.mp ho with ho | ho
  · exact hj.2 o ho
  · exact hout o ho

/-- If, at states satisfying `J`, the label condition `C` says exactly that the
step's outputs satisfy `P`, and steps meeting `C` keep `J`, then a run's labels
all meet `C` iff its outputs all satisfy `P`. -/
theorem along_iff_outputs {C : σ → ε → Prop} {J : σ → Prop} {P : ο → Prop}
    (hkeep : ∀ s e s' out, J s → C s e → M.step s e = some (s', out) → J s')
    (hexact : ∀ s e s' out, J s → M.step s e = some (s', out) →
      (C s e ↔ ∀ o ∈ out, P o))
    {s t : σ} {es : List ε} {outs : List ο} (hJ : J s)
    (hrun : M.run s es = some (t, outs)) :
    M.Along C s es ↔ ∀ o ∈ outs, P o := by
  induction es generalizing s outs with
  | nil =>
    obtain ⟨-, rfl⟩ := Prod.mk.inj (Option.some.inj hrun)
    simp [Along]
  | cons e es ih =>
    obtain ⟨s', out, rest, hs, hrest, rfl⟩ := run_cons_eq_some.mp hrun
    have hhead := hexact s e s' out hJ hs
    constructor
    · rintro ⟨hC, hlater⟩ o ho
      rcases List.mem_append.mp ho with ho | ho
      · exact hhead.mp hC o ho
      · exact (ih (hkeep s e s' out hJ hC hs) hrest).mp (hlater s' out hs) o ho
    · intro hall
      have hC : C s e := hhead.mpr fun o ho => hall o (List.mem_append_left _ ho)
      refine ⟨hC, ?_⟩
      intro s'' out' hs'
      obtain ⟨rfl, rfl⟩ := Prod.mk.inj (Option.some.inj (hs.symm.trans hs'))
      exact (ih (hkeep s e s' out hJ hC hs) hrest).mpr
        fun o ho => hall o (List.mem_append_right _ ho)

/-- If, from states satisfying `J` and `P`, the label condition `C` says exactly
that the step keeps `P`, then a run's labels all meet `C` iff all states it
visits satisfy `P`. -/
theorem along_iff_visits {C : σ → ε → Prop} {J P : σ → Prop}
    (hkeep : ∀ s e s' out, J s → M.step s e = some (s', out) → J s')
    (hexact : ∀ s e s' out, J s → P s → M.step s e = some (s', out) → (C s e ↔ P s'))
    {s t : σ} {es : List ε} {outs : List ο} (hJ : J s) (hP : P s)
    (hrun : M.run s es = some (t, outs)) :
    M.Along C s es ↔ ∀ m, M.Visits s es m → P m := by
  induction es generalizing s outs with
  | nil =>
    refine iff_of_true trivial ?_
    rintro m ⟨pre, post, h, heq, hpre⟩
    obtain ⟨rfl, -⟩ := List.append_eq_nil_iff.mp heq.symm
    obtain ⟨rfl, -⟩ := Prod.mk.inj (Option.some.inj hpre)
    exact hP
  | cons e es ih =>
    obtain ⟨s', out, rest, hs, hrest, -⟩ := run_cons_eq_some.mp hrun
    have hJ' := hkeep s e s' out hJ hs
    have hstep := hexact s e s' out hJ hP hs
    constructor
    · rintro ⟨hC, hlater⟩ m ⟨pre, post, h, heq, hpre⟩
      cases pre with
      | nil =>
        obtain ⟨rfl, -⟩ := Prod.mk.inj (Option.some.inj hpre)
        exact hP
      | cons a pre =>
        obtain ⟨rfl, rfl⟩ := List.cons.inj heq
        obtain ⟨s'', out', outs', hs', hpre', -⟩ := run_cons_eq_some.mp hpre
        obtain ⟨rfl, rfl⟩ := Prod.mk.inj (Option.some.inj (hs.symm.trans hs'))
        exact (ih hJ' (hstep.mp hC) hrest).mp (hlater s' out hs) m ⟨pre, post, outs', rfl, hpre'⟩
    · intro hall
      have hP' : P s' := hall s' ⟨[e], es, out ++ [], rfl,
        run_cons_eq_some.mpr ⟨s', out, [], hs, rfl, rfl⟩⟩
      refine ⟨hstep.mpr hP', ?_⟩
      intro s'' out' hs'
      obtain ⟨rfl, rfl⟩ := Prod.mk.inj (Option.some.inj (hs.symm.trans hs'))
      refine (ih hJ' hP' hrest).mpr ?_
      rintro m ⟨pre, post, h, rfl, hpre⟩
      exact hall m ⟨e :: pre, post, out ++ h, rfl,
        run_cons_eq_some.mpr ⟨s', out, h, hs, hpre, rfl⟩⟩

/-- A state visited after the first step. -/
theorem Visits.cons {s s' m : σ} {e : ε} {es : List ε} {out : List ο}
    (hs : M.step s e = some (s', out)) (h : M.Visits s' es m) : M.Visits s (e :: es) m := by
  obtain ⟨pre, post, h₁, rfl, hpre⟩ := h
  exact ⟨e :: pre, post, out ++ h₁, rfl, run_cons_eq_some.mpr ⟨s', out, h₁, hs, hpre, rfl⟩⟩

/-- **The last change.** If a step changes a value only by entering `P`, then a run that
changes it goes through a state of `P` with the last value. -/
theorem run_last_change {β : Type*} {J P : σ → Prop} {f : σ → β}
    (hkeep : ∀ s e s' out, J s → M.step s e = some (s', out) → J s')
    (hstep : ∀ s e s' out, J s → M.step s e = some (s', out) → f s' = f s ∨ P s')
    {s t : σ} {es : List ε} {outs : List ο} (hJ : J s) (hrun : M.run s es = some (t, outs)) :
    f t = f s ∨ ∃ m, M.Visits s es m ∧ P m ∧ f m = f t := by
  induction es generalizing s outs with
  | nil =>
    obtain ⟨rfl, -⟩ := Prod.mk.inj (Option.some.inj hrun)
    exact .inl rfl
  | cons e es ih =>
    obtain ⟨s', out, rest, hs, hrest, -⟩ := run_cons_eq_some.mp hrun
    rcases ih (hkeep s e s' out hJ hs) hrest with hsame | ⟨m, hvisits, hP, hlast⟩
    · rcases hstep s e s' out hJ hs with hkept | hP
      · exact .inl (hsame.trans hkept)
      · exact .inr ⟨s', .cons hs ⟨[], es, [], rfl, rfl⟩, hP, hsame.symm⟩
    · exact .inr ⟨m, hvisits.cons hs, hP, hlast⟩

/-- **Simulation rule.** If related states take the same label with the same
outputs to related states, they have the same runs. -/
theorem run_simulation {R : σ → σ → Prop}
    (hstep : ∀ s s' e t out, R s s' → M.step s e = some (t, out) →
      ∃ t', M.step s' e = some (t', out) ∧ R t t')
    {s s' t : σ} {es : List ε} {outs : List ο} (hR : R s s')
    (hrun : M.run s es = some (t, outs)) : ∃ t', M.run s' es = some (t', outs) ∧ R t t' := by
  induction es generalizing s s' outs with
  | nil =>
    obtain ⟨rfl, rfl⟩ := Prod.mk.inj (Option.some.inj hrun)
    exact ⟨s', rfl, hR⟩
  | cons e es ih =>
    obtain ⟨m, out, rest, hs, hrest, rfl⟩ := run_cons_eq_some.mp hrun
    obtain ⟨m', hs', hR'⟩ := hstep s s' e m out hR hs
    obtain ⟨t', hrest', ht⟩ := ih hR' hrest
    exact ⟨t', run_cons_eq_some.mpr ⟨m', out, rest, hs', hrest', rfl⟩, ht⟩

/-! ## From one machine to another -/

section Refinement

variable {σ' ε' ο' : Type*} {N : Machine σ' ε' ο'}

/-- **Forward simulation rule.** If every step of `M` is matched by a run of `N`
with the same labels of a kind (`k`, `k'`), where `R` relates states and outputs so
far, then so is every run of `M`. -/
theorem run_forward {κ : Type*} {k : ε → Option κ} {k' : ε' → Option κ}
    {R : σ → List ο → σ' → List ο' → Prop}
    (hstep : ∀ s h a g e t out, R s h a g → M.step s e = some (t, out) →
      ∃ es' b out', N.run a es' = some (b, out') ∧ es'.filterMap k' = (k e).toList ∧
        R t (h ++ out) b (g ++ out'))
    {s t : σ} {a : σ'} {es : List ε} {h outs : List ο} {g : List ο'} (hR : R s h a g)
    (hrun : M.run s es = some (t, outs)) :
    ∃ es' b outs', N.run a es' = some (b, outs') ∧ es'.filterMap k' = es.filterMap k ∧
      R t (h ++ outs) b (g ++ outs') := by
  induction es generalizing s a h g outs with
  | nil =>
    obtain ⟨rfl, rfl⟩ := Prod.mk.inj (Option.some.inj hrun)
    refine ⟨[], a, [], rfl, rfl, ?_⟩
    simpa using hR
  | cons e es ih =>
    obtain ⟨m, out, rest, hs, hrest, rfl⟩ := run_cons_eq_some.mp hrun
    obtain ⟨es₁, b, out', hrun₁, hlabels₁, hR₁⟩ := hstep s h a g e m out hR hs
    obtain ⟨es₂, c, outs', hrun₂, hlabels₂, hR₂⟩ := ih hR₁ hrest
    refine ⟨es₁ ++ es₂, c, out' ++ outs', run_append.mpr ⟨b, out', outs', hrun₁, hrun₂, rfl⟩,
      ?_, ?_⟩
    · rw [List.filterMap_append, hlabels₁, hlabels₂, List.filterMap_cons]
      cases k e <;> rfl
    · rw [← List.append_assoc, ← List.append_assoc]
      exact hR₂

/-- **Refinement rule.** If every step of `M` whose label meets `C` is a step of
`N` or none, as `f` sees the states and `g` the outputs, then every run of `M`
with such labels is a run of `N`. -/
theorem run_refines {C : ε → Prop} {f : σ → σ'} {g : ο → Option ο'}
    (hstep : ∀ s e t out, C e → M.step s e = some (t, out) →
      (out.filterMap g = [] ∧ f t = f s) ∨
        ∃ e', N.step (f s) e' = some (f t, out.filterMap g))
    {s t : σ} {es : List ε} {outs : List ο} (hC : ∀ e ∈ es, C e)
    (hrun : M.run s es = some (t, outs)) :
    ∃ es', N.run (f s) es' = some (f t, outs.filterMap g) := by
  induction es generalizing s outs with
  | nil =>
    obtain ⟨rfl, rfl⟩ := Prod.mk.inj (Option.some.inj hrun)
    exact ⟨[], rfl⟩
  | cons e es ih =>
    obtain ⟨he, hes⟩ := List.forall_mem_cons.mp hC
    obtain ⟨s', out, rest, hs, hrest, rfl⟩ := run_cons_eq_some.mp hrun
    obtain ⟨es', hes'⟩ := ih hes hrest
    rw [List.filterMap_append]
    rcases hstep s e s' out he hs with ⟨hnone, hsame⟩ | ⟨e', he'⟩
    · rw [hnone, List.nil_append, ← hsame]
      exact ⟨es', hes'⟩
    · exact ⟨e' :: es', run_cons_eq_some.mpr ⟨_, _, _, he', hes', rfl⟩⟩

end Refinement

/-! ## The last output of a kind -/

section Last

variable {β : Type*} {f : ο → Option β} {h out : List ο}

/-- What `f` reads of the last output it reads. -/
def last (f : ο → Option β) (h : List ο) : Option β := (h.filterMap f).getLast?

theorem last_append : last f (h ++ out) = (last f out).or (last f h) := by
  rw [last, List.filterMap_append, List.getLast?_append]
  rfl

/-- Outputs that `f` does not read leave the last. -/
theorem last_append_of_none (hout : ∀ o ∈ out, f o = none) : last f (h ++ out) = last f h := by
  rw [last_append, last, List.filterMap_eq_nil_iff.mpr hout]
  rfl

theorem mem_of_last {b : β} (hlast : last f h = some b) : ∃ o ∈ h, f o = some b :=
  List.mem_filterMap.mp (List.mem_of_getLast? hlast)

end Last

/-! ## Outputs explained by earlier outputs -/

/-- Every output is explained (`P`) by the outputs strictly before it. -/
def Justified (P : List ο → ο → Prop) (h : List ο) : Prop :=
  ∀ pre x post, h = pre ++ x :: post → P pre x

theorem justified_nil (P : List ο → ο → Prop) : Justified P [] := by
  intro pre x post h
  simp at h

/-- Extending a justified history by outputs that are already explained by it.
`P` may only be easier to satisfy with a longer history. -/
theorem Justified.append {P : List ο → ο → Prop} {h out : List ο}
    (hmono : ∀ h h' x, P h x → P (h ++ h') x) (hh : Justified P h)
    (hout : ∀ x ∈ out, P h x) : Justified P (h ++ out) := by
  intro pre x post heq
  rcases List.append_eq_append_iff.mp heq with ⟨as, hpre, hout'⟩ | ⟨bs, hh', hrest⟩
  · rw [hpre]
    exact hmono h as x (hout x (by rw [hout']; simp))
  · cases bs with
    | nil =>
      rw [List.append_nil] at hh'
      rw [← hh']
      exact hout x (by rw [← List.nil_append out, ← hrest]; simp)
    | cons b bs =>
      obtain ⟨rfl, -⟩ := List.cons.inj hrest
      exact hh pre x bs hh'

/-- One more output, explained by those before it; `P` is anything. -/
theorem Justified.concat {P : List ο → ο → Prop} {h : List ο} {x : ο} (hh : Justified P h)
    (hx : P h x) : Justified P (h ++ [x]) := by
  intro pre y post heq
  rcases List.eq_nil_or_concat post with rfl | ⟨post, z, rfl⟩
  · obtain ⟨rfl, hxy⟩ := List.append_inj' heq rfl
    obtain rfl := List.singleton_inj.mp hxy
    exact hx
  · rw [List.concat_eq_append, ← List.cons_append, ← List.append_assoc] at heq
    exact hh pre y post (List.append_inj' heq rfl).1

end Machine
