import Denis.Api.PatchConfig

/-!
# The persisted configuration (`api/mod.rs`, `config.rs`)

A `patch_config` writes the database first and memory last, and nothing keeps
two requests from doing so in different orders. Once all have returned the run
has ended with a store (`ends_with_store`), so memory is what that request
merged, and the row is what was persisted last. They agree iff that is the same
(`agree_iff_last_own`). Where they do not, `load_or_init` after a restart brings
back another configuration (`stale_configuration_persisted`).
-/

namespace Denis

namespace Settings

variable (json : ConfigJson)

/-- The row holds the configuration in memory, and a restart loads it. -/
def Durable (s : Settings) : Prop :=
  s.row = some (json.toString s.memory) ∧
    ∀ defaults, (loadOrInit json s.row defaults).1 = s.memory

/-- A request that stores finds its own configuration in the row: it is the last
that persisted, or the last wrote the same. -/
def Own (s : Settings) : PatchStep → Prop
  | .store i => ∀ r ∈ s.pending[i]?, s.row = some (json.toString r.merged)
  | _ => True

variable {json}

/-- What was written is loaded. -/
theorem durable_iff {s : Settings} :
    s.Durable json ↔ s.row = some (json.toString s.memory) := by
  constructor
  · exact And.left
  · intro hrow
    refine ⟨hrow, ?_⟩
    intro defaults
    have hload : s.row.bind json.fromStr = some s.memory := by
      rw [hrow]
      exact json.fromStr_toString s.memory
    rw [loadOrInit, hload]

/-- A step after which no request is under way is a store. -/
theorem ends_with_store {s s' : Settings} {e : PatchStep} {out : List RuntimeConfigPatch}
    (hstep : step json s e = some (s', out)) (hreturned : s'.pending = []) :
    ∃ i r, e = .store i ∧ s.pending[i]? = some r ∧ s'.memory = r.merged ∧ s'.row = s.row := by
  rcases step_cases hstep with ⟨patch, -, -, rfl⟩ | ⟨i, r, -, hr, -, rfl⟩ |
      ⟨i, r, rfl, hr, -, rfl⟩
  · exact absurd hreturned (List.append_ne_nil_of_right_ne_nil _ (by simp))
  · -- the request that persisted is still under way
    have hnone : s.pending = [] := by
      rwa [← List.length_eq_zero_iff, List.length_set, List.length_eq_zero_iff] at hreturned
    rw [hnone] at hr
    cases hr
  · exact ⟨i, r, rfl, hr, rfl, rfl⟩

/-- **When the running configuration is the persisted one.** Over any run of
requests from a configuration that is persisted, once all have returned, the row
holds the configuration in memory (so a restart loads it) iff the last store
found its own configuration in the row. -/
theorem agree_iff_last_own {config : RuntimeConfig} {es : List PatchStep} {t : Settings}
    {stored : List RuntimeConfigPatch}
    (hrun : (machine json).run ⟨config, some (json.toString config), []⟩ es = some (t, stored))
    (hreturned : t.pending = []) :
    t.Durable json ↔
      ∀ before e m h, es = before ++ [e] →
        (machine json).run ⟨config, some (json.toString config), []⟩ before = some (m, h) →
          m.Own json e := by
  rw [durable_iff]
  rcases List.eq_nil_or_concat es with rfl | ⟨before, e, rfl⟩
  · obtain ⟨rfl, -⟩ := Prod.mk.inj (Option.some.inj hrun)
    simp
  · rw [List.concat_eq_append] at hrun ⊢
    obtain ⟨m, h, h', hbefore, hlast, -⟩ := Machine.run_append.mp hrun
    obtain ⟨t', out, rest, hstep, hend, -⟩ := Machine.run_cons_eq_some.mp hlast
    obtain ⟨rfl, -⟩ := Prod.mk.inj (Option.some.inj hend)
    obtain ⟨i, r, rfl, hr, hmemory, hrow⟩ := ends_with_store hstep hreturned
    rw [hmemory, hrow]
    constructor
    · intro hown before' e' m' h₂ heq hbefore'
      obtain ⟨rfl, he⟩ := List.append_inj' heq rfl
      obtain rfl := List.singleton_inj.mp he
      obtain ⟨rfl, -⟩ := Prod.mk.inj (Option.some.inj (hbefore.symm.trans hbefore'))
      intro r' hr'
      obtain rfl := Option.some.inj (hr.symm.trans hr')
      exact hown
    · intro hown
      exact hown before _ m h rfl hbefore r hr

/-- The default configuration, persisted. -/
noncomputable def defaults : Settings :=
  ⟨Sample.config, some (Sample.json.toString Sample.config), []⟩

/-- Two overlapping requests that store in the order they persist. -/
theorem requests_in_order_agree :
    ∃ t stored, (machine Sample.json).run defaults [.load Sample.negPatch, .load Sample.minPatch,
        .persist 0, .persist 1, .store 0, .store 0] = some (t, stored) ∧
      t.Durable Sample.json := by
  have hrun : (machine Sample.json).run defaults [.load Sample.negPatch, .load Sample.minPatch,
      .persist 0, .persist 1, .store 0, .store 0] =
    some (⟨Sample.minPatch.applyTo Sample.config,
      some (Sample.json.toString (Sample.minPatch.applyTo Sample.config)), []⟩,
      [Sample.negPatch, Sample.minPatch]) := rfl
  refine ⟨_, _, hrun, (agree_iff_last_own hrun rfl).mpr ?_⟩
  intro before e m h heq hbefore
  obtain ⟨rfl, he⟩ := List.append_inj' (show [PatchStep.load Sample.negPatch,
    .load Sample.minPatch, .persist 0, .persist 1, .store 0] ++ [.store 0] = _ from heq) rfl
  obtain rfl := List.singleton_inj.mp he
  have hown : (machine Sample.json).run defaults [.load Sample.negPatch, .load Sample.minPatch,
      .persist 0, .persist 1, .store 0] =
    some (⟨Sample.negPatch.applyTo Sample.config,
      some (Sample.json.toString (Sample.minPatch.applyTo Sample.config)),
      [⟨Sample.minPatch, Sample.config, true⟩]⟩, [Sample.negPatch]) := rfl
  obtain ⟨rfl, -⟩ := Prod.mk.inj (Option.some.inj (hown.symm.trans hbefore))
  intro r hr
  obtain rfl := Option.some.inj hr
  rfl

/-- **A stale configuration is persisted**: the first request to persist is the
last to store, and a restart undoes its change. -/
theorem stale_configuration_persisted : ∃ es t stored,
    (machine Sample.json).run defaults es = some (t, stored) ∧ t.pending = [] ∧
      ¬ t.Durable Sample.json := by
  have hrun : (machine Sample.json).run defaults [.load Sample.negPatch, .load Sample.minPatch,
      .persist 0, .persist 1, .store 1, .store 0] =
    some (⟨Sample.negPatch.applyTo Sample.config,
      some (Sample.json.toString (Sample.minPatch.applyTo Sample.config)), []⟩,
      [Sample.minPatch, Sample.negPatch]) := rfl
  refine ⟨_, _, _, hrun, rfl, ?_⟩
  intro hdurable
  have hsame := Sample.json.toString_injective (Option.some.inj hdurable.1)
  exact absurd hsame (by decide)

end Settings

end Denis
