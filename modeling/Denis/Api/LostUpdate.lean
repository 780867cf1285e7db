import Denis.Api.PatchConfig
import Mathlib.Data.List.Permutation

/-!
# Concurrent configuration updates (`api/mod.rs`)

`patch_config` reads the configuration, waits for the database and then writes
the whole of it, with no lock (the lists of `repo/cache.rs` change under
`write_lock`). A request that stores over one that stored since it loaded
writes back the old value of every field its patch leaves unset
(`disjoint_patch_lost`).

Where no request does, the stores are the serial order: memory is the initial
configuration with the stored patches applied in the order of their stores
(`memory_eq_foldl`), and every patch is stored once (`stored_perm`).
-/

namespace Denis

namespace Settings

variable {json : ConfigJson}

/-- A request that stores finds in memory, in every field its patch leaves
unset, what it loaded. -/
def Unchanged (s : Settings) : PatchStep → Prop
  | .store i => ∀ r ∈ s.pending[i]?, r.patch.SameUnset s.memory r.base
  | _ => True

instance (s : Settings) : ∀ e, Decidable (Unchanged s e)
  | .store i =>
    decidable_of_iff
      (∀ r ∈ s.pending[i]?, r.patch.applyTo s.memory = r.patch.applyTo r.base)
      (forall₂_congr fun _ _ => RuntimeConfigPatch.applyTo_eq_iff)
  | .load _ => .isTrue trivial
  | .persist _ => .isTrue trivial

/-- Patches applied one after another. -/
def serial (config : RuntimeConfig) (patches : List RuntimeConfigPatch) : RuntimeConfig :=
  patches.foldl (fun config patch => patch.applyTo config) config

/-- A patch applied last. -/
theorem serial_append (config : RuntimeConfig) (patches : List RuntimeConfigPatch)
    (patch : RuntimeConfigPatch) :
    serial config (patches ++ [patch]) = patch.applyTo (serial config patches) :=
  List.foldl_append ..

/-- **Memory is the serial result of the patches stored**, if every store finds
its unset fields unchanged. -/
theorem memory_eq_serial {s t : Settings} {es : List PatchStep} {stored : List RuntimeConfigPatch}
    (hunchanged : (machine json).Along Unchanged s es)
    (hrun : (machine json).run s es = some (t, stored)) : t.memory = serial s.memory stored := by
  refine Machine.run_history (M := machine json) (C := Unchanged)
    (J := fun stored m => m.memory = serial s.memory stored) ?_ (h := []) rfl hunchanged hrun
  intro stored m e m' out hmemory hC hstep
  rcases step_cases hstep with ⟨patch, -, rfl, rfl⟩ | ⟨i, r, -, -, rfl, rfl⟩ |
      ⟨i, r, rfl, hr, rfl, rfl⟩
  · rwa [List.append_nil]
  · rwa [List.append_nil]
  · -- merged into what was loaded is merged into what is there
    have hsame : r.patch.applyTo m.memory = r.merged :=
      RuntimeConfigPatch.applyTo_eq_iff.mpr (hC r hr)
    show r.merged = _
    rw [serial_append, ← hmemory, hsame]

/-- The patches under way. -/
def pendingPatches (s : Settings) : List RuntimeConfigPatch := s.pending.map PatchRequest.patch

/-- **Every patch is stored once**: those stored and those under way are those
under way before and those requested. -/
theorem stored_perm {s t : Settings} {es : List PatchStep} {stored : List RuntimeConfigPatch}
    (hrun : (machine json).run s es = some (t, stored)) :
    (stored ++ t.pendingPatches).Perm (s.pendingPatches ++ requested es) := by
  induction es generalizing s stored with
  | nil =>
    obtain ⟨rfl, rfl⟩ := Prod.mk.inj (Option.some.inj hrun)
    simp [requested]
  | cons e es ih =>
    obtain ⟨s', out, rest, hstep, hrest, rfl⟩ := Machine.run_cons_eq_some.mp hrun
    have hrest := ih hrest
    rw [List.append_assoc]
    rcases step_cases hstep with ⟨patch, rfl, rfl, rfl⟩ | ⟨i, r, rfl, hr, rfl, rfl⟩ |
        ⟨i, r, rfl, hr, rfl, rfl⟩
    · refine hrest.trans (.of_eq ?_)
      simp [pendingPatches, requested]
    · -- persisting changes no patch
      refine hrest.trans (.of_eq ?_)
      obtain ⟨hi, rfl⟩ := List.getElem?_eq_some_iff.mp hr
      have hset : (s.pending.set i { s.pending[i] with persisted := true }).map
          PatchRequest.patch = s.pending.map PatchRequest.patch := by
        have hi' : i < (s.pending.map PatchRequest.patch).length := by simpa using hi
        rw [List.map_set]
        show (s.pending.map PatchRequest.patch).set i s.pending[i].patch = _
        rw [← List.getElem_map PatchRequest.patch (h := hi'), List.set_getElem_self]
      simp [pendingPatches, requested, hset]
    · obtain ⟨hi, rfl⟩ := List.getElem?_eq_some_iff.mp hr
      refine (hrest.cons _).trans ?_
      -- the request stored leaves the pending ones
      have htaken := (List.getElem_cons_eraseIdx_perm hi).map PatchRequest.patch
      exact htaken.append_right _

/-- **No update is lost** in a run in which every request that stores finds in
memory what it loaded, in the fields its patch leaves unset: once all requests
have returned, the configuration in memory is the initial one with all the
patches applied one after another in some order. -/
theorem patches_take_effect {config : RuntimeConfig} {row : Option Text.Str}
    {es : List PatchStep} {t : Settings} {stored : List RuntimeConfigPatch}
    (hrun : (machine json).run ⟨config, row, []⟩ es = some (t, stored))
    (hreturned : t.pending = [])
    (hunchanged : (machine json).Along Unchanged ⟨config, row, []⟩ es) :
    ∃ order, order.Perm (requested es) ∧ t.memory = serial config order := by
  refine ⟨stored, ?_, memory_eq_serial hunchanged hrun⟩
  have hperm := stored_perm hrun
  rwa [pendingPatches, hreturned, List.map_nil, List.append_nil] at hperm

/-- Two overlapping requests of the same field. -/
theorem same_field_patches_take_effect :
    ∃ t stored, (machine Sample.json).run ⟨Sample.config, none, []⟩
        [.load Sample.negPatch, .load { negTtl := some 30 }, .persist 0, .persist 1, .store 1,
          .store 0] = some (t, stored) ∧
      ∃ order, order.Perm [Sample.negPatch, { negTtl := some 30 }] ∧
        t.memory = serial Sample.config order := by
  obtain ⟨⟨t, stored⟩, hrun, hend⟩ := Option.map_eq_some_iff.mp
    (show ((machine Sample.json).run ⟨Sample.config, none, []⟩
        [.load Sample.negPatch, .load { negTtl := some 30 }, .persist 0, .persist 1, .store 1,
          .store 0]).map (fun p => p.1.pending) = some [] by decide +kernel)
  exact ⟨t, stored, hrun, patches_take_effect hrun hend (by decide +kernel)⟩

/-- **A patch of another field is lost**: both requests load, both persist, both
store; no order of the two patches gives what is in memory. -/
theorem disjoint_patch_lost : ∃ es t stored,
    (machine Sample.json).run ⟨Sample.config, none, []⟩ es = some (t, stored) ∧ t.pending = [] ∧
      ¬ ∃ order, order.Perm (requested es) ∧ t.memory = serial Sample.config order := by
  obtain ⟨⟨t, stored⟩, hrun, hend⟩ := Option.map_eq_some_iff.mp
    (show ((machine Sample.json).run ⟨Sample.config, none, []⟩
        [.load Sample.negPatch, .load Sample.minPatch, .persist 0, .persist 1, .store 0,
          .store 0]).map (fun p => (p.1.pending, p.1.memory)) =
      some ([], { Sample.config with cacheMinTtl := 3 }) by decide +kernel)
  obtain ⟨hpending, hmemory⟩ := Prod.mk.inj hend
  refine ⟨_, t, stored, hrun, hpending, ?_⟩
  rintro ⟨order, hperm, heq⟩
  -- the negative TTL is 120 whichever patch comes last
  have hall : ∀ order ∈ [Sample.negPatch, Sample.minPatch].permutations',
      (serial Sample.config order).negTtl = 120 := by decide +kernel
  have hlost := hall order (List.mem_permutations'.mpr hperm)
  rw [← heq, hmemory] at hlost
  exact absurd hlost (by decide)

end Settings

end Denis
