import Denis.Handler.Query
import Denis.Lib.Machine
import Mathlib.Logic.Equiv.List

/-!
# Changing the configuration (`config.rs`, `api/mod.rs`)

`patch_config` loads the configuration, merges the patch, writes the result to
row 1 of table `settings` and then stores it in memory. Nothing is held across
these steps, so requests interleave between them: `Settings.step` is one step of
one request, on a database that refuses nothing.

The text of the row is JSON written and read by serde, a parameter here
(`ConfigJson`): what it reads is what it wrote. Nothing else about the text
matters.

`step_cases` lists what a step can do. `applyTo_eq_iff` says when a patch gives
the same result over two configurations: when they agree where it says nothing.
-/

namespace Denis

open Text

/-- `serde_json::to_string` and `from_str` on `RuntimeConfig`. -/
structure ConfigJson where
  toString : RuntimeConfig → Str
  fromStr : Str → Option RuntimeConfig
  fromStr_toString : ∀ config, fromStr (toString config) = some config

/-- Distinct configurations have distinct texts. -/
theorem ConfigJson.toString_injective (json : ConfigJson) : Function.Injective json.toString := by
  intro config config' h
  have hread := json.fromStr_toString config
  rw [h, json.fromStr_toString] at hread
  exact (Option.some.inj hread).symm

/-- `RuntimeConfigPatch` (`config.rs:76–84`). -/
structure RuntimeConfigPatch where
  upstreams : Option (List SocketAddr) := none
  upstreamTimeoutMs : Option UInt64 := none
  blockingMode : Option BlockingMode := none
  cacheMinTtl : Option UInt32 := none
  cacheMaxTtl : Option UInt32 := none
  negTtl : Option UInt32 := none
  deriving DecidableEq

namespace RuntimeConfigPatch

/-- `RuntimeConfigPatch::apply_to` (`config.rs:87–96`). -/
def applyTo (patch : RuntimeConfigPatch) (base : RuntimeConfig) : RuntimeConfig where
  upstreams := patch.upstreams.getD base.upstreams
  upstreamTimeoutMs := patch.upstreamTimeoutMs.getD base.upstreamTimeoutMs
  blockingMode := patch.blockingMode.getD base.blockingMode
  cacheMinTtl := patch.cacheMinTtl.getD base.cacheMinTtl
  cacheMaxTtl := patch.cacheMaxTtl.getD base.cacheMaxTtl
  negTtl := patch.negTtl.getD base.negTtl

/-- Two configurations agree on the fields the patch leaves unset. -/
structure SameUnset (patch : RuntimeConfigPatch) (config config' : RuntimeConfig) : Prop where
  upstreams : patch.upstreams = none → config.upstreams = config'.upstreams
  upstreamTimeoutMs :
    patch.upstreamTimeoutMs = none → config.upstreamTimeoutMs = config'.upstreamTimeoutMs
  blockingMode : patch.blockingMode = none → config.blockingMode = config'.blockingMode
  cacheMinTtl : patch.cacheMinTtl = none → config.cacheMinTtl = config'.cacheMinTtl
  cacheMaxTtl : patch.cacheMaxTtl = none → config.cacheMaxTtl = config'.cacheMaxTtl
  negTtl : patch.negTtl = none → config.negTtl = config'.negTtl

/-- One field: a default shows iff the field is unset. -/
theorem getD_eq_iff {α : Type} {field : Option α} {x y : α} :
    field.getD x = field.getD y ↔ (field = none → x = y) := by
  cases field <;> simp

/-- **When a patch gives the same over two configurations.** -/
theorem applyTo_eq_iff {patch : RuntimeConfigPatch} {config config' : RuntimeConfig} :
    patch.applyTo config = patch.applyTo config' ↔ patch.SameUnset config config' := by
  constructor
  · intro h
    obtain ⟨h₁, h₂, h₃, h₄, h₅, h₆⟩ := RuntimeConfig.mk.inj h
    exact ⟨getD_eq_iff.mp h₁, getD_eq_iff.mp h₂, getD_eq_iff.mp h₃, getD_eq_iff.mp h₄,
      getD_eq_iff.mp h₅, getD_eq_iff.mp h₆⟩
  · rintro ⟨h₁, h₂, h₃, h₄, h₅, h₆⟩
    exact RuntimeConfig.mk.injEq .. ▸ ⟨getD_eq_iff.mpr h₁, getD_eq_iff.mpr h₂,
      getD_eq_iff.mpr h₃, getD_eq_iff.mpr h₄, getD_eq_iff.mpr h₅, getD_eq_iff.mpr h₆⟩

end RuntimeConfigPatch

/-- `load_or_init` (`config.rs:111–135`) on the text of row 1, if there is one:
the configuration in force and the row it leaves. -/
def loadOrInit (json : ConfigJson) (row : Option Str) (defaults : RuntimeConfig) :
    RuntimeConfig × Option Str :=
  match row.bind json.fromStr with
  | some config => (config, row)
  | none => (defaults, some (json.toString defaults))

/-- A `patch_config` between its load and its store: the patch, the
configuration it was merged into, and whether the result is in the database. -/
structure PatchRequest where
  patch : RuntimeConfigPatch
  base : RuntimeConfig
  persisted : Bool
  deriving DecidableEq

/-- `merged` (`api/mod.rs:216`). -/
def PatchRequest.merged (r : PatchRequest) : RuntimeConfig := r.patch.applyTo r.base

/-- The configuration in memory, the text of row 1 of `settings` and the
requests under way. -/
structure Settings where
  memory : RuntimeConfig
  row : Option Str
  pending : List PatchRequest

/-- The steps of the requests. -/
inductive PatchStep
  | load (patch : RuntimeConfigPatch)
  | persist (i : Nat)
  | store (i : Nat)
  deriving DecidableEq

namespace Settings

variable (json : ConfigJson)

/-- One step of `patch_config` (`api/mod.rs:212–224`); `persist` is one upsert
(`config.rs:137–146`). -/
def step (s : Settings) : PatchStep → Option (Settings × List RuntimeConfigPatch)
  | .load patch => some ({ s with pending := s.pending ++ [⟨patch, s.memory, false⟩] }, [])
  | .persist i =>
    match s.pending[i]? with
    | none => none
    | some r =>
      if r.persisted then none
      else
        some ({ s with
          row := some (json.toString r.merged)
          pending := s.pending.set i { r with persisted := true } }, [])
  | .store i =>
    match s.pending[i]? with
    | none => none
    | some r =>
      if r.persisted then
        some ({ s with memory := r.merged, pending := s.pending.eraseIdx i }, [r.patch])
      else none

/-- Concurrent `PATCH /config` requests as a machine; its outputs are the
patches stored, in order. -/
abbrev machine : Machine Settings PatchStep RuntimeConfigPatch := ⟨step json⟩

/-- The patches requested in a run. -/
def requested (es : List PatchStep) : List RuntimeConfigPatch :=
  es.filterMap fun
    | .load patch => some patch
    | _ => none

variable {json}

/-- **What a step can do**: add a request over the present memory, write a
request's configuration to the row, or store a persisted one in memory. -/
theorem step_cases {s s' : Settings} {e : PatchStep} {out : List RuntimeConfigPatch}
    (h : step json s e = some (s', out)) :
    (∃ patch, e = .load patch ∧ out = [] ∧
      s' = { s with pending := s.pending ++ [⟨patch, s.memory, false⟩] }) ∨
    (∃ i r, e = .persist i ∧ s.pending[i]? = some r ∧ out = [] ∧
      s' = { s with
        row := some (json.toString r.merged)
        pending := s.pending.set i { r with persisted := true } }) ∨
    (∃ i r, e = .store i ∧ s.pending[i]? = some r ∧ out = [r.patch] ∧
      s' = { s with memory := r.merged, pending := s.pending.eraseIdx i }) := by
  cases e with
  | load patch =>
    obtain ⟨rfl, rfl⟩ := Prod.mk.inj (Option.some.inj h)
    exact .inl ⟨patch, rfl, rfl, rfl⟩
  | persist i =>
    rw [step] at h
    split at h
    · cases h
    · next r hr =>
      split at h
      · cases h
      · obtain ⟨rfl, rfl⟩ := Prod.mk.inj (Option.some.inj h)
        exact .inr (.inl ⟨i, r, rfl, hr, rfl, rfl⟩)
  | store i =>
    rw [step] at h
    split at h
    · cases h
    · next r hr =>
      split at h
      · obtain ⟨rfl, rfl⟩ := Prod.mk.inj (Option.some.inj h)
        exact .inr (.inr ⟨i, r, rfl, hr, rfl, rfl⟩)
      · cases h

end Settings

/-! ## Concrete requests

Two patches of disjoint fields, and serde on what they make of the default
configuration, for the runs that witness results. -/

namespace Sample

/-- A patch of one field. -/
def negPatch : RuntimeConfigPatch := { negTtl := some 120 }

/-- A patch of another. -/
def minPatch : RuntimeConfigPatch := { cacheMinTtl := some 3 }

/-- The octets of an address and its port, as numbers. -/
def addrCode (addr : SocketAddr) : List Nat × Nat :=
  ((UpstreamResponse.zeroIpRecord addr.ip).2.map UInt8.toNat, addr.port.toNat)

/-- A configuration as lists of numbers. -/
def configCode (c : RuntimeConfig) : List (List Nat × Nat) × List Nat :=
  (c.upstreams.map addrCode,
    [c.upstreamTimeoutMs.toNat, if c.blockingMode = .nxDomain then 0
      else if c.blockingMode = .refused then 1 else 2, c.cacheMinTtl.toNat, c.cacheMaxTtl.toNat,
      c.negTtl.toNat])

theorem addrCode_injective : Function.Injective addrCode := by
  rintro ⟨ip, port⟩ ⟨ip', port'⟩ h
  obtain ⟨hoctets, hport⟩ := Prod.mk.inj h
  have hoctets := List.map_injective_iff.mpr (fun _ _ => UInt8.toNat_inj.mp) hoctets
  obtain rfl : port = port' := UInt16.toNat_inj.mp hport
  have hlen := congrArg List.length hoctets
  cases ip with
  | v4 octets =>
    cases ip' with
    | v4 octets' => rw [Vector.toList_inj.mp hoctets]
    | v6 octets' => simp [UpstreamResponse.zeroIpRecord] at hlen
  | v6 octets =>
    cases ip' with
    | v4 octets' => simp [UpstreamResponse.zeroIpRecord] at hlen
    | v6 octets' => rw [Vector.toList_inj.mp hoctets]

theorem configCode_injective : Function.Injective configCode := by
  rintro ⟨ups, _, mode, _, _, _⟩ ⟨ups', _, mode', _, _, _⟩ h
  obtain ⟨hups, hrest⟩ := Prod.mk.inj h
  simp only [List.cons.injEq, and_true, UInt64.toNat_inj, UInt32.toNat_inj] at hrest
  obtain ⟨rfl, hmode, rfl, rfl, rfl⟩ := hrest
  obtain rfl : ups = ups' := List.map_injective_iff.mpr addrCode_injective hups
  obtain rfl : mode = mode' := by cases mode <;> cases mode' <;> simp_all
  rfl

/-- The text serde writes for the default configuration with two of its fields
changed. -/
def configText (minTtl negTtl : Str) : Str :=
  "\x7b\"upstreams\":[\"9.9.9.9:53\"],\"upstream_timeout_ms\":5000,".toList ++
    "\"blocking_mode\":\"nx_domain\",\"cache_min_ttl\":".toList ++ minTtl ++
    ",\"cache_max_ttl\":86400,\"neg_ttl\":".toList ++ negTtl ++ ['\x7d']

/-- Serde's text for three configurations, a number for the others. -/
def configJson (c : RuntimeConfig) : Str :=
  if c = config then configText ['0'] ['6', '0']
  else if c = { config with negTtl := 120 } then configText ['0'] ['1', '2', '0']
  else if c = { config with cacheMinTtl := 3 } then configText ['3'] ['6', '0']
  else List.replicate (Encodable.encode (configCode c)) '1'

theorem configText_injective {lo lo' neg neg' : Str}
    (h : configText lo neg = configText lo' neg') (hlen : lo.length = lo'.length) :
    lo = lo' ∧ neg = neg' := by
  unfold configText at h
  generalize "\x7b\"upstreams\":[\"9.9.9.9:53\"],\"upstream_timeout_ms\":5000,".toList ++
    "\"blocking_mode\":\"nx_domain\",\"cache_min_ttl\":".toList = before at h
  generalize ",\"cache_max_ttl\":86400,\"neg_ttl\":".toList = between at h
  simp only [List.append_assoc, List.append_cancel_left_eq] at h
  obtain ⟨hlo, hrest⟩ := List.append_inj h hlen
  exact ⟨hlo, List.append_cancel_right (List.append_cancel_left hrest)⟩

theorem configJson_injective : Function.Injective configJson := by
  have h₁ : configText ['0'] ['6', '0'] ≠ configText ['0'] ['1', '2', '0'] := by
    intro h
    have hneg : ['6', '0'] = ['1', '2', '0'] := (configText_injective h rfl).2
    exact absurd hneg (by decide)
  have h₂ : configText ['0'] ['6', '0'] ≠ configText ['3'] ['6', '0'] := by
    intro h
    have hlo : ['0'] = ['3'] := (configText_injective h rfl).1
    exact absurd hlo (by decide)
  have h₃ : configText ['0'] ['1', '2', '0'] ≠ configText ['3'] ['6', '0'] := by
    intro h
    have hlo : ['0'] = ['3'] := (configText_injective h rfl).1
    exact absurd hlo (by decide)
  have hother : ∀ lo neg n, List.replicate n '1' ≠ configText lo neg := by
    intro lo neg n h
    have hmem : '\x7d' ∈ configText lo neg :=
      List.mem_append_right _ (List.mem_singleton_self _)
    rw [← h] at hmem
    exact absurd (List.eq_of_mem_replicate hmem) (by decide)
  have hother₁ := hother ['0'] ['6', '0']
  have hother₂ := hother ['0'] ['1', '2', '0']
  have hother₃ := hother ['3'] ['6', '0']
  clear hother
  intro c c' h
  unfold configJson at h
  -- what the texts are no longer matters
  generalize configText ['0'] ['6', '0'] = t₁ at *
  generalize configText ['0'] ['1', '2', '0'] = t₂ at *
  generalize configText ['3'] ['6', '0'] = t₃ at *
  have hcode : ∀ n m, List.replicate n '1' = List.replicate m '1' → n = m := by
    intro n m hnm
    simpa using congrArg List.length hnm
  split_ifs at h <;> grind [Encodable.encode_injective, configCode_injective]

open Classical in
/-- Serde on these three. -/
noncomputable def json : ConfigJson where
  toString := configJson
  fromStr text := if h : ∃ c, configJson c = text then some h.choose else none
  fromStr_toString c := by
    have h : ∃ c', configJson c' = configJson c := ⟨c, rfl⟩
    rw [dif_pos h, configJson_injective h.choose_spec]
end Sample

end Denis
