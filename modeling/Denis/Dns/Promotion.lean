import Denis.Dns.Replayed

/-!
# Copies from Redis

A value found in Redis is stored in L1 again with the TTL that `cache_ttl` reads out
of its bytes, whatever part of it has passed in Redis. So the copy expires no later
than the value just if the time of the copy and the TTL read again come to no more
than when the value expires (`copies_expire_iff`); under a configuration that stays,
only in the instant of the `SETEX` (`copied_in_time_iff`). Otherwise the answer is
served beyond its time (`copy_outlives_value`).
-/

namespace Denis

open Text

namespace Levels

/-- A copy expires no later than the value in Redis. -/
def Output.WithinRedis : Output → Prop
  | .inserted _ entry _ (.redis value) => entry.deadline ≤ value.deadline
  | _ => True

/-- An entry is served before its deadline. -/
def Output.Live : Output → Prop
  | .answered _ _ (.l1 entry) time => time < entry.deadline
  | _ => True

variable (display : RecordType → Str)

/-- No answer is served from a copy once its TTL has passed since the `SETEX`. -/
def ServedInTime (outs : List Output) : Prop :=
  ∀ k x config y setAt query raw time, .saved k y setAt ∈ outs →
    .inserted k x config (.redis y) ∈ outs → .answered query raw (.l1 x) time ∈ outs →
    key display query = k → time < setAt + fromSecs y.value.ttl

/-- The condition on a step: if it copies a value, the TTL read again from its bytes
fits into the time that the value has left. -/
def CopiesInTime (s : Levels) (e : Input) : Prop :=
  ∀ i clock query y ttl, e = .promote i clock → s.calls[i]? = some (.found query y) →
    cacheTtl s.config y.value.raw query.1.answerOffset = some ttl →
    clock.now + fromSecs ttl ≤ y.deadline

variable {display} {s s' : Levels} {e : Input} {es : List Input} {outs out : List Output}

/-- **What a copy is**: the step that puts it into L1. -/
theorem copied_of_inserted (h : s.step display e = some (s', out)) {k : Str} {x : Timed L1Entry}
    {config : RuntimeConfig} {y : Timed RedisValue}
    (hout : .inserted k x config (.redis y) ∈ out) :
    ∃ i clock query ttl, e = .promote i clock ∧ s.calls[i]? = some (.found query y) ∧
      cacheTtl s.config y.value.raw query.1.answerOffset = some ttl ∧
      x.deadline = clock.now + fromSecs ttl := by
  cases step_transition h with
  | @promoted i clock query y' s' hcall hnow _ _ =>
    rcases List.mem_append.mp hout with hmem | hmem
    · obtain ⟨ttl, httl, ho⟩ := mem_insertion.mp hmem
      obtain ⟨rfl, rfl, rfl, hsource⟩ := Output.inserted.inj ho
      obtain rfl := Source.redis.inj hsource
      exact ⟨i, clock, query, ttl, rfl, hcall, httl, by rw [← hnow]⟩
    · simp at hmem
  | hit =>
    rcases List.mem_append.mp hout with hmem | hmem
    · obtain ⟨ttl, -, ho⟩ := mem_insertion.mp hmem
      cases ho
    · simp at hmem
  | received _ _ _ _ hrest =>
    rcases List.mem_append.mp hout with hmem | hmem
    · rcases List.mem_cons.mp hmem with ho | hmem
      · cases ho
      · obtain ⟨ttl, -, ho⟩ := mem_insertion.mp hmem
        cases ho
    · rcases hrest with ⟨-, rfl⟩ | ⟨_, -, -, rfl⟩ <;> simp at hmem
  | _ => simp at hout

/-- And a step that copies puts one into L1. -/
theorem inserted_of_promote {i : Nat} {clock : Clock}
    (h : s.step display (.promote i clock) = some (s', out)) {query : ParsedQuery}
    {y : Timed RedisValue} (hcall : s.calls[i]? = some (.found query y)) {ttl : UInt32}
    (httl : cacheTtl s.config y.value.raw query.1.answerOffset = some ttl) :
    .inserted (key display query) ⟨⟨y.value.raw, ttl⟩, clock.now + fromSecs ttl⟩ s.config
      (.redis y) ∈ out := by
  rw [step] at h
  split at h
  · next m query' y' hresume =>
    obtain ⟨-, hcall', rfl⟩ := resume_eq_some hresume
    obtain ⟨rfl, rfl⟩ := Call.found.inj (Option.some.inj (hcall.symm.trans hcall'))
    obtain ⟨-, rfl⟩ := Prod.mk.inj (Option.some.inj h)
    exact List.mem_append_left _ (mem_insertion.mpr ⟨ttl, httl, rfl⟩)
  · cases h

/-- **Step lemma**: the condition on a step says that its copies are within Redis. -/
theorem step_copies (h : s.step display e = some (s', out)) :
    CopiesInTime s e ↔ ∀ o ∈ out, o.WithinRedis := by
  constructor
  · intro htime o ho
    cases o with
    | inserted k x config source =>
      cases source with
      | redis y =>
        obtain ⟨i, clock, query, ttl, he, hcall, httl, hdeadline⟩ := copied_of_inserted h ho
        show x.deadline ≤ y.deadline
        rw [hdeadline]
        exact htime i clock query y ttl he hcall httl
      | _ => trivial
    | _ => trivial
  · intro hwithin i clock query y ttl he hcall httl
    subst he
    exact hwithin _ (inserted_of_promote h hcall httl)

/-- Entries are served while they live. -/
theorem step_live (h : s.step display e = some (s', out)) : ∀ o ∈ out, o.Live := by
  intro o ho
  have hinsertion {m : Levels} {q : ParsedQuery} {bytes : Bytes} {source : Source}
      (hmem : o ∈ m.insertion display q bytes source) : o.Live := by
    obtain ⟨ttl, -, rfl⟩ := mem_insertion.mp hmem
    trivial
  cases step_transition h with
  | idle => cases ho
  | blocked =>
    obtain rfl := List.mem_singleton.mp ho
    trivial
  | hot _ _ _ hlive =>
    obtain rfl := List.mem_singleton.mp ho
    exact hlive
  | hit _ _ _ hlive =>
    rcases List.mem_append.mp ho with ho | ho
    · exact hinsertion ho
    · obtain rfl := List.mem_singleton.mp ho
      exact hlive
  | missed => cases ho
  | gotten => cases ho
  | promoted =>
    rcases List.mem_append.mp ho with ho | ho
    · exact hinsertion ho
    · obtain rfl := List.mem_singleton.mp ho
      trivial
  | received _ _ _ _ hrest =>
    rcases List.mem_append.mp ho with ho | ho
    · rcases List.mem_cons.mp ho with rfl | ho
      · trivial
      · exact hinsertion ho
    · rcases hrest with ⟨-, rfl⟩ | ⟨_, -, -, rfl⟩
      · obtain rfl := List.mem_singleton.mp ho
        trivial
      · cases ho
  | saved =>
    rcases List.mem_pair.mp ho with rfl | rfl <;> trivial
  | unsaved =>
    obtain rfl := List.mem_singleton.mp ho
    trivial

/-! ## Under one configuration -/

/-- What is saved, or about to be, was given its TTL by the configuration, and was
saved in the past. -/
structure Steady (display : RecordType → Str) (es : List Input) (config : RuntimeConfig)
    (history : List Output) (s : Levels) : Prop where
  unchanged : s.config = config
  saving : ∀ query raw ttl, .setex query raw ttl ∈ s.calls →
    cacheTtl config raw query.1.answerOffset = some ttl
  saved : ∀ k y setAt, .saved k y setAt ∈ history → setAt ≤ s.now ∧
    ∃ query, Asked es query ∧ key display query = k ∧
      cacheTtl config y.value.raw query.1.answerOffset = some y.value.ttl

/-- The calls of a step: a new `SETEX` is for a TTL that the configuration gives. -/
theorem frame_of_step (h : s.step display e = some (s', out)) :
    ∃ new, Frame s e s' new ∧ ∀ query raw ttl, .setex query raw ttl ∈ new →
      cacheTtl s.config raw query.1.answerOffset = some ttl := by
  cases step_transition h with
  | idle hframe => exact ⟨_, hframe, by simp⟩
  | blocked _ _ hframe => exact ⟨_, hframe, by simp⟩
  | hot _ _ _ _ hframe => exact ⟨_, hframe, by simp⟩
  | hit _ _ _ _ hframe => exact ⟨_, hframe, by simp⟩
  | missed _ _ hcall hframe =>
    refine ⟨_, hframe, ?_⟩
    rcases hcall with rfl | rfl <;> simp
  | gotten _ hcall hframe =>
    refine ⟨_, hframe, ?_⟩
    rcases hcall with rfl | ⟨y, -, -, rfl⟩ <;> simp
  | promoted _ _ hframe => exact ⟨_, hframe, by simp⟩
  | received _ _ hframe _ hrest =>
    refine ⟨_, hframe, ?_⟩
    rcases hrest with ⟨rfl, -⟩ | ⟨ttl, httl, rfl, -⟩
    · simp
    · intro query' raw' ttl' hmem
      obtain ⟨rfl, rfl, rfl⟩ := Call.setex.inj (List.mem_singleton.mp hmem)
      exact httl
  | saved _ hframe => exact ⟨_, hframe, by simp⟩
  | unsaved _ hframe => exact ⟨_, hframe, by simp⟩

/-- What a step saves. -/
theorem setex_of_saved (h : s.step display e = some (s', out)) {k : Str} {y : Timed RedisValue}
    {setAt : Nat} (hout : .saved k y setAt ∈ out) :
    setAt = s'.now ∧ ∃ query, .setex query y.value.raw y.value.ttl ∈ s.calls ∧
      key display query = k := by
  have hinsertion {m : Levels} {q : ParsedQuery} {bytes : Bytes} {source : Source} :
      Output.saved k y setAt ∉ m.insertion display q bytes source := by
    intro hmem
    obtain ⟨ttl, -, ho⟩ := mem_insertion.mp hmem
    cases ho
  cases step_transition h with
  | saved hcall =>
    rcases List.mem_pair.mp hout with ho | ho
    · obtain ⟨rfl, rfl, rfl⟩ := Output.saved.inj ho
      exact ⟨rfl, _, hcall, rfl⟩
    · cases ho
  | received _ _ _ _ hrest =>
    rcases hrest with ⟨-, rfl⟩ | ⟨_, -, -, rfl⟩ <;> simp [hinsertion] at hout
  | _ => simp [hinsertion] at hout

theorem step_steady {config : RuntimeConfig} {history : List Output}
    (hs : Steady display es config history s) (hinv : Invariant display es history s)
    (hsame : ∀ config, e ≠ .configure config) (h : s.step display e = some (s', out)) :
    Steady display es config (history ++ out) s' := by
  obtain ⟨new, hframe, hnew⟩ := frame_of_step h
  refine ⟨(hframe.config hsame).trans hs.unchanged, ?_, ?_⟩
  · intro query raw ttl hmem
    rcases hframe.calls _ hmem with hmem | hmem
    · exact hs.saving query raw ttl hmem
    · exact hs.unchanged ▸ hnew query raw ttl hmem
  · intro k y setAt hmem
    rcases List.mem_append.mp hmem with hmem | hmem
    · obtain ⟨hle, hsaved⟩ := hs.saved k y setAt hmem
      exact ⟨Nat.le_trans hle hframe.now, hsaved⟩
    · obtain ⟨rfl, query, hcall, hkey⟩ := setex_of_saved h hmem
      exact ⟨Nat.le_refl _, query, hinv.asked _ hcall, hkey, hs.saving _ _ _ hcall⟩

/-- **Run lemma.** -/
theorem run_steady {redisOn : Bool} {config : RuntimeConfig} {blockList allowList : DomainSet}
    {t : Levels}
    (hrun : (machine display).run (start redisOn config blockList allowList) es =
      some (t, outs)) (hsame : ∀ config, .configure config ∉ es) :
    Steady display es config outs t := by
  have hboth : Invariant display es outs t ∧ (∀ o ∈ outs, Explained display es outs o) ∧
      Steady display es config outs t := by
    refine Machine.run_history (M := machine display)
      (C := fun _ e => e ∈ es ∧ ∀ config, e ≠ .configure config)
      (J := fun h s => Invariant display es h s ∧ (∀ o ∈ h, Explained display es h o) ∧
        Steady display es config h s)
      (fun h s e s' out hj he hs => ?_) (h := [])
      ⟨invariant_start .., by simp, rfl, by simp [start], by simp⟩
      (Machine.along_of_forall (fun e he => ⟨he, fun config h => hsame config (h ▸ he)⟩) _) hrun
    obtain ⟨hnext, hout, -⟩ := step_invariant hj.1 hj.2.1 he.1 hs
    refine ⟨hnext, fun o ho => ?_, step_steady hj.2.2 hj.1 he.2 hs⟩
    rcases List.mem_append.mp ho with ho | ho
    · exact (hj.2.1 o ho).mono out
    · exact hout o ho
  exact hboth.2.2

/-- **The one moment in which a copy is in time**, under a configuration that stays and
between queries that end at one offset, is that of the `SETEX`. -/
theorem copied_in_time_iff {redisOn : Bool} {config : RuntimeConfig}
    {blockList allowList : DomainSet} {t : Levels}
    (hrun : (machine display).run (start redisOn config blockList allowList) es =
      some (t, outs)) (hsame : ∀ config, .configure config ∉ es)
    (hoffset : ∀ q₁ q₂, Asked es q₁ → Asked es q₂ → key display q₁ = key display q₂ →
      q₁.1.answerOffset = q₂.1.answerOffset)
    {i : Nat} {query : ParsedQuery} {y : Timed RedisValue}
    (hcall : t.calls[i]? = some (.found query y)) {clock : Clock} (hclock : t.now ≤ clock.now) :
    CopiesInTime t (.promote i clock) ↔
      ∃ setAt, .saved (key display query) y setAt ∈ outs ∧ clock.now = setAt := by
  obtain ⟨hinv, hexplained, -⟩ := run_explained hrun
  have hsteady := run_steady hrun hsame
  have hmem := List.mem_of_getElem? hcall
  -- the TTL read again is the TTL saved
  have hread : ∀ setAt, .saved (key display query) y setAt ∈ outs →
      setAt ≤ t.now ∧ y.deadline = setAt + fromSecs y.value.ttl ∧
        cacheTtl t.config y.value.raw query.1.answerOffset = some y.value.ttl := by
    intro setAt hsaved
    obtain ⟨hle, query', hasked, hkey, httl⟩ := hsteady.saved _ _ _ hsaved
    obtain ⟨-, -, hdeadline⟩ := hexplained _ hsaved
    have hsameOffset := hoffset query query' (hinv.asked _ hmem) hasked hkey.symm
    rw [hsteady.unchanged, hsameOffset]
    exact ⟨hle, hdeadline, httl⟩
  constructor
  · intro htime
    obtain ⟨setAt, hsaved⟩ := hinv.backed _ hmem
    obtain ⟨hle, hdeadline, httl⟩ := hread setAt hsaved
    have hfits := htime i clock query y _ rfl hcall httl
    exact ⟨setAt, hsaved, by omega⟩
  · rintro ⟨setAt, hsaved, hnow⟩ i' clock' query' y' ttl he hcall' httl
    obtain ⟨rfl, rfl⟩ := Input.promote.inj he
    obtain ⟨rfl, rfl⟩ := Call.found.inj (Option.some.inj (hcall.symm.trans hcall'))
    obtain ⟨-, hdeadline, hsame⟩ := hread setAt hsaved
    obtain rfl := Option.some.inj (hsame.symm.trans httl)
    omega

/-- **Copies from Redis expire in time**, and nothing is served from one beyond the
TTL that was saved, just in the runs whose every copy is made with so much time left
as the TTL read again. -/
theorem copies_expire_iff {redisOn : Bool} {config : RuntimeConfig}
    {blockList allowList : DomainSet} {t : Levels}
    (hrun : (machine display).run (start redisOn config blockList allowList) es =
      some (t, outs)) :
    ((∀ o ∈ outs, o.WithinRedis) ∧ ServedInTime display outs) ↔
      (machine display).Along CopiesInTime (start redisOn config blockList allowList) es := by
  rw [Machine.along_iff_outputs (M := machine display) (J := fun _ => True)
    (P := Output.WithinRedis) (fun _ _ _ _ _ _ _ => trivial)
    (fun _ _ _ _ _ h => step_copies h) trivial hrun]
  refine ⟨And.left, fun hwithin => ⟨hwithin, ?_⟩⟩
  intro k x config y setAt query raw time hsaved hcopied hserved hkey
  obtain ⟨-, hlive⟩ := Machine.run_outputs (M := machine display) (J := fun _ => True)
    (P := Output.Live) (fun _ _ _ _ _ h => ⟨trivial, step_live h⟩) trivial hrun
  obtain ⟨-, -, hdeadline⟩ := (run_explained hrun).2.1 _ hsaved
  rw [← hdeadline]
  exact Nat.lt_of_lt_of_le (hlive _ hserved) (hwithin _ hcopied)

end Levels

namespace Sample

/-- The third query of the run below. -/
def asking : ParsedQuery := ⟨query 11, by decide +kernel⟩

/-- The answer in Redis, saved at 0 seconds. -/
def value : Timed RedisValue := ⟨⟨answer 7 name, 60⟩, 60000000000⟩

/-- Its copy, of 50 seconds. -/
def copy50 : Timed L1Entry := ⟨⟨answer 7 name, 60⟩, 110000000000⟩

end Sample

namespace Levels

/-- **A copy outlives its value**: an answer with a TTL of 60 is fetched and saved at
0 seconds, copied at 50, and served from the copy at 100. -/
theorem copy_outlives_value : ∃ t outs,
    (machine Sample.display).run (start true Sample.config ∅ ∅)
      (Sample.copied 50 ++ [.classify (Sample.packet 11 Sample.name) (Sample.clock 100)]) =
        some (t, outs) ∧
    (¬ ∀ o ∈ outs, o.WithinRedis) ∧ ¬ ServedInTime Sample.display outs := by
  obtain ⟨⟨t, outs⟩, hrun, houts⟩ := Option.map_eq_some_iff.mp
    (show ((machine Sample.display).run (start true Sample.config ∅ ∅)
      (Sample.copied 50 ++ [.classify (Sample.packet 11 Sample.name) (Sample.clock 100)])).map
        (fun p => decide (.inserted (key Sample.display Sample.asking) Sample.copy50 Sample.config
            (.redis Sample.value) ∈ p.2 ∧
          .saved (key Sample.display Sample.asking) Sample.value 0 ∈ p.2 ∧
          .answered Sample.asking (Sample.answer 11 Sample.name) (.l1 Sample.copy50)
            100000000000 ∈ p.2)) = some true by decide +kernel)
  obtain ⟨hcopied, hsaved, hserved⟩ := of_decide_eq_true houts
  refine ⟨t, outs, hrun, fun hwithin => ?_, fun hserve => ?_⟩
  · exact absurd (show Sample.copy50.deadline ≤ Sample.value.deadline from hwithin _ hcopied)
      (by decide)
  · exact absurd (hserve _ _ _ _ _ _ _ _ hsaved hcopied hserved rfl) (by decide +kernel)

/-- A copy in the instant of the `SETEX`. -/
theorem instant_copy_in_time : ∃ t outs,
    (machine Sample.display).run (start true Sample.config ∅ ∅) (Sample.copied 0) =
      some (t, outs) ∧
    (((∀ o ∈ outs, o.WithinRedis) ∧ ServedInTime Sample.display outs) ↔
      (machine Sample.display).Along CopiesInTime (start true Sample.config ∅ ∅)
        (Sample.copied 0)) := by
  obtain ⟨⟨t, outs⟩, hrun, -⟩ := Option.map_eq_some_iff.mp
    (show ((machine Sample.display).run (start true Sample.config ∅ ∅) (Sample.copied 0)).map
      (fun p => p.2.filterMap Output.replied) = some
        [Sample.answer 7 Sample.name, Sample.answer 9 Sample.name] by decide +kernel)
  exact ⟨t, outs, hrun, copies_expire_iff hrun⟩

end Levels

end Denis
