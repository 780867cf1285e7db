import Denis.Dns.Server

/-!
# How long a cached answer is served

The intended lifetime of an answer is the TTL `cache_ttl` gives it from the
moment it was received. `handle_parsed` stores a hit again before it returns it
(`query.rs:113–115`), and storing restarts the entry's lifetime, while the hot
path (`Worker::classify`) only reads. So a run is fresh as long as no
`handle_parsed` hit puts an entry's deadline off (`KeepsDeadline`), and
`hit_outlives_ttl` is a run with a hit that does.

The invariant (`FreshInvariant`) traces every cached entry to the receipt of
its bytes and bounds its deadline by that receipt's.
-/

namespace Denis

open Text

/-- The reply's bytes, transaction id aside, were received from an upstream
less than their own TTL before. -/
def Reply.Fresh (config : RuntimeConfig) (history : List Output) (r : Reply) : Prop :=
  ∃ rc ttl, .received rc ∈ history ∧ rc.raw.drop 2 = r.raw.drop 2 ∧
    cacheTtl config rc.raw rc.query.answerOffset = some ttl ∧
    rc.time ≤ r.time ∧ r.time < rc.time + fromSecs ttl

/-- A reply whose event says it was served from the cache is fresh. -/
def Output.FreshHit (config : RuntimeConfig) (history : List Output) : Output → Prop
  | .reply r => ∀ event, r.event = some event → event.cacheHit = true → r.Fresh config history
  | _ => True

namespace Server

variable (display : RecordType → Str)

/-- If the input starts `handle_parsed` on a query that is not blocked and has a
live entry, storing the entry again does not put its deadline off. -/
def KeepsDeadline (s : Server) (e : Input) : Prop :=
  ∀ req clock, Begins s e req clock → s.cache.isBlocked req.query.name = false →
    ∀ x ttl, s.cache.l1.lookup clock.now (Cache.queryKey display req.query) = some x →
      cacheTtl s.config x.value.raw req.query.answerOffset = some ttl →
      clock.now + fromSecs ttl ≤ x.deadline

/-- The condition on a step: the configuration stays and deadlines are kept. -/
def Settled (s : Server) (e : Input) : Prop :=
  (∀ config, e ≠ .configure config) ∧ KeepsDeadline display s e

/-- **What freshness rests on**: every entry was received, and expires no later
than it may. -/
structure FreshInvariant (config : RuntimeConfig) (history : List Output) (s : Server) :
    Prop where
  unchanged : s.config = config
  entries : ∀ k x, s.cache.l1 k = some x → ∃ rc ttl, .received rc ∈ history ∧
    rc.raw = x.value.raw ∧ cacheTtl config rc.raw rc.query.answerOffset = some ttl ∧
    rc.time ≤ s.now ∧ x.deadline ≤ rc.time + fromSecs ttl

variable {display} {config : RuntimeConfig} {history out : List Output} {s s' : Server} {e : Input}

theorem freshInvariant_start (runtime : Runtime) (acl : Acl) (config : RuntimeConfig)
    (blockList allowList : DomainSet) :
    FreshInvariant config [] (start runtime acl config blockList allowList) := by
  refine ⟨rfl, ?_⟩
  intro k x h
  cases h

/-- A longer history explains what a shorter one did. -/
theorem FreshHit.mono (config : RuntimeConfig) (history out : List Output) (o : Output)
    (h : o.FreshHit config history) : o.FreshHit config (history ++ out) := by
  cases o with
  | reply r =>
    intro event hevent hhit
    obtain ⟨rc, ttl, hmem, hfresh⟩ := h event hevent hhit
    exact ⟨rc, ttl, List.mem_append_left _ hmem, hfresh⟩
  | _ => trivial

/-- A step that leaves the entries alone keeps the invariant. -/
theorem FreshInvariant.of_entries (hs : FreshInvariant config history s)
    (hconfig : s'.config = s.config) (hnow : s.now ≤ s'.now) (hl1 : s'.cache.l1 = s.cache.l1) :
    FreshInvariant config (history ++ out) s' := by
  refine ⟨hconfig.trans hs.unchanged, ?_⟩
  intro k x hx
  obtain ⟨rc, ttl, hmem, hraw, httl, htime, hdeadline⟩ := hs.entries k x (hl1 ▸ hx)
  exact ⟨rc, ttl, List.mem_append_left _ hmem, hraw, httl, Nat.le_trans htime hnow, hdeadline⟩

/-- A live entry is served fresh. -/
theorem FreshInvariant.fresh_of_live (hs : FreshInvariant config history s) {k : Str}
    {x : Timed L1Entry} (hx : s.cache.l1 k = some x) {r : Reply}
    (hraw : r.raw.drop 2 = x.value.raw.drop 2) (hnow : s.now ≤ r.time)
    (hlive : r.time < x.deadline) : r.Fresh config history := by
  obtain ⟨rc, ttl, hmem, hbytes, httl, htime, hdeadline⟩ := hs.entries k x hx
  exact ⟨rc, ttl, hmem, by rw [hbytes, hraw], httl, Nat.le_trans htime hnow,
    Nat.lt_of_lt_of_le hlive hdeadline⟩

/-- What the first phase of `handle_parsed` serves is fresh if it is a hit. -/
theorem served_fresh (hs : FreshInvariant config history s) {query : Query} {clock : Clock}
    (hnow : s.now ≤ clock.now) {cache : Cache} {served : Served}
    (h : QueryHandler.beginParsed display s.cache s.config query clock = some (cache, served))
    (client : Client) (packet : Bytes) (timestampMs : UInt64) :
    Output.FreshHit config history
      (.reply ⟨client, packet, served.raw, some (QueryHandler.event query timestampMs served),
        clock.now⟩) := by
  intro event hevent hhit
  obtain rfl := Option.some.inj hevent
  rcases QueryHandler.beginParsed_eq_some h with ⟨-, -, -, -, hmiss⟩ |
      ⟨-, x, hx, hlive, -, hraw, -, -⟩
  · rw [QueryHandler.event, hmiss] at hhit
    cases hhit
  · refine hs.fresh_of_live hx ?_ hnow hlive
    rw [hraw, UpstreamResponse.cached_drop]

/-- **Storing a hit again** keeps the invariant if it keeps the deadline. -/
theorem freshInvariant_hit (hs : FreshInvariant config history s) {req : Request} {clock : Clock}
    (hkeeps : KeepsDeadline display s e) (hbegins : Begins s e req clock) {cache : Cache}
    {served : Served}
    (h : QueryHandler.beginParsed display s.cache s.config req.query clock = some (cache, served))
    (hconfig : s'.config = s.config) (hnow : s.now ≤ s'.now) (hcache : s'.cache = cache) :
    FreshInvariant config (history ++ out) s' := by
  rcases QueryHandler.beginParsed_eq_some h with ⟨-, rfl, -, -, -⟩ |
      ⟨hopen, x, hx, hlive, rfl, -, -, -⟩
  · exact hs.of_entries hconfig hnow (congrArg Cache.l1 hcache)
  · -- the entry written back has the old receipt and, by the condition, its deadline
    refine ⟨hconfig.trans hs.unchanged, ?_⟩
    intro k y hy
    rw [hcache] at hy
    rcases QueryHandler.store_l1 hy with ⟨ttl', httl', -, rfl⟩ | hold
    · obtain ⟨rc, ttl, hmem, hraw, httl, htime, hdeadline⟩ := hs.entries _ x hx
      have hkept := hkeeps req clock hbegins hopen x ttl'
        (TtlMap.lookup_eq_some.mpr ⟨hx, hlive⟩) httl'
      exact ⟨rc, ttl, List.mem_append_left _ hmem, hraw, httl, Nat.le_trans htime hnow,
        Nat.le_trans hkept hdeadline⟩
    · obtain ⟨rc, ttl, hmem, hraw, httl, htime, hdeadline⟩ := hs.entries k y hold
      exact ⟨rc, ttl, List.mem_append_left _ hmem, hraw, httl, Nat.le_trans htime hnow,
        hdeadline⟩

/-- **Step lemma**: a settled step keeps the invariant, and the hits it serves
are fresh by what was received before it. -/
theorem step_fresh (hs : FreshInvariant config history s) (hsettled : Settled display s e)
    (h : s.step display e = some (s', out)) :
    FreshInvariant config (history ++ out) s' ∧ ∀ o ∈ out, o.FreshHit config history := by
  obtain ⟨hsame, hkeeps⟩ := hsettled
  cases step_transition h with
  | idle _ hframe hl1 =>
    exact ⟨hs.of_entries (hframe.config hsame) hframe.now hl1, by simp⟩
  | unserved _ _ _ hframe hcache =>
    exact ⟨hs.of_entries (hframe.config hsame) hframe.now (congrArg _ hcache), by simp⟩
  | refused _ _ hframe hcache =>
    refine ⟨hs.of_entries (hframe.config hsame) hframe.now (congrArg _ hcache), ?_⟩
    rw [List.forall_mem_singleton]
    intro event hevent
    cases hevent
  | hot _ _ hbegin hframe hcache hnow =>
    refine ⟨hs.of_entries (hframe.config hsame) hframe.now (congrArg _ hcache), ?_⟩
    rw [List.forall_mem_singleton, hnow]
    exact served_fresh hs (hnow ▸ hframe.now) hbegin _ _ _
  | hotMiss _ _ hframe hcache =>
    exact ⟨hs.of_entries (hframe.config hsame) hframe.now (congrArg _ hcache), by simp⟩
  | handled hbegins hbegin hframe hcache hnow =>
    refine ⟨freshInvariant_hit hs hkeeps hbegins hbegin (hframe.config hsame) hframe.now hcache,
      ?_⟩
    rw [List.forall_mem_singleton, hnow]
    exact served_fresh hs (hnow ▸ hframe.now) hbegin _ _ _
  | forwarded _ _ _ hframe hcache =>
    refine ⟨hs.of_entries (hframe.config hsame) hframe.now (congrArg _ hcache), ?_⟩
    rw [List.forall_mem_singleton]
    trivial
  | relayed hw hserver haccept hframe hcache hnow =>
    refine ⟨⟨(hframe.config hsame).trans hs.unchanged, fun k x hx => ?_⟩, ?_⟩
    · rw [hcache] at hx
      -- a new entry expires its TTL after the receipt this step puts out
      rcases QueryHandler.store_l1 hx with ⟨ttl, httl, -, rfl⟩ | hold
      · refine ⟨_, ttl, List.mem_append_right _ (List.mem_cons_self ..), rfl, hs.unchanged ▸ httl,
          Nat.le_refl _, ?_⟩
        rw [hnow]
      · obtain ⟨rc, ttl, hmem, hraw, httl, htime, hdeadline⟩ := hs.entries k x hold
        exact ⟨rc, ttl, List.mem_append_left _ hmem, hraw, httl,
          Nat.le_trans htime hframe.now, hdeadline⟩
    · intro o ho
      rcases List.mem_cons.mp ho with rfl | ho
      · trivial
      · obtain rfl := List.mem_singleton.mp ho
        intro event hevent hhit
        obtain rfl := Option.some.inj hevent
        cases hhit

/-- **Freshness over runs.** If no step of a run under one configuration puts a
deadline off, every reply served from the cache is explained by an earlier
receipt of its bytes, less than their TTL before. -/
theorem hits_fresh {runtime : Runtime} {acl : Acl} {blockList allowList : DomainSet}
    {es : List Input} {t : Server} {outs : List Output}
    (hrun : (machine display).run (start runtime acl config blockList allowList) es =
      some (t, outs))
    (hsettled : (machine display).Along (Settled display)
      (start runtime acl config blockList allowList) es) :
    Machine.Justified (Output.FreshHit config) outs := by
  have hend := Machine.run_history (M := machine display)
    (J := fun h s => FreshInvariant config h s ∧ Machine.Justified (Output.FreshHit config) h)
    (fun h s e s' out hj hc hs => by
      obtain ⟨hkeep, hout⟩ := step_fresh hj.1 hc hs
      exact ⟨hkeep, hj.2.append (FreshHit.mono config) hout⟩)
    (h := []) ⟨freshInvariant_start .., Machine.justified_nil _⟩ hsettled hrun
  exact hend.2

/-- **A hit of the tokio loop prolongs the answer's life**: received at 0 s with
a TTL of 60 s, asked for at 50 s, it is still served from the cache at 100 s. -/
theorem hit_outlives_ttl : ∃ es t outs, (∀ config, .configure config ∉ es) ∧
    (machine Sample.display).run (start .tokio ⟨[]⟩ Sample.config ∅ ∅) es = some (t, outs) ∧
    ¬ Machine.Justified (Output.FreshHit Sample.config) outs := by
  let c := Sample.client .tokioUdp 1
  obtain ⟨⟨t, outs⟩, hrun, hout⟩ := Option.map_eq_some_iff.mp
    (show ((machine Sample.display).run (start .tokio ⟨[]⟩ Sample.config ∅ ∅)
      [Sample.ask c 7 0, Sample.answered 7 0, Sample.ask c 8 50, Sample.ask c 9 100]).map
        Prod.snd =
      some [.forward c (Sample.query 7), .received (Sample.receipt 7 0),
        .reply (Sample.reply c 7 0 false), .reply (Sample.reply c 8 50 true),
        .reply (Sample.reply c 9 100 true)] by decide +kernel)
  refine ⟨_, t, outs, by simp [Sample.ask, Sample.answered], hrun, ?_⟩
  intro hall
  obtain rfl : outs = _ := hout
  obtain ⟨rc, ttl, hmem, -, httl, -, hlt⟩ :=
    hall [_, _, _, _] (.reply (Sample.reply c 9 100 true)) [] rfl _ rfl rfl
  obtain rfl : rc = Sample.receipt 7 0 := by simpa using hmem
  have hsixty : cacheTtl Sample.config (Sample.receipt 7 0).raw
      (Sample.receipt 7 0).query.answerOffset = some 60 := by decide
  rw [hsixty] at httl
  obtain rfl := Option.some.inj httl
  exact absurd hlt (by decide)

/-- An input that starts no `handle_parsed` is settled, if it does not change
the configuration. -/
theorem settled_of_not_begins (hsame : ∀ config, e ≠ .configure config)
    (h : ∀ req clock, ¬ Begins s e req clock) : Settled display s e :=
  ⟨hsame, fun req clock hbegins => absurd hbegins (h req clock)⟩

/-- The monoio workers only read the cache. -/
theorem monoUdp_l1 {client : Client} {packet : Bytes} {clock : Clock}
    (hmono : client.listener = .monoUdp)
    (h : s.step display (.message client packet clock) = some (s', out)) :
    s'.cache.l1 = s.cache.l1 := by
  have hquiet : ∀ req clock', ¬ Begins s (.message client packet clock) req clock' :=
    not_begins_message (.inl hmono)
  cases step_transition h with
  | idle _ _ hl1 => exact hl1
  | unserved hbegins _ _ _ _ => exact absurd hbegins (hquiet _ _)
  | refused _ _ _ hcache => exact congrArg _ hcache
  | hot _ _ _ _ hcache _ => exact congrArg _ hcache
  | hotMiss _ _ _ hcache => exact congrArg _ hcache
  | handled hbegins _ _ _ _ => exact absurd hbegins (hquiet _ _)
  | forwarded hbegins _ _ _ _ => exact absurd hbegins (hquiet _ _)

/-- In the monoio runtime, where UDP hits are served by the hot path: a miss,
its answer and a hit 59 seconds later. -/
theorem hot_hit_fresh : ∃ t outs,
    (machine Sample.display).run (start .monoio ⟨[]⟩ Sample.config ∅ ∅)
      [Sample.ask (Sample.client .monoUdp 1) 7 0, .cold 0 (Sample.clock 0),
        Sample.answered 7 0, Sample.ask (Sample.client .monoUdp 2) 9 59] = some (t, outs) ∧
    .reply (Sample.reply (Sample.client .monoUdp 2) 9 59 true) ∈ outs ∧
    Machine.Justified (Output.FreshHit Sample.config) outs := by
  obtain ⟨⟨t, outs⟩, hrun, hmem⟩ := Option.map_eq_some_iff.mp
    (show ((machine Sample.display).run (start .monoio ⟨[]⟩ Sample.config ∅ ∅)
      [Sample.ask (Sample.client .monoUdp 1) 7 0, .cold 0 (Sample.clock 0),
        Sample.answered 7 0, Sample.ask (Sample.client .monoUdp 2) 9 59]).map (fun p =>
          decide (.reply (Sample.reply (Sample.client .monoUdp 2) 9 59 true) ∈ p.2)) = some true
      by decide +kernel)
  refine ⟨t, outs, hrun, of_decide_eq_true hmem, hits_fresh hrun ?_⟩
  refine ⟨settled_of_not_begins (by rintro _ ⟨⟩) (not_begins_message (.inl rfl)),
    fun s₁ _ h₁ => ⟨⟨by rintro _ ⟨⟩, ?_⟩, fun _ _ _ => ?_⟩⟩
  · -- the cold path finds the cache as it was at the start, empty
    rintro req clock - - x ttl hx -
    have hstep : (start .monoio ⟨[]⟩ Sample.config ∅ ∅).step Sample.display
        (.message (Sample.client .monoUdp 1) (Sample.packet 7 Sample.name) (Sample.clock 0)) =
          some (s₁, _) := h₁
    have hl1 := monoUdp_l1 rfl hstep
    have hempty := (TtlMap.lookup_eq_some.mp hx).1
    rw [hl1] at hempty
    cases hempty
  · refine ⟨settled_of_not_begins (by rintro _ ⟨⟩) (by rintro _ _ ⟨⟩), fun _ _ _ => ?_⟩
    exact ⟨settled_of_not_begins (by rintro _ ⟨⟩) (not_begins_message (.inl rfl)),
      fun _ _ _ => trivial⟩

end Server

end Denis
