import Denis.Dns.Server
import Denis.Repo.Keys

/-!
# Whose answer a cache hit is

Every cached entry was received for some query whose key it is under
(`AttributionInvariant`), so a hit is served the answer received for a query of
the same key (`hits_attributed`). That query is for the same name and type as
long as the queries of the run are told apart by their keys
(`keys_distinguish`); where they are not, two clients that ask for different
long names are served each other's answers (`long_names_collide`).
-/

namespace Denis

open Text

/-- A query parsed from one of the messages. -/
def Asked (es : List Input) (query : Query) : Prop :=
  ∃ client packet clock, .message client packet clock ∈ es ∧
    Parser.parseUdp (client.listener.buffer packet) = .ok query

/-- A reply whose event says it was served from the cache answers a query of the
run with bytes received for a query of the run that `same` relates to it. -/
def Output.Attributed (es : List Input) (same : Query → Query → Prop) (history : List Output) :
    Output → Prop
  | .reply r => ∀ event, r.event = some event → event.cacheHit = true →
      ∃ rc query, .received rc ∈ history ∧ rc.raw.drop 2 = r.raw.drop 2 ∧ Asked es rc.query ∧
        Asked es query ∧ Parser.parseUdp (r.client.listener.buffer r.packet) = .ok query ∧
        same rc.query query
  | _ => True

/-- For the same name and type. -/
def SameQuestion (q₁ q₂ : Query) : Prop := q₁.name = q₂.name ∧ q₁.queryType = q₂.queryType

namespace Server

variable (display : RecordType → Str)

/-- **What attribution rests on**: entries are under the key of a query they
were received for, and all queries under way were asked. -/
structure AttributionInvariant (es : List Input) (history : List Output) (s : Server) : Prop where
  cold : ∀ req ∈ s.cold, Asked es req.query
  waiting : ∀ w ∈ s.waiting, Asked es w.request.query
  entries : ∀ k x, s.cache.l1 k = some x → ∃ rc, .received rc ∈ history ∧ Asked es rc.query ∧
    rc.raw = x.value.raw ∧ Cache.queryKey display rc.query = k

variable {display} {es : List Input} {same : Query → Query → Prop} {history out : List Output}
  {s s' : Server} {e : Input}

theorem attributed_mono (es : List Input) (same : Query → Query → Prop)
    (history out : List Output) (o : Output) (h : o.Attributed es same history) :
    o.Attributed es same (history ++ out) := by
  cases o with
  | reply r =>
    intro event hevent hhit
    obtain ⟨rc, query, hmem, hrest⟩ := h event hevent hhit
    exact ⟨rc, query, List.mem_append_left _ hmem, hrest⟩
  | _ => trivial

theorem attributionInvariant_start (runtime : Runtime) (acl : Acl) (config : RuntimeConfig)
    (blockList allowList : DomainSet) :
    AttributionInvariant display es []
      (start runtime acl config blockList allowList) := by
  refine ⟨by simp [start], by simp [start], ?_⟩
  intro k x h
  cases h

/-- The request a step starts on was asked. -/
theorem Begins.asked (hs : AttributionInvariant display es history s) (he : e ∈ es) {req : Request}
    {clock : Clock} (h : Begins s e req clock) : Asked es req.query := by
  cases h with
  | message _ _ => exact ⟨_, _, _, he, req.parsed⟩
  | cold hreq => exact hs.cold req (List.mem_of_getElem? hreq)

/-- What a frame leaves of the invariant to show. -/
theorem Frame.attributionInvariant {cold : List Request} {waiting : List Waiting}
    (hf : Frame s e s' cold waiting) (hs : AttributionInvariant display es history s)
    (hentries : ∀ k x, s'.cache.l1 k = some x → ∃ rc, .received rc ∈ history ++ out ∧
      Asked es rc.query ∧ rc.raw = x.value.raw ∧ Cache.queryKey display rc.query = k)
    (hcold : ∀ req ∈ cold, Asked es req.query)
    (hwaiting : ∀ w ∈ waiting, Asked es w.request.query) :
    AttributionInvariant display es (history ++ out) s' :=
  ⟨hf.cold_forall hs.cold hcold, hf.waiting_forall hs.waiting hwaiting, hentries⟩

/-- Entries that were there are still attributed. -/
theorem AttributionInvariant.entry (hs : AttributionInvariant display es history s) {k : Str}
    {x : Timed L1Entry} (hx : s.cache.l1 k = some x) : ∃ rc, .received rc ∈ history ++ out ∧
      Asked es rc.query ∧ rc.raw = x.value.raw ∧ Cache.queryKey display rc.query = k := by
  obtain ⟨rc, hmem, hrest⟩ := hs.entries k x hx
  exact ⟨rc, List.mem_append_left _ hmem, hrest⟩

/-- What the first phase of `handle_parsed` does to the entries and serves. -/
theorem beginParsed_attributed (out : List Output)
    (hs : AttributionInvariant display es history s)
    (hsame : ∀ q₁ q₂, Asked es q₁ → Asked es q₂ →
      Cache.queryKey display q₁ = Cache.queryKey display q₂ → same q₁ q₂)
    {req : Request} (hreq : Asked es req.query) {clock : Clock} {cache : Cache} {served : Served}
    (h : QueryHandler.beginParsed display s.cache s.config req.query clock = some (cache, served)) :
    (∀ k x, cache.l1 k = some x → ∃ rc, .received rc ∈ history ++ out ∧
      Asked es rc.query ∧ rc.raw = x.value.raw ∧ Cache.queryKey display rc.query = k) ∧
    ∀ time, Output.Attributed es same history (.reply ⟨req.client, req.packet, served.raw,
      some (QueryHandler.event req.query req.timestampMs served), time⟩) := by
  rcases QueryHandler.beginParsed_eq_some h with ⟨-, rfl, -, -, hmiss⟩ |
      ⟨-, x, hx, -, rfl, hraw, -, -⟩
  · refine ⟨fun k x hx => hs.entry hx, ?_⟩
    intro time event hevent hhit
    obtain rfl := Option.some.inj hevent
    rw [QueryHandler.event, hmiss] at hhit
    cases hhit
  · -- the hit stores its bytes again, under the key they were received for
    obtain ⟨rc, hmem, hasked, hbytes, hkey⟩ := hs.entries _ x hx
    refine ⟨fun k y hy => ?_, fun time event hevent hhit => ?_⟩
    · rcases QueryHandler.store_l1 hy with ⟨ttl, -, rfl, rfl⟩ | hold
      · exact ⟨rc, List.mem_append_left _ hmem, hasked, hbytes, hkey⟩
      · exact hs.entry hold
    · refine ⟨rc, req.query, hmem, ?_, hasked, hreq, req.parsed, hsame _ _ hasked hreq hkey⟩
      rw [hraw, UpstreamResponse.cached_drop, hbytes]

/-- **Step lemma**: a step on an input of the run keeps the invariant, and the
hits it serves are attributed. -/
theorem step_attributed (hs : AttributionInvariant display es history s)
    (hsame : ∀ q₁ q₂, Asked es q₁ → Asked es q₂ →
      Cache.queryKey display q₁ = Cache.queryKey display q₂ → same q₁ q₂)
    (he : e ∈ es) (h : s.step display e = some (s', out)) :
    AttributionInvariant display es (history ++ out) s' ∧
      ∀ o ∈ out, o.Attributed es same history := by
  cases step_transition h with
  | idle _ hframe hl1 =>
    exact ⟨hframe.attributionInvariant hs (fun k x hx => hs.entry (hl1 ▸ hx)) (by simp)
      (by simp), by simp⟩
  | unserved _ _ _ hframe hcache =>
    exact ⟨hframe.attributionInvariant hs (fun k x hx => hs.entry (hcache ▸ hx)) (by simp)
      (by simp), by simp⟩
  | refused _ _ hframe hcache =>
    refine ⟨hframe.attributionInvariant hs (fun k x hx => hs.entry (hcache ▸ hx)) (by simp)
      (by simp), ?_⟩
    rw [List.forall_mem_singleton]
    intro event hevent
    cases hevent
  | @hot req _ _ _ _ _ _ hbegin hframe hcache _ =>
    have hasked : Asked es req.query := ⟨_, _, _, he, req.parsed⟩
    refine ⟨hframe.attributionInvariant hs (fun k x hx => hs.entry (hcache ▸ hx)) (by simp)
      (by simp), ?_⟩
    rw [List.forall_mem_singleton]
    exact (beginParsed_attributed [] hs hsame hasked hbegin).2 _
  | @hotMiss req _ _ _ _ hframe hcache =>
    refine ⟨hframe.attributionInvariant hs (fun k x hx => hs.entry (hcache ▸ hx)) ?_ (by simp),
      by simp⟩
    simpa using ⟨_, _, _, he, req.parsed⟩
  | handled hbegins hbegin hframe hcache _ =>
    obtain ⟨hentries, hreply⟩ := beginParsed_attributed _ hs hsame (hbegins.asked hs he) hbegin
    refine ⟨hframe.attributionInvariant hs (hcache ▸ hentries) (by simp) (by simp), ?_⟩
    rw [List.forall_mem_singleton]
    exact hreply _
  | forwarded hbegins _ _ hframe hcache =>
    refine ⟨hframe.attributionInvariant hs (fun k x hx => hs.entry (hcache ▸ hx)) (by simp)
      (by simpa using hbegins.asked hs he), ?_⟩
    rw [List.forall_mem_singleton]
    trivial
  | relayed hw _ _ hframe hcache _ =>
    refine ⟨hframe.attributionInvariant hs (fun k x hx => ?_) (by simp) (by simp), ?_⟩
    · rw [hcache] at hx
      -- a new entry is the receipt this very step puts out
      rcases QueryHandler.store_l1 hx with ⟨ttl, -, rfl, rfl⟩ | hold
      · exact ⟨_, List.mem_append_right _ (List.mem_cons_self ..), hs.waiting _ hw, rfl, rfl⟩
      · exact hs.entry hold
    · intro o ho
      rcases List.mem_cons.mp ho with rfl | ho
      · trivial
      · obtain rfl := List.mem_singleton.mp ho
        intro event hevent hhit
        obtain rfl := Option.some.inj hevent
        cases hhit

/-- In any run, a hit answers with bytes received for a query of the same key,
hence for one that `same` relates to it. -/
theorem hits_attributed {runtime : Runtime} {acl : Acl} {config : RuntimeConfig}
    {blockList allowList : DomainSet} {t : Server} {outs : List Output}
    (hsame : ∀ q₁ q₂, Asked es q₁ → Asked es q₂ →
      Cache.queryKey display q₁ = Cache.queryKey display q₂ → same q₁ q₂)
    (hrun : (machine display).run (start runtime acl config blockList allowList) es =
      some (t, outs)) :
    Machine.Justified (Output.Attributed es same) outs := by
  have hend := Machine.run_history (M := machine display) (C := fun _ e => e ∈ es)
    (J := fun h s => AttributionInvariant display es h s ∧
      Machine.Justified (Output.Attributed es same) h)
    (fun h s e s' out hj he hs => by
      obtain ⟨hkeep, hout⟩ := step_attributed hj.1 hsame he hs
      exact ⟨hkeep, hj.2.append (attributed_mono es same) hout⟩)
    (h := []) ⟨attributionInvariant_start .., Machine.justified_nil _⟩
    (Machine.along_of_forall (fun _ he => he) _) hrun
  exact hend.2

/-- **When cache keys do not collide.** For type texts without `:`, two queries
that share a key are for the same name and type iff they are distinguished; and
in every run whose queries are distinguished, each hit answers a client with
bytes received for the name and type it asked for. -/
theorem keys_distinguish (hcolon : ∀ t, ':' ∉ display t) :
    (∀ q₁ q₂, (Cache.queryKey display q₁ = Cache.queryKey display q₂ → SameQuestion q₁ q₂) ↔
      Cache.Distinguished display q₁ q₂) ∧
    ∀ runtime acl config blockList allowList es t outs,
      (machine display).run (start runtime acl config blockList allowList) es = some (t, outs) →
      (∀ q₁ q₂, Asked es q₁ → Asked es q₂ → Cache.Distinguished display q₁ q₂) →
      Machine.Justified (Output.Attributed es SameQuestion) outs := by
  refine ⟨Cache.eq_of_queryKey_iff hcolon, ?_⟩
  intro runtime acl config blockList allowList es t outs hrun hdistinguished
  refine hits_attributed (fun q₁ q₂ h₁ h₂ => ?_) hrun
  exact (Cache.eq_of_queryKey_iff hcolon q₁ q₂).mpr (hdistinguished q₁ q₂ h₁ h₂)

/-- Who asks in a run of two messages with the answer to the first between. -/
theorem asked_of_two {client₁ client₂ : Client} {packet₁ packet₂ bytes : Bytes}
    {clock₁ clock₂ clock : Clock} {server src : SocketAddr} {q₁ q₂ q : Query}
    (hq₁ : Parser.parseUdp (client₁.listener.buffer packet₁) = .ok q₁)
    (hq₂ : Parser.parseUdp (client₂.listener.buffer packet₂) = .ok q₂)
    (h : Asked [.message client₁ packet₁ clock₁, .datagram 0 server src bytes clock,
      .message client₂ packet₂ clock₂] q) : q = q₁ ∨ q = q₂ := by
  obtain ⟨client, packet, clock, hmem, hparse⟩ := h
  simp only [List.mem_cons, Input.message.injEq, List.not_mem_nil, reduceCtorEq, false_or,
    or_false] at hmem
  rcases hmem with ⟨rfl, rfl, rfl⟩ | ⟨rfl, rfl, rfl⟩
  · exact .inl (Except.ok.inj (hparse.symm.trans hq₁))
  · exact .inr (Except.ok.inj (hparse.symm.trans hq₂))

/-- The queries of the run below. -/
theorem asked_twice {q : Query} (h : Asked [Sample.ask (Sample.client .tokioUdp 1) 7 0,
      Sample.answered 7 0, Sample.ask (Sample.client .tokioUdp 2) 9 1] q) :
    q = Sample.query 7 ∨ q = Sample.query 9 :=
  asked_of_two (by decide +kernel) (by decide +kernel) h

/-- Two clients of the tokio loop that ask for one short name. -/
theorem short_name_hits_own : ∃ t outs,
    (machine Sample.display).run (start .tokio ⟨[]⟩ Sample.config ∅ ∅)
      [Sample.ask (Sample.client .tokioUdp 1) 7 0, Sample.answered 7 0,
        Sample.ask (Sample.client .tokioUdp 2) 9 1] = some (t, outs) ∧
    .reply (Sample.reply (Sample.client .tokioUdp 2) 9 1 true) ∈ outs ∧
    Machine.Justified (Output.Attributed [Sample.ask (Sample.client .tokioUdp 1) 7 0,
      Sample.answered 7 0, Sample.ask (Sample.client .tokioUdp 2) 9 1] SameQuestion) outs := by
  obtain ⟨⟨t, outs⟩, hrun, hmem⟩ := Option.map_eq_some_iff.mp
    (show ((machine Sample.display).run (start .tokio ⟨[]⟩ Sample.config ∅ ∅)
      [Sample.ask (Sample.client .tokioUdp 1) 7 0, Sample.answered 7 0,
        Sample.ask (Sample.client .tokioUdp 2) 9 1]).map (fun p =>
          decide (.reply (Sample.reply (Sample.client .tokioUdp 2) 9 1 true) ∈ p.2)) = some true
      by decide +kernel)
  refine ⟨t, outs, hrun, of_decide_eq_true hmem,
    (keys_distinguish Sample.display_colon).2 _ _ _ _ _ _ _ _ hrun ?_⟩
  have hasked : ∀ q, Asked [Sample.ask (Sample.client .tokioUdp 1) 7 0, Sample.answered 7 0,
      Sample.ask (Sample.client .tokioUdp 2) 9 1] q →
      q.name = ['a', 'b', '.', 'c', 'd'] ∧ q.queryType = RecordType.a := by
    intro q h
    rcases asked_twice h with rfl | rfl <;> exact ⟨rfl, rfl⟩
  intro q₁ q₂ h₁ h₂
  obtain ⟨hname₁, htype₁⟩ := hasked q₁ h₁
  obtain ⟨hname₂, htype₂⟩ := hasked q₂ h₂
  exact .inl ⟨hname₁.trans hname₂.symm, htype₁.trans htype₂.symm⟩

/-- Two labels of 62 bytes: a name of 125 bytes. -/
def Sample.longName (b : UInt8) : Bytes :=
  62 :: List.replicate 62 b ++ 62 :: List.replicate 62 97

/-- **Long names collide**: both keys are `dns:`. -/
theorem long_names_collide : Function.Injective Sample.display ∧
    (∀ t, ':' ∉ Sample.display t) ∧ ∃ q₁ q₂,
      Parser.parseUdp (Sample.packet 7 (Sample.longName 97)) = .ok q₁ ∧
      Parser.parseUdp (Sample.packet 9 (Sample.longName 98)) = .ok q₂ ∧
      Cache.queryKey Sample.display q₁ = Cache.queryKey Sample.display q₂ ∧
      ¬ SameQuestion q₁ q₂ := by
  refine ⟨Sample.display_injective, Sample.display_colon,
    ⟨List.replicate 62 'a' ++ '.' :: List.replicate 62 'a', RecordType.a,
      Sample.packet 7 (Sample.longName 97), 143⟩,
    ⟨List.replicate 62 'b' ++ '.' :: List.replicate 62 'a', RecordType.a,
      Sample.packet 9 (Sample.longName 98), 143⟩, by decide +kernel, by decide +kernel,
    by decide +kernel, fun h => absurd h.1 (by decide)⟩

end Server

end Denis
