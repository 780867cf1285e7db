import Denis.Dns.Server

/-!
# Access control across the listeners

Only `Worker::run` consults the access list. Whether a run keeps to it is
decided by the messages the other loops take in: `permitted_iff_covered` says
that all outputs of a run are permitted iff every message of the run is
`Covered`, that is, arrives at the monoio workers, comes from an allowed
client, or happens to need no reply and no upstream (or, for a refused client,
happens to be answered REFUSED because the name is blocked that way).

The cold channel and the calls under way need an invariant: while the run keeps
to the list, they hold requests of allowed clients only.
-/

namespace Denis

open Text

/-- What an access list permits to put out: nothing for a denied client,
REFUSED replies for a refused one. -/
def Output.Permitted (acl : Acl) : Output → Prop
  | .reply r =>
    match acl.decide r.client.addr.ip with
    | .allow => True
    | .deny => False
    | .refuse => rcodeFromRaw r.raw = .refused
  | .forward client _ => acl.decide client.addr.ip = .allow
  | .received _ => True

namespace Server

variable (display : RecordType → Str)

/-- A query that `handle_parsed` would neither block, nor find in the cache,
nor forward. -/
structure Unserved (s : Server) (query : Query) (now : Nat) : Prop where
  unblocked : s.cache.isBlocked query.name = false
  uncached : s.cache.l1Get display now query = none
  offline : s.config.upstreams = []

/-- A query of a refused client that is answered REFUSED anyway, being blocked
in that mode. -/
structure RefusedAnyway (s : Server) (client : Client) (query : Query) : Prop where
  refuse : s.acl.decide client.addr.ip = .refuse
  blocked : s.cache.isBlocked query.name = true
  mode : s.config.blockingMode = .refused

/-- The message keeps the access list, at the state it arrives in. -/
def Covered (s : Server) : Input → Prop
  | .message client packet clock =>
    client.listener = .monoUdp ∨ s.acl.decide client.addr.ip = .allow ∨
      ∀ query, Parser.parseUdp (client.listener.buffer packet) = .ok query →
        Unserved display s query clock.now ∨ RefusedAnyway s client query
  | _ => True

/-- **What access control rests on**: requests under way are of allowed
clients, and no cached response is a REFUSED. -/
structure AccessInvariant (acl : Acl) (s : Server) : Prop where
  list : s.acl = acl
  cache : ∀ k x, s.cache.l1 k = some x → rcodeFromRaw x.value.raw ≠ .refused
  cold : ∀ req ∈ s.cold, acl.decide req.client.addr.ip = .allow
  waiting : ∀ w ∈ s.waiting, acl.decide w.request.client.addr.ip = .allow

variable {display} {acl : Acl} {s s' : Server} {e : Input} {out : List Output}

theorem accessInvariant_start (runtime : Runtime) (acl : Acl) (config : RuntimeConfig)
    (blockList allowList : DomainSet) :
    AccessInvariant acl (start runtime acl config blockList allowList) := by
  refine ⟨rfl, fun k x h => ?_, by simp [start], by simp [start]⟩
  cases h

/-- `cache_ttl` stores no REFUSED. -/
theorem cacheTtl_not_refused {config : RuntimeConfig} {raw : Bytes} {off : Nat} {ttl : UInt32}
    (h : cacheTtl config raw off = some ttl) : rcodeFromRaw raw ≠ .refused := by
  unfold cacheTtl at h
  split at h
  · cases h
  · next b hb =>
    rw [rcodeFromRaw, hb]
    dsimp only at h ⊢
    by_cases h0 : b &&& 0x0F = 0
    · simp [h0]
    · by_cases h3 : b &&& 0x0F = 3
      · simp [h3]
      · simp [h0, h3] at h

/-- Storing a response keeps REFUSED out of the cache. -/
theorem store_not_refused {cache : Cache} {config : RuntimeConfig} {now : Nat} {query : Query}
    {raw : Bytes} (hcache : ∀ k x, cache.l1 k = some x → rcodeFromRaw x.value.raw ≠ .refused)
    (k : Str) (x : Timed L1Entry)
    (h : (QueryHandler.store display cache config now query raw).l1 k = some x) :
    rcodeFromRaw x.value.raw ≠ .refused := by
  rcases QueryHandler.store_l1 h with ⟨ttl, httl, -, rfl⟩ | hold
  · exact cacheTtl_not_refused httl
  · exact hcache k x hold

/-- What the first phase of `handle_parsed` serves is permitted iff the
client is allowed, or refused and answered so anyway. -/
theorem served_permitted_iff (hs : AccessInvariant acl s) (req : Request) {clock : Clock}
    {cache : Cache} {served : Served}
    (h : QueryHandler.beginParsed display s.cache s.config req.query clock = some (cache, served))
    (event : Option DnsQueryEvent) (time : Nat) :
    Output.Permitted acl (.reply ⟨req.client, req.packet, served.raw, event, time⟩) ↔
      acl.decide req.client.addr.ip = .allow ∨ RefusedAnyway s req.client req.query := by
  have hrefused : rcodeFromRaw served.raw = .refused ↔
      s.cache.isBlocked req.query.name = true ∧ s.config.blockingMode = .refused := by
    rcases QueryHandler.beginParsed_eq_some h with ⟨hblocked, -, hraw, -, -⟩ |
        ⟨hopen, x, hx, -, -, hraw, -, -⟩
    · rw [hraw, (UpstreamResponse.blocked_answers req.bounded s.config.blockingMode).code,
        UpstreamResponse.blocked_refused_iff req.bounded]
      exact ⟨fun hmode => ⟨hblocked, hmode⟩, And.right⟩
    · -- a hit is never REFUSED: no entry is
      rw [hraw, UpstreamResponse.cached_rcode, hopen]
      exact ⟨fun hcode => absurd hcode (hs.cache _ x hx), fun h => by cases h.1⟩
  dsimp only [Output.Permitted]
  cases hdecide : acl.decide req.client.addr.ip with
  | allow => simp
  | deny =>
    constructor
    · exact False.elim
    · rintro (hallow | ⟨hrefuse, -, -⟩)
      · cases hallow
      · rw [hs.list, hdecide] at hrefuse
        cases hrefuse
  | refuse =>
    dsimp only
    rw [hrefused]
    constructor
    · rintro ⟨hblocked, hmode⟩
      exact .inr ⟨by rw [hs.list, hdecide], hblocked, hmode⟩
    · rintro (hallow | ⟨-, hblocked, hmode⟩)
      · cases hallow
      · exact ⟨hblocked, hmode⟩

/-- Whether the input that starts `handle_parsed` on a request is covered. -/
theorem Begins.covered_iff (hs : AccessInvariant acl s) {req : Request} {clock : Clock}
    (h : Begins s e req clock) :
    Covered display s e ↔ acl.decide req.client.addr.ip = .allow ∨
      Unserved display s req.query clock.now ∨ RefusedAnyway s req.client req.query := by
  cases h with
  | cold hreq => simp [Covered, hs.cold req (List.mem_of_getElem? hreq)]
  | message hlistener _ =>
    rw [Covered, hs.list]
    constructor
    · rintro (hmono | hallow | hquery)
      · exact absurd hmono hlistener
      · exact .inl hallow
      · exact .inr (hquery _ req.parsed)
    · rintro (hallow | hquery)
      · exact .inr (.inl hallow)
      · refine .inr (.inr ?_)
        intro query hparse'
        rw [req.parsed] at hparse'
        exact Except.ok.inj hparse' ▸ hquery

/-- An input that starts no `handle_parsed` is covered. -/
theorem covered_of_not_begins (h : ∀ req clock, ¬ Begins s e req clock) :
    Covered display s e := by
  cases e with
  | message client packet clock =>
    by_cases hmono : client.listener = .monoUdp
    · exact .inl hmono
    · exact .inr (.inr fun query hparse => absurd
        (@Begins.message s ⟨client, packet, query, clock.timestampMs, hparse⟩ clock hmono rfl)
        (h _ _))
  | _ => trivial

/-- A call that goes upstream is covered iff its client is allowed. -/
theorem not_exempt_of_forwarded {query : Query} {client : Client} {clock : Clock}
    (h : QueryHandler.beginParsed display s.cache s.config query clock = none)
    (hup : s.config.upstreams ≠ []) :
    ¬ (Unserved display s query clock.now ∨ RefusedAnyway s client query) := by
  rintro (⟨-, -, hoffline⟩ | ⟨-, hblocked, -⟩)
  · exact hup hoffline
  · rw [(QueryHandler.beginParsed_eq_none.mp h).1] at hblocked
    cases hblocked

/-- **Exactness of a step**: an input is covered iff what the step puts out is
permitted. -/
theorem covered_iff_permitted (hs : AccessInvariant acl s)
    (h : s.step display e = some (s', out)) :
    Covered display s e ↔ ∀ o ∈ out, o.Permitted acl := by
  cases step_transition h with
  | idle hquiet _ _ => simpa using covered_of_not_begins hquiet
  | unserved hbegins hnone hoffline _ _ =>
    obtain ⟨hopen, huncached⟩ := QueryHandler.beginParsed_eq_none.mp hnone
    rw [hbegins.covered_iff hs]
    simpa using .inr (.inl ⟨hopen, huncached, hoffline⟩)
  | @refused req _ _ hmono hrefuse _ _ =>
    have hcode : rcodeFromRaw (UpstreamResponse.blocked req.query .refused).raw = .refused :=
      (UpstreamResponse.blocked_answers req.bounded .refused).code.trans
        ((UpstreamResponse.blocked_refused_iff req.bounded .refused).mpr rfl)
    rw [hs.list] at hrefuse
    simp [Covered, hmono, Output.Permitted, hrefuse, hcode]
  | hot hmono hallow _ _ _ _ =>
    rw [hs.list] at hallow
    simp [Covered, hmono, Output.Permitted, hallow]
  | hotMiss hmono _ _ _ => simp [Covered, hmono]
  | handled hbegins hbegin _ _ _ =>
    rw [hbegins.covered_iff hs, List.forall_mem_singleton]
    rw [served_permitted_iff hs _ hbegin]
    constructor
    · rintro (hallow | ⟨hopen, huncached, -⟩ | hrefused)
      · exact .inl hallow
      · rw [QueryHandler.beginParsed_eq_none.mpr ⟨hopen, huncached⟩] at hbegin
        cases hbegin
      · exact .inr hrefused
    · rintro (hallow | hrefused)
      · exact .inl hallow
      · exact .inr (.inr hrefused)
  | forwarded hbegins hnone hup _ _ =>
    rw [hbegins.covered_iff hs, List.forall_mem_singleton, Output.Permitted]
    exact ⟨fun h => h.resolve_right (not_exempt_of_forwarded hnone hup), .inl⟩
  | relayed hw _ _ _ _ _ => simp [Covered, Output.Permitted, hs.waiting _ hw]

/-- What a frame leaves of the invariant to show. -/
theorem Frame.accessInvariant {cold : List Request} {waiting : List Waiting}
    (hf : Frame s e s' cold waiting) (hs : AccessInvariant acl s)
    (hcache : ∀ k x, s'.cache.l1 k = some x → rcodeFromRaw x.value.raw ≠ .refused)
    (hcold : ∀ req ∈ cold, acl.decide req.client.addr.ip = .allow)
    (hwaiting : ∀ w ∈ waiting, acl.decide w.request.client.addr.ip = .allow) :
    AccessInvariant acl s' :=
  ⟨hf.acl.trans hs.list, hcache, hf.cold_forall hs.cold hcold,
    hf.waiting_forall hs.waiting hwaiting⟩

/-- A covered step keeps the invariant. -/
theorem accessInvariant_step (hs : AccessInvariant acl s) (hcovered : Covered display s e)
    (h : s.step display e = some (s', out)) : AccessInvariant acl s' := by
  cases step_transition h with
  | idle _ hframe hl1 =>
    exact hframe.accessInvariant hs (hl1 ▸ hs.cache) (by simp) (by simp)
  | unserved _ _ _ hframe hcache =>
    exact hframe.accessInvariant hs (hcache ▸ hs.cache) (by simp) (by simp)
  | refused _ _ hframe hcache =>
    exact hframe.accessInvariant hs (hcache ▸ hs.cache) (by simp) (by simp)
  | hot _ _ _ hframe hcache _ =>
    exact hframe.accessInvariant hs (hcache ▸ hs.cache) (by simp) (by simp)
  | hotMiss _ hallow hframe hcache =>
    rw [hs.list] at hallow
    exact hframe.accessInvariant hs (hcache ▸ hs.cache) (by simpa using hallow) (by simp)
  | handled hbegins hbegin hframe hcache _ =>
    refine hframe.accessInvariant hs ?_ (by simp) (by simp)
    rw [hcache]
    rcases QueryHandler.beginParsed_eq_some hbegin with ⟨-, rfl, -, -, -⟩ |
        ⟨-, x, -, -, rfl, -, -, -⟩
    · exact hs.cache
    · exact store_not_refused hs.cache
  | forwarded hbegins hnone hup hframe hcache =>
    -- a covered query that goes upstream is an allowed client's
    refine hframe.accessInvariant hs (hcache ▸ hs.cache) (by simp) ?_
    have hallow := ((hbegins.covered_iff hs).mp hcovered).resolve_right
      (not_exempt_of_forwarded hnone hup)
    simpa using hallow
  | relayed _ _ _ hframe hcache _ =>
    refine hframe.accessInvariant hs ?_ (by simp) (by simp)
    rw [hcache]
    exact store_not_refused hs.cache

/-- **Access control over runs**: a run puts out only what the access list
permits iff each of its messages is covered. -/
theorem permitted_iff_covered {runtime : Runtime} {config : RuntimeConfig}
    {blockList allowList : DomainSet} {es : List Input} {t : Server} {outs : List Output}
    (hrun : (machine display).run (start runtime acl config blockList allowList) es =
      some (t, outs)) :
    (∀ o ∈ outs, o.Permitted acl) ↔
      (machine display).Along (Covered display) (start runtime acl config blockList allowList) es :=
  (Machine.along_iff_outputs (M := machine display)
    (fun _ _ _ _ hs hc h => accessInvariant_step hs hc h)
    (fun _ _ _ _ hs h => covered_iff_permitted hs h) (accessInvariant_start ..) hrun).symm

/-- An access list that denies every address. -/
def denyAll : Acl := ⟨[⟨.deny, [⟨fun _ => true⟩]⟩]⟩

/-- A denied client, served by nobody at the monoio workers. -/
theorem monoio_denies : ∃ t outs,
    (machine Sample.display).run (start .monoio denyAll Sample.config ∅ ∅)
      [Sample.ask (Sample.client .monoUdp 1) 7 0] =
        some (t, outs) ∧
    (∀ o ∈ outs, o.Permitted denyAll) := by
  obtain ⟨⟨t, outs⟩, hrun, -⟩ := Option.map_eq_some_iff.mp
    (show ((machine Sample.display).run (start .monoio denyAll Sample.config ∅ ∅)
      [Sample.ask (Sample.client .monoUdp 1) 7 0]).map Prod.snd = some [] by decide +kernel)
  refine ⟨t, outs, hrun, (permitted_iff_covered hrun).mpr ⟨.inl rfl, fun _ _ _ => trivial⟩⟩

/-- **The tokio UDP loop never looks at the access list**: a denied client's
query is forwarded and answered. -/
theorem tokio_serves_denied : ∃ es t outs,
    (machine Sample.display).run (start .tokio denyAll Sample.config ∅ ∅) es = some (t, outs) ∧
    ¬ ∀ o ∈ outs, o.Permitted denyAll := by
  obtain ⟨⟨t, outs⟩, hrun, hout⟩ := Option.map_eq_some_iff.mp
    (show ((machine Sample.display).run (start .tokio denyAll Sample.config ∅ ∅)
      [Sample.ask (Sample.client .tokioUdp 1) 7 0]).map Prod.snd =
      some [.forward (Sample.client .tokioUdp 1) (Sample.query 7)] by decide +kernel)
  refine ⟨_, t, outs, hrun, ?_⟩
  intro hall
  obtain rfl : outs = _ := hout
  have hallow : denyAll.decide (Sample.client .tokioUdp 1).addr.ip = .allow :=
    hall _ (List.mem_singleton_self _)
  exact absurd hallow (by decide)

end Server

end Denis
