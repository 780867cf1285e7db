import Denis.Dns.Levels

/-!
# What the cache replays

Whatever is cached, in the process or in Redis, was accepted from an upstream for
a query of the key it is under, byte for byte, with RCODE NOERROR or NXDOMAIN; and
an entry of L1 is the one last put there, with a TTL within the bounds of the
configuration of that moment (`Invariant`, `Explained`). So what is replayed is
such a response with the id patched, and no reply to a blocked query is ever
replayed (`only_good_answers`).
-/

namespace Denis

open Text

/-- A response of RCODE NOERROR or NXDOMAIN, long enough to have one. -/
structure GoodResponse (raw : Bytes) : Prop where
  long : 4 ≤ raw.length
  rcode : rcodeFromRaw raw = .noError ∨ rcodeFromRaw raw = .nxDomain

/-- A TTL within the bounds of a configuration. -/
structure RuntimeConfig.Bounds (config : RuntimeConfig) (ttl : UInt32) : Prop where
  low : config.cacheMinTtl ≤ ttl
  high : ttl ≤ max config.cacheMinTtl config.cacheMaxTtl

theorem RuntimeConfig.clampTtl_bounds (config : RuntimeConfig) (ttl : UInt32) :
    config.Bounds (config.clampTtl ttl) := by
  have hmax (a b : UInt32) : max a b = if a ≤ b then b else a := rfl
  refine ⟨?_, ?_⟩
  · rw [clampTtl, hmax, clamp]
    grind
  · rw [clampTtl, hmax, hmax, clamp]
    grind

theorem eq_of_ite_some {α : Type} {p q : Prop} [Decidable p] [Decidable q] {a b c : α}
    (h : (if p then some a else if q then some b else none) = some c) :
    (p ∧ a = c) ∨ (q ∧ b = c) := by
  split at h
  · next hp => exact .inl ⟨hp, Option.some.inj h⟩
  · split at h
    · next hq => exact .inr ⟨hq, Option.some.inj h⟩
    · cases h

/-- **Only good responses are given a TTL**, and one within the bounds. -/
theorem cacheTtl_good {config : RuntimeConfig} {raw : Bytes} {off : Nat} {ttl : UInt32}
    (h : cacheTtl config raw off = some ttl) : GoodResponse raw ∧ config.Bounds ttl := by
  have hlong := QueryHandler.cacheTtl_length h
  unfold cacheTtl at h
  split at h
  · cases h
  · next b hb =>
    have hcode : (b &&& 0x0F = 0 ∨ b &&& 0x0F = 3) ∧ config.Bounds ttl := by
      rcases eq_of_ite_some h with ⟨⟨hzero, -⟩, rfl⟩ | ⟨hcode, rfl⟩
      · exact ⟨.inl hzero, config.clampTtl_bounds _⟩
      · exact ⟨hcode, config.clampTtl_bounds _⟩
    refine ⟨⟨hlong, ?_⟩, hcode.2⟩
    rw [rcodeFromRaw, hb]
    dsimp only
    rcases hcode.1 with hcode | hcode
    · rw [hcode]
      exact .inl rfl
    · rw [hcode]
      exact .inr rfl

/-- Patching the id leaves a response as good. -/
theorem GoodResponse.cached {raw : Bytes} (h : GoodResponse raw) (query : Query) :
    GoodResponse (UpstreamResponse.cached query raw).raw := by
  refine ⟨?_, ?_⟩
  · rw [UpstreamResponse.cached_length]
    exact h.long
  · rw [UpstreamResponse.cached_rcode]
    exact h.rcode

namespace Levels

/-- A query of the run. -/
def Asked (es : List Input) (query : ParsedQuery) : Prop := ∃ e ∈ es, Poses query e

/-- The stored bytes an answer was made from. -/
def Source.stored : Source → Option Bytes
  | .l1 entry => some entry.value.raw
  | .redis value => some value.value.raw
  | _ => none

/-- The entry put under a key, with the configuration in force. -/
def Output.insertedAt (k : Str) : Output → Option (Timed L1Entry × RuntimeConfig)
  | .inserted key entry config _ => if key = k then some (entry, config) else none
  | _ => none

variable (display : RecordType → Str) (es : List Input)

/-- The bytes were accepted from an upstream, for a query of the run of this key. -/
def Received (history : List Output) (k : Str) (raw : Bytes) : Prop :=
  ∃ query time, .received query raw time ∈ history ∧ Asked es query ∧ key display query = k

/-- What a call carries is in the history. -/
def Backed (history : List Output) : Call → Prop
  | .found query value => ∃ time, .saved (key display query) value time ∈ history
  | .setex query raw _ => GoodResponse raw ∧ ∃ time, .received query raw time ∈ history
  | _ => True

/-- What an answer that is not from the cache was made of. -/
def Made (history : List Output) (query : ParsedQuery) (raw : Bytes) : Source → Prop
  | .blocked => ∃ mode, raw = (UpstreamResponse.blocked query.1 mode).raw
  | .upstream => ∃ time, .received query raw time ∈ history
  | _ => True

/-- **What an output says of the history.** -/
def Explained (history : List Output) : Output → Prop
  | .received query _ _ => Asked es query
  | .inserted k entry config _ =>
    Received display es history k entry.value.raw ∧ GoodResponse entry.value.raw ∧
      config.Bounds entry.value.ttl
  | .saved k value time =>
    Received display es history k value.value.raw ∧ GoodResponse value.value.raw ∧
      value.deadline = time + fromSecs value.value.ttl
  | .answered query raw source _ => Asked es query ∧ Made history query raw source

/-- An answer from the cache is a good response received for its key, with the id
patched. -/
def Replayed (history : List Output) : Output → Prop
  | .answered query raw source _ => ∀ stored, source.stored = some stored →
      Received display es history (key display query) stored ∧ GoodResponse stored ∧
        raw = (UpstreamResponse.cached query.1 stored).raw
  | _ => True

/-- **The state by the history**: what calls carry is backed, an entry of L1 is the
last put under its key, a value of Redis was saved. -/
structure Invariant (history : List Output) (s : Levels) : Prop where
  asked : ∀ c ∈ s.calls, Asked es c.query
  backed : ∀ c ∈ s.calls, Backed display history c
  entries : ∀ k x, s.cache.l1 k = some x →
    ∃ config, Machine.last (Output.insertedAt k) history = some (x, config)
  values : ∀ k y, s.redis k = some y → ∃ time, .saved k y time ∈ history

variable {display es} {history out : List Output} {s s' : Levels} {e : Input}
  {query : ParsedQuery} {raw : Bytes}

theorem Received.mono {k : Str} (h : Received display es history k raw) (out : List Output) :
    Received display es (history ++ out) k raw := by
  obtain ⟨query, time, hmem, hrest⟩ := h
  exact ⟨query, time, List.mem_append_left _ hmem, hrest⟩

theorem Backed.mono {c : Call} (h : Backed display history c) (out : List Output) :
    Backed display (history ++ out) c := by
  cases c with
  | found query value =>
    obtain ⟨time, hmem⟩ := h
    exact ⟨time, List.mem_append_left _ hmem⟩
  | setex query raw ttl =>
    obtain ⟨hgood, time, hmem⟩ := h
    exact ⟨hgood, time, List.mem_append_left _ hmem⟩
  | _ => trivial

theorem Explained.mono {o : Output} (h : Explained display es history o) (out : List Output) :
    Explained display es (history ++ out) o := by
  cases o with
  | inserted k entry config source => exact ⟨h.1.mono out, h.2⟩
  | saved k value time => exact ⟨h.1.mono out, h.2⟩
  | answered query raw source time =>
    refine ⟨h.1, ?_⟩
    cases source with
    | upstream =>
      obtain ⟨time, hmem⟩ := h.2
      exact ⟨time, List.mem_append_left _ hmem⟩
    | _ => exact h.2
  | received query raw time => exact h

theorem Replayed.mono (history out : List Output) (o : Output)
    (h : Replayed display es history o) : Replayed display es (history ++ out) o := by
  cases o with
  | answered query raw source time =>
    intro stored hstored
    obtain ⟨hreceived, hrest⟩ := h stored hstored
    exact ⟨hreceived.mono out, hrest⟩
  | _ => trivial

theorem invariant_start (redisOn : Bool) (config : RuntimeConfig)
    (blockList allowList : DomainSet) :
    Invariant display es [] (start redisOn config blockList allowList) := by
  refine ⟨by simp [start], by simp [start], ?_, ?_⟩
  · intro k x h
    cases h
  · intro k y h
    cases h

/-- Who poses a query of the run asks it. -/
theorem Poses.asked (h : Poses query e) (he : e ∈ es) : Asked es query := ⟨e, he, h⟩

/-! ## What storing does -/

theorem mem_insertion {o : Output} {source : Source} :
    o ∈ s.insertion display query raw source ↔
      ∃ ttl, cacheTtl s.config raw query.1.answerOffset = some ttl ∧
        o = .inserted (key display query) ⟨⟨raw, ttl⟩, s.now + fromSecs ttl⟩ s.config source := by
  unfold insertion
  split
  · next ttl httl => simp [httl]
  · next hnone => simp [hnone]

/-- An entry after storing: the new one, or one the response did not replace. -/
theorem Stores.l1 (hs : Stores display s s' query raw) {k : Str} {x : Timed L1Entry}
    (h : s'.cache.l1 k = some x) :
    (∃ ttl, cacheTtl s.config raw query.1.answerOffset = some ttl ∧ k = key display query ∧
      x = ⟨⟨raw, ttl⟩, s'.now + fromSecs ttl⟩) ∨
    (s.cache.l1 k = some x ∧
      ∀ ttl, cacheTtl s.config raw query.1.answerOffset = some ttl → k ≠ key display query) := by
  rw [hs.cache, QueryHandler.store] at h
  split at h
  · next ttl httl =>
    rcases TtlMap.insert_eq_some.mp h with ⟨rfl, rfl⟩ | ⟨hk, hold⟩
    · exact .inl ⟨ttl, httl, rfl, rfl⟩
    · exact .inr ⟨hold, fun _ _ => hk⟩
  · next hnone =>
    refine .inr ⟨h, fun ttl httl => ?_⟩
    rw [hnone] at httl
    cases httl

/-- Outputs that put nothing into L1. -/
def Quiet (out : List Output) : Prop := ∀ k, ∀ o ∈ out, o.insertedAt k = none

/-- An entry that stays is still the last put under its key. -/
theorem Invariant.entry (hs : Invariant display es history s) (hquiet : Quiet out) {k : Str}
    {x : Timed L1Entry} (hx : s.cache.l1 k = some x) :
    ∃ config, Machine.last (Output.insertedAt k) (history ++ out) = some (x, config) := by
  obtain ⟨config, hlast⟩ := hs.entries k x hx
  exact ⟨config, (Machine.last_append_of_none (hquiet k)).trans hlast⟩

/-- **After storing**, the entries are those last put there. -/
theorem Invariant.stores (hs : Invariant display es history s)
    (hstores : Stores display s s' query raw) {pre post : List Output} (hpre : Quiet pre)
    (hpost : Quiet post) {source : Source} {k : Str} {x : Timed L1Entry}
    (hx : s'.cache.l1 k = some x) :
    ∃ config, Machine.last (Output.insertedAt k) (history ++
      (pre ++ insertion display { s with now := s'.now } query raw source ++ post)) =
        some (x, config) := by
  rw [← List.append_assoc, ← List.append_assoc, Machine.last_append_of_none (hpost k)]
  rcases hstores.l1 hx with ⟨ttl, httl, rfl, rfl⟩ | ⟨hold, hkept⟩
  · refine ⟨s.config, ?_⟩
    rw [Machine.last_append, insertion, httl]
    simp [Machine.last, Output.insertedAt]
  · obtain ⟨config, hlast⟩ := hs.entry hpre hold
    refine ⟨config, ?_⟩
    rw [Machine.last_append_of_none, hlast]
    intro o ho
    obtain ⟨ttl, httl, rfl⟩ := mem_insertion.mp ho
    exact if_neg fun h => hkept ttl httl h.symm

/-- What is put into L1 is explained, if its bytes are good and were received. -/
theorem explained_insertion {source : Source}
    (hreceived : Received display es history (key display query) raw) {o : Output}
    (ho : o ∈ s.insertion display query raw source) : Explained display es history o := by
  obtain ⟨ttl, httl, rfl⟩ := mem_insertion.mp ho
  obtain ⟨hgood, hbounds⟩ := cacheTtl_good httl
  exact ⟨hreceived, hgood, hbounds⟩

theorem Output.eq_of_insertedAt {o : Output} {k : Str} {x : Timed L1Entry}
    {config : RuntimeConfig} (h : o.insertedAt k = some (x, config)) :
    ∃ source, o = .inserted k x config source := by
  cases o with
  | inserted key entry config' source =>
    rw [insertedAt] at h
    split at h
    · next hk =>
      obtain ⟨rfl, rfl⟩ := Prod.mk.inj (Option.some.inj h)
      exact ⟨source, by rw [hk]⟩
    · cases h
  | received query raw time => cases h
  | saved k value time => cases h
  | answered query raw source time => cases h

/-- The bytes of an entry. -/
theorem Invariant.entry_received (hs : Invariant display es history s)
    (hh : ∀ o ∈ history, Explained display es history o) {k : Str} {x : Timed L1Entry}
    (hx : s.cache.l1 k = some x) :
    Received display es history k x.value.raw ∧ GoodResponse x.value.raw := by
  obtain ⟨config, hlast⟩ := hs.entries k x hx
  obtain ⟨o, ho, hread⟩ := Machine.mem_of_last hlast
  obtain ⟨source, rfl⟩ := Output.eq_of_insertedAt hread
  obtain ⟨hreceived, hgood, -⟩ := hh _ ho
  exact ⟨hreceived, hgood⟩

/-- The bytes of a value on its way from Redis. -/
theorem Invariant.found_received (hs : Invariant display es history s)
    (hh : ∀ o ∈ history, Explained display es history o) {y : Timed RedisValue}
    (hy : .found query y ∈ s.calls) :
    Received display es history (key display query) y.value.raw ∧
      GoodResponse y.value.raw := by
  obtain ⟨time, hmem⟩ := hs.backed _ hy
  obtain ⟨hreceived, hgood, -⟩ := hh _ hmem
  exact ⟨hreceived, hgood⟩

/-! ## The step -/

/-- What a frame leaves of the invariant to show. -/
theorem Invariant.next (hs : Invariant display es history s) {new : List Call}
    (hframe : Frame s e s' new)
    (hnew : ∀ c ∈ new, Asked es c.query ∧ Backed display (history ++ out) c)
    (hentries : ∀ k x, s'.cache.l1 k = some x →
      ∃ config, Machine.last (Output.insertedAt k) (history ++ out) = some (x, config))
    (hvalues : ∀ k y, s'.redis k = some y → ∃ time, .saved k y time ∈ history ++ out) :
    Invariant display es (history ++ out) s' := by
  refine ⟨fun c hc => ?_, fun c hc => ?_, hentries, hvalues⟩
  · rcases hframe.calls c hc with hc | hc
    · exact hs.asked c hc
    · exact (hnew c hc).1
  · rcases hframe.calls c hc with hc | hc
    · exact (hs.backed c hc).mono out
    · exact (hnew c hc).2

/-- A value that stays was saved. -/
theorem Invariant.value (hs : Invariant display es history s) (out : List Output) {k : Str}
    {y : Timed RedisValue} (hy : s.redis k = some y) :
    ∃ time, .saved k y time ∈ history ++ out := by
  obtain ⟨time, hmem⟩ := hs.values k y hy
  exact ⟨time, List.mem_append_left _ hmem⟩

/-- A step that keeps both levels. -/
theorem Invariant.keeps (hs : Invariant display es history s) {new : List Call}
    (hframe : Frame s e s' new) (hkeeps : Keeps s s') (hquiet : Quiet out)
    (hnew : ∀ c ∈ new, Asked es c.query ∧ Backed display (history ++ out) c) :
    Invariant display es (history ++ out) s' :=
  hs.next hframe hnew (fun k x hx => hs.entry hquiet (hkeeps.l1 k x hx))
    fun k y hy => hs.value out (hkeeps.redis k y hy)

theorem quiet_nil : Quiet [] := by
  intro k o ho
  cases ho

theorem quiet_answered (query : ParsedQuery) (raw : Bytes) (source : Source) (time : Nat) :
    Quiet [.answered query raw source time] := by
  intro k o ho
  obtain rfl := List.mem_singleton.mp ho
  rfl

/-- A step that answers with bytes stored again. -/
theorem Invariant.replays (hs : Invariant display es history s)
    (hasked : Asked es query) {source : Source} (hstored : source.stored = some raw)
    (hreceived : Received display es history (key display query) raw ∧ GoodResponse raw)
    (hframe : Frame s e s' []) (hstores : Stores display s s' query raw)
    (hout : out = insertion display { s with now := s'.now } query raw source ++
      [.answered query (UpstreamResponse.cached query.1 raw).raw source s'.now]) :
    Invariant display es (history ++ out) s' ∧
      (∀ o ∈ out, Explained display es (history ++ out) o) ∧
      ∀ o ∈ out, Replayed display es history o := by
  subst hout
  refine ⟨hs.next hframe (by simp) (fun k x hx => ?_) (fun k y hy => ?_), ?_, ?_⟩
  · exact hs.stores hstores quiet_nil (quiet_answered _ _ _ _) hx
  · exact hs.value _ (hstores.redis ▸ hy)
  · intro o ho
    rcases List.mem_append.mp ho with ho | ho
    · exact explained_insertion (hreceived.1.mono _) ho
    · obtain rfl := List.mem_singleton.mp ho
      refine ⟨hasked, ?_⟩
      cases source with
      | l1 entry => trivial
      | redis value => trivial
      | blocked => cases hstored
      | upstream => cases hstored
  · intro o ho
    rcases List.mem_append.mp ho with ho | ho
    · obtain ⟨ttl, -, rfl⟩ := mem_insertion.mp ho
      trivial
    · obtain rfl := List.mem_singleton.mp ho
      intro stored hsame
      obtain rfl := Option.some.inj (hstored.symm.trans hsame)
      exact ⟨hreceived.1, hreceived.2, rfl⟩

/-- An answer that is not from the cache. -/
theorem replayed_of_fresh {source : Source} (h : source.stored = none) (time : Nat) :
    ∀ o ∈ [Output.answered query raw source time], Replayed display es history o := by
  intro o ho
  obtain rfl := List.mem_singleton.mp ho
  intro stored hstored
  rw [h] at hstored
  cases hstored

/-- A step that receives a response, and answers with it or goes on to save it. -/
theorem Invariant.receives (hs : Invariant display es history s)
    (hasked : Asked es query) {bytes : Bytes} {new : List Call} (hframe : Frame s e s' new)
    (hstores : Stores display s s' query (exchangeResponse bytes).raw)
    (hrest : new = [] ∧ out = [.answered query (exchangeResponse bytes).raw .upstream s'.now] ∨
      ∃ ttl, cacheTtl s.config (exchangeResponse bytes).raw query.1.answerOffset = some ttl ∧
        new = [.setex query (exchangeResponse bytes).raw ttl] ∧ out = []) :
    let out := .received query (exchangeResponse bytes).raw s'.now ::
      insertion display { s with now := s'.now } query (exchangeResponse bytes).raw .upstream ++ out
    Invariant display es (history ++ out) s' ∧
      (∀ o ∈ out, Explained display es (history ++ out) o) ∧
      ∀ o ∈ out, Replayed display es history o := by
  have hpre : Quiet [.received query (exchangeResponse bytes).raw s'.now] := by
    intro k o ho
    obtain rfl := List.mem_singleton.mp ho
    rfl
  have hmem (post : List Output) : Output.received query (exchangeResponse bytes).raw s'.now ∈
      history ++ (.received query (exchangeResponse bytes).raw s'.now :: post) :=
    List.mem_append_right _ (List.mem_cons_self ..)
  have hpost : Quiet out := by
    rcases hrest with ⟨-, rfl⟩ | ⟨_, -, -, rfl⟩
    · exact quiet_answered _ _ _ _
    · exact quiet_nil
  refine ⟨hs.next hframe ?_ (fun k x hx => hs.stores hstores hpre hpost hx)
    (fun k y hy => hs.value _ (hstores.redis ▸ hy)), ?_, ?_⟩
  · rcases hrest with ⟨rfl, -⟩ | ⟨ttl, httl, rfl, -⟩
    · simp
    · rw [List.forall_mem_singleton]
      exact ⟨hasked, (cacheTtl_good httl).1, _, hmem _⟩
  · intro o ho
    rcases List.mem_append.mp ho with ho | ho
    · rcases List.mem_cons.mp ho with rfl | ho
      · exact hasked
      · exact explained_insertion ⟨query, _, hmem _, hasked, rfl⟩ ho
    · rcases hrest with ⟨-, rfl⟩ | ⟨_, -, -, rfl⟩
      · obtain rfl := List.mem_singleton.mp ho
        exact ⟨hasked, _, hmem _⟩
      · cases ho
  · intro o ho
    rcases List.mem_append.mp ho with ho | ho
    · rcases List.mem_cons.mp ho with rfl | ho
      · trivial
      · obtain ⟨ttl, -, rfl⟩ := mem_insertion.mp ho
        trivial
    · rcases hrest with ⟨-, rfl⟩ | ⟨_, -, -, rfl⟩
      · exact replayed_of_fresh rfl _ o ho
      · cases ho

/-- A step that saves a response in Redis and answers with it. -/
theorem Invariant.saves (hs : Invariant display es history s) {ttl : UInt32}
    (hcall : .setex query raw ttl ∈ s.calls) (hframe : Frame s e s' [])
    (hcache : s'.cache = s.cache)
    (hredis : s'.redis =
      s.redis.insert s'.now (key display query) ⟨raw, ttl⟩ (fromSecs ttl)) :
    let out := [.saved (key display query) ⟨⟨raw, ttl⟩, s'.now + fromSecs ttl⟩ s'.now,
      .answered query raw .upstream s'.now]
    Invariant display es (history ++ out) s' ∧
      (∀ o ∈ out, Explained display es (history ++ out) o) ∧
      ∀ o ∈ out, Replayed display es history o := by
  have hasked := hs.asked _ hcall
  obtain ⟨hgood, time, hmem⟩ := hs.backed _ hcall
  have hquiet : Quiet [.saved (key display query) ⟨⟨raw, ttl⟩, s'.now + fromSecs ttl⟩ s'.now,
      .answered query raw .upstream s'.now] := by
    intro k o ho
    rcases List.mem_pair.mp ho with rfl | rfl <;> rfl
  refine ⟨hs.next hframe (by simp) (fun k x hx => hs.entry hquiet (hcache ▸ hx)) ?_, ?_, ?_⟩
  · intro k y hy
    rw [hredis] at hy
    rcases TtlMap.insert_eq_some.mp hy with ⟨rfl, rfl⟩ | ⟨-, hold⟩
    · exact ⟨s'.now, by simp⟩
    · exact hs.value _ hold
  · intro o ho
    rcases List.mem_pair.mp ho with rfl | rfl
    · exact ⟨⟨query, time, List.mem_append_left _ hmem, hasked, rfl⟩, hgood, rfl⟩
    · exact ⟨hasked, time, List.mem_append_left _ hmem⟩
  · intro o ho
    rcases List.mem_pair.mp ho with rfl | rfl
    · trivial
    · exact replayed_of_fresh rfl _ _ (List.mem_singleton_self _)

/-- **Step lemma**: a step on an input of the run keeps the invariant; its outputs are
explained, and its answers from the cache replay what was received before. -/
theorem step_invariant (hs : Invariant display es history s)
    (hh : ∀ o ∈ history, Explained display es history o) (he : e ∈ es)
    (h : s.step display e = some (s', out)) :
    Invariant display es (history ++ out) s' ∧
      (∀ o ∈ out, Explained display es (history ++ out) o) ∧
      ∀ o ∈ out, Replayed display es history o := by
  cases step_transition h with
  | idle hframe hkeeps =>
    exact ⟨hs.keeps hframe hkeeps quiet_nil (by simp), by simp, by simp⟩
  | blocked hposes _ hframe hkeeps =>
    refine ⟨hs.keeps hframe hkeeps (quiet_answered _ _ _ _) (by simp), ?_, replayed_of_fresh rfl _⟩
    rw [List.forall_mem_singleton]
    exact ⟨hposes.asked he, _, rfl⟩
  | hot hposes _ hx _ hframe hkeeps =>
    refine ⟨hs.keeps hframe hkeeps (quiet_answered _ _ _ _) (by simp), ?_, ?_⟩
    · rw [List.forall_mem_singleton]
      exact ⟨hposes.asked he, trivial⟩
    · rw [List.forall_mem_singleton]
      intro stored hstored
      obtain rfl := Option.some.inj hstored
      obtain ⟨hreceived, hgood⟩ := hs.entry_received hh hx
      exact ⟨hreceived, hgood, rfl⟩
  | hit hposes _ hx _ hframe hstores =>
    exact hs.replays (hposes.asked he) rfl (hs.entry_received hh hx) hframe hstores rfl
  | missed hposes _ hcall hframe hkeeps =>
    refine ⟨hs.keeps hframe hkeeps quiet_nil ?_, by simp, by simp⟩
    rw [List.forall_mem_singleton]
    rcases hcall with rfl | rfl
    · exact ⟨hposes.asked he, trivial⟩
    · exact ⟨hposes.asked he, trivial⟩
  | gotten hget hcall hframe hkeeps =>
    refine ⟨hs.keeps hframe hkeeps quiet_nil ?_, by simp, by simp⟩
    rw [List.forall_mem_singleton]
    have hasked := hs.asked _ hget
    rcases hcall with rfl | ⟨y, hy, -, rfl⟩
    · exact ⟨hasked, trivial⟩
    · exact ⟨hasked, hs.value _ hy⟩
  | promoted hfound _ hframe hstores =>
    have hmem := List.mem_of_getElem? hfound
    exact hs.replays (hs.asked _ hmem) rfl (hs.found_received hh hmem) hframe hstores rfl
  | received hcall _ hframe hstores hrest =>
    exact hs.receives (hs.asked _ (List.mem_of_getElem? hcall)) hframe hstores hrest
  | saved hcall hframe hcache hredis => exact hs.saves hcall hframe hcache hredis
  | unsaved hcall hframe hkeeps =>
    refine ⟨hs.keeps hframe hkeeps (quiet_answered _ _ _ _) (by simp), ?_, replayed_of_fresh rfl _⟩
    rw [List.forall_mem_singleton]
    obtain ⟨-, time, hmem⟩ := hs.backed _ hcall
    exact ⟨hs.asked _ hcall, time, List.mem_append_left _ hmem⟩

/-- **Run lemma.** -/
theorem run_explained {redisOn : Bool} {config : RuntimeConfig} {blockList allowList : DomainSet}
    {t : Levels} {outs : List Output}
    (hrun : (machine display).run (start redisOn config blockList allowList) es =
      some (t, outs)) :
    Invariant display es outs t ∧ (∀ o ∈ outs, Explained display es outs o) ∧
      Machine.Justified (Replayed display es) outs := by
  refine Machine.run_history (M := machine display) (C := fun _ e => e ∈ es)
    (J := fun h s => Invariant display es h s ∧ (∀ o ∈ h, Explained display es h o) ∧
      Machine.Justified (Replayed display es) h)
    (fun h s e s' out hj he hs => ?_) (h := [])
    ⟨invariant_start .., by simp, Machine.justified_nil _⟩
    (Machine.along_of_forall (fun _ he => he) _) hrun
  obtain ⟨hinv, hexplained, hjustified⟩ := hj
  obtain ⟨hnext, hout, hreplayed⟩ := step_invariant hinv hexplained he hs
  refine ⟨hnext, fun o ho => ?_, hjustified.append Replayed.mono hreplayed⟩
  rcases List.mem_append.mp ho with ho | ho
  · exact (hexplained o ho).mono out
  · exact hout o ho

/-- Only a blocked name is answered with a blocked reply. -/
theorem blocked_of_answered (h : s.step display e = some (s', out)) {time : Nat}
    (hout : .answered query raw .blocked time ∈ out) :
    s.cache.isBlocked query.1.name = true := by
  have hinsertion {m : Levels} {q : ParsedQuery} {bytes : Bytes} {source : Source} :
      Output.answered query raw .blocked time ∉ m.insertion display q bytes source := by
    intro hmem
    obtain ⟨ttl, -, ho⟩ := mem_insertion.mp hmem
    cases ho
  cases step_transition h with
  | blocked _ hblocked =>
    obtain ⟨rfl, -⟩ := Output.answered.inj (List.mem_singleton.mp hout)
    exact hblocked
  | received _ _ _ _ hrest =>
    rcases hrest with ⟨-, rfl⟩ | ⟨_, -, -, rfl⟩ <;> simp [hinsertion] at hout
  | _ => simp [hinsertion] at hout

/-- **Only good upstream answers are replayed.** After any run, each entry of L1 is a
response accepted from an upstream for its key, byte for byte, of RCODE NOERROR or
NXDOMAIN, and with a TTL within the bounds in force when it was put there; each
answer from the cache was such a response, with the id patched; and a blocked reply
is only ever made for a name that is blocked at that moment. -/
theorem only_good_answers {redisOn : Bool} {config : RuntimeConfig}
    {blockList allowList : DomainSet} {t : Levels} {outs : List Output}
    (hrun : (machine display).run (start redisOn config blockList allowList) es =
      some (t, outs)) :
    (∀ k x, t.cache.l1 k = some x →
      Received display es outs k x.value.raw ∧ GoodResponse x.value.raw ∧
        ∃ config, Machine.last (Output.insertedAt k) outs = some (x, config) ∧
          config.Bounds x.value.ttl) ∧
    Machine.Justified (Replayed display es) outs ∧
    (∀ query raw source time, .answered query raw source time ∈ outs → source.stored ≠ none →
      GoodResponse raw) ∧
    ∀ e t' out query raw time, t.step display e = some (t', out) →
      .answered query raw .blocked time ∈ out → t.cache.isBlocked query.1.name = true := by
  obtain ⟨hinv, hexplained, hjustified⟩ := run_explained hrun
  refine ⟨fun k x hx => ?_, hjustified, ?_, fun _ _ _ _ _ _ h hout => blocked_of_answered h hout⟩
  · obtain ⟨hreceived, hgood⟩ := hinv.entry_received hexplained hx
    obtain ⟨config, hlast⟩ := hinv.entries k x hx
    refine ⟨hreceived, hgood, config, hlast, ?_⟩
    obtain ⟨o, ho, hread⟩ := Machine.mem_of_last hlast
    obtain ⟨source, rfl⟩ := Output.eq_of_insertedAt hread
    exact (hexplained _ ho).2.2
  · intro query raw source time hmem hsource
    obtain ⟨pre, post, rfl⟩ := List.append_of_mem hmem
    obtain ⟨stored, hstored⟩ := Option.ne_none_iff_exists'.mp hsource
    obtain ⟨-, hgood, rfl⟩ := hjustified pre _ post rfl stored hstored
    exact hgood.cached query.1

end Levels

namespace Sample

/-- A query for `ab.cd A`, its answer, and the `SETEX` of it. -/
def fetch (id : UInt8) (secs : Nat) : List Levels.Input :=
  [.handle (packet id name) (clock secs), .get 0 (clock secs),
    .datagram 0 resolver resolver (answer id name) (clock secs), .setex 0 (clock secs)]

/-- A query that Redis answers. -/
def copy (id : UInt8) (secs : Nat) : List Levels.Input :=
  [.handle (packet id name) (clock secs), .get 0 (clock secs), .promote 0 (clock secs)]

/-- An answer is fetched, dropped from L1, and copied back from Redis. -/
def copied (secs : Nat) : List Levels.Input :=
  fetch 7 0 ++ .evict (Cache.queryKey display (query 7)) :: copy 9 secs

end Sample

namespace Levels

/-- A run in which the second query is answered from Redis. -/
theorem copy_is_good : ∃ t outs,
    (machine Sample.display).run (start true Sample.config ∅ ∅) (Sample.copied 50) =
      some (t, outs) ∧ outs.filterMap Output.replied =
        [Sample.answer 7 Sample.name, Sample.answer 9 Sample.name] ∧
    Machine.Justified (Replayed Sample.display (Sample.copied 50)) outs := by
  obtain ⟨⟨t, outs⟩, hrun, houts⟩ := Option.map_eq_some_iff.mp
    (show ((machine Sample.display).run (start true Sample.config ∅ ∅) (Sample.copied 50)).map
      (fun p => p.2.filterMap Output.replied) = some
        [Sample.answer 7 Sample.name, Sample.answer 9 Sample.name] by decide +kernel)
  exact ⟨t, outs, hrun, houts, (only_good_answers hrun).2.1⟩

end Levels

end Denis
