import Denis.Dns.Mono
import Denis.Handler.Accesses
import Denis.Repo.Decision

/-!
# No packet stops the server

A panic aborts the process in the release profile. `Checked.classify` and
`Checked.handle` are the two ways a packet is answered, with every access that
could panic: the cuts of the block decision, the replies, the TTLs and the
transaction ids. `parse_udp` has none (it reads with `get` throughout), and nor
has the access list. Neither way ever panics, on any packet, in any state and
configuration, whatever upstream returns (`no_packet_panics`).
-/

namespace Denis

open Text Indexing

namespace Checked

variable (display : RecordType → Str)

/-- `Cache::is_blocked` (`cache.rs:141–145`). -/
def isBlocked (cache : Cache) (name : Str) : Option Bool :=
  Checked.decide cache.blockList cache.allowList name

/-- `Worker::classify` (`mono.rs:150–204`). -/
def classify (cache : Cache) (config : RuntimeConfig) (packet : Bytes) (clock : Clock) :
    Option (Outcome × List DnsQueryEvent) :=
  match Parser.parseUdp packet with
  | .error _ => some (.drop, [])
  | .ok query => do
    if ← isBlocked cache query.name then
      let resp ← blocked query config.blockingMode
      some (.reply resp.raw, [{
        timestampMs := clock.timestampMs, domain := query.name
        queryType := query.queryType.code, responseCode := resp.code.toU16
        cacheHit := false, blocked := true, latencyUs := clock.latencyUs }])
    else
      match cache.l1Get display clock.now query with
      | some cached =>
        let id0 ← index query.raw 0
        let id1 ← index query.raw 1
        let raw ←
          if 2 ≤ cached.length then do
            let raw ← store cached 0 id0
            store raw 1 id1
          else some cached
        some (.reply raw, [{
          timestampMs := clock.timestampMs, domain := query.name
          queryType := query.queryType.code, responseCode := (rcodeFromRaw raw).toU16
          cacheHit := true, blocked := false, latencyUs := clock.latencyUs }])
      | none => some (.miss query clock.timestampMs, [])

/-- `Worker::refuse` (`mono.rs:206–209`). -/
def refuse (packet : Bytes) : Option (Option Bytes) :=
  match Parser.parseUdp packet with
  | .error _ => some none
  | .ok query => do
    let resp ← blocked query .refused
    some (some resp.raw)

/-- Storing a response under its TTL (`query.rs:113–115` and `129–130`). -/
def storeResponse (cache : Cache) (config : RuntimeConfig) (now : Nat) (query : Query)
    (raw : Bytes) : Option Cache := do
  match ← cacheTtl config raw query.answerOffset with
  | some ttl => some (cache.addDnsQueryMoka display now query raw ttl)
  | none => some cache

/-- `handle_parsed` (`query.rs:88–157`). -/
def handleParsed (upstream : Query → Except UpstreamError UpstreamResponse) (cache : Cache)
    (config : RuntimeConfig) (query : Query) (clock : Clock) : Option QueryHandler.Handled := do
  if ← isBlocked cache query.name then
    let response ← blocked query config.blockingMode
    let served : Served := {
      raw := response.raw, responseCode := response.code.toU16, cacheHit := false,
      blocked := true, latencyUs := clock.latencyUs }
    some {
      cache, result := .ok served.raw,
      events := [QueryHandler.event query clock.timestampMs served], resolved := [] }
  else
    match cache.l1Get display clock.now query with
    | some cached =>
      let cache ← storeResponse display cache config clock.now query cached
      let response ← Checked.cached query cached
      let served : Served := {
        raw := response.raw, responseCode := response.code.toU16, cacheHit := true,
        blocked := false, latencyUs := clock.latencyUs }
      some {
        cache, result := .ok served.raw,
        events := [QueryHandler.event query clock.timestampMs served], resolved := [] }
    | none =>
      match upstream query with
      | .error e =>
        some { cache, result := .error (.upstream e), events := [], resolved := [query] }
      | .ok res =>
        let cache ← storeResponse display cache config clock.now query res.raw
        let served : Served := {
          raw := res.raw, responseCode := res.code.toU16, cacheHit := false, blocked := false,
          latencyUs := clock.latencyUs }
        some {
          cache, result := .ok served.raw,
          events := [QueryHandler.event query clock.timestampMs served], resolved := [query] }

/-- `handle` (`query.rs:73–86`). -/
def handle (upstream : Query → Except UpstreamError UpstreamResponse) (cache : Cache)
    (config : RuntimeConfig) (data : Bytes) (clock : Clock) : Option QueryHandler.Handled :=
  match Parser.parseUdp data with
  | .error e => some { cache, result := .error (.parser e), events := [], resolved := [] }
  | .ok query => handleParsed display upstream cache config query clock

variable {display} {cache : Cache} {config : RuntimeConfig} {packet : Bytes} {query : Query}
  {clock : Clock}

theorem isBlocked_eq (cache : Cache) (name : Str) :
    isBlocked cache name = some (cache.isBlocked name) :=
  decide_eq ..

/-- A parsed query has room for a transaction id. -/
theorem room_of_parsed (hparse : Parser.parseUdp packet = .ok query) : 2 ≤ query.raw.length := by
  have hlong := (Parser.parseUdp_bounded hparse).raw
  omega

/-- **The hot path does not panic.** -/
theorem classify_eq (display : RecordType → Str) (cache : Cache) (config : RuntimeConfig)
    (packet : Bytes) (clock : Clock) :
    classify display cache config packet clock =
      some (Worker.classify display cache config packet clock) := by
  unfold classify Worker.classify
  cases hparse : Parser.parseUdp packet with
  | error e => rfl
  | ok query =>
    have hraw := room_of_parsed hparse
    dsimp only
    rw [isBlocked_eq]
    by_cases hblocked : cache.isBlocked query.name
    · rw [hblocked, blocked_eq]
      rfl
    · rw [Bool.eq_false_iff.mpr hblocked]
      cases cache.l1Get display clock.now query with
      | none => rfl
      | some cached =>
        dsimp only
        rw [index_eq (i := 0) (by omega) 0, index_eq (i := 1) (by omega) 0]
        by_cases hroom : 2 ≤ cached.length
        · simp (disch := (try simp only [List.length_set]); omega) [hroom, store_eq]
        · simp [hroom]

theorem refuse_eq (packet : Bytes) : refuse packet = some (Worker.refuse packet) := by
  unfold refuse Worker.refuse
  cases Parser.parseUdp packet with
  | error e => rfl
  | ok query =>
    dsimp only
    rw [blocked_eq]
    rfl

theorem storeResponse_eq (cache : Cache) (config : RuntimeConfig) (now : Nat) (query : Query)
    (raw : Bytes) :
    storeResponse display cache config now query raw =
      some (QueryHandler.store display cache config now query raw) := by
  unfold storeResponse QueryHandler.store
  rw [cacheTtl_eq]
  cases Denis.cacheTtl config raw query.answerOffset with
  | none => rfl
  | some ttl => rfl

/-- **The handler does not panic**, whatever upstream returns. -/
theorem handleParsed_eq (upstream : Query → Except UpstreamError UpstreamResponse) :
    handleParsed display upstream cache config query clock =
      some (QueryHandler.handleParsed display upstream cache config query clock) := by
  unfold handleParsed QueryHandler.handleParsed
  rw [isBlocked_eq, QueryHandler.beginParsed_eq]
  by_cases hblocked : cache.isBlocked query.name
  · rw [if_pos hblocked, hblocked, blocked_eq]
    rfl
  · rw [if_neg hblocked, Bool.eq_false_iff.mpr hblocked]
    cases cache.l1Get display clock.now query with
    | some cached =>
      dsimp only
      rw [storeResponse_eq, cached_eq]
      rfl
    | none =>
      dsimp only
      cases upstream query with
      | error e => rfl
      | ok res =>
        dsimp only
        rw [storeResponse_eq]
        rfl

theorem handle_eq (upstream : Query → Except UpstreamError UpstreamResponse) (packet : Bytes) :
    handle display upstream cache config packet clock =
      some (QueryHandler.handle display upstream cache config packet clock) := by
  unfold handle QueryHandler.handle
  cases Parser.parseUdp packet with
  | error e => rfl
  | ok query => exact handleParsed_eq upstream

end Checked

/-- **No packet panics the server**: on every packet, from every lists, cache
content and configuration, the hot path, the refusal and the handler do all their
accesses in range and compute what they do without checks; and so does, for a
query that was parsed, the exchange with an upstream, whatever arrives. -/
theorem no_packet_panics (display : RecordType → Str) (cache : Cache) (config : RuntimeConfig)
    (packet : Bytes) (clock : Clock) :
    Checked.classify display cache config packet clock =
      some (Worker.classify display cache config packet clock) ∧
    Checked.refuse packet = some (Worker.refuse packet) ∧
    (∀ upstream, Checked.handle display upstream cache config packet clock =
      some (QueryHandler.handle display upstream cache config packet clock)) ∧
    ∀ query, Parser.parseUdp packet = .ok query → ∀ server arrived,
      Checked.exchange server query arrived =
        some (Checked.firstAccepted server query arrived) :=
  ⟨Checked.classify_eq .., Checked.refuse_eq packet,
    fun upstream => Checked.handle_eq upstream packet, fun _ hparse server arrived =>
      Checked.exchange_eq server (Checked.room_of_parsed hparse) arrived⟩

/-- A parsed query and an answer that is too short for it. -/
theorem short_answer_ignored :
    Checked.exchange Sample.resolver (Sample.query 7)
      [(Sample.resolver, [0]), (Sample.resolver, Sample.answer 7 Sample.name)] =
        some (some (exchangeResponse (Sample.answer 7 Sample.name))) :=
  ((no_packet_panics Sample.display ⟨TtlMap.empty, ∅, ∅⟩ Sample.config
    (Sample.packet 7 Sample.name) (Sample.clock 0)).2.2.2 (Sample.query 7) (by decide +kernel)
      Sample.resolver _).trans (by decide +kernel)

end Denis
