import Denis.Handler.Query

/-!
# The hot path of the monoio UDP workers (`dns/mono.rs`)

`classify` answers a packet from the block decision or the cache without
leaving the worker, or hands the query to the cold path (`Outcome.miss`).
`refuse` is the reply to a client the access list refuses. The receive loop
`Worker::run` around them is part of `Denis.Dns.Server`.
-/

namespace Denis

open Text

/-- `Outcome` (`mono.rs:226–234`). -/
inductive Outcome
  | reply (raw : Bytes)
  | miss (query : Query) (timestampMs : UInt64)
  | drop
  deriving DecidableEq

namespace Worker

variable (display : RecordType → Str)

/-- `Worker::classify` (`mono.rs:150–204`): the outcome and the events sent. -/
def classify (cache : Cache) (config : RuntimeConfig) (packet : Bytes) (clock : Clock) :
    Outcome × List DnsQueryEvent :=
  match Parser.parseUdp packet with
  | .error _ => (.drop, [])
  | .ok query =>
    if cache.isBlocked query.name then
      let resp := UpstreamResponse.blocked query config.blockingMode
      (.reply resp.raw, [{
        timestampMs := clock.timestampMs, domain := query.name
        queryType := query.queryType.code, responseCode := resp.code.toU16
        cacheHit := false, blocked := true, latencyUs := clock.latencyUs }])
    else
      match cache.l1Get display clock.now query with
      | some cached =>
        let raw :=
          if 2 ≤ cached.length then
            (cached.set 0 (query.raw.getD 0 0)).set 1 (query.raw.getD 1 0)
          else cached
        (.reply raw, [{
          timestampMs := clock.timestampMs, domain := query.name
          queryType := query.queryType.code, responseCode := (rcodeFromRaw raw).toU16
          cacheHit := true, blocked := false, latencyUs := clock.latencyUs }])
      | none => (.miss query clock.timestampMs, [])

/-- `Worker::refuse` (`mono.rs:206–209`). -/
def refuse (packet : Bytes) : Option Bytes :=
  match Parser.parseUdp packet with
  | .error _ => none
  | .ok query => some (UpstreamResponse.blocked query .refused).raw

variable {display} {cache : Cache} {config : RuntimeConfig} {packet : Bytes} {clock : Clock}

/-- Over cached bytes the worker patches the transaction id as
`UpstreamResponse::cached` does, for a query long enough to have one. -/
theorem patch_eq_cached {query : Query} (hraw : 2 ≤ query.raw.length) (cached : Bytes) :
    (if 2 ≤ cached.length then
      (cached.set 0 (query.raw.getD 0 0)).set 1 (query.raw.getD 1 0)
    else cached) = (UpstreamResponse.cached query cached).raw := by
  simp [UpstreamResponse.cached, hraw]

/-- **The hot path is the first phase of `handle_parsed`**, without storing a
hit again: it replies what that phase would serve, with the same event, and
misses where that phase goes upstream. -/
theorem classify_eq :
    classify display cache config packet clock =
      match Parser.parseUdp packet with
      | .error _ => (.drop, [])
      | .ok query =>
        match QueryHandler.beginParsed display cache config query clock with
        | some (_, served) =>
          (.reply served.raw, [QueryHandler.event query clock.timestampMs served])
        | none => (.miss query clock.timestampMs, []) := by
  unfold classify
  cases hparse : Parser.parseUdp packet with
  | error e => rfl
  | ok query =>
    -- what parses has a header, so the worker's patch needs no test of the query
    have hraw : 2 ≤ query.raw.length := by
      have hlong := (Parser.parseUdp_bounded hparse).raw
      omega
    dsimp only
    rw [QueryHandler.beginParsed_eq]
    by_cases hblocked : cache.isBlocked query.name
    · rw [if_pos hblocked, if_pos hblocked]
      rfl
    · rw [if_neg hblocked, if_neg hblocked]
      cases hget : cache.l1Get display clock.now query with
      | none => rfl
      | some cached =>
        dsimp only
        rw [patch_eq_cached hraw]
        rfl

/-- A miss is a miss of the query parsed. -/
theorem parsed_of_miss {query : Query} {timestampMs : UInt64} {events : List DnsQueryEvent}
    (h : classify display cache config packet clock = (.miss query timestampMs, events)) :
    Parser.parseUdp packet = .ok query := by
  rw [classify_eq] at h
  cases hparse : Parser.parseUdp packet with
  | error e =>
    rw [hparse] at h
    cases h
  | ok query' =>
    simp only [hparse] at h
    split at h
    · cases h
    · cases h
      rfl

end Worker

end Denis
