import Denis.Dns.Mono

/-!
# The hot path agrees with the handler

`Worker::classify` repeats the block decision, the cache lookup and the event of
`QueryHandler::handle` in its own code. `classify_agrees` compares the two on
every packet and state: same bytes and event for a reply, a parse error for a
drop, a call of `upstream.resolve` for a miss. On both paths the event's
`response_code` is the RCODE of the bytes sent.
-/

namespace Denis

open Text

/-- An event without the readings of its call's own clocks. -/
def DnsQueryEvent.content (event : DnsQueryEvent) : DnsQueryEvent :=
  { event with timestampMs := 0, latencyUs := 0 }

/-- The RCODE nibble of a message with at least 4 bytes. -/
def rcodeNibble (raw : Bytes) : UInt16 := UInt16.ofNat (raw.getD 3 0 &&& 0x0F).toNat

namespace QueryHandler

variable {display : RecordType → Str} {cache : Cache} {config : RuntimeConfig}

/-- The code put in the event is read from the bytes sent, whichever way the
first phase came to them. -/
theorem beginParsed_code {query : Query} (hquery : query.Bounded) {clock : Clock}
    {cache' : Cache} {served : Served}
    (h : beginParsed display cache config query clock = some (cache', served)) :
    served.responseCode = (rcodeFromRaw served.raw).toU16 := by
  rcases beginParsed_eq_some h with ⟨-, -, hraw, hcode, -⟩ | ⟨-, x, -, -, -, hraw, hcode, -⟩
  · rw [hcode, hraw, (UpstreamResponse.blocked_answers hquery config.blockingMode).code]
  · rw [hcode, hraw]
    rfl

/-- The first phase does not look at the timestamp, and puts the latency in the
event only. -/
theorem beginParsed_latency (display : RecordType → Str) (cache : Cache)
    (config : RuntimeConfig) (query : Query) (now : Nat) (timestampMs timestampMs' : UInt64)
    (latencyUs latencyUs' : UInt64) :
    beginParsed display cache config query ⟨now, timestampMs', latencyUs'⟩ =
      (beginParsed display cache config query ⟨now, timestampMs, latencyUs⟩).map fun p =>
        (p.1, { p.2 with latencyUs := latencyUs' }) := by
  rw [beginParsed_eq, beginParsed_eq]
  by_cases hblocked : cache.isBlocked query.name
  · rw [if_pos hblocked, if_pos hblocked]
    rfl
  · rw [if_neg hblocked, if_neg hblocked]
    cases cache.l1Get display now query <;> rfl

/-- What an upstream that answers with datagrams gives `resolve`. -/
def relay (network : Query → Except UpstreamError Bytes) (query : Query) :
    Except UpstreamError UpstreamResponse :=
  (network query).map exchangeResponse

/-- Events of `handle` carry the RCODE of the bytes it returns. -/
theorem handle_code {network : Query → Except UpstreamError Bytes} {data raw : Bytes}
    {clock : Clock}
    (hraw : (handle display (relay network) cache config data clock).result = .ok raw)
    (hlong : 4 ≤ raw.length) :
    ∀ event ∈ (handle display (relay network) cache config data clock).events,
      event.responseCode = rcodeNibble raw := by
  intro event hevent
  have hnibble : (rcodeFromRaw raw).toU16 = rcodeNibble raw := rcodeFromRaw_toU16 hlong
  rw [← hnibble]
  unfold handle at hraw hevent
  cases hparse : Parser.parseUdp data with
  | error e =>
    rw [hparse] at hevent
    cases hevent
  | ok query =>
    simp only [hparse] at hraw hevent
    unfold handleParsed at hraw hevent
    cases hbegin : beginParsed display cache config query clock with
    | some p =>
      obtain ⟨cache', served⟩ := p
      simp only [hbegin] at hraw hevent
      obtain rfl := Except.ok.inj hraw
      obtain rfl := List.mem_singleton.mp hevent
      exact beginParsed_code (Parser.parseUdp_bounded hparse) hbegin
    | none =>
      simp only [hbegin, relay] at hraw hevent
      cases hnet : network query with
      | error e =>
        rw [hnet] at hevent
        cases hevent
      | ok bytes =>
        simp only [hnet, Except.map] at hraw hevent
        obtain rfl := Except.ok.inj hraw
        obtain rfl := List.mem_singleton.mp hevent
        rfl

end QueryHandler

namespace Worker

open QueryHandler

variable {display : RecordType → Str}

/-- **The hot path agrees with the handler**, on every packet and state, both
read at the same instant `now`. -/
theorem classify_agrees (cache : Cache) (config : RuntimeConfig) (packet : Bytes) (now : Nat)
    (timestampMs latencyUs timestampMs' latencyUs' : UInt64)
    (network : Query → Except UpstreamError Bytes) :
    let classified := classify display cache config packet ⟨now, timestampMs, latencyUs⟩
    let handled := handle display (relay network) cache config packet
      ⟨now, timestampMs', latencyUs'⟩
    (match classified.1 with
      | .reply raw => handled.result = .ok raw ∧ ∃ event event', classified.2 = [event] ∧
          handled.events = [event'] ∧ event.content = event'.content
      | .drop => classified.2 = [] ∧ (∃ e, handled.result = .error (.parser e)) ∧
          handled.events = []
      | .miss query _ => classified.2 = [] ∧ handled.resolved = [query]) ∧
    (∀ raw, classified.1 = .reply raw → 4 ≤ raw.length →
      ∀ event ∈ classified.2, event.responseCode = rcodeNibble raw) ∧
    (∀ raw, handled.result = .ok raw → 4 ≤ raw.length →
      ∀ event ∈ handled.events, event.responseCode = rcodeNibble raw) := by
  intro classified handled
  refine and_assoc.mp ⟨?_, fun raw hraw hlong => handle_code hraw hlong⟩
  simp only [classified, handled, classify_eq, handle]
  cases hparse : Parser.parseUdp packet with
  | error e => exact ⟨⟨rfl, ⟨e, rfl⟩, rfl⟩, fun raw h => by cases h⟩
  | ok query =>
    -- both paths run the first phase, each with its own latency
    have hlatency := beginParsed_latency display cache config query now timestampMs timestampMs'
      latencyUs latencyUs'
    dsimp only
    cases hbegin : beginParsed display cache config query ⟨now, timestampMs, latencyUs⟩ with
    | none =>
      rw [hbegin] at hlatency
      refine ⟨⟨rfl, ?_⟩, fun raw h => by cases h⟩
      simp only [handleParsed, hlatency, Option.map_none]
      cases relay network query <;> rfl
    | some p =>
      obtain ⟨cache', served⟩ := p
      rw [hbegin] at hlatency
      simp only [handleParsed, hlatency, Option.map_some]
      refine ⟨⟨trivial, _, _, rfl, rfl, rfl⟩, ?_⟩
      intro raw h hlong
      obtain rfl := Outcome.reply.inj h
      rw [List.forall_mem_singleton]
      exact (beginParsed_code (Parser.parseUdp_bounded hparse) hbegin).trans
        (rcodeFromRaw_toU16 hlong)

end Worker

end Denis
