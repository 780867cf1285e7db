import Denis.Handler.Upstream
import Denis.Repo.Cache
import Mathlib.Data.Nat.Digits.Defs

/-!
# The query handler (`handler/query.rs`)

`handle_parsed` answers a parsed query from the block decision, from the cache
or from upstream. It suspends in the last case only, so it is given in two
phases: `beginParsed` runs up to that point (`none`: it calls
`upstream.resolve`), and `completeMiss` goes on with what `resolve` returned.
`handleParsed` and `handle` put the phases together over an `upstream` oracle.

A call reads three clocks: the instant of its cache access, the wall-clock
milliseconds taken on arrival and the latency put in the event; they are the
inputs `Clock`.
-/

namespace Denis

open Text

/-- `HandlerError` (`query.rs:16–23`); without Redis the cache cannot fail. -/
inductive HandlerError
  | parser (e : ParseError)
  | upstream (e : UpstreamError)
  deriving DecidableEq

/-- `DnsQueryEvent` (`analytics/producer.rs:12–20`). -/
structure DnsQueryEvent where
  timestampMs : UInt64
  domain : Str
  queryType : UInt16
  responseCode : UInt16
  cacheHit : Bool
  blocked : Bool
  latencyUs : UInt64
  deriving DecidableEq

/-- Clock readings of a call. -/
structure Clock where
  now : Nat
  timestampMs : UInt64
  latencyUs : UInt64

/-- `Served` (`query.rs:160–166`). -/
structure Served where
  raw : Bytes
  responseCode : UInt16
  cacheHit : Bool
  blocked : Bool
  latencyUs : UInt64
  deriving DecidableEq

/-- `cache_ttl` (`query.rs:172–184`): the TTL to cache a response under, or
`none` to not cache it. -/
def cacheTtl (config : RuntimeConfig) (raw : Bytes) (answerOffset : Nat) : Option UInt32 :=
  match raw[3]? with
  | none => none
  | some b =>
    let rcode := b &&& 0x0F
    let ancount :=
      if 8 ≤ raw.length then Parser.u16FromBeBytes (raw.getD 6 0) (raw.getD 7 0) else 0
    if rcode = 0 ∧ 0 < ancount then
      some (config.clampTtl (Parser.parseTtl raw answerOffset))
    else if rcode = 0 ∨ rcode = 3 then some (config.clampTtl config.negTtl)
    else none

namespace QueryHandler

variable (display : RecordType → Str)

/-- Store a response in L1 if `cache_ttl` gives it a TTL (`query.rs:113–115`
and `129–130`). -/
def store (cache : Cache) (config : RuntimeConfig) (now : Nat) (query : Query)
    (raw : Bytes) : Cache :=
  match cacheTtl config raw query.answerOffset with
  | some ttl => cache.addDnsQueryMoka display now query raw ttl
  | none => cache

/-- `handle_parsed` up to the call of `upstream.resolve` (`query.rs:94–124`);
`none` if it makes that call. A cached answer is stored again before it is
returned. -/
def beginParsed (cache : Cache) (config : RuntimeConfig) (query : Query) (clock : Clock) :
    Option (Cache × Served) :=
  match cache.checkAndGet display clock.now query with
  | (true, _) =>
    let response := UpstreamResponse.blocked query config.blockingMode
    some (cache, {
      raw := response.raw, responseCode := response.code.toU16, cacheHit := false,
      blocked := true, latencyUs := clock.latencyUs })
  | (false, some cached) =>
    let cache := store display cache config clock.now query cached
    let response := UpstreamResponse.cached query cached
    some (cache, {
      raw := response.raw, responseCode := response.code.toU16, cacheHit := true,
      blocked := false, latencyUs := clock.latencyUs })
  | (false, none) => none

/-- `handle_parsed` after `upstream.resolve` returned `res` (`query.rs:127–141`). -/
def completeMiss (cache : Cache) (config : RuntimeConfig) (query : Query) (clock : Clock)
    (res : UpstreamResponse) : Cache × Served :=
  (store display cache config clock.now query res.raw, {
    raw := res.raw, responseCode := res.code.toU16, cacheHit := false, blocked := false,
    latencyUs := clock.latencyUs })

/-- The event sent for a served query (`query.rs:144–152`). -/
def event (query : Query) (timestampMs : UInt64) (served : Served) : DnsQueryEvent :=
  { timestampMs, domain := query.name, queryType := query.queryType.code,
    responseCode := served.responseCode, cacheHit := served.cacheHit,
    blocked := served.blocked, latencyUs := served.latencyUs }

/-- What a call did: the cache it left, its result, the events it sent and the
queries it gave to `upstream.resolve`. -/
structure Handled where
  cache : Cache
  result : Except HandlerError Bytes
  events : List DnsQueryEvent
  resolved : List Query

/-- `handle_parsed` (`query.rs:88–157`) over what `upstream.resolve` returns. -/
def handleParsed (upstream : Query → Except UpstreamError UpstreamResponse) (cache : Cache)
    (config : RuntimeConfig) (query : Query) (clock : Clock) : Handled :=
  match beginParsed display cache config query clock with
  | some (cache', served) =>
    { cache := cache', result := .ok served.raw,
      events := [event query clock.timestampMs served], resolved := [] }
  | none =>
    match upstream query with
    | .error e => { cache, result := .error (.upstream e), events := [], resolved := [query] }
    | .ok res =>
      let (cache', served) := completeMiss display cache config query clock res
      { cache := cache', result := .ok served.raw,
        events := [event query clock.timestampMs served], resolved := [query] }

/-- `handle` (`query.rs:73–86`). -/
def handle (upstream : Query → Except UpstreamError UpstreamResponse) (cache : Cache)
    (config : RuntimeConfig) (data : Bytes) (clock : Clock) : Handled :=
  match Parser.parseUdp data with
  | .error e => { cache, result := .error (.parser e), events := [], resolved := [] }
  | .ok query => handleParsed display upstream cache config query clock

/-! ## What the phases do -/

variable {display} {cache : Cache} {config : RuntimeConfig} {query : Query} {clock : Clock}

/-- Entries after `store`: the response under the query's key, or an entry that
was there. -/
theorem store_l1 {now : Nat} {raw : Bytes} {k : Str} {x : Timed L1Entry}
    (h : (store display cache config now query raw).l1 k = some x) :
    (∃ ttl, cacheTtl config raw query.answerOffset = some ttl ∧
      k = Cache.queryKey display query ∧ x = ⟨⟨raw, ttl⟩, now + fromSecs ttl⟩) ∨
    cache.l1 k = some x := by
  unfold store at h
  split at h
  · next ttl httl =>
    rcases TtlMap.insert_eq_some.mp h with ⟨rfl, rfl⟩ | ⟨-, hold⟩
    · exact .inl ⟨ttl, httl, rfl, rfl⟩
    · exact .inr hold
  · exact .inr h

/-- A response is given a TTL only if it has the byte of its RCODE. -/
theorem cacheTtl_length {raw : Bytes} {off : Nat} {ttl : UInt32}
    (h : cacheTtl config raw off = some ttl) : 4 ≤ raw.length := by
  unfold cacheTtl at h
  split at h
  · cases h
  · next b hb =>
    have hlt := (List.getElem?_eq_some_iff.mp hb).1
    omega

/-- **The first phase**, by cases: blocked, served from L1 and stored again, or
on to upstream. -/
theorem beginParsed_eq :
    beginParsed display cache config query clock =
      if cache.isBlocked query.name then
        some (cache, {
          raw := (UpstreamResponse.blocked query config.blockingMode).raw
          responseCode := (UpstreamResponse.blocked query config.blockingMode).code.toU16
          cacheHit := false, blocked := true, latencyUs := clock.latencyUs })
      else
        match cache.l1Get display clock.now query with
        | some cached =>
          some (store display cache config clock.now query cached, {
            raw := (UpstreamResponse.cached query cached).raw
            responseCode := (UpstreamResponse.cached query cached).code.toU16
            cacheHit := true, blocked := false, latencyUs := clock.latencyUs })
        | none => none := by
  rw [beginParsed, Cache.checkAndGet_eq]
  by_cases hblocked : cache.isBlocked query.name
  · rw [if_pos hblocked, if_pos hblocked]
  · rw [if_neg hblocked, if_neg hblocked]
    cases cache.l1Get display clock.now query <;> rfl

/-- **What the first phase serves**: the blocked reply, or a live entry of the
query's key, which it stores again. -/
theorem beginParsed_eq_some {cache' : Cache} {served : Served}
    (h : beginParsed display cache config query clock = some (cache', served)) :
    (cache.isBlocked query.name = true ∧ cache' = cache ∧
      served.raw = (UpstreamResponse.blocked query config.blockingMode).raw ∧
      served.responseCode = (UpstreamResponse.blocked query config.blockingMode).code.toU16 ∧
      served.cacheHit = false) ∨
    (cache.isBlocked query.name = false ∧ ∃ x,
      cache.l1 (Cache.queryKey display query) = some x ∧ clock.now < x.deadline ∧
      cache' = store display cache config clock.now query x.value.raw ∧
      served.raw = (UpstreamResponse.cached query x.value.raw).raw ∧
      served.responseCode = (UpstreamResponse.cached query x.value.raw).code.toU16 ∧
      served.cacheHit = true) := by
  rw [beginParsed_eq] at h
  split at h
  · next hblocked =>
    obtain ⟨rfl, rfl⟩ := Prod.mk.inj (Option.some.inj h)
    exact .inl ⟨hblocked, rfl, rfl, rfl, rfl⟩
  · next hopen =>
    split at h
    · next cached hget =>
      obtain ⟨rfl, rfl⟩ := Prod.mk.inj (Option.some.inj h)
      obtain ⟨x, hx, hlive, rfl⟩ := Cache.l1Get_eq_some hget
      exact .inr ⟨Bool.eq_false_iff.mpr hopen, x, hx, hlive, rfl, rfl, rfl, rfl⟩
    · cases h

/-- Where the first phase goes upstream. -/
theorem beginParsed_eq_none :
    beginParsed display cache config query clock = none ↔
      cache.isBlocked query.name = false ∧ cache.l1Get display clock.now query = none := by
  rw [beginParsed_eq]
  cases hblocked : cache.isBlocked query.name with
  | true => simp
  | false => cases hget : cache.l1Get display clock.now query <;> simp

end QueryHandler

/-! ## Concrete messages

An upstream and messages for the runs that witness results: a question
`ab.cd A` and an answer of one address record with a TTL of 60 seconds. -/

namespace Sample

/-- The default upstream (`cli.rs:96`). -/
def resolver : SocketAddr := ⟨.v4 #v[9, 9, 9, 9], 53⟩

/-- The default configuration with one upstream. -/
def config : RuntimeConfig := .fromCli [resolver] 5000

/-- A text form of record types: the mnemonic of the two address types, the
generic form of RFC 3597 for the others. Only the first two are the texts of the
pinned library, which prints `Unknown` for every code it has no name for. -/
def display (t : RecordType) : Str :=
  if t = RecordType.a then ['A']
  else if t = RecordType.aaaa then ['A', 'A', 'A', 'A']
  else ['T', 'Y', 'P', 'E'] ++ (Nat.digits 10 t.code.toNat).reverse.map Nat.digitChar

/-- The text form has no `:`. -/
theorem display_colon (t : RecordType) : ':' ∉ display t := by
  unfold display
  split
  · decide
  · split
    · decide
    · rw [List.mem_append, not_or]
      refine ⟨by decide, ?_⟩
      intro hmem
      obtain ⟨digit, hdigit, heq⟩ := List.mem_map.mp hmem
      have hlt : digit < 10 := Nat.digits_lt_base (by decide) (List.mem_reverse.mp hdigit)
      have hcode := Nat.toNat_digitChar_of_lt_ten hlt
      rw [heq] at hcode
      have hcolon : ':'.toNat = 58 := rfl
      omega

/-- The digits can be read off their text. -/
theorem digits_of_text (n : Nat) :
    ((Nat.digits 10 n).reverse.map Nat.digitChar).map (fun c => c.toNat - 48) =
      (Nat.digits 10 n).reverse := by
  rw [List.map_map]
  refine map_eq_self fun digit hdigit => ?_
  have hlt : digit < 10 := Nat.digits_lt_base (by decide) (List.mem_reverse.mp hdigit)
  exact Nat.toNat_digitChar_sub_48_of_lt_ten hlt

/-- Distinct record types have distinct text forms. -/
theorem display_injective : Function.Injective display := by
  intro t u h
  unfold display at h
  by_cases hta : t = RecordType.a <;> by_cases hua : u = RecordType.a
  · rw [hta, hua]
  · rw [if_pos hta, if_neg hua] at h
    split at h <;> simp at h
  · rw [if_neg hta, if_pos hua] at h
    split at h <;> simp at h
  · rw [if_neg hta, if_neg hua] at h
    by_cases htb : t = RecordType.aaaa <;> by_cases hub : u = RecordType.aaaa
    · rw [htb, hub]
    · rw [if_pos htb, if_neg hub] at h
      simp at h
    · rw [if_neg htb, if_pos hub] at h
      simp at h
    · rw [if_neg htb, if_neg hub, List.append_cancel_left_eq] at h
      have hdigits := congrArg (List.map fun c => c.toNat - 48) h
      rw [digits_of_text, digits_of_text] at hdigits
      have hcode := Nat.digits.injective 10 (List.reverse_injective hdigits)
      exact congrArg RecordType.mk (UInt16.toNat_inj.mp hcode)

/-- A query with one question of type A. -/
def packet (id : UInt8) (name : Bytes) : Bytes :=
  [0, id, 1, 0, 0, 1, 0, 0, 0, 0, 0, 0] ++ name ++ [0, 0, 1, 0, 1]

/-- The name `ab.cd` on the wire, without the ending zero byte. -/
def name : Bytes := [2, 97, 98, 2, 99, 100]

/-- The answer to it. -/
def answer (id : UInt8) (name : Bytes) : Bytes :=
  [0, id, 0x81, 0x80, 0, 1, 0, 1, 0, 0, 0, 0] ++ name ++ [0, 0, 1, 0, 1] ++
    [0xC0, 0x0C, 0, 1, 0, 1, 0, 0, 0, 60, 0, 4, 192, 0, 2, 1]

/-- The query as parsed. -/
def query (id : UInt8) : Query := ⟨['a', 'b', '.', 'c', 'd'], RecordType.a, packet id name, 23⟩

/-- Clock readings at a second. -/
def clock (secs : Nat) : Clock := ⟨secs * 1000000000, 0, 0⟩

end Sample

end Denis
