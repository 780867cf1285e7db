import Denis.Dns.Mono
import Denis.Lib.Machine

/-!
# Two levels of cache (`handler/query.rs`, `repo/cache.rs`)

The query path with and without the `redis` feature, as a `Machine`. A call of
`handle_parsed` is suspended while Redis executes its `GET` or `SETEX`, while a
value found there is on its way back, and in `upstream.resolve`; an input is what
happens next, so every interleaving of calls is a list of inputs. Queries of the
cold channel are `handle` inputs.

Redis keeps a value from its `SETEX` until the TTL of it has passed. In the
process, entries expire, and may be dropped at any time for want of room; a
restart drops them all, and the calls with them, and leaves Redis as it is.
-/

namespace Denis

open Text

deriving instance DecidableEq for Timed

/-- A value in Redis: the last two arguments of its `SETEX`. -/
structure RedisValue where
  raw : Bytes
  ttl : UInt32
  deriving DecidableEq

/-- A query with the packet it was parsed from. -/
abbrev ParsedQuery := {query : Query // Parser.parseUdp query.raw = .ok query}

/-- The query of a packet that parses. -/
def ParsedQuery.of {packet : Bytes} {query : Query} (h : Parser.parseUdp packet = .ok query) :
    ParsedQuery :=
  ⟨query, (Parser.parseUdp_raw h).symm ▸ h⟩

/-- Where a suspended call of `handle_parsed` stands. -/
inductive Levels.Call
  | get (query : ParsedQuery)
  | found (query : ParsedQuery) (value : Timed RedisValue)
  | resolve (query : ParsedQuery)
  | setex (query : ParsedQuery) (raw : Bytes) (ttl : UInt32)

def Levels.Call.query : Levels.Call → ParsedQuery
  | .get query => query
  | .found query _ => query
  | .resolve query => query
  | .setex query _ _ => query

/-- The process and its Redis, if it was built with one. -/
structure Levels where
  redisOn : Bool
  config : RuntimeConfig
  cache : Cache
  redis : TtlMap Str RedisValue
  now : Nat
  calls : List Levels.Call

namespace Levels

/-- What happens next. -/
inductive Input
  | classify (packet : Bytes) (clock : Clock)
  | handle (packet : Bytes) (clock : Clock)
  | get (i : Nat) (clock : Clock)
  | promote (i : Nat) (clock : Clock)
  | datagram (i : Nat) (server src : SocketAddr) (bytes : Bytes) (clock : Clock)
  | setex (i : Nat) (clock : Clock)
  | fail (i : Nat) (clock : Clock)
  | evict (key : Str)
  | forget (key : Str)
  | restart
  | configure (config : RuntimeConfig)
  | setBlockList (list : DomainSet)
  | setAllowList (list : DomainSet)

/-- Where an answer was found. -/
inductive Source
  | blocked
  | l1 (entry : Timed L1Entry)
  | redis (value : Timed RedisValue)
  | upstream
  deriving DecidableEq

/-- What a step does: upstream responses accepted, entries put into L1 (with the
configuration in force), values saved in Redis, and replies. -/
inductive Output
  | received (query : ParsedQuery) (raw : Bytes) (time : Nat)
  | inserted (key : Str) (entry : Timed L1Entry) (config : RuntimeConfig) (source : Source)
  | saved (key : Str) (value : Timed RedisValue) (time : Nat)
  | answered (query : ParsedQuery) (raw : Bytes) (source : Source) (time : Nat)
  deriving DecidableEq

variable (display : RecordType → Str)

/-- The process as started for the first time. -/
def start (redisOn : Bool) (config : RuntimeConfig) (blockList allowList : DomainSet) :
    Levels where
  redisOn := redisOn
  config := config
  cache := ⟨TtlMap.empty, allowList, blockList⟩
  redis := TtlMap.empty
  now := 0
  calls := []

/-- The key of a query, in both levels. -/
def key (query : ParsedQuery) : Str := Cache.queryKey display query.1

/-- The entry put into L1 when a response is stored. -/
def insertion (s : Levels) (query : ParsedQuery) (raw : Bytes) (source : Source) :
    List Output :=
  match cacheTtl s.config raw query.1.answerOffset with
  | some ttl =>
    [.inserted (key display query) ⟨⟨raw, ttl⟩, s.now + fromSecs ttl⟩ s.config source]
  | none => []

/-- Store a response in L1 (`query.rs:113–115` and `129–130`). -/
def store (s : Levels) (query : ParsedQuery) (raw : Bytes) : Levels :=
  { s with cache := QueryHandler.store display s.cache s.config s.now query.1 raw }

/-- The cached branch of `handle_parsed` (`query.rs:108–123`), from either level:
store the bytes again and answer with them. -/
def replay (s : Levels) (query : ParsedQuery) (raw : Bytes) (source : Source) :
    Levels × List Output :=
  (s.store display query raw, s.insertion display query raw source ++
    [.answered query (UpstreamResponse.cached query.1 raw).raw source s.now])

/-- The blocked branch (`query.rs:95–107`, `mono.rs:159–171`). -/
def block (s : Levels) (query : ParsedQuery) : Levels × List Output :=
  (s, [.answered query (UpstreamResponse.blocked query.1 s.config.blockingMode).raw .blocked
    s.now])

/-- `Worker::classify` (`mono.rs:150–204`); the cold path is a `handle` of its own. -/
def classify (s : Levels) (query : ParsedQuery) : Levels × List Output :=
  if s.cache.isBlocked query.1.name then s.block query
  else
    match s.cache.l1.lookup s.now (key display query) with
    | some entry =>
      (s, [.answered query (UpstreamResponse.cached query.1 entry.value.raw).raw (.l1 entry)
        s.now])
    | none => (s, [])

/-- `handle_parsed` up to where it suspends: in the `GET` of `check_and_get`, or
without Redis in `upstream.resolve`. -/
def handle (s : Levels) (query : ParsedQuery) : Levels × List Output :=
  if s.cache.isBlocked query.1.name then s.block query
  else
    match s.cache.l1.lookup s.now (key display query) with
    | some entry => s.replay display query entry.value.raw (.l1 entry)
    | none =>
      ({ s with calls := s.calls ++ [if s.redisOn then .get query else .resolve query] }, [])

/-- Redis executes the `GET`; without a value the call goes on to
`upstream.resolve`. -/
def get (s : Levels) (query : ParsedQuery) : Levels × List Output :=
  match s.redis.lookup s.now (key display query) with
  | some value => ({ s with calls := s.calls ++ [.found query value] }, [])
  | none => ({ s with calls := s.calls ++ [.resolve query] }, [])

/-- The miss branch after `resolve` (`query.rs:127–141`), up to the reply or to the
`SETEX` of `add_dns_query_redis`, which sends none for a TTL of zero. -/
def receive (s : Levels) (query : ParsedQuery) (bytes : Bytes) : Levels × List Output :=
  let raw := (exchangeResponse bytes).raw
  let stored := s.store display query raw
  let out := .received query raw s.now :: s.insertion display query raw .upstream
  let saving := (cacheTtl s.config raw query.1.answerOffset).filter
    fun ttl => s.redisOn && ttl != 0
  match saving with
  | some ttl => ({ stored with calls := stored.calls ++ [.setex query raw ttl] }, out)
  | none => (stored, out ++ [.answered query raw .upstream s.now])

/-- Redis executes the `SETEX`, and the call replies. -/
def setex (s : Levels) (query : ParsedQuery) (raw : Bytes) (ttl : UInt32) :
    Levels × List Output :=
  ({ s with redis := s.redis.insert s.now (key display query) ⟨raw, ttl⟩ (fromSecs ttl) },
    [.saved (key display query) ⟨⟨raw, ttl⟩, s.now + fromSecs ttl⟩ s.now,
      .answered query raw .upstream s.now])

/-- A command or an exchange fails. A failed `GET` or `resolve` fails the call, a
failed `SETEX` is ignored. -/
def fail (s : Levels) : Call → Option (Levels × List Output)
  | .get _ => some (s, [])
  | .found .. => none
  | .resolve _ => some (s, [])
  | .setex query raw _ => some (s, [.answered query raw .upstream s.now])

/-- The clock of a step; clocks do not run backwards. -/
def advance (s : Levels) (clock : Clock) : Option Levels :=
  if clock.now < s.now then none else some { s with now := clock.now }

/-- Take up a suspended call. -/
def resume (s : Levels) (i : Nat) (clock : Clock) : Option (Levels × Call) :=
  match s.advance clock, s.calls[i]? with
  | some s, some call => some ({ s with calls := s.calls.eraseIdx i }, call)
  | _, _ => none

/-- A packet arrives and is parsed. -/
def accept (s : Levels) (packet : Bytes) (clock : Clock)
    (serve : Levels → ParsedQuery → Levels × List Output) : Option (Levels × List Output) :=
  match s.advance clock, hparse : Parser.parseUdp packet with
  | none, _ => none
  | some s, .error _ => some (s, [])
  | some s, .ok _ => some (serve s (.of hparse))

/-- One step. -/
def step (s : Levels) : Input → Option (Levels × List Output)
  | .classify packet clock => s.accept packet clock (classify display)
  | .handle packet clock => s.accept packet clock (handle display)
  | .get i clock =>
    match s.resume i clock with
    | some (s, .get query) => some (s.get display query)
    | _ => none
  | .promote i clock =>
    match s.resume i clock with
    | some (s, .found query value) => some (s.replay display query value.value.raw (.redis value))
    | _ => none
  | .datagram i server src bytes clock =>
    match s.resume i clock with
    | some (s, .resolve query) =>
      if exchangeAccepts server query.1 src bytes then some (s.receive display query bytes)
      else none
    | _ => none
  | .setex i clock =>
    match s.resume i clock with
    | some (s, .setex query raw ttl) => some (s.setex display query raw ttl)
    | _ => none
  | .fail i clock =>
    match s.resume i clock with
    | some (s, call) => s.fail call
    | none => none
  | .evict key => some ({ s with cache.l1 := s.cache.l1.drop key }, [])
  | .forget key => some ({ s with redis := s.redis.drop key }, [])
  | .restart => some ({ s with cache.l1 := TtlMap.empty, calls := [] }, [])
  | .configure config => some ({ s with config }, [])
  | .setBlockList list => some ({ s with cache.blockList := list }, [])
  | .setAllowList list => some ({ s with cache.allowList := list }, [])

/-- The process as a machine. -/
abbrev machine : Machine Levels Input Output := ⟨step display⟩

/-! ## What a step can do -/

/-- What a step leaves of the calls under way: some of them, and those in `new`. Only
a configuration input changes the configuration. -/
structure Frame (s : Levels) (e : Input) (s' : Levels) (new : List Call) : Prop where
  now : s.now ≤ s'.now
  config : (∀ config, e ≠ .configure config) → s'.config = s.config
  calls : ∀ c ∈ s'.calls, c ∈ s.calls ∨ c ∈ new

/-- Neither level has an entry that it did not have. -/
structure Keeps (s s' : Levels) : Prop where
  l1 : ∀ k x, s'.cache.l1 k = some x → s.cache.l1 k = some x
  redis : ∀ k y, s'.redis k = some y → s.redis k = some y

/-- The bytes are stored in L1; Redis stays as it is. -/
structure Stores (s s' : Levels) (query : ParsedQuery) (raw : Bytes) : Prop where
  cache : s'.cache = QueryHandler.store display s.cache s.config s'.now query.1 raw
  redis : s'.redis = s.redis

/-- The input asks the query. -/
inductive Poses (query : ParsedQuery) : Input → Prop
  | classify {packet : Bytes} {clock : Clock} :
      Parser.parseUdp packet = .ok query.1 → Poses query (.classify packet clock)
  | handle {packet : Bytes} {clock : Clock} :
      Parser.parseUdp packet = .ok query.1 → Poses query (.handle packet clock)

/-- Everything a step can do. -/
inductive Transition (s : Levels) : Input → Levels → List Output → Prop
  | idle {e : Input} {s' : Levels} : Frame s e s' [] → Keeps s s' → Transition s e s' []
  | blocked {e : Input} {query : ParsedQuery} {s' : Levels} :
      Poses query e → s.cache.isBlocked query.1.name = true → Frame s e s' [] → Keeps s s' →
      Transition s e s'
        [.answered query (UpstreamResponse.blocked query.1 s.config.blockingMode).raw .blocked
          s'.now]
  | hot {e : Input} {query : ParsedQuery} {x : Timed L1Entry} {s' : Levels} :
      Poses query e → s.cache.isBlocked query.1.name = false →
      s.cache.l1 (key display query) = some x → s'.now < x.deadline → Frame s e s' [] →
      Keeps s s' →
      Transition s e s'
        [.answered query (UpstreamResponse.cached query.1 x.value.raw).raw (.l1 x) s'.now]
  | hit {e : Input} {query : ParsedQuery} {x : Timed L1Entry} {s' : Levels} :
      Poses query e → s.cache.isBlocked query.1.name = false →
      s.cache.l1 (key display query) = some x → s'.now < x.deadline → Frame s e s' [] →
      Stores display s s' query x.value.raw →
      Transition s e s' (insertion display { s with now := s'.now } query x.value.raw (.l1 x) ++
        [.answered query (UpstreamResponse.cached query.1 x.value.raw).raw (.l1 x) s'.now])
  | missed {e : Input} {query : ParsedQuery} {call : Call} {s' : Levels} :
      Poses query e → s.cache.isBlocked query.1.name = false →
      call = .get query ∨ call = .resolve query → Frame s e s' [call] → Keeps s s' →
      Transition s e s' []
  | gotten {i : Nat} {clock : Clock} {query : ParsedQuery} {call : Call} {s' : Levels} :
      .get query ∈ s.calls → call = .resolve query ∨
        (∃ y, s.redis (key display query) = some y ∧ s'.now < y.deadline ∧
          call = .found query y) →
      Frame s (.get i clock) s' [call] → Keeps s s' → Transition s (.get i clock) s' []
  | promoted {i : Nat} {clock : Clock} {query : ParsedQuery} {y : Timed RedisValue}
      {s' : Levels} :
      s.calls[i]? = some (.found query y) → s'.now = clock.now →
      Frame s (.promote i clock) s' [] → Stores display s s' query y.value.raw →
      Transition s (.promote i clock) s'
        (insertion display { s with now := s'.now } query y.value.raw (.redis y) ++
          [.answered query (UpstreamResponse.cached query.1 y.value.raw).raw (.redis y) s'.now])
  | received {i : Nat} {server src : SocketAddr} {bytes : Bytes} {clock : Clock}
      {query : ParsedQuery} {new : List Call} {out : List Output} {s' : Levels} :
      s.calls[i]? = some (.resolve query) → exchangeAccepts server query.1 src bytes = true →
      Frame s (.datagram i server src bytes clock) s' new →
      Stores display s s' query (exchangeResponse bytes).raw →
      (new = [] ∧ out = [.answered query (exchangeResponse bytes).raw .upstream s'.now]) ∨
        (∃ ttl, cacheTtl s.config (exchangeResponse bytes).raw query.1.answerOffset = some ttl ∧
          new = [.setex query (exchangeResponse bytes).raw ttl] ∧ out = []) →
      Transition s (.datagram i server src bytes clock) s'
        (.received query (exchangeResponse bytes).raw s'.now ::
          insertion display { s with now := s'.now } query (exchangeResponse bytes).raw
            .upstream ++ out)
  | saved {i : Nat} {clock : Clock} {query : ParsedQuery} {raw : Bytes} {ttl : UInt32}
      {s' : Levels} :
      .setex query raw ttl ∈ s.calls → Frame s (.setex i clock) s' [] → s'.cache = s.cache →
      s'.redis = s.redis.insert s'.now (key display query) ⟨raw, ttl⟩ (fromSecs ttl) →
      Transition s (.setex i clock) s'
        [.saved (key display query) ⟨⟨raw, ttl⟩, s'.now + fromSecs ttl⟩ s'.now,
          .answered query raw .upstream s'.now]
  | unsaved {i : Nat} {clock : Clock} {query : ParsedQuery} {raw : Bytes} {ttl : UInt32}
      {s' : Levels} :
      .setex query raw ttl ∈ s.calls → Frame s (.fail i clock) s' [] → Keeps s s' →
      Transition s (.fail i clock) s' [.answered query raw .upstream s'.now]

section Inversion

variable {display} {s s' : Levels} {e : Input} {clock : Clock} {out : List Output}

theorem advance_eq_some (h : s.advance clock = some s') :
    s.now ≤ clock.now ∧ s' = { s with now := clock.now } := by
  unfold advance at h
  split at h
  · cases h
  · next hle => exact ⟨Nat.le_of_not_lt hle, (Option.some.inj h).symm⟩

theorem resume_eq_some {i : Nat} {call : Call} (h : s.resume i clock = some (s', call)) :
    s.now ≤ clock.now ∧ s.calls[i]? = some call ∧
      s' = { s with now := clock.now, calls := s.calls.eraseIdx i } := by
  unfold resume at h
  split at h
  · next m c hadvance hcall =>
    obtain ⟨hle, rfl⟩ := advance_eq_some hadvance
    obtain ⟨rfl, rfl⟩ := Prod.mk.inj (Option.some.inj h)
    exact ⟨hle, hcall, rfl⟩
  · cases h

theorem Keeps.of_eq (hl1 : s'.cache.l1 = s.cache.l1) (hredis : s'.redis = s.redis) :
    Keeps s s' := by
  refine ⟨?_, ?_⟩
  · intro k x hx
    rwa [← hl1]
  · intro k y hy
    rwa [← hredis]

/-- A packet that is taken up either does nothing or poses its query. -/
theorem accept_eq_some {packet : Bytes} {serve : Levels → ParsedQuery → Levels × List Output}
    (h : s.accept packet clock serve = some (s', out)) :
    s.now ≤ clock.now ∧ ((s' = { s with now := clock.now } ∧ out = []) ∨
      ∃ query : ParsedQuery, Parser.parseUdp packet = .ok query.1 ∧
        serve { s with now := clock.now } query = (s', out)) := by
  unfold accept at h
  split at h
  · cases h
  · next hadvance _ =>
    obtain ⟨hle, rfl⟩ := advance_eq_some hadvance
    obtain ⟨rfl, rfl⟩ := Prod.mk.inj (Option.some.inj h)
    exact ⟨hle, .inl ⟨rfl, rfl⟩⟩
  · next query hadvance hparse =>
    obtain ⟨hle, rfl⟩ := advance_eq_some hadvance
    exact ⟨hle, .inr ⟨.of hparse, hparse, Option.some.inj h⟩⟩

/-- A frame of a state that keeps the calls and the configuration. -/
theorem Frame.of_calls (hnow : s.now ≤ s'.now) (hconfig : s'.config = s.config)
    (hcalls : ∀ c ∈ s'.calls, c ∈ s.calls) : Frame s e s' [] :=
  ⟨hnow, fun _ => hconfig, fun c hc => .inl (hcalls c hc)⟩

/-- A frame of a state with one call more. -/
theorem Frame.of_push {call : Call} (hnow : s.now ≤ s'.now) (hconfig : s'.config = s.config)
    {calls : List Call} (hcalls : s'.calls = calls ++ [call]) (hsub : ∀ c ∈ calls, c ∈ s.calls) :
    Frame s e s' [call] := by
  refine ⟨hnow, fun _ => hconfig, ?_⟩
  intro c hc
  rw [hcalls] at hc
  rcases List.mem_append.mp hc with hc | hc
  · exact .inl (hsub c hc)
  · exact .inr hc

theorem classify_transition {m : Levels} {query : ParsedQuery} (hposes : Poses query e)
    (hle : s.now ≤ clock.now) (hm : m = { s with now := clock.now })
    (h : m.classify display query = (s', out)) : Transition display s e s' out := by
  subst hm
  have hframe : Frame s e { s with now := clock.now } [] := .of_calls hle rfl fun _ hc => hc
  unfold classify at h
  split at h
  · next hblocked =>
    obtain ⟨rfl, rfl⟩ := Prod.mk.inj h
    exact .blocked hposes hblocked hframe (.of_eq rfl rfl)
  · next hopen =>
    have hopen' := Bool.eq_false_iff.mpr hopen
    split at h
    · next x hx =>
      obtain ⟨rfl, rfl⟩ := Prod.mk.inj h
      obtain ⟨hentry, hlive⟩ := TtlMap.lookup_eq_some.mp hx
      exact .hot hposes hopen' hentry hlive hframe (.of_eq rfl rfl)
    · obtain ⟨rfl, rfl⟩ := Prod.mk.inj h
      exact .idle hframe (.of_eq rfl rfl)

theorem handle_transition {m : Levels} {query : ParsedQuery} (hposes : Poses query e)
    (hle : s.now ≤ clock.now) (hm : m = { s with now := clock.now })
    (h : m.handle display query = (s', out)) : Transition display s e s' out := by
  subst hm
  unfold handle at h
  split at h
  · next hblocked =>
    obtain ⟨rfl, rfl⟩ := Prod.mk.inj h
    exact .blocked hposes hblocked (.of_calls hle rfl fun _ hc => hc) (.of_eq rfl rfl)
  · next hopen =>
    have hopen' := Bool.eq_false_iff.mpr hopen
    split at h
    · next x hx =>
      obtain ⟨rfl, rfl⟩ := Prod.mk.inj h
      obtain ⟨hentry, hlive⟩ := TtlMap.lookup_eq_some.mp hx
      exact .hit hposes hopen' hentry hlive (.of_calls hle rfl fun _ hc => hc) ⟨rfl, rfl⟩
    · obtain ⟨rfl, rfl⟩ := Prod.mk.inj h
      refine .missed hposes hopen' ?_ (.of_push hle rfl rfl fun _ hc => hc) (.of_eq rfl rfl)
      split
      · exact .inl rfl
      · exact .inr rfl

theorem get_transition {m : Levels} {i : Nat} {query : ParsedQuery}
    (hcall : s.calls[i]? = some (.get query)) (hle : s.now ≤ clock.now)
    (hm : m = { s with now := clock.now, calls := s.calls.eraseIdx i })
    (h : m.get display query = (s', out)) : Transition display s (.get i clock) s' out := by
  subst hm
  have hmem := List.mem_of_getElem? hcall
  unfold get at h
  split at h
  · next y hy =>
    obtain ⟨rfl, rfl⟩ := Prod.mk.inj h
    obtain ⟨hvalue, hlive⟩ := TtlMap.lookup_eq_some.mp hy
    exact .gotten hmem (.inr ⟨y, hvalue, hlive, rfl⟩)
      (.of_push hle rfl rfl fun _ hc => List.mem_of_mem_eraseIdx hc) (.of_eq rfl rfl)
  · obtain ⟨rfl, rfl⟩ := Prod.mk.inj h
    exact .gotten hmem (.inl rfl)
      (.of_push hle rfl rfl fun _ hc => List.mem_of_mem_eraseIdx hc) (.of_eq rfl rfl)

theorem fail_transition {m : Levels} {i : Nat} {call : Call} (hcall : s.calls[i]? = some call)
    (hle : s.now ≤ clock.now)
    (hm : m = { s with now := clock.now, calls := s.calls.eraseIdx i })
    (h : m.fail call = some (s', out)) : Transition display s (.fail i clock) s' out := by
  subst hm
  have hframe : Frame s (.fail i clock)
      { s with now := clock.now, calls := s.calls.eraseIdx i } [] :=
    .of_calls hle rfl fun _ hc => List.mem_of_mem_eraseIdx hc
  cases call with
  | get query =>
    obtain ⟨rfl, rfl⟩ := Prod.mk.inj (Option.some.inj h)
    exact .idle hframe (.of_eq rfl rfl)
  | found query value => cases h
  | resolve query =>
    obtain ⟨rfl, rfl⟩ := Prod.mk.inj (Option.some.inj h)
    exact .idle hframe (.of_eq rfl rfl)
  | setex query raw ttl =>
    obtain ⟨rfl, rfl⟩ := Prod.mk.inj (Option.some.inj h)
    exact .unsaved (List.mem_of_getElem? hcall) hframe (.of_eq rfl rfl)

theorem receive_transition {m : Levels} {i : Nat} {server src : SocketAddr} {bytes : Bytes}
    {query : ParsedQuery} (hcall : s.calls[i]? = some (.resolve query))
    (haccept : exchangeAccepts server query.1 src bytes = true) (hle : s.now ≤ clock.now)
    (hm : m = { s with now := clock.now, calls := s.calls.eraseIdx i })
    (h : m.receive display query bytes = (s', out)) :
    Transition display s (.datagram i server src bytes clock) s' out := by
  subst hm
  unfold receive at h
  dsimp only at h
  split at h
  · next ttl httl =>
    obtain ⟨hs, rfl⟩ := Prod.mk.inj h
    have hnow : s'.now = clock.now := by rw [← hs]; rfl
    rw [← List.append_nil (List.cons _ _), ← hnow]
    exact .received hcall haccept
      (.of_push (hnow ▸ hle) (by rw [← hs]; rfl) (by rw [← hs]; rfl)
        fun _ hc => List.mem_of_mem_eraseIdx hc)
      ⟨by rw [← hs]; rfl, by rw [← hs]; rfl⟩
      (.inr ⟨ttl, (Option.filter_eq_some_iff.mp httl).1, rfl, rfl⟩)
  · obtain ⟨hs, rfl⟩ := Prod.mk.inj h
    have hnow : s'.now = clock.now := by rw [← hs]; rfl
    rw [← hnow]
    exact .received hcall haccept
      (.of_calls (hnow ▸ hle) (by rw [← hs]; rfl) fun _ hc => List.mem_of_mem_eraseIdx (hs ▸ hc))
      ⟨by rw [← hs]; rfl, by rw [← hs]; rfl⟩ (.inl ⟨rfl, rfl⟩)

/-- **Step inversion.** -/
theorem step_transition (h : s.step display e = some (s', out)) :
    Transition display s e s' out := by
  cases e with
  | classify packet clock =>
    obtain ⟨hle, ⟨rfl, rfl⟩ | ⟨query, hparse, hserve⟩⟩ := accept_eq_some h
    · exact .idle (.of_calls hle rfl fun _ hc => hc) (.of_eq rfl rfl)
    · exact classify_transition (.classify hparse) hle rfl hserve
  | handle packet clock =>
    obtain ⟨hle, ⟨rfl, rfl⟩ | ⟨query, hparse, hserve⟩⟩ := accept_eq_some h
    · exact .idle (.of_calls hle rfl fun _ hc => hc) (.of_eq rfl rfl)
    · exact handle_transition (.handle hparse) hle rfl hserve
  | get i clock =>
    rw [step] at h
    split at h
    · next m query hresume =>
      obtain ⟨hle, hcall, hm⟩ := resume_eq_some hresume
      exact get_transition hcall hle hm (Option.some.inj h)
    · cases h
  | promote i clock =>
    rw [step] at h
    split at h
    · next m query value hresume =>
      obtain ⟨hle, hcall, rfl⟩ := resume_eq_some hresume
      obtain ⟨rfl, rfl⟩ := Prod.mk.inj (Option.some.inj h)
      exact .promoted hcall rfl (.of_calls hle rfl fun _ hc => List.mem_of_mem_eraseIdx hc)
        ⟨rfl, rfl⟩
    · cases h
  | datagram i server src bytes clock =>
    rw [step] at h
    split at h
    · next m query hresume =>
      obtain ⟨hle, hcall, rfl⟩ := resume_eq_some hresume
      split at h
      · next haccept => exact receive_transition hcall haccept hle rfl (Option.some.inj h)
      · cases h
    · cases h
  | setex i clock =>
    rw [step] at h
    split at h
    · next m query raw ttl hresume =>
      obtain ⟨hle, hcall, rfl⟩ := resume_eq_some hresume
      obtain ⟨rfl, rfl⟩ := Prod.mk.inj (Option.some.inj h)
      exact .saved (List.mem_of_getElem? hcall)
        (.of_calls hle rfl fun _ hc => List.mem_of_mem_eraseIdx hc) rfl rfl
    · cases h
  | fail i clock =>
    rw [step] at h
    split at h
    · next m call hresume =>
      obtain ⟨hle, hcall, hm⟩ := resume_eq_some hresume
      exact fail_transition hcall hle hm h
    · cases h
  -- what a level loses leaves the rest of it as it was
  | evict key =>
    obtain ⟨rfl, rfl⟩ := Prod.mk.inj (Option.some.inj h)
    exact .idle (.of_calls (Nat.le_refl _) rfl fun _ hc => hc)
      ⟨fun k x hx => TtlMap.eq_some_of_drop hx, fun _ _ hy => hy⟩
  | forget key =>
    obtain ⟨rfl, rfl⟩ := Prod.mk.inj (Option.some.inj h)
    exact .idle (.of_calls (Nat.le_refl _) rfl fun _ hc => hc)
      ⟨fun _ _ hx => hx, fun k y hy => TtlMap.eq_some_of_drop hy⟩
  | restart =>
    obtain ⟨rfl, rfl⟩ := Prod.mk.inj (Option.some.inj h)
    refine .idle (.of_calls (Nat.le_refl _) rfl fun c hc => ?_) ⟨fun k x hx => ?_, fun _ _ hy => hy⟩
    · cases hc
    · cases hx
  | configure config =>
    obtain ⟨rfl, rfl⟩ := Prod.mk.inj (Option.some.inj h)
    exact .idle ⟨Nat.le_refl _, fun hne => absurd rfl (hne config), fun _ hc => .inl hc⟩
      (.of_eq rfl rfl)
  | setBlockList list =>
    obtain ⟨rfl, rfl⟩ := Prod.mk.inj (Option.some.inj h)
    exact .idle (.of_calls (Nat.le_refl _) rfl fun _ hc => hc) (.of_eq rfl rfl)
  | setAllowList list =>
    obtain ⟨rfl, rfl⟩ := Prod.mk.inj (Option.some.inj h)
    exact .idle (.of_calls (Nat.le_refl _) rfl fun _ hc => hc) (.of_eq rfl rfl)

end Inversion

/-! ## The parts of `handle_parsed` -/

/-- What an output puts on the wire. -/
def Output.replied : Output → Option Bytes
  | .answered _ raw _ _ => some raw
  | _ => none

section Parts

variable {display} {s : Levels} {query : ParsedQuery} {clock : Clock}

theorem replied_insertion (raw : Bytes) (source : Source) :
    (s.insertion display query raw source).findSome? Output.replied = none := by
  unfold insertion
  split <;> rfl

/-- An answer found in L1. -/
theorem l1Get_eq (hnow : clock.now = s.now) :
    s.cache.l1Get display clock.now query.1 =
      (s.cache.l1.lookup s.now (key display query)).map fun x => x.value.raw := by
  rw [Cache.l1Get, TtlMap.get, hnow, Option.map_map]
  rfl

/-- **`handle` is the first phase of `handle_parsed`**: it leaves the same entries
and replies the same, and where that phase goes on it suspends. -/
theorem handle_beginParsed (hnow : clock.now = s.now) :
    ((s.handle display query).1.cache, (s.handle display query).2.findSome? Output.replied) =
      match QueryHandler.beginParsed display s.cache s.config query.1 clock with
      | some (cache, served) => (cache, some served.raw)
      | none => (s.cache, none) := by
  rw [QueryHandler.beginParsed_eq, l1Get_eq hnow, handle]
  obtain ⟨now, timestampMs, latencyUs⟩ := clock
  obtain rfl : now = s.now := hnow
  cases hblocked : s.cache.isBlocked query.1.name with
  | true => rfl
  | false =>
    cases s.cache.l1.lookup s.now (key display query) with
    | none => rfl
    | some x =>
      show (_, List.findSome? _ (_ ++ [Output.answered ..])) = _
      rw [List.findSome?_append, replied_insertion]
      rfl

/-- **`classify` is the workers'.** -/
theorem classify_worker (hnow : clock.now = s.now) :
    (Worker.classify display s.cache s.config query.1.raw clock).1 =
      ((s.classify display query).2.findSome? Output.replied).elim
        (.miss query.1 clock.timestampMs) .reply := by
  rw [Worker.classify_eq, query.2]
  dsimp only
  rw [QueryHandler.beginParsed_eq, l1Get_eq hnow, classify]
  cases hblocked : s.cache.isBlocked query.1.name with
  | true => rfl
  | false => cases s.cache.l1.lookup s.now (key display query) <;> rfl

/-- **`receive` is the second phase**, up to the `SETEX`. -/
theorem receive_completeMiss (hnow : clock.now = s.now) (bytes : Bytes) :
    (s.receive display query bytes).1.cache =
      (QueryHandler.completeMiss display s.cache s.config query.1 clock
        (exchangeResponse bytes)).1 := by
  rw [QueryHandler.completeMiss, receive, hnow]
  dsimp only
  split <;> rfl

end Parts

end Levels

end Denis
