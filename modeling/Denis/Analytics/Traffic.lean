import Denis.Analytics.Metrics
import Denis.Dns.Mono
import Denis.Lib.Machine
import Mathlib.Data.List.Perm.Subperm

/-!
# Packets and their events (`dns/mono.rs`, `handler/query.rs`, `analytics`)

The ways of an admitted packet to a reply, with the events sent on them. Packets
are numbered as they arrive. On a monoio worker `classify` answers one, or puts
it on the cold channel, from which a task takes it to `handle_parsed`; over
tokio or TCP it goes to `handle` at once. `handle_parsed` answers it, or waits
in `upstream.resolve`, which returns a response or fails. In between anything
may change the cache, the lists and the configuration (`change`), and the
analytics task takes events off its channel (`record`).

A step outputs the events that get onto the channel and the replies, each with
the number of its packet. `Accounts` is what one step does to the numbers and
to the counts.
-/

namespace Denis

open Text

/-- Where the bytes of a reply come from. -/
inductive ReplySource
  | blocked
  | cached
  | relayed
  deriving DecidableEq

/-- The outcome a reply is to be counted under. -/
def ReplySource.outcome : ReplySource → QueryOutcome
  | .blocked => .blocked
  | .cached => .hit
  | .relayed => .miss

theorem ReplySource.outcome_injective : Function.Injective ReplySource.outcome := by
  intro source source' h
  cases source <;> cases source' <;> first | rfl | cases h

/-- A packet parsed and not yet answered. -/
structure Ticket where
  id : Nat
  query : Query
  timestampMs : UInt64

/-- The query path: packets on the cold channel, and those waiting for
`upstream.resolve`. -/
structure Traffic where
  cache : Cache
  config : RuntimeConfig
  analytics : AnalyticsProducer
  next : Nat
  cold : List Ticket
  waiting : List Ticket

/-- What happens next. -/
inductive TrafficInput
  | hot (packet : Bytes) (clock : Clock)
  | direct (packet : Bytes) (clock : Clock)
  | cold (i : Nat) (clock : Clock)
  | resolved (i : Nat) (res : UpstreamResponse) (clock : Clock)
  | unresolved (i : Nat)
  | change (cache : Cache) (config : RuntimeConfig)
  | record

/-- What a packet causes. -/
inductive TrafficOutput
  | sent (id : Nat) (event : DnsQueryEvent)
  | replied (id : Nat) (raw : Bytes) (source : ReplySource)
  deriving DecidableEq

namespace Traffic

variable (display : RecordType → Str)

/-- Nothing under way and nothing counted. -/
def start (cache : Cache) (config : RuntimeConfig) : Traffic :=
  ⟨cache, config, .spawn, 0, [], []⟩

/-- What answers a query that does not go upstream: the block decision or else
the cache. -/
def localSource (cache : Cache) (query : Query) : ReplySource :=
  if cache.isBlocked query.name then .blocked else .cached

/-- Send an event for a packet. -/
def send (s : Traffic) (id : Nat) (event : DnsQueryEvent) : Traffic × List TrafficOutput :=
  ({ s with analytics := s.analytics.send event },
    if s.analytics.Room then [.sent id event] else [])

/-- Send events in order. -/
def sendAll (s : Traffic) (id : Nat) : List DnsQueryEvent → Traffic × List TrafficOutput
  | [] => (s, [])
  | event :: events =>
    let (s, out) := s.send id event
    let (s, later) := s.sendAll id events
    (s, out ++ later)

/-- A packet on a monoio worker: `classify`, and the cold channel on a miss
(`mono.rs:122–146`). -/
def hot (s : Traffic) (packet : Bytes) (clock : Clock) : Traffic × List TrafficOutput :=
  let id := s.next
  let (outcome, events) := Worker.classify display s.cache s.config packet clock
  let (s', out) := sendAll { s with next := id + 1 } id events
  match outcome with
  | .reply raw =>
    let source :=
      match Parser.parseUdp packet with
      | .ok query => localSource s.cache query
      -- not answered
      | .error _ => .cached
    (s', out ++ [.replied id raw source])
  | .miss query timestampMs => ({ s' with cold := s'.cold ++ [⟨id, query, timestampMs⟩] }, out)
  | .drop => (s', out)

/-- `handle_parsed` up to its reply or to the wait in `upstream.resolve`
(`query.rs:94–126`, `144–156`). -/
def beginHandle (s : Traffic) (t : Ticket) (clock : Clock) : Traffic × List TrafficOutput :=
  match QueryHandler.beginParsed display s.cache s.config t.query clock with
  | some (cache, served) =>
    let source := localSource s.cache t.query
    let (s, out) := send { s with cache } t.id (QueryHandler.event t.query t.timestampMs served)
    (s, out ++ [.replied t.id served.raw source])
  | none => ({ s with waiting := s.waiting ++ [t] }, [])

/-- A packet over tokio UDP or TCP: `handle` (`query.rs:73–86`). -/
def direct (s : Traffic) (packet : Bytes) (clock : Clock) : Traffic × List TrafficOutput :=
  let id := s.next
  let s := { s with next := id + 1 }
  match Parser.parseUdp packet with
  | .error _ => (s, [])
  | .ok query => s.beginHandle display ⟨id, query, clock.timestampMs⟩ clock

/-- `handle_parsed` after `upstream.resolve` returned a response
(`query.rs:127–156`). -/
def complete (s : Traffic) (t : Ticket) (res : UpstreamResponse) (clock : Clock) :
    Traffic × List TrafficOutput :=
  let (cache, served) := QueryHandler.completeMiss display s.cache s.config t.query clock res
  let (s, out) := send { s with cache } t.id (QueryHandler.event t.query t.timestampMs served)
  (s, out ++ [.replied t.id served.raw .relayed])

/-- One step of the query path or of the analytics task. -/
def step (s : Traffic) : TrafficInput → Option (Traffic × List TrafficOutput)
  | .hot packet clock => some (s.hot display packet clock)
  | .direct packet clock => some (s.direct display packet clock)
  | .cold i clock =>
    match s.cold[i]? with
    | some t => some (beginHandle display { s with cold := s.cold.eraseIdx i } t clock)
    | none => none
  | .resolved i res clock =>
    match s.waiting[i]? with
    | some t => some (complete display { s with waiting := s.waiting.eraseIdx i } t res clock)
    | none => none
  | .unresolved i =>
    match s.waiting[i]? with
    | some _ => some ({ s with waiting := s.waiting.eraseIdx i }, [])
    | none => none
  | .change cache config => some ({ s with cache, config }, [])
  | .record =>
    match s.analytics.record with
    | some analytics => some ({ s with analytics }, [])
    | none => none

/-- The query path as a machine. -/
abbrev machine : Machine Traffic TrafficInput TrafficOutput := ⟨step display⟩

/-! ## Views of the outputs -/

/-- The events of a packet. -/
def eventsOf (out : List TrafficOutput) (id : Nat) : List DnsQueryEvent :=
  out.filterMap fun
    | .sent i event => if i = id then some event else none
    | .replied .. => none

/-- The replies to a packet. -/
def repliesTo (out : List TrafficOutput) (id : Nat) : List (Bytes × ReplySource) :=
  out.filterMap fun
    | .replied i raw source => if i = id then some (raw, source) else none
    | .sent .. => none

/-- The packets answered. -/
def repliedIds (out : List TrafficOutput) : List Nat :=
  out.filterMap fun
    | .replied id _ _ => some id
    | .sent .. => none

/-- The sources of the replies. -/
def sources (out : List TrafficOutput) : List ReplySource :=
  out.filterMap fun
    | .replied _ _ source => some source
    | .sent .. => none

/-- A reply has the bytes its source makes. -/
def Genuine (e : TrafficInput) : TrafficOutput → Prop
  | .replied _ raw .blocked => ∃ query mode, raw = (UpstreamResponse.blocked query mode).raw
  | .replied _ raw .cached => ∃ query cached, raw = (UpstreamResponse.cached query cached).raw
  | .replied _ raw .relayed => ∃ i res clock, e = .resolved i res clock ∧ raw = res.raw
  | .sent .. => True

/-! ## The numbers of packets -/

variable {display} {s s' m : Traffic} {e : TrafficInput} {out : List TrafficOutput}

/-- The packets queued or waiting. -/
def pendingIds (s : Traffic) : List Nat := (s.cold ++ s.waiting).map Ticket.id

/-- Packets answered, queued and waiting were so before, or are new. -/
structure Keeps (s s' : Traffic) (answered : List Nat) : Prop where
  next : s.next ≤ s'.next
  ids : (answered ++ s'.pendingIds).Subperm
    (s.pendingIds ++ List.range' s.next (s'.next - s.next))

/-- A packet in hand need not be kept. -/
theorem Keeps.drop {id : Nat} (h : Keeps s s' [id]) : Keeps s s' [] :=
  ⟨h.next, (List.sublist_cons_self id s'.pendingIds).subperm.trans h.ids⟩

/-- It may be queued for the cold path. -/
theorem Keeps.queue {t : Ticket} (h : Keeps s s' [t.id]) :
    Keeps s { s' with cold := s'.cold ++ [t] } [] := by
  refine ⟨h.next, List.Perm.subperm ?_ |>.trans h.ids⟩
  show ((s'.cold ++ [t] ++ s'.waiting).map Ticket.id).Perm
    (t.id :: (s'.cold ++ s'.waiting).map Ticket.id)
  rw [List.append_assoc, List.singleton_append]
  have hmoved : (s'.cold ++ t :: s'.waiting).Perm (t :: (s'.cold ++ s'.waiting)) :=
    List.perm_middle
  exact hmoved.map Ticket.id

/-- It may wait for upstream. -/
theorem Keeps.wait {t : Ticket} (h : Keeps s s' [t.id]) :
    Keeps s { s' with waiting := s'.waiting ++ [t] } [] := by
  refine ⟨h.next, List.Perm.subperm ?_ |>.trans h.ids⟩
  show ((s'.cold ++ (s'.waiting ++ [t])).map Ticket.id).Perm
    (t.id :: (s'.cold ++ s'.waiting).map Ticket.id)
  rw [← List.append_assoc]
  exact (List.perm_append_singleton t _).map Ticket.id

theorem keeps_refl (s : Traffic) : Keeps s s [] :=
  ⟨Nat.le_refl _, (List.sublist_append_left _ _).subperm⟩

/-- A packet that arrives is in hand. -/
theorem keeps_arrival (s : Traffic) : Keeps s { s with next := s.next + 1 } [s.next] := by
  refine ⟨Nat.le_succ _, List.Perm.subperm ?_⟩
  rw [Nat.add_sub_cancel_left]
  exact (List.perm_append_singleton s.next _).symm

/-- A packet taken off the cold channel is in hand. -/
theorem keeps_cold {i : Nat} {t : Ticket} (h : s.cold[i]? = some t) :
    Keeps s { s with cold := s.cold.eraseIdx i } [t.id] := by
  obtain ⟨hi, rfl⟩ := List.getElem?_eq_some_iff.mp h
  refine ⟨Nat.le_refl _, List.Perm.subperm ?_ |>.trans (List.sublist_append_left _ _).subperm⟩
  have htaken := (List.getElem_cons_eraseIdx_perm hi).append_right s.waiting
  exact htaken.map Ticket.id

/-- A packet whose `upstream.resolve` returned is in hand. -/
theorem keeps_waiting {i : Nat} {t : Ticket} (h : s.waiting[i]? = some t) :
    Keeps s { s with waiting := s.waiting.eraseIdx i } [t.id] := by
  obtain ⟨hi, rfl⟩ := List.getElem?_eq_some_iff.mp h
  refine ⟨Nat.le_refl _, List.Perm.subperm ?_ |>.trans (List.sublist_append_left _ _).subperm⟩
  have htaken := (List.getElem_cons_eraseIdx_perm hi).append_left s.cold
  exact (List.perm_middle.symm.trans htaken).map Ticket.id

end Traffic

end Denis
