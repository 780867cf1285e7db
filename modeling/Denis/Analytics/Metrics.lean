import Denis.Handler.Query

/-!
# Counting queries (`analytics/metrics.rs`, `analytics/producer.rs`)

`AnalyticsProducer::send` puts an event on a bounded channel, or drops it when
the channel is full; the task `spawn` starts takes events off it, in order, and
`Metrics::record` counts each under one outcome. The producer here is one with
metrics; without metrics and Kafka it is disabled and nothing is counted. The
latency histogram is left out.

`total` is what has been counted or is on its way to be: sending adds one to it,
recording keeps it.
-/

namespace Denis

/-- The label `outcome` of `denis_queries_total`. -/
inductive QueryOutcome
  | blocked
  | hit
  | miss
  deriving DecidableEq

/-- The outcome an event is counted under (`metrics.rs:53–59`). -/
def DnsQueryEvent.outcome (event : DnsQueryEvent) : QueryOutcome :=
  if event.blocked then .blocked else if event.cacheHit then .hit else .miss

/-- The counters of `denis_queries_total`. -/
structure Metrics where
  queries : QueryOutcome → Nat

/-- `Metrics::new`. -/
def Metrics.new : Metrics := ⟨fun _ => 0⟩

/-- `Metrics::record` (`metrics.rs:52–62`). -/
def Metrics.record (m : Metrics) (event : DnsQueryEvent) : Metrics :=
  ⟨Function.update m.queries event.outcome (m.queries event.outcome + 1)⟩

theorem Metrics.queries_record (m : Metrics) (event : DnsQueryEvent) (k : QueryOutcome) :
    (m.record event).queries k = m.queries k + [event.outcome].count k := by
  show Function.update m.queries event.outcome _ k = _
  by_cases hk : k = event.outcome
  · subst hk
    simp
  · rw [Function.update_of_ne hk]
    simp [Ne.symm hk]

/-- The capacity `spawn` gives the channel. -/
def channelCapacity : Nat := 10000

/-- `AnalyticsProducer` with its channel and the metrics its task records to. -/
structure AnalyticsProducer where
  channel : List DnsQueryEvent
  metrics : Metrics

namespace AnalyticsProducer

/-- `AnalyticsProducer::spawn` with metrics (`producer.rs:31–56`). -/
def spawn : AnalyticsProducer := ⟨[], .new⟩

/-- There is room in the channel. -/
def Room (p : AnalyticsProducer) : Prop := p.channel.length < channelCapacity

instance (p : AnalyticsProducer) : Decidable p.Room :=
  inferInstanceAs (Decidable (p.channel.length < channelCapacity))

/-- `AnalyticsProducer::send`: `try_send`, whose failure is ignored
(`producer.rs:58–62`). -/
def send (p : AnalyticsProducer) (event : DnsQueryEvent) : AnalyticsProducer :=
  if p.Room then { p with channel := p.channel ++ [event] } else p

/-- The task takes the next event and records it (`producer.rs:44–52`). -/
def record (p : AnalyticsProducer) : Option AnalyticsProducer :=
  match p.channel with
  | [] => none
  | event :: channel => some ⟨channel, p.metrics.record event⟩

/-- The events of an outcome, counted or in the channel. -/
def total (p : AnalyticsProducer) (k : QueryOutcome) : Nat :=
  p.metrics.queries k + (p.channel.map DnsQueryEvent.outcome).count k

/-- **Sending counts once**, where there is room. -/
theorem total_send {p : AnalyticsProducer} (hroom : p.Room) (event : DnsQueryEvent)
    (k : QueryOutcome) : (p.send event).total k = p.total k + [event.outcome].count k := by
  rw [send, if_pos hroom, total, total, List.map_append, List.map_singleton, List.count_append,
    Nat.add_assoc]

/-- Recording moves one event from the channel to the counters. -/
theorem total_record {p p' : AnalyticsProducer} (h : p.record = some p') (k : QueryOutcome) :
    p'.total k = p.total k := by
  unfold record at h
  split at h
  · cases h
  · next event channel hchannel =>
    obtain rfl := Option.some.inj h
    rw [total, total, hchannel, List.map_cons, ← List.singleton_append, List.count_append,
      Metrics.queries_record, Nat.add_assoc]

/-- All outcomes make up a list of them. -/
theorem count_outcomes (l : List QueryOutcome) :
    l.count .blocked + l.count .hit + l.count .miss = l.length := by
  induction l with
  | nil => rfl
  | cons k l ih =>
    rw [List.length_cons, ← ih]
    cases k with
    | blocked => simp; omega
    | hit => simp; omega
    | miss => simp; omega

end AnalyticsProducer

end Denis
