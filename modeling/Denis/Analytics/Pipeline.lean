import Denis.Analytics.DoubleCount
import Denis.Analytics.Metrics
import Denis.Dns.Server
import Mathlib.Algebra.Order.Group.Multiset

/-!
# From replies to rows (`analytics`)

The way of an event through the whole process: a reply sends it to the producer's
channel, which drops it when full; the producer's task counts it and hands it to
Kafka, which may lose it, or append it more than once when the client retries; the
consumer reads the log and inserts rows into ClickHouse. A crash takes the channel
with it and sends the consumer back to the committed offset; the log, the offset and
the table stay. The topic has one partition: `send_kafka` keys a record by its domain,
and Kafka keeps an order within a partition only.

- `stored_in_order`: without crashes and repeats the rows are those of replies, in
  the order of the replies;
- `stored_at_most`: with them, no row is stored for nothing, nor more often than the
  repeats and the crashes allow.
-/

namespace Denis

open Text Consumer
open scoped List

/-- The event sent with a reply. -/
def Output.event : Output → Option DnsQueryEvent
  | .reply r => r.event
  | _ => none

/-- A process with metrics and Kafka: `sending` is the event in `send_kafka`, and
`ready` says that the consumer got past `ensure_table`. -/
structure Pipeline where
  server : Server
  producer : AnalyticsProducer
  sending : Option DnsQueryEvent
  log : List (Option Bytes)
  ready : Bool
  consumer : Consumer

/-- What happens next. A crash may come between an insert and its commit (`ins`), and
the broker may still append what was being sent (`copies`). -/
inductive PipelineInput
  | server (input : Input)
  | record
  | sent (copies : Nat)
  | ensureTable
  | consume (e : ConsumerInput)
  | crash (ins : Option Insert) (copies : Nat) (restarted : Server)

inductive PipelineOutput
  | server (output : Output)
  | crashed

/-- The consumer's turn is not a crash. -/
def ConsumerInput.isCrash : ConsumerInput → Bool
  | .receiveCrash _ => true
  | .crash => true
  | _ => false

namespace Pipeline

variable (display : RecordType → Str) (json : DnsQueryEvent → Option Bytes) (codec : Codec)

/-- The process as first started. -/
def start (server : Server) : Pipeline := ⟨server, .spawn, none, [], false, .start⟩

/-- What the broker appends for an event: nothing if `serde_json::to_string` fails. -/
def appended (event : DnsQueryEvent) (copies : Nat) : List (Option Bytes) :=
  match json event with
  | some payload => List.replicate copies (some payload)
  | none => []

/-- The consumer after a crash. -/
def crashed (s : Pipeline) : Option Insert → Option Consumer
  | none => some s.consumer.restart
  | some ins =>
    if s.ready then (Consumer.step codec s.log s.consumer (.receiveCrash ins)).map Prod.fst
    else none

/-- One step. -/
def step (s : Pipeline) : PipelineInput → Option (Pipeline × List PipelineOutput)
  | .server input =>
    match s.server.step display input with
    | some (server, out) =>
      some ({ s with
        server, producer := (out.filterMap Output.event).foldl .send s.producer },
        out.map .server)
    | none => none
  | .record =>
    match s.sending, s.producer.channel, s.producer.record with
    | none, event :: _, some producer => some ({ s with producer, sending := some event }, [])
    | _, _, _ => none
  | .sent copies =>
    match s.sending with
    | some event =>
      some ({ s with sending := none, log := s.log ++ appended json event copies }, [])
    | none => none
  | .ensureTable => some ({ s with ready := true }, [])
  | .consume e =>
    if s.ready && !e.isCrash then
      match Consumer.step codec s.log s.consumer e with
      | some (consumer, _) => some ({ s with consumer }, [])
      | none => none
    else none
  | .crash ins copies restarted =>
    match s.crashed codec ins with
    | some consumer =>
      some ({ s with
        server := restarted, producer := .spawn, sending := none, ready := false, consumer
        log := s.log ++ (s.sending.toList.flatMap fun event => appended json event copies) },
        [.crashed])
    | none => none

/-- The process as a machine. -/
abbrev machine : Machine Pipeline PipelineInput PipelineOutput := ⟨step display json codec⟩

/-! ## The views the results are about -/

/-- The row that comes of an event, unless serde fails on it. -/
def stored (event : DnsQueryEvent) : Option DnsQueryRow :=
  (json event).bind fun payload => (codec.fromSlice payload).map (.ofEvent codec)

/-- The events of the replies. -/
def events (h : List PipelineOutput) : List DnsQueryEvent :=
  h.filterMap fun
    | .server output => output.event
    | .crashed => none

/-- The crashes. -/
def crashes (h : List PipelineOutput) : Nat :=
  h.countP fun
    | .server _ => false
    | .crashed => true

/-- How many events a row comes of. -/
def rowCount (row : DnsQueryRow) (l : List DnsQueryEvent) : Nat :=
  (l.filterMap (stored json codec)).count row

/-- The row of a message, if it is an event. -/
def rowOf (payload : Option Bytes) : Option DnsQueryRow :=
  (payload.bind codec.fromSlice).map (.ofEvent codec)

/-! ## The log and what is read of it -/

section Log

variable {json codec} {log more : List (Option Bytes)} {x : Entry} {n : Nat}

theorem entryAt_append (hn : n < log.length) :
    entryAt codec (log ++ more) n = entryAt codec log n := by
  rw [entryAt, entryAt, List.getElem?_append_left hn]

/-- What has been read is the same of a longer log. -/
theorem entriesFrom_append (hn : n ≤ log.length) :
    entriesFrom codec (log ++ more) 0 n = entriesFrom codec log 0 n := by
  refine List.filterMap_congr fun i hi => entryAt_append ?_
  have hlt := (List.mem_range'_1.mp hi).2
  omega

theorem entryAt_row (hn : n < log.length) :
    (entryAt codec log n).toList.map Entry.row = [log[n]].filterMap (rowOf codec) := by
  rw [entryAt, List.getElem?_eq_getElem hn]
  cases hpayload : log[n] with
  | none => rfl
  | some payload =>
    cases hevent : codec.fromSlice payload with
    | none => simp [rowOf, hevent]
    | some event => simp [rowOf, hevent]

/-- The rows read from the start on. -/
theorem entriesFrom_rows (hn : n ≤ log.length) :
    (entriesFrom codec log 0 n).map Entry.row = (log.take n).filterMap (rowOf codec) := by
  induction n with
  | zero => rfl
  | succ n ih =>
    have hlt : n < log.length := hn
    rw [entriesFrom_concat, List.map_append, ih (Nat.le_of_lt hlt),
      List.take_succ_eq_append_getElem hlt, List.filterMap_append]
    congr 1
    rw [Nat.zero_add]
    exact entryAt_row hlt

/-- An insert stores some of its batch, in order. -/
theorem inserted_sublist (ins : Insert) (batch : List Entry) :
    (ins.inserted batch).Sublist batch := by
  cases ins with
  | openFailed => exact List.nil_sublist _
  | opened stored ended =>
    have hall : batch.zipIdx.map Prod.fst = batch := List.zipIdx_map_fst ..
    have hsome := (List.filter_sublist (l := batch.zipIdx) (p := fun p => stored p.2)).map Prod.fst
    rw [hall] at hsome
    exact hsome

theorem rows_appended (event : DnsQueryEvent) (copies : Nat) :
    (appended json event copies).filterMap (rowOf codec) =
      (List.replicate copies event).filterMap (stored json codec) := by
  unfold appended
  cases hjson : json event with
  | none => simp [stored, hjson]
  | some payload =>
    have hrow : rowOf codec (some payload) = stored json codec event := by
      rw [stored, hjson]
      rfl
    rw [List.filterMap_replicate, List.filterMap_replicate, hrow]

end Log

/-! ## Without crashes -/

section InOrder

variable {display json codec} {s s' : Pipeline} {h out : List PipelineOutput}

/-- The consumer has read in order, and stored or holds some of what it read. -/
structure Ordered (codec : Codec) (log : List (Option Bytes)) (c : Consumer) : Prop where
  position : c.position ≤ log.length
  read : (c.table ++ c.batch).Sublist (entriesFrom codec log 0 c.position)

theorem Ordered.append {log more : List (Option Bytes)} {c : Consumer}
    (hc : Ordered codec log c) : Ordered codec (log ++ more) c where
  position := by
    rw [List.length_append]
    exact Nat.le_add_right_of_le hc.position
  read := (entriesFrom_append hc.position).symm ▸ hc.read

/-- What a turn does that is not a crash. -/
theorem turn_cases {log : List (Option Bytes)} {c c' : Consumer} {e : ConsumerInput}
    {flushed : List Consumer} (hcrash : e.isCrash = false)
    (hstep : Consumer.step codec log c e = some (c', flushed)) :
    c' = c ∨ (∃ ins, c' = c.flushBatch ins) ∨ c.position < log.length ∧
      ((entryAt codec log c.position = none ∧ c' = { c with position := c.position + 1 }) ∨
        ∃ x, entryAt codec log c.position = some x ∧
          (c' = { c with position := c.position + 1, batch := c.batch ++ [x] } ∨
            ∃ ins : Insert, c' = ⟨c.position + 1, c.position + 1, [],
              c.table ++ ins.inserted (c.batch ++ [x])⟩)) := by
  cases e with
  | receive ins =>
    rw [Consumer.step] at hstep
    split at hstep
    · cases hstep
    · next payload hpayload =>
      have hlt := (List.getElem?_eq_some_iff.mp hpayload).1
      have hnext := congrArg Prod.fst (Option.some.inj hstep)
      rcases receive_cases hpayload ins with
        ⟨hnone, heq⟩ | ⟨x, hx, ⟨-, heq⟩ | ⟨-, t, heq, ht⟩⟩
      · rw [heq] at hnext
        exact .inr (.inr ⟨hlt, .inl ⟨hnone, hnext.symm⟩⟩)
      · rw [heq] at hnext
        exact .inr (.inr ⟨hlt, .inr ⟨x, hx, .inl hnext.symm⟩⟩)
      · rw [heq] at hnext
        exact .inr (.inr ⟨hlt, .inr ⟨x, hx, .inr ⟨ins, hnext.symm.trans ht⟩⟩⟩)
  | receiveCrash ins => cases hcrash
  | recvError => exact .inl (congrArg Prod.fst (Option.some.inj hstep)).symm
  | tick ins =>
    rw [Consumer.step] at hstep
    split at hstep
    · exact .inl (congrArg Prod.fst (Option.some.inj hstep)).symm
    · exact .inr (.inl ⟨ins, (congrArg Prod.fst (Option.some.inj hstep)).symm⟩)
  | crash => cases hcrash

/-- A turn of the consumer. -/
theorem Ordered.step {log : List (Option Bytes)} {c c' : Consumer} {e : ConsumerInput}
    {flushed : List Consumer} (hc : Ordered codec log c) (hcrash : e.isCrash = false)
    (hstep : Consumer.step codec log c e = some (c', flushed)) : Ordered codec log c' := by
  have hread := hc.read
  rcases turn_cases hcrash hstep with rfl | ⟨ins, rfl⟩ | ⟨hlt, ⟨hnone, rfl⟩ | ⟨x, hx, hnext⟩⟩
  · exact hc
  · refine ⟨hc.position, ?_⟩
    show c.table ++ _ ++ [] <+ _
    rw [List.append_nil]
    exact ((inserted_sublist _ _).append_left c.table).trans hread
  · refine ⟨hlt, ?_⟩
    show c.table ++ c.batch <+ entriesFrom codec log 0 (c.position + 1)
    rw [entriesFrom_concat, Nat.zero_add, hnone]
    exact hread.trans (List.sublist_append_left _ _)
  · have hmore : c.table ++ (c.batch ++ [x]) <+ entriesFrom codec log 0 (c.position + 1) := by
      rw [entriesFrom_concat, Nat.zero_add, hx, ← List.append_assoc]
      exact hread.append_right _
    rcases hnext with rfl | ⟨ins, rfl⟩
    · exact ⟨hlt, hmore⟩
    · refine ⟨hlt, ?_⟩
      show c.table ++ _ ++ [] <+ _
      rw [List.append_nil]
      exact ((inserted_sublist _ _).append_left c.table).trans hmore

/-- What is on its way to the log. -/
def under (s : Pipeline) : List DnsQueryEvent := s.sending.toList ++ s.producer.channel

/-- The log has some of the events of the replies, in order, the others being on
their way or lost; and the consumer has read in order. -/
structure InOrder (json : DnsQueryEvent → Option Bytes) (codec : Codec)
    (h : List PipelineOutput) (s : Pipeline) : Prop where
  logged : ∃ logged, (logged ++ s.under).Sublist (events h) ∧
    s.log.filterMap (rowOf codec) = logged.filterMap (stored json codec)
  consumer : Ordered codec s.log s.consumer

/-- Neither a crash, nor an event appended twice. -/
def Once : PipelineInput → Prop
  | .sent copies => copies ≤ 1
  | .crash _ _ _ => False
  | _ => True

@[simp] theorem events_append (h h' : List PipelineOutput) :
    events (h ++ h') = events h ++ events h' :=
  List.filterMap_append ..

@[simp] theorem events_server (out : List Output) :
    events (out.map .server) = out.filterMap Output.event := by
  rw [events, List.filterMap_map]
  rfl

/-- Sending puts some of the events on the channel, in order. -/
theorem sendAll_channel (p : AnalyticsProducer) (sent : List DnsQueryEvent) :
    (sent.foldl AnalyticsProducer.send p).channel.Sublist (p.channel ++ sent) := by
  induction sent generalizing p with
  | nil => exact (List.append_nil p.channel).symm ▸ .refl _
  | cons event sent ih =>
    have hone : (p.send event).channel.Sublist (p.channel ++ [event]) := by
      unfold AnalyticsProducer.send
      split
      · exact .refl _
      · exact List.sublist_append_left _ _
    rw [List.foldl_cons, ← List.singleton_append, ← List.append_assoc]
    exact (ih _).trans (hone.append_right sent)

theorem record_channel {p p' : AnalyticsProducer} {event : DnsQueryEvent}
    {channel : List DnsQueryEvent} (hchannel : p.channel = event :: channel)
    (hrecord : p.record = some p') : p'.channel = channel := by
  rw [AnalyticsProducer.record, hchannel] at hrecord
  exact (congrArg AnalyticsProducer.channel (Option.some.inj hrecord)).symm

theorem InOrder.step {e : PipelineInput} (hs : InOrder json codec h s) (he : Once e)
    (hstep : Pipeline.step display json codec s e = some (s', out)) :
    InOrder json codec (h ++ out) s' := by
  obtain ⟨logged, hlogged, hrows⟩ := hs.logged
  cases e with
  | server input =>
    rw [Pipeline.step] at hstep
    split at hstep
    · next server output hserver =>
      obtain ⟨rfl, rfl⟩ := Prod.mk.inj (Option.some.inj hstep)
      -- of the events of new replies the channel takes some, in their order
      refine ⟨⟨logged, ?_, hrows⟩, hs.consumer⟩
      rw [events_append, events_server]
      refine List.Sublist.trans ?_ (hlogged.append_right _)
      rw [List.append_assoc, under, under, List.append_assoc]
      exact (((sendAll_channel s.producer _).append_left _).append_left _)
    · cases hstep
  | record =>
    rw [Pipeline.step] at hstep
    split at hstep
    · next event channel producer hnone hchannel hrecord =>
      obtain ⟨rfl, rfl⟩ := Prod.mk.inj (Option.some.inj hstep)
      -- an event moves from the channel to the sender, and stays under way
      refine ⟨⟨logged, ?_, hrows⟩, hs.consumer⟩
      rw [under, hnone, hchannel] at hlogged
      rw [under, record_channel hchannel hrecord, List.append_nil]
      exact hlogged
    · cases hstep
  | sent copies =>
    rw [Pipeline.step] at hstep
    split at hstep
    · next event hsending =>
      obtain ⟨rfl, rfl⟩ := Prod.mk.inj (Option.some.inj hstep)
      -- the first event under way becomes the last of the log, or is lost
      refine ⟨⟨logged ++ List.replicate copies event, ?_, ?_⟩, hs.consumer.append⟩
      · rw [under, hsending] at hlogged
        rw [List.append_nil]
        refine List.Sublist.trans ?_ hlogged
        rw [List.append_assoc]
        refine List.Sublist.append_left ?_ _
        exact ((List.replicate_sublist_replicate event).mpr he).append_right _
      · rw [List.filterMap_append, List.filterMap_append, hrows, rows_appended]
    · cases hstep
  | ensureTable =>
    obtain ⟨rfl, rfl⟩ := Prod.mk.inj (Option.some.inj hstep)
    rw [List.append_nil]
    exact ⟨hs.logged, hs.consumer⟩
  | consume e =>
    rw [Pipeline.step] at hstep
    split at hstep
    · next hready =>
      split at hstep
      · next consumer flushed hconsumer =>
        obtain ⟨rfl, rfl⟩ := Prod.mk.inj (Option.some.inj hstep)
        have hcrash : e.isCrash = false := by simpa using (Bool.and_eq_true_iff.mp hready).2
        rw [List.append_nil]
        exact ⟨hs.logged, hs.consumer.step hcrash hconsumer⟩
      · cases hstep
    · cases hstep
  | crash ins copies restarted => cases he

end InOrder

namespace Sample

open Denis.Sample

/-- A server that blocks the name asked for. -/
def blocking : Server := .start .tokio ⟨[]⟩ config {['a', 'b', '.', 'c', 'd']} ∅

/-- The event of a blocked reply. -/
def event : DnsQueryEvent := ⟨0, ['a', 'b', '.', 'c', 'd'], 1, 3, false, true, 0⟩

/-- Formats of this event only. -/
def eventJson (e : DnsQueryEvent) : Option Bytes :=
  if e = event then some Consumer.Sample.payload else none

def eventCodec : Codec :=
  { Consumer.Sample.codec with
    fromSlice := fun bytes => if bytes = Consumer.Sample.payload then some event else none }

/-- The row of the event. -/
def row : DnsQueryRow := .ofEvent eventCodec event

/-- A blocked query, and its event up to the table. -/
def toTable : List PipelineInput :=
  [.server (ask (client .tokioUdp 1) 7 0), .record, .sent 1, .ensureTable,
    .consume (.receive .ok), .consume (.tick .ok)]

/-- A crash before the row is committed, and reading again. -/
def again : List PipelineInput :=
  toTable ++ [.crash none 0 blocking, .ensureTable, .consume (.receive .ok),
    .consume (.tick .ok)]

end Sample

section InOrder

variable {display json codec} {s s' : Pipeline} {h out : List PipelineOutput}

/-- **Rows are stored in the order of the replies.** In every run without a crash in
which the broker appends nothing twice, whatever else fails (a full channel, messages
lost, inserts refused or stored in part), the table holds rows of events of replies,
each once, in the order of the replies. -/
theorem stored_in_order {server : Server} {es : List PipelineInput}
    (hrun : (machine display json codec).run (start server) es = some (s, h))
    (honce : ∀ e ∈ es, Once e) :
    (s.consumer.table.map Entry.row).Sublist ((events h).filterMap (stored json codec)) := by
  have hbegin : InOrder json codec [] (start server) :=
    ⟨⟨[], .refl _, rfl⟩, ⟨Nat.le_refl 0, .refl _⟩⟩
  have hend : InOrder json codec h s := by
    have hreached := Machine.run_history (C := fun _ e => Once e) (J := InOrder json codec)
      (fun _ _ _ _ _ hs he hstep => hs.step he hstep) hbegin (Machine.along_of_forall honce _) hrun
    exact hreached
  obtain ⟨logged, hlogged, hrows⟩ := hend.logged
  have hread := hend.consumer.read.map Entry.row
  rw [entriesFrom_rows hend.consumer.position, List.map_append] at hread
  calc s.consumer.table.map Entry.row
    _ <+ s.consumer.table.map Entry.row ++ s.consumer.batch.map Entry.row :=
      List.sublist_append_left _ _
    _ <+ (s.log.take s.consumer.position).filterMap (rowOf codec) := hread
    _ <+ s.log.filterMap (rowOf codec) := (List.take_sublist _ _).filterMap _
    _ = logged.filterMap (stored json codec) := hrows
    _ <+ (events h).filterMap (stored json codec) :=
      ((List.sublist_append_left logged s.under).trans hlogged).filterMap _

/-- The row of the blocked reply. -/
theorem Sample.blocked_stored : ∃ s h,
    (machine Denis.Sample.display Sample.eventJson Sample.eventCodec).run (start Sample.blocking)
      Sample.toTable = some (s, h) ∧ s.consumer.table.map Entry.row = [Sample.row] ∧
    [Sample.row] <+ (events h).filterMap (stored Sample.eventJson Sample.eventCodec) := by
  have hlast : ((machine Denis.Sample.display Sample.eventJson Sample.eventCodec).run
      (start Sample.blocking) Sample.toTable).map (fun p => p.1.consumer.table.map Entry.row) =
      some [Sample.row] := by
    decide +kernel
  obtain ⟨⟨s, h⟩, hrun, htable⟩ := Option.map_eq_some_iff.mp hlast
  have honce : ∀ e ∈ Sample.toTable, Once e := by
    simp [Sample.toTable, Once]
  exact ⟨s, h, hrun, htable, htable ▸ stored_in_order hrun honce⟩

end InOrder

/-! ## With crashes -/

section AtMost

variable {display json codec} {s s' : Pipeline} {h out : List PipelineOutput} {n k : Nat}
  {log : List (Option Bytes)} {c c' : Consumer}

/-- After `n` crashes the consumer has stored or holds each message at most `n` times,
and once more if it has read it since. -/
structure Passes (codec : Codec) (log : List (Option Bytes)) (n : Nat) (c : Consumer) : Prop where
  position : c.position ≤ log.length
  committed : c.committed ≤ log.length
  read : ∀ x ∈ c.table ++ c.batch, entryAt codec log x.offset = some x ∧ x.offset < log.length
  count : ∀ x, (c.table ++ c.batch).count x ≤ n + if x.offset < c.position then 1 else 0

theorem Passes.append {more : List (Option Bytes)} (hc : Passes codec log n c) :
    Passes codec (log ++ more) n c where
  position := by
    rw [List.length_append]
    exact Nat.le_add_right_of_le hc.position
  committed := by
    rw [List.length_append]
    exact Nat.le_add_right_of_le hc.committed
  read x hx := by
    obtain ⟨hentry, hlt⟩ := hc.read x hx
    rw [List.length_append]
    exact ⟨(entryAt_append hlt).trans hentry, Nat.lt_add_right _ hlt⟩
  count := hc.count

/-- Storing and losing some of what is held. -/
theorem Passes.shrink (hc : Passes codec log n c) (hcommitted : c'.committed ≤ log.length)
    (hposition : c'.position = c.position)
    (hsub : (c'.table ++ c'.batch).Sublist (c.table ++ c.batch)) : Passes codec log n c' where
  position := hposition ▸ hc.position
  committed := hcommitted
  read x hx := hc.read x (hsub.subset hx)
  count x := by
    rw [hposition]
    exact (hsub.count_le x).trans (hc.count x)

theorem pass_mono (n offset position : Nat) :
    (n + if offset < position then 1 else 0) ≤ n + if offset < position + 1 then 1 else 0 := by
  split
  · rw [if_pos (by omega)]
  · omega

/-- Reading a message that is no event, -/
theorem Passes.skip (hc : Passes codec log n c) (hlt : c.position < log.length) :
    Passes codec log n { c with position := c.position + 1 } where
  position := hlt
  committed := hc.committed
  read := hc.read
  count x := by
    exact (hc.count x).trans (pass_mono _ _ _)

/-- and one that is. -/
theorem Passes.push {x : Entry} (hc : Passes codec log n c) (hlt : c.position < log.length)
    (hx : entryAt codec log c.position = some x) :
    Passes codec log n { c with position := c.position + 1, batch := c.batch ++ [x] } where
  position := hlt
  committed := hc.committed
  read y hy := by
    rw [← List.append_assoc] at hy
    rcases List.mem_append.mp hy with hy | hy
    · exact hc.read y hy
    · obtain rfl := List.mem_singleton.mp hy
      rw [entryAt_offset hx]
      exact ⟨hx, hlt⟩
  count y := by
    have hoffset := entryAt_offset hx
    have hcount := hc.count y
    show (c.table ++ (c.batch ++ [x])).count y ≤ n + if y.offset < c.position + 1 then 1 else 0
    rw [← List.append_assoc, List.count_append]
    by_cases heq : y = x
    · subst heq
      rw [hoffset, if_neg (Nat.lt_irrefl _)] at hcount
      rw [List.count_singleton_self, hoffset, if_pos (Nat.lt_succ_self _)]
      exact Nat.add_le_add_right hcount 1
    · have hnone : [x].count y = 0 := List.count_eq_zero.mpr (by simpa using heq)
      rw [hnone]
      exact hcount.trans (pass_mono _ _ _)

theorem Passes.count_le (hc : Passes codec log n c) (x : Entry) :
    (c.table ++ c.batch).count x ≤ n + 1 := by
  have hcount := hc.count x
  split at hcount
  · exact hcount
  · exact Nat.le_succ_of_le hcount

/-- A crash: whatever of the batch was being inserted, reading starts again. -/
theorem Passes.crash (hc : Passes codec log n c) (hcommitted : c'.committed = c.committed)
    (hposition : c'.position = c.committed) (hbatch : c'.batch = [])
    (hsub : c'.table <+ c.table ++ c.batch) : Passes codec log (n + 1) c' where
  position := hposition ▸ hc.committed
  committed := hcommitted ▸ hc.committed
  read x hx := by
    rw [hbatch, List.append_nil] at hx
    exact hc.read x (hsub.subset hx)
  count x := by
    rw [hbatch, List.append_nil]
    exact ((hsub.count_le x).trans (hc.count_le x)).trans (Nat.le_add_right _ _)

/-- A turn of the consumer. -/
theorem Passes.step {e : ConsumerInput} {flushed : List Consumer} (hc : Passes codec log n c)
    (hcrash : e.isCrash = false) (hstep : Consumer.step codec log c e = some (c', flushed)) :
    Passes codec log n c' := by
  rcases turn_cases hcrash hstep with
    rfl | ⟨ins, rfl⟩ | ⟨hlt, ⟨hnone, rfl⟩ | ⟨x, hx, rfl | ⟨ins, rfl⟩⟩⟩
  · exact hc
  · refine hc.shrink hc.committed rfl ?_
    show c.table ++ _ ++ [] <+ _
    rw [List.append_nil]
    exact (inserted_sublist _ _).append_left c.table
  · exact hc.skip hlt
  · exact hc.push hlt hx
  · refine (hc.push hlt hx).shrink hlt rfl ?_
    show c.table ++ _ ++ [] <+ _
    rw [List.append_nil]
    exact (inserted_sublist _ _).append_left c.table

/-- The process dies. -/
theorem Passes.crashed {ins : Option Insert} (hs : Passes codec s.log n s.consumer)
    (hcrashed : s.crashed codec ins = some c') : Passes codec s.log (n + 1) c' := by
  cases ins with
  | none =>
    obtain rfl := Option.some.inj hcrashed
    exact hs.crash rfl rfl rfl (List.sublist_append_left _ _)
  | some ins =>
    rw [Pipeline.crashed] at hcrashed
    split at hcrashed
    · obtain ⟨⟨c, flushed⟩, hstep, rfl⟩ := Option.map_eq_some_iff.mp hcrashed
      rw [Consumer.step] at hstep
      split at hstep
      · cases hstep
      · next payload hpayload =>
        have hlt := (List.getElem?_eq_some_iff.mp hpayload).1
        obtain ⟨rfl, -⟩ := Prod.mk.inj (Option.some.inj hstep)
        rcases receive_cases hpayload ins with
          ⟨-, heq⟩ | ⟨x, hx, ⟨-, heq⟩ | ⟨-, t, heq, rfl⟩⟩
        · rw [heq]
          exact hs.crash rfl rfl rfl (List.sublist_append_left _ _)
        · rw [heq]
          exact hs.crash rfl rfl rfl (List.sublist_append_left _ _)
        · rw [heq]
          exact (hs.push hlt hx).crash rfl rfl rfl ((inserted_sublist _ _).append_left _)
    · cases hcrashed

/-- The log has at most `k` rows for each event of a reply that is not on its way or
lost; the consumer has read each as often as there were crashes, and perhaps once
more. -/
structure Bounded (json : DnsQueryEvent → Option Bytes) (codec : Codec) (k : Nat)
    (h : List PipelineOutput) (s : Pipeline) : Prop where
  logged : ∀ row, (s.log.filterMap (rowOf codec)).count row +
    k * rowCount json codec row s.under ≤ k * rowCount json codec row (events h)
  consumer : Passes codec s.log (crashes h) s.consumer

/-- The broker appends an event at most `k` times. -/
def AtMost (k : Nat) : PipelineInput → Prop
  | .sent copies => copies ≤ k
  | .crash _ copies _ => copies ≤ k
  | _ => True

@[simp] theorem crashes_append (h h' : List PipelineOutput) :
    crashes (h ++ h') = crashes h + crashes h' :=
  List.countP_append

@[simp] theorem crashes_server (out : List Output) : crashes (out.map .server) = 0 := by
  rw [crashes, List.countP_map]
  exact List.countP_eq_zero.mpr fun _ _ => Bool.false_ne_true

theorem rowCount_append (row : DnsQueryRow) (l l' : List DnsQueryEvent) :
    rowCount json codec row (l ++ l') =
      rowCount json codec row l + rowCount json codec row l' := by
  rw [rowCount, List.filterMap_append, List.count_append]
  rfl

theorem rowCount_le {l l' : List DnsQueryEvent} (h : l <+ l') (row : DnsQueryRow) :
    rowCount json codec row l ≤ rowCount json codec row l' :=
  (h.filterMap _).count_le row

/-- Appending an event so often. -/
theorem rows_copies {copies : Nat} (hle : copies ≤ k) (event : DnsQueryEvent) (row : DnsQueryRow) :
    ((appended json event copies).filterMap (rowOf codec)).count row ≤
      k * rowCount json codec row [event] := by
  rw [rows_appended, rowCount, List.filterMap_replicate]
  cases hstored : stored json codec event with
  | none => exact Nat.zero_le _
  | some r =>
    rw [List.filterMap_cons_some hstored, List.filterMap_nil, List.count_replicate]
    split
    · next heq =>
      rw [beq_iff_eq.mp heq, List.count_singleton_self, Nat.mul_one]
      exact hle
    · exact Nat.zero_le _

/-- Replies send their events, of which the channel takes some. -/
theorem Bounded.replied (hs : Bounded json codec k h s) (server : Server) (output : List Output) :
    Bounded json codec k (h ++ output.map .server)
      { s with server, producer := (output.filterMap Output.event).foldl .send s.producer } := by
  refine ⟨fun row => ?_, ?_⟩
  · have hsent := @rowCount_le json codec _ _ ((sendAll_channel s.producer
      (output.filterMap Output.event)).append_left s.sending.toList) row
    rw [← List.append_assoc] at hsent
    have hmore := Nat.mul_le_mul_left k (hsent.trans (rowCount_append ..).le)
    have hlogged := hs.logged row
    rw [Nat.mul_add] at hmore
    rw [events_append, events_server, rowCount_append, Nat.mul_add]
    exact (Nat.add_le_add_left hmore _).trans
      ((Nat.add_assoc ..).symm.le.trans (Nat.add_le_add_right hlogged _))
  · rw [crashes_append, crashes_server]
    exact hs.consumer

/-- The producer takes an event over from the channel. -/
theorem Bounded.recorded (hs : Bounded json codec k h s) {event : DnsQueryEvent}
    {channel : List DnsQueryEvent} {producer : AnalyticsProducer} (hnone : s.sending = none)
    (hchannel : s.producer.channel = event :: channel)
    (hrecord : s.producer.record = some producer) :
    Bounded json codec k h { s with producer, sending := some event } := by
  refine ⟨fun row => ?_, hs.consumer⟩
  have hlogged := hs.logged row
  rw [under, hnone, hchannel] at hlogged
  rw [under, record_channel hchannel hrecord]
  exact hlogged

/-- The broker appends the event no more than `k` times. -/
theorem Bounded.appended (hs : Bounded json codec k h s) {event : DnsQueryEvent} {copies : Nat}
    (hsending : s.sending = some event) (hle : copies ≤ k) :
    Bounded json codec k h
      { s with sending := none, log := s.log ++ Pipeline.appended json event copies } := by
  refine ⟨fun row => ?_, hs.consumer.append⟩
  have hlogged := hs.logged row
  have hcopies := @rows_copies json codec k copies hle event row
  rw [under, hsending, Option.toList_some, rowCount_append, Nat.mul_add] at hlogged
  rw [List.filterMap_append, List.count_append]
  show _ + k * rowCount json codec row s.producer.channel ≤ _
  omega

/-- A crash loses what was in the channel; what was being sent may be in the log. -/
theorem Bounded.crashed (hs : Bounded json codec k h s) {ins : Option Insert} {copies : Nat}
    {consumer : Consumer} (restarted : Server) (hle : copies ≤ k)
    (hcrashed : s.crashed codec ins = some consumer) :
    Bounded json codec k (h ++ [.crashed]) { s with
      server := restarted, producer := .spawn, sending := none, ready := false, consumer
      log := s.log ++ (s.sending.toList.flatMap fun event =>
        Pipeline.appended json event copies) } := by
  refine ⟨fun row => ?_, ?_⟩
  · have hlogged := hs.logged row
    rw [under, rowCount_append, Nat.mul_add] at hlogged
    have hsending : ((s.sending.toList.flatMap fun event =>
        Pipeline.appended json event copies).filterMap (rowOf codec)).count row ≤
          k * rowCount json codec row s.sending.toList := by
      cases s.sending with
      | none => exact Nat.zero_le _
      | some event =>
        rw [Option.toList_some, List.flatMap_singleton]
        exact rows_copies hle event row
    rw [List.filterMap_append, List.count_append, events_append]
    show _ + k * rowCount json codec row [] ≤ k * rowCount json codec row (events h ++ [])
    rw [List.append_nil]
    have hnone : rowCount json codec row [] = 0 := rfl
    rw [hnone]
    omega
  · rw [crashes_append]
    exact (hs.consumer.crashed hcrashed).append

theorem Bounded.step {e : PipelineInput} (hs : Bounded json codec k h s) (he : AtMost k e)
    (hstep : Pipeline.step display json codec s e = some (s', out)) :
    Bounded json codec k (h ++ out) s' := by
  cases e with
  | server input =>
    rw [Pipeline.step] at hstep
    split at hstep
    · next server output hserver =>
      obtain ⟨rfl, rfl⟩ := Prod.mk.inj (Option.some.inj hstep)
      exact hs.replied server output
    · cases hstep
  | record =>
    rw [Pipeline.step] at hstep
    split at hstep
    · next event channel producer hnone hchannel hrecord =>
      obtain ⟨rfl, rfl⟩ := Prod.mk.inj (Option.some.inj hstep)
      rw [List.append_nil]
      exact hs.recorded hnone hchannel hrecord
    · cases hstep
  | sent copies =>
    rw [Pipeline.step] at hstep
    split at hstep
    · next event hsending =>
      obtain ⟨rfl, rfl⟩ := Prod.mk.inj (Option.some.inj hstep)
      rw [List.append_nil]
      exact hs.appended hsending he
    · cases hstep
  | ensureTable =>
    obtain ⟨rfl, rfl⟩ := Prod.mk.inj (Option.some.inj hstep)
    rw [List.append_nil]
    exact ⟨hs.logged, hs.consumer⟩
  | consume e =>
    rw [Pipeline.step] at hstep
    split at hstep
    · next hready =>
      split at hstep
      · next consumer flushed hconsumer =>
        obtain ⟨rfl, rfl⟩ := Prod.mk.inj (Option.some.inj hstep)
        have hcrash : e.isCrash = false := by simpa using (Bool.and_eq_true_iff.mp hready).2
        rw [List.append_nil]
        exact ⟨hs.logged, hs.consumer.step hcrash hconsumer⟩
      · cases hstep
    · cases hstep
  | crash ins copies restarted =>
    rw [Pipeline.step] at hstep
    split at hstep
    · next consumer hcrashed =>
      obtain ⟨rfl, rfl⟩ := Prod.mk.inj (Option.some.inj hstep)
      exact hs.crashed restarted he hcrashed
    · cases hstep

/-- **No row for nothing, and few twice.** In every run, with any crashes and a broker
that appends each event at most `k` times, every row is in the table at most `k` times
for each event of a reply it comes of, and that once more for every crash. -/
theorem stored_at_most {server : Server} {es : List PipelineInput}
    (hrun : (machine display json codec).run (start server) es = some (s, h))
    (hcopies : ∀ e ∈ es, AtMost k e) (row : DnsQueryRow) :
    (s.consumer.table.map Entry.row).count row ≤
      (crashes h + 1) * (k * rowCount json codec row (events h)) := by
  have hbegin : Bounded json codec k [] (start server) := by
    refine ⟨fun row => Nat.le_refl _, ⟨Nat.le_refl 0, Nat.le_refl 0, ?_, ?_⟩⟩
    · intro x hx
      cases hx
    · exact fun x => Nat.zero_le _
  have hend : Bounded json codec k h s := by
    have hreached := Machine.run_history (C := fun _ e => AtMost k e)
      (J := Bounded json codec k) (fun _ _ _ _ _ hs he hstep => hs.step he hstep) hbegin
      (Machine.along_of_forall hcopies _) hrun
    exact hreached
  have hlogged := hend.logged row
  have hlog := @entriesFrom_rows codec s.log _ (Nat.le_refl s.log.length)
  rw [List.take_length] at hlog
  let entries : Multiset Entry := entriesFrom codec s.log 0 s.log.length
  have htable : (s.consumer.table : Multiset Entry) ≤ (crashes h + 1) • entries := by
    refine Multiset.le_iff_count.mpr fun x => ?_
    rw [Multiset.count_nsmul, Multiset.coe_count, Multiset.coe_count]
    by_cases hx : x ∈ s.consumer.table
    · obtain ⟨hentry, hlt⟩ := hend.consumer.read x (List.mem_append_left _ hx)
      have hmem : x ∈ entriesFrom codec s.log 0 s.log.length :=
        List.mem_filterMap.mpr ⟨x.offset, List.mem_range'_1.mpr ⟨Nat.zero_le _, by omega⟩, hentry⟩
      calc s.consumer.table.count x
        _ ≤ (s.consumer.table ++ s.consumer.batch).count x :=
          (List.sublist_append_left _ _).count_le x
        _ ≤ crashes h + 1 := hend.consumer.count_le x
        _ ≤ (crashes h + 1) * (entriesFrom codec s.log 0 s.log.length).count x :=
          Nat.le_mul_of_pos_right _ (List.count_pos_iff.mpr hmem)
    · rw [List.count_eq_zero.mpr hx]
      exact Nat.zero_le _
  have hrows := Multiset.count_le_of_le row (Multiset.map_le_map htable (f := Entry.row))
  rw [Multiset.map_nsmul, Multiset.count_nsmul, Multiset.map_coe, Multiset.map_coe,
    Multiset.coe_count, Multiset.coe_count, hlog] at hrows
  exact hrows.trans (Nat.mul_le_mul_left _ (Nat.le_of_add_right_le hlogged))

/-- The row stored before and after a crash. -/
theorem Sample.stored_twice : ∃ s h,
    (machine Denis.Sample.display Sample.eventJson Sample.eventCodec).run (start Sample.blocking)
      Sample.again = some (s, h) ∧
    2 ≤ (crashes h + 1) *
      (1 * rowCount Sample.eventJson Sample.eventCodec Sample.row (events h)) := by
  have hlast : ((machine Denis.Sample.display Sample.eventJson Sample.eventCodec).run
      (start Sample.blocking) Sample.again).map
        (fun p => (p.1.consumer.table.map Entry.row).count Sample.row) = some 2 := by
    decide +kernel
  obtain ⟨⟨s, h⟩, hrun, hcount⟩ := Option.map_eq_some_iff.mp hlast
  have hcopies : ∀ e ∈ Sample.again, AtMost 1 e := by
    simp [Sample.again, Sample.toTable, AtMost]
  exact ⟨s, h, hrun, hcount ▸ stored_at_most hrun hcopies Sample.row⟩

end AtMost

end Pipeline

end Denis
