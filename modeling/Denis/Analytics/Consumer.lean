import Denis.Handler.Query
import Denis.Lib.Machine

/-!
# The analytics consumer (`analytics/consumer.rs`)

`AnalyticsConsumer::run` reads a Kafka log from its position, collects rows and
inserts a batch into ClickHouse when it is full or when the timer ticks.
`Consumer.step` is one turn of its `select!` loop, or a crash, after which
reading starts again at the committed offset. Nothing else runs while an arm of
the `select!` waits for ClickHouse, but the process may die there, and so between
an insert and the commit after it (`receiveCrash`).

The log is one partition, as far as it has been written. A commit is of the
offset after the message and takes effect at once. Rows are kept with the offset
of their message, which the source's rows do not have, so that two equal events
stay apart.

Parameters, as `Codec`: `serde_json::from_slice` and hickory's texts of record
types and response codes. What ClickHouse does with an insert is an input
(`Insert`).
-/

namespace Denis

open Text

/-- `DnsQueryRow` (`consumer.rs:17–26`). -/
structure DnsQueryRow where
  timestampMs : UInt64
  domain : Str
  queryType : Str
  responseCode : Str
  cacheHit : UInt8
  blocked : UInt8
  latencyUs : UInt64
  deriving DecidableEq

/-- What the consumer uses of serde and hickory. -/
structure Codec where
  /-- `serde_json::from_slice::<DnsQueryEvent>`. -/
  fromSlice : Bytes → Option DnsQueryEvent
  /-- `RecordType::to_string`. -/
  recordType : RecordType → Str
  /-- `ResponseCode::from(high, low).to_string()`. -/
  responseCode : UInt8 → UInt8 → Str

/-- `DnsQueryRow::from` (`consumer.rs:28–45`). -/
def DnsQueryRow.ofEvent (codec : Codec) (e : DnsQueryEvent) : DnsQueryRow where
  timestampMs := e.timestampMs
  domain := e.domain
  queryType := codec.recordType ⟨e.queryType⟩
  responseCode :=
    codec.responseCode (e.responseCode >>> 4).toUInt8 (e.responseCode &&& 0x0F).toUInt8
  cacheHit := if e.cacheHit then 1 else 0
  blocked := if e.blocked then 1 else 0
  latencyUs := e.latencyUs

/-- A row and the offset of the message it was read from. -/
structure Entry where
  offset : Nat
  row : DnsQueryRow
  deriving DecidableEq

/-- `BATCH_SIZE`. -/
def batchSize : Nat := 1000

/-- What ClickHouse does with an insert: it cannot be opened, or the rows of
some indices are stored and the insert ends, successfully or not. Rows whose
`write` failed are not stored; an `end` that fails may have stored any. -/
inductive Insert
  | openFailed
  | opened (stored : Nat → Bool) (ended : Bool)

/-- The rows an insert of a batch puts into the table. -/
def Insert.inserted : Insert → List Entry → List Entry
  | .openFailed, _ => []
  | .opened stored _, batch => (batch.zipIdx.filter fun p => stored p.2).map Prod.fst

/-- An insert without any failure. -/
def Insert.ok : Insert := .opened (fun _ => true) true

/-- The consumer, its committed offset and the table `dns_queries`. -/
structure Consumer where
  committed : Nat
  position : Nat
  batch : List Entry
  table : List Entry
  deriving DecidableEq

/-- What happens next; `ins` is what ClickHouse does if the step flushes. In
`receiveCrash` the process dies after that, before it commits. -/
inductive ConsumerInput
  | receive (ins : Insert)
  | receiveCrash (ins : Insert)
  | recvError
  | tick (ins : Insert)
  | crash

namespace Consumer

/-- The consumer started on a group without offsets, with an empty table. -/
def start : Consumer := ⟨0, 0, [], []⟩

/-- `flush_batch` (`consumer.rs:140–156`): errors are logged, and the batch is
cleared. -/
def flushBatch (s : Consumer) (ins : Insert) : Consumer :=
  { s with batch := [], table := s.table ++ ins.inserted s.batch }

/-- A crash and restart: reading goes on at the committed offset. -/
def restart (s : Consumer) : Consumer := { s with position := s.committed, batch := [] }

variable (codec : Codec) (log : List (Option Bytes))

/-- The arm of `recv` (`consumer.rs:114–129`). -/
def receive (s : Consumer) (payload : Option Bytes) (ins : Insert) : Consumer × List Consumer :=
  let offset := s.position
  let s := { s with position := offset + 1 }
  match payload with
  | none => (s, [])
  | some payload =>
    match codec.fromSlice payload with
    | none => (s, [])
    | some event =>
      let s := { s with batch := s.batch ++ [⟨offset, .ofEvent codec event⟩] }
      if batchSize ≤ s.batch.length then
        let s := { s.flushBatch ins with committed := offset + 1 }
        (s, [s])
      else (s, [])

/-- One turn of the loop (`consumer.rs:112–136`), or a crash. A step that flushes
outputs the state it leaves. -/
def step (s : Consumer) : ConsumerInput → Option (Consumer × List Consumer)
  | .receive ins =>
    match log[s.position]? with
    | none => none
    | some payload => some (s.receive codec payload ins)
  | .receiveCrash ins =>
    match log[s.position]? with
    | none => none
    | some payload =>
      some (restart { (s.receive codec payload ins).1 with committed := s.committed }, [])
  | .recvError => some (s, [])
  | .tick ins =>
    if s.batch.isEmpty then some (s, [])
    else
      let s := s.flushBatch ins
      some (s, [s])
  | .crash => some (s.restart, [])

/-- The consumer as a machine. -/
abbrev machine : Machine Consumer ConsumerInput Consumer := ⟨step codec log⟩

/-- The entry of the message at an offset, if it is an event. -/
def entryAt (offset : Nat) : Option Entry := do
  let payload ← (← log[offset]?)
  let event ← codec.fromSlice payload
  return ⟨offset, .ofEvent codec event⟩

/-- The entries of some messages from an offset on. -/
def entriesFrom (offset n : Nat) : List Entry :=
  (List.range' offset n).filterMap (entryAt codec log)

/-- Everything a step can do. -/
inductive Transition (s : Consumer) : ConsumerInput → Consumer → List Consumer → Prop
  | idle {e : ConsumerInput} : (∀ ins, e ≠ .receive ins) → Transition s e s []
  | skip {ins : Insert} : entryAt codec log s.position = none →
      Transition s (.receive ins) { s with position := s.position + 1 } []
  | buffer {ins : Insert} {x : Entry} : entryAt codec log s.position = some x →
      s.batch.length + 1 < batchSize →
      Transition s (.receive ins)
        { s with position := s.position + 1, batch := s.batch ++ [x] } []
  | commit {ins : Insert} {x : Entry} {s' : Consumer} :
      entryAt codec log s.position = some x → batchSize ≤ s.batch.length + 1 →
      s' = ⟨s.position + 1, s.position + 1, [], s.table ++ ins.inserted (s.batch ++ [x])⟩ →
      Transition s (.receive ins) s' [s']
  | flush {ins : Insert} : s.batch ≠ [] →
      Transition s (.tick ins) (s.flushBatch ins) [s.flushBatch ins]
  | interrupted {ins : Insert} {x : Entry} {s' : Consumer} :
      entryAt codec log s.position = some x → batchSize ≤ s.batch.length + 1 →
      s' = ⟨s.committed, s.committed, [], s.table ++ ins.inserted (s.batch ++ [x])⟩ →
      Transition s (.receiveCrash ins) s' []
  | crash {e : ConsumerInput} : (∀ ins, e ≠ .receive ins) → Transition s e s.restart []

variable {codec log} {s s' : Consumer} {e : ConsumerInput} {out : List Consumer}

theorem entryAt_offset {offset : Nat} {x : Entry} (h : entryAt codec log offset = some x) :
    x.offset = offset := by
  unfold entryAt at h
  simp only [Option.bind_eq_bind, Option.bind_eq_some_iff] at h
  obtain ⟨_, -, _, -, _, -, hx⟩ := h
  rw [← Option.some.inj hx]

/-- What reading a message does. -/
theorem receive_cases {payload : Option Bytes} (hpayload : log[s.position]? = some payload)
    (ins : Insert) :
    (entryAt codec log s.position = none ∧
        s.receive codec payload ins = ({ s with position := s.position + 1 }, [])) ∨
      ∃ x, entryAt codec log s.position = some x ∧
        ((s.batch.length + 1 < batchSize ∧ s.receive codec payload ins =
            ({ s with position := s.position + 1, batch := s.batch ++ [x] }, [])) ∨
          (batchSize ≤ s.batch.length + 1 ∧ ∃ s', s.receive codec payload ins = (s', [s']) ∧
            s' = ⟨s.position + 1, s.position + 1, [],
              s.table ++ ins.inserted (s.batch ++ [x])⟩)) := by
  unfold receive
  cases payload with
  | none => exact .inl ⟨by simp [entryAt, hpayload], rfl⟩
  | some bytes =>
    cases hevent : codec.fromSlice bytes with
    | none => exact .inl ⟨by simp [entryAt, hpayload, hevent], by simp only [hevent]⟩
    | some event =>
      have hx : entryAt codec log s.position = some ⟨s.position, .ofEvent codec event⟩ := by
        simp [entryAt, hpayload, hevent]
      refine .inr ⟨_, hx, ?_⟩
      simp only [hevent, List.length_append, List.length_singleton]
      split
      · next hfull => exact .inr ⟨hfull, _, rfl, rfl⟩
      · next hroom => exact .inl ⟨Nat.lt_of_not_le hroom, rfl⟩

/-- **What a step does.** -/
theorem step_transition (h : step codec log s e = some (s', out)) :
    Transition codec log s e s' out := by
  cases e with
  | receive ins =>
    cases hpayload : log[s.position]? with
    | none => simp [step, hpayload] at h
    | some payload =>
      simp only [step, hpayload, Option.some.injEq] at h
      rcases receive_cases hpayload ins with ⟨hnone, heq⟩ | ⟨x, hx, ⟨hroom, heq⟩ |
          ⟨hfull, t, heq, ht⟩⟩
      · obtain ⟨rfl, rfl⟩ := Prod.mk.inj (heq.symm.trans h)
        exact .skip hnone
      · obtain ⟨rfl, rfl⟩ := Prod.mk.inj (heq.symm.trans h)
        exact .buffer hx hroom
      · obtain ⟨rfl, rfl⟩ := Prod.mk.inj (heq.symm.trans h)
        exact .commit hx hfull ht
  | receiveCrash ins =>
    cases hpayload : log[s.position]? with
    | none => simp [step, hpayload] at h
    | some payload =>
      simp only [step, hpayload, Option.some.injEq] at h
      obtain ⟨rfl, rfl⟩ := Prod.mk.inj h
      rcases receive_cases hpayload ins with ⟨-, heq⟩ | ⟨x, hx, ⟨-, heq⟩ | ⟨hfull, t, heq, rfl⟩⟩
      · rw [heq]
        exact .crash (by simp)
      · rw [heq]
        exact .crash (by simp)
      · rw [heq]
        exact .interrupted hx hfull rfl
  | recvError =>
    obtain ⟨rfl, rfl⟩ := Prod.mk.inj (Option.some.inj h)
    exact .idle (by simp)
  | tick ins =>
    by_cases hbatch : s.batch = []
    · simp only [step, hbatch, List.isEmpty_nil, if_true, Option.some.injEq] at h
      obtain ⟨rfl, rfl⟩ := Prod.mk.inj h
      exact .idle (by simp)
    · simp only [step, List.isEmpty_iff, hbatch, if_false, Option.some.injEq] at h
      obtain ⟨rfl, rfl⟩ := Prod.mk.inj h
      exact .flush hbatch
  | crash =>
    obtain ⟨rfl, rfl⟩ := Prod.mk.inj (Option.some.inj h)
    exact .crash (by simp)

/-- A timer flush of what there is. -/
theorem step_tick (hbatch : s.batch ≠ []) (ins : Insert) :
    step codec log s (.tick ins) = some (s.flushBatch ins, [s.flushBatch ins]) := by
  simp [step, hbatch]

theorem inserted_subset {ins : Insert} {batch : List Entry} {x : Entry}
    (h : x ∈ ins.inserted batch) : x ∈ batch := by
  unfold Insert.inserted at h
  split at h
  · cases h
  · obtain ⟨⟨y, i⟩, hmem, rfl⟩ := List.mem_map.mp h
    exact List.fst_mem_of_mem_zipIdx (List.mem_filter.mp hmem).1

theorem inserted_ok (batch : List Entry) : Insert.ok.inserted batch = batch := by
  simp [Insert.ok, Insert.inserted]

/-! ## The batch -/

/-- The batch holds what was read since the last commit. -/
structure Buffered (codec : Codec) (log : List (Option Bytes)) (s : Consumer) : Prop where
  position : s.committed ≤ s.position
  batch : ∀ x ∈ s.batch, s.committed ≤ x.offset ∧ x.offset < s.position ∧
    entryAt codec log x.offset = some x

theorem buffered_start : Buffered codec log start := ⟨Nat.le_refl 0, by simp [start]⟩

theorem buffered_step (hs : Buffered codec log s) (h : step codec log s e = some (s', out)) :
    Buffered codec log s' := by
  have hposition := hs.position
  cases step_transition h with
  | idle _ => exact hs
  | skip _ =>
    refine ⟨Nat.le_succ_of_le hs.position, ?_⟩
    intro x hx
    obtain ⟨hfrom, hlt, hentry⟩ := hs.batch x hx
    exact ⟨hfrom, Nat.lt_succ_of_lt hlt, hentry⟩
  | buffer hx _ =>
    refine ⟨Nat.le_succ_of_le hs.position, ?_⟩
    intro y hy
    rcases List.mem_append.mp hy with hy | hy
    · obtain ⟨hfrom, hlt, hentry⟩ := hs.batch y hy
      exact ⟨hfrom, Nat.lt_succ_of_lt hlt, hentry⟩
    · obtain rfl := List.mem_singleton.mp hy
      rw [entryAt_offset hx]
      exact ⟨hs.position, Nat.lt_succ_self _, hx⟩
  | commit _ _ heq =>
    subst heq
    exact ⟨Nat.le_refl _, by simp⟩
  | flush _ => exact ⟨hs.position, by simp [flushBatch]⟩
  | interrupted _ _ heq =>
    subst heq
    exact ⟨Nat.le_refl _, by simp⟩
  | crash _ => exact ⟨Nat.le_refl _, by simp [restart]⟩

/-- **Messages that do not fill the batch are buffered**, whatever inserts would
do. -/
theorem run_receives {n : Nat} (ins : Insert) (hlog : s.position + n ≤ log.length)
    (hroom : s.batch.length + n < batchSize) :
    (machine codec log).run s (List.replicate n (.receive ins)) =
      some ({ s with
        position := s.position + n
        batch := s.batch ++ entriesFrom codec log s.position n }, []) := by
  induction n generalizing s with
  | zero => simp [entriesFrom]
  | succ n ih =>
    have hlt : s.position < log.length := by omega
    rw [List.replicate_succ, entriesFrom, List.range'_succ, List.filterMap_cons]
    refine Machine.run_cons_eq_some.mpr ?_
    cases hstep : step codec log s (.receive ins) with
    | none =>
      simp [step, List.getElem?_eq_getElem hlt] at hstep
    | some p =>
      obtain ⟨s', out⟩ := p
      refine ⟨s', out, [], hstep, ?_⟩
      have hlog' : s.position + 1 + n ≤ log.length := by omega
      cases step_transition hstep with
      | idle hne => exact absurd rfl (hne ins)
      | crash hne => exact absurd rfl (hne ins)
      | skip hnone =>
        rw [hnone, ih hlog' (by show s.batch.length + n < batchSize; omega)]
        simp [entriesFrom, Nat.add_assoc, Nat.add_comm 1 n]
      | @buffer _ x hx _ =>
        have hroom' : (s.batch ++ [x]).length + n < batchSize := by
          rw [List.length_append, List.length_singleton]
          omega
        rw [hx, ih hlog' hroom']
        simp [entriesFrom, Nat.add_assoc, Nat.add_comm 1 n]
      | commit _ hfull _ => omega

end Consumer

/-! ## Sample data

A log of one full batch of the same event. -/

namespace Consumer.Sample

/-- A query for `a.b` of type A, answered from upstream in 7 µs. -/
def event : DnsQueryEvent := ⟨0, ['a', '.', 'b'], 1, 0, false, false, 7⟩

/-- The event in JSON, as the sequence of its fields. -/
def payload : Text.Bytes := Text.utf8
  ['[', '0', ',', '"', 'a', '.', 'b', '"', ',', '1', ',', '0', ',', 'f', 'a', 'l', 's', 'e', ',',
    'f', 'a', 'l', 's', 'e', ',', '7', ']']

/-- Formats of this event only. -/
def codec : Codec where
  fromSlice bytes := if bytes = payload then some event else none
  recordType := Denis.Sample.display
  responseCode high low :=
    if high = 0 ∧ low = 0 then ['N', 'o', ' ', 'E', 'r', 'r', 'o', 'r'] else []

def log : List (Option Text.Bytes) := List.replicate batchSize (some payload)

/-- The entries of the first messages. -/
def entries (n : Nat) : List Entry := (List.range n).map fun i => ⟨i, .ofEvent codec event⟩

theorem entryAt_log {i : Nat} (hi : i < batchSize) :
    entryAt codec log i = some ⟨i, .ofEvent codec event⟩ := by
  have hpayload : log[i]? = some (some payload) := by
    rw [log, List.getElem?_replicate, if_pos hi]
  simp [entryAt, hpayload, codec]

theorem mem_entries {n : Nat} {x : Entry} (hn : n ≤ batchSize)
    (hx : entryAt codec log x.offset = some x) (hlt : x.offset < n) : x ∈ entries n := by
  rw [entryAt_log (Nat.lt_of_lt_of_le hlt hn)] at hx
  rw [← Option.some.inj hx]
  exact List.mem_map_of_mem (List.mem_range.mpr hlt)

theorem entries_succ (n : Nat) :
    entries (n + 1) = entries n ++ [⟨n, .ofEvent codec event⟩] := by
  rw [entries, entries, List.range_succ, List.map_append, List.map_singleton]

theorem entries_length (n : Nat) : (entries n).length = n := by
  rw [entries, List.length_map, List.length_range]

/-- Reading all but one message. -/
theorem run_reads (ins : Insert) :
    (machine codec log).run start (List.replicate 999 (.receive ins)) =
      some (⟨0, 999, entries 999, []⟩, []) := by
  have hlog : start.position + 999 ≤ log.length := by
    rw [log, List.length_replicate]
    decide
  have hentries : entriesFrom codec log 0 999 = entries 999 := by
    rw [entriesFrom, entries, List.range_eq_range', ← List.filterMap_eq_map]
    refine List.filterMap_congr ?_
    intro i hi
    have hlt := (List.mem_range'_1.mp hi).2
    exact entryAt_log (by rw [batchSize]; omega)
  rw [run_receives ins hlog (by decide)]
  show some ((⟨0, 0 + 999, [] ++ entriesFrom codec log 0 999, []⟩ : Consumer),
    ([] : List Consumer)) = _
  rw [hentries, List.nil_append]

/-- The state after the whole log. -/
def full (ins : Insert) : Consumer := ⟨1000, 1000, [], ins.inserted (entries 1000)⟩

/-- Reading the last message flushes the batch and commits. -/
theorem step_full (ins : Insert) :
    (machine codec log).step ⟨0, 999, entries 999, []⟩ (.receive ins) =
      some (full ins, [full ins]) := by
  have hpayload : log[999]? = some (some payload) := by
    rw [log, List.getElem?_replicate, if_pos (by decide)]
  have hevent : codec.fromSlice payload = some event := by
    show (if payload = payload then some event else none) = some event
    exact if_pos rfl
  have hfull : batchSize ≤ (entries 1000).length := by
    rw [entries_length, batchSize]
  simp only [step, hpayload, receive, hevent, flushBatch, List.nil_append]
  rw [← entries_succ 999, if_pos hfull, full]

theorem run_full (ins : Insert) :
    (machine codec log).run start (List.replicate 999 (.receive ins) ++ [.receive ins]) =
      some (full ins, [full ins]) := by
  refine Machine.run_append.mpr ⟨_, [], [full ins], run_reads ins, ?_, (List.nil_append _).symm⟩
  exact Machine.run_cons_eq_some.mpr
    ⟨full ins, [full ins], [], step_full ins, rfl, (List.append_nil _).symm⟩

end Consumer.Sample

end Denis
