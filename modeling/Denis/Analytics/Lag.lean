import Denis.Lib.Text
import Mathlib.Algebra.Order.BigOperators.Group.List
import Mathlib.Algebra.Order.Ring.Int

/-!
# The consumer lag of `/stats` (`analytics/stats.rs`)

`fetch_kafka_stats_sync` asks the broker for the partitions of the topic, the
committed offsets of the consumer group and the watermarks of each partition,
and sums what is stored and what is unconsumed. What the broker answers is
`KafkaReplies`; the type of offsets and `Offset::to_raw` are rdkafka's, and
`RawOffsets` is what its documentation says of them. The sums are in `i64`,
which wraps in a release build.

The fallback `unwrap_or(low.max(0))` is meant for a partition without a commit.
rdkafka lists such a partition with `Offset::Invalid`, whose `to_raw` is
`Some(-1001)`, so the fallback is not taken and the partition is counted from
−1001 on. `consumer_lag_iff` says when the figure is the number of unconsumed
messages nevertheless.
-/

namespace Denis

open Text

/-- `TOPIC` (`analytics/producer.rs:9`). -/
def kafkaTopic : Str := ['d', 'n', 's', '-', 'q', 'u', 'e', 'r', 'i', 'e', 's']

/-- `KafkaStats` (`stats.rs:37–43`). -/
structure KafkaStats where
  topic : Str
  partitions : Int32
  totalMessages : Int64
  consumerLag : Int64
  deriving DecidableEq

/-- An element of a `TopicPartitionList`. -/
structure TplElem (Offset : Type) where
  topic : Str
  partition : Int32
  offset : Offset

/-- A topic of the metadata: its name and the ids of its partitions. -/
structure TopicMetadata where
  name : Str
  partitions : List Int32

/-- What the calls of rdkafka return: the consumer, the metadata, the committed
offsets and the watermarks of a partition. -/
structure KafkaReplies (Offset : Type) where
  create : Bool
  metadata : Option (List TopicMetadata)
  committed : Option (List (TplElem Offset))
  watermarks : Int32 → Option (Int64 × Int64)

namespace KafkaStats

variable {Offset : Type} (toRaw : Offset → Option Int64)

/-- The statistics where the broker cannot be asked (`stats.rs:187–194`). -/
def unavailable : KafkaStats := ⟨kafkaTopic, 0, -1, -1⟩

/-- The committed offset of a partition (`stats.rs:244–249`). -/
def committedOffset (committed : List (TplElem Offset)) (pid : Int32) (low : Int64) : Int64 :=
  ((committed.find? fun e => e.topic = kafkaTopic && e.partition = pid).bind
    fun e => toRaw e.offset).getD (max low 0)

/-- One turn of the loop over the partitions (`stats.rs:236–252`). -/
def count (r : KafkaReplies Offset) (committed : List (TplElem Offset)) (acc : Int64 × Int64)
    (pid : Int32) : Int64 × Int64 :=
  match r.watermarks pid with
  | none => acc
  | some (low, high) =>
    (acc.1 + max (high - low) 0,
      acc.2 + max (high - committedOffset toRaw committed pid low) 0)

/-- `fetch_kafka_stats_sync` (`stats.rs:178–260`). -/
def fetchKafkaStatsSync (r : KafkaReplies Offset) : KafkaStats :=
  if r.create then
    match r.metadata with
    | none => unavailable
    | some topics =>
      match topics.find? fun t => t.name = kafkaTopic with
      | none => ⟨kafkaTopic, 0, 0, 0⟩
      | some topic =>
        let committed := r.committed.getD []
        let sums := topic.partitions.foldl (count toRaw r committed) (0, 0)
        ⟨kafkaTopic, Int32.ofNat topic.partitions.length, sums.1, sums.2⟩
  else unavailable

end KafkaStats

/-! ## What is unconsumed -/

/-- A partition whose watermarks were fetched. -/
structure FetchedPartition where
  low : Int64
  high : Int64
  commit : Option Int64

namespace FetchedPartition

/-- Its messages. -/
def stored (p : FetchedPartition) : Int := p.high.toInt - p.low.toInt

/-- Its messages from the commit on, or all if there is no commit. -/
def unconsumed (p : FetchedPartition) : Int :=
  p.high.toInt - (p.commit.getD p.low).toInt

/-- What is counted beyond that: nothing if there is a commit; 1001 and the
messages before the low watermark if there is none, unless the subtraction wraps
to a negative number, which counts as zero. -/
def misread (p : FetchedPartition) : Int :=
  match p.commit with
  | some _ => 0
  | none => if p.high.toInt + 1001 < 2 ^ 63 then 1001 + p.low.toInt else - p.stored

/-- Watermarks and commit in the order the broker keeps them in. -/
structure Ordered (p : FetchedPartition) : Prop where
  low : 0 ≤ p.low.toInt
  high : p.low.toInt ≤ p.high.toInt
  commit : ∀ c, p.commit = some c → p.low.toInt ≤ c.toInt ∧ c.toInt ≤ p.high.toInt

end FetchedPartition

/-- What rdkafka documents of `Offset::to_raw`. -/
structure RawOffsets {Offset : Type} (toRaw : Offset → Option Int64) (invalid : Offset)
    (offset : Int64 → Offset) : Prop where
  invalid : toRaw invalid = some (-1001)
  offset : ∀ n, 0 ≤ n.toInt → toRaw (offset n) = some n

namespace KafkaReplies

variable {Offset : Type}

/-- The partitions whose watermarks were fetched. -/
def fetched (r : KafkaReplies Offset) (commits : Int32 → Option Int64) (pids : List Int32) :
    List FetchedPartition :=
  pids.filterMap fun pid => (r.watermarks pid).map fun w => ⟨w.1, w.2, commits pid⟩

/-- The broker knows the topic with these partitions, and lists each with its
commit, or `invalid` if it has none. -/
structure Reports (r : KafkaReplies Offset) (invalid : Offset) (offset : Int64 → Offset)
    (pids : List Int32) (commits : Int32 → Option Int64) : Prop where
  create : r.create = true
  topic : ∃ topics topic, r.metadata = some topics ∧
    topics.find? (fun t => t.name = kafkaTopic) = some topic ∧ topic.partitions = pids
  committed : ∃ elems, r.committed = some elems ∧ ∀ pid ∈ pids,
    elems.find? (fun e => e.topic = kafkaTopic && e.partition = pid) =
      some ⟨kafkaTopic, pid, ((commits pid).map offset).getD invalid⟩
  ordered : ∀ p ∈ r.fetched commits pids, p.Ordered

end KafkaReplies

/-! ## What a turn of the loop adds -/

namespace FetchedPartition

variable {p : FetchedPartition}

theorem toInt_max (a b : Int64) : (max a b).toInt = max a.toInt b.toInt := by
  show (if a ≤ b then b else a).toInt = _
  split
  · next hle =>
    rw [Int64.le_iff_toInt_le] at hle
    omega
  · next hlt =>
    rw [Int64.le_iff_toInt_le] at hlt
    omega

/-- A difference that is not negative does not wrap. -/
theorem toInt_sub {a b : Int64} (hb : 0 ≤ b.toInt) (hle : b.toInt ≤ a.toInt) :
    (max (a - b) 0).toInt = a.toInt - b.toInt := by
  have ha := a.toInt_lt
  rw [toInt_max, Int64.toInt_sub, Int.bmod_def, Int64.toInt_zero]
  omega

/-- `total_messages` grows by the messages stored. -/
theorem total_term (hp : p.Ordered) : (max (p.high - p.low) 0).toInt = p.stored :=
  toInt_sub hp.low hp.high

/-- `consumer_lag` grows by what is unconsumed and what is misread. -/
theorem lag_term (hp : p.Ordered) :
    (max (p.high - p.commit.getD (-1001)) 0).toInt = p.unconsumed + p.misread := by
  unfold unconsumed misread
  cases hcommit : p.commit with
  | some c =>
    obtain ⟨hlow, hhigh⟩ := hp.commit c hcommit
    rw [Option.getD_some, Option.getD_some, toInt_sub (Int.le_trans hp.low hlow) hhigh, Int.add_zero]
  | none =>
    have hlow := hp.low
    have hhigh := hp.high
    have hlt := p.high.toInt_lt
    have hraw : (-1001 : Int64).toInt = -1001 := rfl
    rw [Option.getD_none, Option.getD_none, toInt_max, Int64.toInt_sub, Int.bmod_def,
      Int64.toInt_zero, hraw, stored]
    dsimp only
    split <;> omega

/-- What is misread is misread of partitions without a commit only. -/
theorem misread_nonneg (hp : p.Ordered) (hfits : p.high.toInt + 1001 < 2 ^ 63) :
    0 ≤ p.misread ∧ p.unconsumed + p.misread ≤ p.high.toInt + 1001 ∧
      (p.misread = 0 ↔ p.commit ≠ none) := by
  have hlow := hp.low
  unfold misread unconsumed
  cases hcommit : p.commit with
  | some c =>
    have hle := (hp.commit c hcommit).1
    simp only [Option.getD_some]
    exact ⟨Int.le_refl _, by omega, by simp⟩
  | none =>
    simp only [Option.getD_none, if_pos hfits]
    exact ⟨by omega, by omega, by simp; omega⟩

theorem unconsumed_bounds (hp : p.Ordered) : 0 ≤ p.unconsumed ∧ p.unconsumed ≤ p.stored := by
  unfold unconsumed stored
  have hhigh := hp.high
  cases hcommit : p.commit with
  | some c =>
    obtain ⟨hlow, hhigh'⟩ := hp.commit c hcommit
    simp only [Option.getD_some]
    omega
  | none =>
    simp only [Option.getD_none]
    omega

end FetchedPartition

namespace KafkaReplies

open FetchedPartition KafkaStats

variable {Offset : Type} {toRaw : Offset → Option Int64} {invalid : Offset}
  {offset : Int64 → Offset} {r : KafkaReplies Offset} {commits : Int32 → Option Int64}

/-- The offset read of a partition: its commit, or −1001. -/
theorem committedOffset_eq (hraw : RawOffsets toRaw invalid offset)
    {elems : List (TplElem Offset)} {pid : Int32} {low : Int64}
    (hfind : elems.find? (fun e => e.topic = kafkaTopic && e.partition = pid) =
      some ⟨kafkaTopic, pid, ((commits pid).map offset).getD invalid⟩)
    (hcommit : ∀ c, commits pid = some c → 0 ≤ c.toInt) :
    committedOffset toRaw elems pid low = (commits pid).getD (-1001) := by
  rw [committedOffset, hfind, Option.bind_some]
  dsimp only
  cases hc : commits pid with
  | some c =>
    rw [Option.map_some, Option.getD_some, hraw.offset c (hcommit c hc)]
    rfl
  | none =>
    rw [Option.map_none, Option.getD_none, hraw.invalid]
    rfl

/-- **The loop** sums, modulo 2⁶⁴, what each fetched partition adds. -/
theorem foldl_count (hraw : RawOffsets toRaw invalid offset) {elems : List (TplElem Offset)}
    {pids : List Int32}
    (helems : ∀ pid ∈ pids, elems.find? (fun e => e.topic = kafkaTopic && e.partition = pid) =
      some ⟨kafkaTopic, pid, ((commits pid).map offset).getD invalid⟩)
    (hordered : ∀ p ∈ r.fetched commits pids, p.Ordered) (a b : Int) :
    pids.foldl (count toRaw r elems) (Int64.ofInt a, Int64.ofInt b) =
      (Int64.ofInt (a + ((r.fetched commits pids).map stored).sum),
        Int64.ofInt (b + ((r.fetched commits pids).map fun p => p.unconsumed + p.misread).sum)) := by
  induction pids generalizing a b with
  | nil => simp [fetched]
  | cons pid pids ih =>
    have hrest := ih fun q hq => helems q (List.mem_cons_of_mem _ hq)
    rw [List.foldl_cons, count]
    cases hw : r.watermarks pid with
    | none =>
      have hskip : r.fetched commits (pid :: pids) = r.fetched commits pids := by
        rw [fetched, List.filterMap_cons_none (by rw [hw]; rfl)]
        rfl
      rw [hskip] at hordered ⊢
      exact hrest hordered a b
    | some w =>
      have hcons : r.fetched commits (pid :: pids) =
          ⟨w.1, w.2, commits pid⟩ :: r.fetched commits pids := by
        rw [fetched, List.filterMap_cons_some (by rw [hw]; rfl)]
        rfl
      rw [hcons] at hordered ⊢
      have hp := hordered _ (List.mem_cons_self ..)
      have htotal := total_term hp
      have hlag := lag_term hp
      have hoffset : committedOffset toRaw elems pid w.1 = (commits pid).getD (-1001) :=
        committedOffset_eq hraw (helems pid (List.mem_cons_self ..)) fun c hc =>
          Int.le_trans hp.low (hp.commit c hc).1
      dsimp only at htotal hlag ⊢
      rw [hoffset, List.map_cons, List.sum_cons, List.map_cons, List.sum_cons, ← Int.add_assoc,
        ← Int.add_assoc, ← hrest fun p hp => hordered p (List.mem_cons_of_mem _ hp)]
      rw [Int64.ofInt_add, Int64.ofInt_add, ← htotal, ← hlag, Int64.ofInt_toInt,
        Int64.ofInt_toInt]

end KafkaReplies

/-! ## When the figure is right -/

/-- **The lag is what is unconsumed**, and so between zero and what is stored. -/
structure KafkaStats.LagIsUnconsumed (stats : KafkaStats) (ps : List FetchedPartition) : Prop where
  lag : stats.consumerLag.toInt = (ps.map FetchedPartition.unconsumed).sum
  low : 0 ≤ stats.consumerLag.toInt
  high : stats.consumerLag.toInt ≤ stats.totalMessages.toInt

section Sums

open FetchedPartition

variable {ps : List FetchedPartition}

theorem sum_unconsumed (hps : ∀ p ∈ ps, p.Ordered) :
    0 ≤ (ps.map unconsumed).sum ∧ (ps.map unconsumed).sum ≤ (ps.map stored).sum := by
  induction ps with
  | nil => simp
  | cons p ps ih =>
    obtain ⟨hlow, hhigh⟩ := unconsumed_bounds (hps p (List.mem_cons_self ..))
    have hrest := ih fun q hq => hps q (List.mem_cons_of_mem _ hq)
    rw [List.map_cons, List.sum_cons, List.map_cons, List.sum_cons]
    omega

/-- Below the limits of the type, misreadings add up. -/
theorem sum_misread (hps : ∀ p ∈ ps, p.Ordered)
    (hfits : (ps.map fun p => p.high.toInt + 1001).sum < 2 ^ 63) :
    0 ≤ (ps.map misread).sum ∧
      (ps.map unconsumed).sum + (ps.map misread).sum ≤
        (ps.map fun p => p.high.toInt + 1001).sum ∧
      (ps.map stored).sum ≤ (ps.map fun p => p.high.toInt + 1001).sum ∧
      ((ps.map misread).sum = 0 ↔ ∀ p ∈ ps, p.commit ≠ none) := by
  induction ps with
  | nil => simp
  | cons p ps ih =>
    have hp := hps p (List.mem_cons_self ..)
    have hrest : ∀ q ∈ ps, q.Ordered := fun q hq => hps q (List.mem_cons_of_mem _ hq)
    have hlow := hp.low
    have hhigh := hp.high
    have hzero : 0 ≤ (ps.map fun p => p.high.toInt + 1001).sum := by
      refine List.sum_nonneg fun x hx => ?_
      obtain ⟨q, hq, rfl⟩ := List.mem_map.mp hx
      have hq' := hrest q hq
      have hqlow := hq'.low
      have hqhigh := hq'.high
      omega
    simp only [List.map_cons, List.sum_cons] at hfits ⊢
    obtain ⟨hmis, hsum, hstored, hnone⟩ := ih hrest (by omega)
    obtain ⟨hpmis, hpsum, hpnone⟩ := misread_nonneg hp (by omega)
    refine ⟨by omega, by omega, ?_, ?_⟩
    · unfold stored at hstored ⊢
      omega
    · rw [List.forall_mem_cons, ← hpnone, ← hnone]
      omega

end Sums

namespace KafkaReplies

open FetchedPartition KafkaStats

variable {Offset : Type} {toRaw : Offset → Option Int64} {invalid : Offset}
  {offset : Int64 → Offset} {r : KafkaReplies Offset} {pids : List Int32}
  {commits : Int32 → Option Int64}

/-- The two sums of `fetch_kafka_stats_sync`. -/
theorem fetchKafkaStatsSync_sums (hraw : RawOffsets toRaw invalid offset)
    (hr : r.Reports invalid offset pids commits) :
    (fetchKafkaStatsSync toRaw r).totalMessages.toInt =
        ((r.fetched commits pids).map stored).sum.bmod (2 ^ 64) ∧
      (fetchKafkaStatsSync toRaw r).consumerLag.toInt =
        (((r.fetched commits pids).map unconsumed).sum +
          ((r.fetched commits pids).map misread).sum).bmod (2 ^ 64) := by
  obtain ⟨hcreate, ⟨topics, topic, hmetadata, hfind, rfl⟩, ⟨elems, helems, hlisted⟩, hordered⟩ := hr
  have hsums := foldl_count hraw hlisted hordered 0 0
  have hstats : fetchKafkaStatsSync toRaw r = ⟨kafkaTopic, Int32.ofNat topic.partitions.length,
      Int64.ofInt (0 + ((r.fetched commits topic.partitions).map stored).sum),
      Int64.ofInt (0 + ((r.fetched commits topic.partitions).map fun p =>
        p.unconsumed + p.misread).sum)⟩ := by
    unfold fetchKafkaStatsSync
    rw [if_pos hcreate, hmetadata]
    dsimp only
    rw [hfind, helems]
    dsimp only
    rw [Option.getD_some, show ((0 : Int64), (0 : Int64)) = (Int64.ofInt 0, Int64.ofInt 0) from rfl,
      hsums]
  rw [hstats, Int.zero_add, Int.zero_add, List.sum_map_add]
  exact ⟨Int64.toInt_ofInt, Int64.toInt_ofInt⟩

/-- **The consumer lag** is the number of unconsumed messages iff that number and
the messages stored fit in an `i64` and what partitions without a commit add
wrongly is a multiple of 2⁶⁴. Where the high watermarks stay 1001 each below the
limit in sum, that is: iff every partition whose watermarks were fetched has a
commit. -/
theorem consumer_lag_iff (hraw : RawOffsets toRaw invalid offset)
    (hr : r.Reports invalid offset pids commits) :
    ((fetchKafkaStatsSync toRaw r).LagIsUnconsumed (r.fetched commits pids) ↔
      ((r.fetched commits pids).map unconsumed).sum < 2 ^ 63 ∧
        2 ^ 64 ∣ ((r.fetched commits pids).map misread).sum ∧
        ((r.fetched commits pids).map unconsumed).sum ≤
          ((r.fetched commits pids).map stored).sum.bmod (2 ^ 64)) ∧
    (((r.fetched commits pids).map fun p => p.high.toInt + 1001).sum < 2 ^ 63 →
      ((fetchKafkaStatsSync toRaw r).LagIsUnconsumed (r.fetched commits pids) ↔
        ∀ p ∈ r.fetched commits pids, p.commit ≠ none)) := by
  obtain ⟨htotal, hlag⟩ := fetchKafkaStatsSync_sums hraw hr
  obtain ⟨hzero, hle⟩ := sum_unconsumed hr.ordered
  have hexact : (fetchKafkaStatsSync toRaw r).LagIsUnconsumed (r.fetched commits pids) ↔
      ((r.fetched commits pids).map unconsumed).sum < 2 ^ 63 ∧
        2 ^ 64 ∣ ((r.fetched commits pids).map misread).sum ∧
        ((r.fetched commits pids).map unconsumed).sum ≤
          ((r.fetched commits pids).map stored).sum.bmod (2 ^ 64) := by
    constructor
    · rintro ⟨hsame, -, hhigh⟩
      have hlt := (fetchKafkaStatsSync toRaw r).consumerLag.toInt_lt
      rw [hsame] at hlt
      rw [hsame, htotal] at hhigh
      refine ⟨hlt, ?_, hhigh⟩
      rw [hsame] at hlag
      rw [Int.bmod_def] at hlag
      omega
    · rintro ⟨hlt, hdvd, hhigh⟩
      have hsame : (fetchKafkaStatsSync toRaw r).consumerLag.toInt =
          ((r.fetched commits pids).map unconsumed).sum := by
        rw [hlag, Int.bmod_def]
        omega
      exact ⟨hsame, hsame ▸ hzero, by rw [hsame, htotal]; exact hhigh⟩
  refine ⟨hexact, fun hfits => ?_⟩
  obtain ⟨hmis, hsum, hstored, hnone⟩ := sum_misread hr.ordered hfits
  rw [hexact, ← hnone, Int.bmod_def]
  omega

end KafkaReplies

/-! ## Sample replies -/

namespace KafkaReplies.Sample

open KafkaStats

/-- rdkafka's `Offset` and `to_raw`. -/
inductive Offset
  | beginning
  | atEnd
  | stored
  | invalid
  | offset (n : Int64)
  | offsetTail (n : Int64)

def toRaw : Offset → Option Int64
  | .beginning => some (-2)
  | .atEnd => some (-1)
  | .stored => some (-1000)
  | .invalid => some (-1001)
  | .offset n => if 0 ≤ n then some n else none
  | .offsetTail n => if 0 < n then some (-2000 - n) else none

theorem rawOffsets : RawOffsets toRaw .invalid .offset where
  invalid := rfl
  offset := by
    intro n hn
    exact if_pos (Int64.le_iff_toInt_le.mpr (Int64.toInt_zero ▸ hn))

/-- Partition 0 has ten messages, partition 1 three; partition 2 is not
answered for. -/
def watermarks (pid : Int32) : Option (Int64 × Int64) :=
  if pid = 0 then some (0, 10) else if pid = 1 then some (5, 8) else none

/-- What the broker answers where the commits are these. -/
def replies (commits : Int32 → Option Int64) : KafkaReplies Offset where
  create := true
  metadata := some [⟨kafkaTopic, [0, 1, 2]⟩]
  committed := some ([0, 1, 2].map fun pid =>
    ⟨kafkaTopic, pid, ((commits pid).map .offset).getD .invalid⟩)
  watermarks := watermarks

theorem replies_reports {commits : Int32 → Option Int64}
    (h0 : ∀ c, commits 0 = some c → 0 ≤ c.toInt ∧ c.toInt ≤ 10)
    (h1 : ∀ c, commits 1 = some c → 5 ≤ c.toInt ∧ c.toInt ≤ 8) :
    (replies commits).Reports .invalid .offset [0, 1, 2] commits where
  create := rfl
  topic := ⟨_, _, rfl, rfl, rfl⟩
  committed := by
    refine ⟨_, rfl, fun pid hpid => ?_⟩
    simp only [List.mem_cons, List.not_mem_nil, or_false] at hpid
    rcases hpid with rfl | rfl | rfl <;> rfl
  ordered := by
    intro p hp
    have hps : (replies commits).fetched commits [0, 1, 2] =
        [⟨0, 10, commits 0⟩, ⟨5, 8, commits 1⟩] := rfl
    rw [hps] at hp
    simp only [List.mem_cons, List.not_mem_nil, or_false] at hp
    rcases hp with rfl | rfl
    · exact ⟨show 0 ≤ (0 : Int64).toInt by decide,
        show (0 : Int64).toInt ≤ (10 : Int64).toInt by decide, h0⟩
    · exact ⟨show 0 ≤ (5 : Int64).toInt by decide,
        show (5 : Int64).toInt ≤ (8 : Int64).toInt by decide, h1⟩

end KafkaReplies.Sample

namespace KafkaReplies

open KafkaStats

/-- Commits 4 and 8: six messages of partition 0 are left. -/
theorem committed_lag :
    (fetchKafkaStatsSync Sample.toRaw (Sample.replies fun pid => if pid = 0 then some 4 else some 8))
      = ⟨kafkaTopic, 3, 13, 6⟩ ∧
    (fetchKafkaStatsSync Sample.toRaw
      (Sample.replies fun pid => if pid = 0 then some 4 else some 8)).LagIsUnconsumed
        [⟨0, 10, some 4⟩, ⟨5, 8, some 8⟩] := by
  refine ⟨by decide +kernel, ?_⟩
  have hreports := @Sample.replies_reports (fun pid => if pid = 0 then some 4 else some 8)
    (by rintro c ⟨⟩; decide) (by rintro c ⟨⟩; decide)
  refine ((consumer_lag_iff Sample.rawOffsets hreports).2 (by decide)).mpr ?_
  decide

/-- **A group that has not committed lags by 1001 messages more**: partition 0
has ten messages and partition 1 three, nothing is committed, and the lag is
2020, of 13 messages. -/
theorem uncommitted_lag :
    (Sample.replies fun _ => none).Reports .invalid .offset [0, 1, 2] (fun _ => none) ∧
      fetchKafkaStatsSync Sample.toRaw (Sample.replies fun _ => none) =
        ⟨kafkaTopic, 3, 13, 2020⟩ ∧
      ¬ (fetchKafkaStatsSync Sample.toRaw (Sample.replies fun _ => none)).LagIsUnconsumed
        ((Sample.replies fun _ => none).fetched (fun _ => none) [0, 1, 2]) := by
  have hstats : fetchKafkaStatsSync Sample.toRaw (Sample.replies fun _ => none) =
      ⟨kafkaTopic, 3, 13, 2020⟩ := by decide +kernel
  refine ⟨Sample.replies_reports (by simp) (by simp), hstats, fun hlag => ?_⟩
  have hhigh := hlag.high
  rw [hstats] at hhigh
  exact absurd hhigh (by decide)

end KafkaReplies

end Denis
