import Denis.Analytics.Consumer
import Mathlib.Data.Finset.Dedup
import Mathlib.Data.Finset.Card

/-!
# Events inserted and not committed (`analytics/consumer.rs`)

Both triggers flush the same batch, but only a full batch is followed by a
commit. What a tick inserts stays ahead of the committed offset, so a restart
reads it and inserts it again, and below one batch an interval nothing is ever
committed (`timer_flush_uncovered`).

Where no tick finds a batch, what is read from the committed offset on is the
batch, and every flush commits what it inserts (`flushes_covered_iff`). A crash
between insert and commit leaves one batch inserted, which is the same one
however often it is read again (`nextBatch`).
-/

namespace Denis

/-- The insert stores the whole batch. -/
def Insert.Succeeds : Insert → Prop
  | .openFailed => False
  | .opened stored ended => (∀ i, stored i = true) ∧ ended = true

/-- If the step flushes and goes on, its insert does not fail. -/
def ConsumerInput.Succeeds : ConsumerInput → Prop
  | .receive ins => ins.Succeeds
  | .tick ins => ins.Succeeds
  | _ => True

namespace Consumer

/-- The committed offset is past every event inserted. -/
def Covered (s : Consumer) : Prop := ∀ x ∈ s.table, x.offset < s.committed

/-- After a crash and restart no event in the table is inserted again. -/
def RestartSafe (codec : Codec) (log : List (Option Text.Bytes)) (s : Consumer) : Prop :=
  ∀ es t flushed, (machine codec log).run s (.crash :: es) = some (t, flushed) →
    ∃ new, t.table = s.table ++ new ∧ ∀ x ∈ new, ∀ y ∈ s.table, x.offset ≠ y.offset

/-- The events inserted and not committed, by their offsets. -/
def uncommitted (s : Consumer) : Finset Nat :=
  (s.table.map Entry.offset).toFinset.filter fun offset => s.committed ≤ offset

/-- A tick finds no batch. -/
def IdleTick (s : Consumer) : ConsumerInput → Prop
  | .tick _ => s.batch = []
  | _ => True

variable {codec : Codec} {log : List (Option Text.Bytes)} {s s' t : Consumer} {e : ConsumerInput}
  {es : List ConsumerInput} {out flushed : List Consumer}

theorem inserted_succeeds {ins : Insert} (h : ins.Succeeds) (batch : List Entry) :
    ins.inserted batch = batch := by
  cases ins with
  | openFailed => exact h.elim
  | opened stored ended =>
    obtain ⟨hstored, rfl⟩ := h
    simp [Insert.inserted, hstored]

/-! ## After a restart -/

/-- Everything under way and everything inserted since is from `offset` on. -/
structure From (offset : Nat) (table : List Entry) (s : Consumer) : Prop where
  committed : offset ≤ s.committed
  position : offset ≤ s.position
  batch : ∀ x ∈ s.batch, offset ≤ x.offset
  inserted : ∃ new, s.table = table ++ new ∧ ∀ x ∈ new, offset ≤ x.offset

theorem From.insert {offset : Nat} {table batch : List Entry} {ins : Insert}
    (hs : From offset table s) (hbatch : ∀ x ∈ batch, offset ≤ x.offset) :
    ∃ new, s.table ++ ins.inserted batch = table ++ new ∧ ∀ x ∈ new, offset ≤ x.offset := by
  obtain ⟨new, htable, hnew⟩ := hs.inserted
  refine ⟨new ++ ins.inserted batch, by rw [htable, List.append_assoc], ?_⟩
  intro x hx
  rcases List.mem_append.mp hx with hx | hx
  · exact hnew x hx
  · exact hbatch x (inserted_subset hx)

/-- Nothing before `offset` is read again. -/
theorem From.step {offset : Nat} {table : List Entry} (hs : From offset table s)
    (h : step codec log s e = some (s', out)) : From offset table s' := by
  have hposition := Nat.le_succ_of_le hs.position
  have hconcat : ∀ {x}, entryAt codec log s.position = some x →
      ∀ y ∈ s.batch ++ [x], offset ≤ y.offset := by
    intro x hx y hy
    rcases List.mem_append.mp hy with hy | hy
    · exact hs.batch y hy
    · obtain rfl := List.mem_singleton.mp hy
      rw [entryAt_offset hx]
      exact hs.position
  cases step_transition h with
  | idle _ => exact hs
  | skip _ => exact ⟨hs.committed, hposition, hs.batch, hs.inserted⟩
  | buffer hx _ => exact ⟨hs.committed, hposition, hconcat hx, hs.inserted⟩
  | commit hx _ heq =>
    subst heq
    exact ⟨hposition, hposition, by simp, hs.insert (hconcat hx)⟩
  | flush _ => exact ⟨hs.committed, hs.position, by simp [flushBatch], hs.insert hs.batch⟩
  | interrupted hx _ heq =>
    subst heq
    exact ⟨hs.committed, hs.committed, by simp, hs.insert (hconcat hx)⟩
  | crash _ => exact ⟨hs.committed, hs.committed, by simp [restart], hs.inserted⟩

/-- **What is covered is not inserted again** after a restart. -/
theorem restartSafe_of_covered (h : Covered s) : RestartSafe codec log s := by
  intro es t flushed hrun
  obtain ⟨s', out, outs, hcrash, hrest, -⟩ := Machine.run_cons_eq_some.mp hrun
  obtain ⟨rfl, -⟩ := Prod.mk.inj (Option.some.inj hcrash)
  have hstart : From s.committed s.table s.restart :=
    ⟨Nat.le_refl _, Nat.le_refl _, by simp [restart], [], (List.append_nil _).symm, by simp⟩
  obtain ⟨new, htable, hnew⟩ := (Machine.run_invariant (J := From s.committed s.table)
    (fun _ _ _ _ hs hstep => hs.step hstep) hstart hrest).inserted
  refine ⟨new, htable, ?_⟩
  intro x hx y hy heq
  have hle := hnew x hx
  have hlt := h y hy
  omega

/-! ## The batch after the committed offset -/

/-- The batch that reading from an offset on fills. -/
def nextBatch (codec : Codec) (log : List (Option Text.Bytes)) (offset : Nat) : List Entry :=
  (entriesFrom codec log offset (log.length - offset)).take batchSize

theorem mem_entriesFrom {offset n : Nat} {x : Entry} (h : x ∈ entriesFrom codec log offset n) :
    x.offset < offset + n := by
  obtain ⟨i, hi, hx⟩ := List.mem_filterMap.mp h
  rw [entryAt_offset hx]
  exact (List.mem_range'_1.mp hi).2

/-- One message more. -/
theorem entriesFrom_concat (codec : Codec) (log : List (Option Text.Bytes)) (offset n : Nat) :
    entriesFrom codec log offset (n + 1) =
      entriesFrom codec log offset n ++ (entryAt codec log (offset + n)).toList := by
  have hlast : [offset + n].filterMap (entryAt codec log) =
      (entryAt codec log (offset + n)).toList := by
    cases hx : entryAt codec log (offset + n) with
    | none => simp [hx]
    | some x => simp [hx]
  rw [entriesFrom, List.range'_1_concat, List.filterMap_append, hlast, entriesFrom]

theorem entriesFrom_le {offset n m : Nat} (hle : n ≤ m) :
    entriesFrom codec log offset n <+: entriesFrom codec log offset m := by
  induction hle with
  | refl => exact List.prefix_rfl
  | step _ ih =>
    rw [entriesFrom_concat]
    exact ih.trans (List.prefix_append _ _)

/-- In a run without timer flushes: the batch is what was read from the committed
offset on, and what is inserted and not committed is of the batch read there. -/
structure Counted (codec : Codec) (log : List (Option Text.Bytes)) (s : Consumer) : Prop where
  position : s.committed ≤ s.position
  batch : s.batch = entriesFrom codec log s.committed (s.position - s.committed)
  short : s.batch.length < batchSize
  table : ∀ x ∈ s.table, x.offset < s.committed ∨ x ∈ nextBatch codec log s.committed

/-- Nothing has been read from the committed offset on. -/
theorem counted_fresh {committed : Nat} {table : List Entry}
    (htable : ∀ x ∈ table, x.offset < committed ∨ x ∈ nextBatch codec log committed) :
    Counted codec log ⟨committed, committed, [], table⟩ := by
  refine ⟨Nat.le_refl _, ?_, by show 0 < batchSize; decide, htable⟩
  show [] = entriesFrom codec log committed (committed - committed)
  rw [Nat.sub_self, entriesFrom, List.range'_zero, List.filterMap_nil]

/-- A message read, after those of the batch. -/
theorem Counted.read (hs : Counted codec log s) :
    entriesFrom codec log s.committed (s.position + 1 - s.committed) =
      s.batch ++ (entryAt codec log s.position).toList := by
  have hposition := hs.position
  rw [Nat.sub_add_comm hposition, entriesFrom_concat, ← hs.batch, Nat.add_sub_cancel' hposition]

/-- A batch filled is the batch read from the committed offset on. -/
theorem Counted.full (hs : Counted codec log s) {x : Entry}
    (hx : entryAt codec log s.position = some x) (hfull : batchSize ≤ s.batch.length + 1) :
    s.batch ++ [x] = nextBatch codec log s.committed := by
  have hlt : s.position < log.length := by
    by_contra hge
    rw [entryAt, List.getElem?_eq_none (Nat.le_of_not_lt hge)] at hx
    cases hx
  have hread := hs.read
  rw [hx, Option.toList_some] at hread
  have hprefix : s.batch ++ [x] <+: entriesFrom codec log s.committed
      (log.length - s.committed) := by
    rw [← hread]
    exact entriesFrom_le (by omega)
  have hlength : (s.batch ++ [x]).length = batchSize := by
    have hshort := hs.short
    rw [List.length_append, List.length_singleton]
    omega
  rw [nextBatch, ← hlength]
  exact List.prefix_iff_eq_take.mp hprefix

/-- No more than one batch is inserted and not committed. -/
theorem Counted.card_uncommitted (hs : Counted codec log s) :
    (uncommitted s).card ≤ batchSize := by
  have hsub : uncommitted s ⊆ ((nextBatch codec log s.committed).map Entry.offset).toFinset := by
    intro offset hoffset
    obtain ⟨hmem, hle⟩ := Finset.mem_filter.mp hoffset
    obtain ⟨x, hx, rfl⟩ := List.mem_map.mp (List.mem_toFinset.mp hmem)
    rcases hs.table x hx with hlt | hbatch
    · omega
    · exact List.mem_toFinset.mpr (List.mem_map_of_mem hbatch)
  calc (uncommitted s).card
      ≤ ((nextBatch codec log s.committed).map Entry.offset).toFinset.card :=
        Finset.card_le_card hsub
    _ ≤ ((nextBatch codec log s.committed).map Entry.offset).length := List.toFinset_card_le _
    _ ≤ batchSize := by
      rw [List.length_map]
      exact List.length_take_le _ _

/-! ## Every flush of a run -/

/-- A step that is not a timer flush of a batch commits what it flushes. -/
theorem counted_step (hs : Counted codec log s) (hidle : IdleTick s e)
    (h : step codec log s e = some (s', out)) :
    Counted codec log s' ∧ ∀ o ∈ out, Covered o := by
  have hposition := hs.position
  cases step_transition h with
  | idle _ => exact ⟨hs, by simp⟩
  | skip hnone =>
    have hread := hs.read
    rw [hnone, Option.toList_none, List.append_nil] at hread
    exact ⟨⟨Nat.le_succ_of_le hposition, hread.symm, hs.short, hs.table⟩, by simp⟩
  | buffer hx hroom =>
    have hread := hs.read
    rw [hx, Option.toList_some] at hread
    refine ⟨⟨Nat.le_succ_of_le hposition, hread.symm, ?_, hs.table⟩, by simp⟩
    rw [List.length_append, List.length_singleton]
    exact hroom
  | @commit ins x _ hx hfull heq =>
    -- the batch committed is all that was inserted and not committed
    have hcovered : Covered s' := by
      subst heq
      have hbatch : ∀ y ∈ s.batch ++ [x], y.offset < s.position + 1 := by
        intro y hy
        have hread := hs.read
        rw [hx, Option.toList_some] at hread
        rw [← hread] at hy
        have hlt := mem_entriesFrom hy
        omega
      intro y hy
      show y.offset < s.position + 1
      rcases List.mem_append.mp hy with hy | hy
      · rcases hs.table y hy with hlt | hnext
        · omega
        · exact hbatch y (hs.full hx hfull ▸ hnext)
      · exact hbatch y (inserted_subset hy)
    refine ⟨?_, by simpa using hcovered⟩
    subst heq
    exact counted_fresh fun y hy => .inl (hcovered y hy)
  | flush hbatch => exact absurd hidle hbatch
  | interrupted hx hfull heq =>
    subst heq
    refine ⟨counted_fresh ?_, by simp⟩
    intro y hy
    rcases List.mem_append.mp hy with hy | hy
    · exact hs.table y hy
    · exact .inr (hs.full hx hfull ▸ inserted_subset hy)
  | crash _ => exact ⟨counted_fresh hs.table, by simp⟩

/-- In a run in which no tick finds a batch, everything inserted is committed
after each flush. -/
theorem counted_run (hidle : (machine codec log).Along IdleTick start es)
    (hrun : (machine codec log).run start es = some (t, flushed)) :
    Counted codec log t ∧ ∀ s ∈ flushed, Covered s := by
  refine Machine.run_history (M := machine codec log) (C := IdleTick)
    (J := fun flushed s => Counted codec log s ∧ ∀ o ∈ flushed, Covered o) ?_ (h := [])
    ⟨counted_fresh (by simp), by simp⟩ hidle hrun
  intro flushed s e s' out ⟨hs, hflushed⟩ hidle hstep
  obtain ⟨hs', hout⟩ := counted_step hs hidle hstep
  refine ⟨hs', ?_⟩
  intro o ho
  rcases List.mem_append.mp ho with ho | ho
  · exact hflushed o ho
  · exact hout o ho

/-- A timer flush of a batch that stores it leaves events uncommitted. -/
theorem not_covered_flush (hs : Buffered codec log s) (hbatch : s.batch ≠ []) {ins : Insert}
    (hins : ins.Succeeds) : ¬ Covered (s.flushBatch ins) := by
  intro hcovered
  obtain ⟨x, hx⟩ := List.exists_mem_of_ne_nil _ hbatch
  have hmem : x ∈ (s.flushBatch ins).table := by
    rw [flushBatch, inserted_succeeds hins]
    exact List.mem_append_right _ hx
  exact Nat.not_lt.mpr (hs.batch x hx).1 (hcovered x hmem)

/-- **Every flush is committed** in a run without insert failures iff no tick
finds a batch. Then after each flush the committed offset is past everything
inserted, a crash and restart there inserts nothing again, and no more than one
batch is ever inserted and not committed. A commit takes effect at once here, and
a flush that a crash cuts off before its commit is not among those counted: its
batch is the one that may be inserted and not committed. -/
theorem flushes_covered_iff
    (hrun : (machine codec log).run start es = some (t, flushed))
    (hsucceeds : ∀ e ∈ es, e.Succeeds) :
    ((∀ s ∈ flushed, Covered s ∧ RestartSafe codec log s) ∧
      ∀ s, (machine codec log).Visits start es s → (uncommitted s).card ≤ batchSize) ↔
      (machine codec log).Along IdleTick start es := by
  constructor
  · rintro ⟨hflushed, -⟩
    refine Machine.along_iff_split.mpr ?_
    intro pre e post m h heq hpre
    have hm : Buffered codec log m := Machine.run_invariant (M := machine codec log)
      (J := Buffered codec log) (fun _ _ _ _ hs hstep => buffered_step hs hstep) buffered_start hpre
    cases e with
    | tick ins =>
      by_contra hbatch
      -- the tick's flush is one of the run's
      rw [heq] at hrun
      obtain ⟨m', h₁, h₂, hpre', hrest, rfl⟩ := Machine.run_append.mp hrun
      obtain ⟨rfl, -⟩ := Prod.mk.inj (Option.some.inj (hpre.symm.trans hpre'))
      obtain ⟨s', out, outs, hstep, -, rfl⟩ := Machine.run_cons_eq_some.mp hrest
      have hflush : (machine codec log).step m (.tick ins) =
          some (m.flushBatch ins, [m.flushBatch ins]) := @step_tick codec log m hbatch ins
      obtain ⟨rfl, rfl⟩ := Prod.mk.inj (Option.some.inj (hstep.symm.trans hflush))
      have hins : ins.Succeeds := hsucceeds (.tick ins) (by rw [heq]; simp)
      exact not_covered_flush hm hbatch hins (hflushed _ (by simp)).1
    | _ => trivial
  · intro hidle
    refine ⟨?_, ?_⟩
    · intro s hs
      have hcovered := (counted_run hidle hrun).2 s hs
      exact ⟨hcovered, restartSafe_of_covered hcovered⟩
    · rintro s ⟨pre, post, h, rfl, hpre⟩
      exact (counted_run (Machine.along_append.mp hidle).1 hpre).1.card_uncommitted

/-- A log of one full batch. -/
theorem full_batch_covered :
    (machine Sample.codec Sample.log).run start
        (List.replicate 999 (.receive .ok) ++ [.receive .ok]) =
      some (Sample.full .ok, [Sample.full .ok]) ∧
    Covered (Sample.full .ok) ∧ RestartSafe Sample.codec Sample.log (Sample.full .ok) := by
  have hreceive : ∀ e ∈ List.replicate 999 (ConsumerInput.receive .ok) ++ [.receive .ok],
      e = .receive .ok := by
    intro e he
    rcases List.mem_append.mp he with he | he
    · exact List.eq_of_mem_replicate he
    · exact List.mem_singleton.mp he
  have hidle : (machine Sample.codec Sample.log).Along IdleTick start
      (List.replicate 999 (.receive .ok) ++ [.receive .ok]) := by
    refine Machine.along_iff_split.mpr ?_
    intro pre e post m h heq _
    obtain rfl := hreceive e (heq ▸ by simp)
    trivial
  have hsucceeds : ∀ e ∈ List.replicate 999 (ConsumerInput.receive .ok) ++ [.receive .ok],
      e.Succeeds := by
    intro e he
    obtain rfl := hreceive e he
    exact ⟨fun _ => rfl, rfl⟩
  have hflushes := ((flushes_covered_iff (Sample.run_full .ok) hsucceeds).mpr hidle).1
  exact ⟨Sample.run_full .ok, hflushes _ (List.mem_singleton_self _)⟩

/-- **A timer flush is not committed**: one event is read and a tick inserts it;
after a restart it is read and inserted again. -/
theorem timer_flush_uncovered : ∃ es t flushed,
    (machine Sample.codec Sample.log).run start es = some (t, flushed) ∧
      (∀ e ∈ es, e.Succeeds) ∧
      ∃ s ∈ flushed, ¬ Covered s ∧ ¬ RestartSafe Sample.codec Sample.log s := by
  have hrun : (machine Sample.codec Sample.log).run start [.receive .ok, .tick .ok] =
      some (⟨0, 1, [], Sample.entries 1⟩, [⟨0, 1, [], Sample.entries 1⟩]) := by decide +kernel
  have hagain : (machine Sample.codec Sample.log).run ⟨0, 1, [], Sample.entries 1⟩
      [.crash, .receive .ok, .tick .ok] =
      some (⟨0, 1, [], Sample.entries 1 ++ Sample.entries 1⟩,
        [⟨0, 1, [], Sample.entries 1 ++ Sample.entries 1⟩]) := by decide +kernel
  refine ⟨_, _, _, hrun, ?_, _, List.mem_singleton_self _, ?_, ?_⟩
  · intro e he
    rcases List.mem_pair.mp he with rfl | rfl
    · exact ⟨fun _ => rfl, rfl⟩
    · exact ⟨fun _ => rfl, rfl⟩
  · intro hcovered
    exact Nat.not_lt_zero _ (hcovered _ (List.mem_singleton_self _))
  · intro hsafe
    obtain ⟨new, htable, hnew⟩ := hsafe _ _ _ hagain
    obtain rfl := List.append_cancel_left htable
    exact hnew _ (List.mem_singleton_self _) _ (List.mem_singleton_self _) rfl

end Consumer

end Denis
