import Denis.Analytics.Consumer

/-!
# Events behind the committed offset (`analytics/consumer.rs`)

`flush_batch` clears the batch and returns nothing, whether ClickHouse took the
rows or not. The loop then commits after a full batch, and it reads on after a
tick. So a failed insert drops rows, and the next commit puts the offset past
them (`failed_batch_committed`): they are not read again.

`committed_stored_iff` says which runs keep what is committed: those in which
every full batch is taken by ClickHouse (rows it has already aside), and no
failed timer flush has dropped an event since the last commit.
-/

namespace Denis

namespace Consumer

variable (codec : Codec) (log : List (Option Text.Bytes)) (s : Consumer)

/-- Every event behind the committed offset is in the table. -/
def Stored : Prop :=
  ∀ offset < s.committed, ∀ x, entryAt codec log offset = some x → x ∈ s.table

/-- An event read since the last commit that a failed flush dropped. -/
def Dropped (x : Entry) : Prop :=
  entryAt codec log x.offset = some x ∧ s.committed ≤ x.offset ∧ x.offset < s.position ∧
    x ∉ s.batch ∧ x ∉ s.table

/-- If the message read fills the batch, then the insert takes every row of it
that the table does not have, and nothing read since the last commit was
dropped. -/
def TakesFull : ConsumerInput → Prop
  | .receive ins => ∀ x, entryAt codec log s.position = some x →
      batchSize ≤ s.batch.length + 1 →
      (∀ y ∈ s.batch ++ [x], y ∈ ins.inserted (s.batch ++ [x]) ∨ y ∈ s.table) ∧
        ∀ y, ¬ Dropped codec log s y
  | _ => True

variable {codec log s} {s' : Consumer} {e : ConsumerInput} {out : List Consumer}

/-- A commit of a full batch stores all it commits iff it takes the batch and
nothing was dropped. -/
theorem stored_commit (hs : Buffered codec log s) (hstored : Stored codec log s) {ins : Insert}
    {x : Entry} (hx : entryAt codec log s.position = some x) :
    Stored codec log
        ⟨s.position + 1, s.position + 1, [], s.table ++ ins.inserted (s.batch ++ [x])⟩ ↔
      (∀ y ∈ s.batch ++ [x], y ∈ ins.inserted (s.batch ++ [x]) ∨ y ∈ s.table) ∧
        ∀ y, ¬ Dropped codec log s y := by
  constructor
  · intro hstored'
    refine ⟨?_, ?_⟩
    · intro y hy
      have hentry : entryAt codec log y.offset = some y ∧ y.offset < s.position + 1 := by
        rcases List.mem_append.mp hy with hy | hy
        · exact ⟨(hs.batch y hy).2.2, Nat.lt_succ_of_lt (hs.batch y hy).2.1⟩
        · obtain rfl := List.mem_singleton.mp hy
          rw [entryAt_offset hx]
          exact ⟨hx, Nat.lt_succ_self _⟩
      exact (List.mem_append.mp (hstored' y.offset hentry.2 y hentry.1)).symm
    · rintro y ⟨hentry, -, hlt, hbatch, htable⟩
      have hy := hstored' y.offset (Nat.lt_succ_of_lt hlt) y hentry
      rcases List.mem_append.mp hy with hy | hy
      · exact htable hy
      · rcases List.mem_append.mp (inserted_subset hy) with hy | hy
        · exact hbatch hy
        · obtain rfl := List.mem_singleton.mp hy
          rw [entryAt_offset hx] at hlt
          exact Nat.lt_irrefl _ hlt
  · rintro ⟨htaken, hdropped⟩ offset hlt y hy
    have hoffset := entryAt_offset hy
    refine List.mem_append.mpr ?_
    rcases Nat.lt_or_ge offset s.committed with hcommitted | hcommitted
    · exact .inl (hstored offset hcommitted y hy)
    · rcases Nat.lt_succ_iff_lt_or_eq.mp hlt with hread | rfl
      · -- read since the last commit: in the batch or in the table
        by_cases hbatch : y ∈ s.batch
        · exact (htaken y (List.mem_append_left _ hbatch)).symm
        · by_cases htable : y ∈ s.table
          · exact .inl htable
          · subst hoffset
            exact absurd ⟨hy, hcommitted, hread, hbatch, htable⟩ (hdropped y)
      · obtain rfl := Option.some.inj (hy.symm.trans hx)
        exact (htaken y (by simp)).symm

/-- **One step keeps everything committed stored iff it takes a full batch.** -/
theorem stored_step_iff (hs : Buffered codec log s) (hstored : Stored codec log s)
    (h : step codec log s e = some (s', out)) : TakesFull codec log s e ↔ Stored codec log s' := by
  cases step_transition h with
  | idle hne =>
    refine iff_of_true ?_ hstored
    cases e with
    | receive ins => exact absurd rfl (hne ins)
    | _ => trivial
  | skip hnone =>
    refine iff_of_true ?_ hstored
    intro x hx
    cases hnone.symm.trans hx
  | buffer hx hroom =>
    refine iff_of_true ?_ hstored
    intro y _ hfull
    omega
  | commit hx hfull heq =>
    subst heq
    rw [stored_commit hs hstored hx]
    constructor
    · intro htakes
      exact htakes _ hx hfull
    · intro hall y hy _
      obtain rfl := Option.some.inj (hx.symm.trans hy)
      exact hall
  | flush _ =>
    refine iff_of_true trivial ?_
    intro offset hlt x hx
    exact List.mem_append_left _ (hstored offset hlt x hx)
  | interrupted _ _ heq =>
    subst heq
    refine iff_of_true trivial ?_
    intro offset hlt x hx
    exact List.mem_append_left _ (hstored offset hlt x hx)
  | crash hne =>
    refine iff_of_true ?_ hstored
    cases e with
    | receive ins => exact absurd rfl (hne ins)
    | _ => trivial

/-- **Everything committed is stored**, in every state a run goes through, iff
whenever a batch fills up ClickHouse takes every row of it that it does not have
yet, and no event read since the last commit was dropped by a failed flush. -/
theorem committed_stored_iff {es : List ConsumerInput} {t : Consumer} {flushed : List Consumer}
    (hrun : (machine codec log).run start es = some (t, flushed)) :
    (∀ s, (machine codec log).Visits start es s → Stored codec log s) ↔
      (machine codec log).Along (TakesFull codec log) start es := by
  have hstart : Stored codec log start := fun offset hlt => absurd hlt (Nat.not_lt_zero offset)
  exact (Machine.along_iff_visits (J := Buffered codec log) (P := Stored codec log)
    (fun _ _ _ _ hs h => buffered_step hs h)
    (fun _ _ _ _ hs hstored h => stored_step_iff hs hstored h) buffered_start hstart hrun).symm

/-- Messages that do not fill the batch meet the condition. -/
theorem takesFull_receives {n : Nat} (ins : Insert) (hroom : s.batch.length + n < batchSize) :
    (machine codec log).Along (TakesFull codec log) s (List.replicate n (.receive ins)) := by
  induction n generalizing s with
  | zero => trivial
  | succ n ih =>
    refine ⟨fun x _ hfull => by omega, ?_⟩
    intro s' out hstep
    refine ih ?_
    have htransition : Transition codec log s (.receive ins) s' out := step_transition hstep
    cases htransition with
    | idle hne => exact absurd rfl (hne ins)
    | crash hne => exact absurd rfl (hne ins)
    | skip _ =>
      show s.batch.length + n < batchSize
      omega
    | buffer _ _ =>
      rw [List.length_append, List.length_singleton]
      omega
    | commit _ hfull _ => omega

/-- A log of one full batch, which ClickHouse takes. -/
theorem full_batch_stored : ∃ t flushed, (machine Sample.codec Sample.log).run start
      (List.replicate 999 (.receive .ok) ++ [.receive .ok]) = some (t, flushed) ∧
    t.committed = 1000 ∧
    ∀ s, (machine Sample.codec Sample.log).Visits start
      (List.replicate 999 (.receive .ok) ++ [.receive .ok]) s →
        Stored Sample.codec Sample.log s := by
  refine ⟨_, _, Sample.run_full .ok, rfl, (committed_stored_iff (Sample.run_full .ok)).mpr ?_⟩
  refine Machine.along_append.mpr ⟨takesFull_receives .ok (by decide), ?_⟩
  intro m h hreads
  obtain ⟨rfl, -⟩ := Prod.mk.inj (Option.some.inj ((Sample.run_reads .ok).symm.trans hreads))
  refine ⟨?_, fun _ _ _ => trivial⟩
  intro x hx hfull
  refine ⟨?_, ?_⟩
  · intro y hy
    rw [inserted_ok]
    exact .inl hy
  · -- what was read is in the batch
    rintro y ⟨hentry, -, hlt, hbatch, -⟩
    dsimp only at hlt hbatch
    exact hbatch (Sample.mem_entries (by decide) hentry hlt)

/-- **A batch that ClickHouse refuses is committed**: the last message of the log
fills the batch, the insert cannot be opened, and the offset is past all of
it. -/
theorem failed_batch_committed : ∃ es t flushed,
    (machine Sample.codec Sample.log).run start es = some (t, flushed) ∧
      ¬ ∀ s, (machine Sample.codec Sample.log).Visits start es s →
        Stored Sample.codec Sample.log s := by
  refine ⟨_, _, _, Sample.run_full .openFailed, ?_⟩
  intro hall
  have hstored := hall _ ⟨_, [], _, (List.append_nil _).symm, Sample.run_full .openFailed⟩
  have hfirst := hstored 0 (by decide) _ (Sample.entryAt_log (by decide))
  cases hfirst

end Consumer

end Denis
