import Denis.Analytics.Traffic

/-!
# Every answer is counted once (`analytics`)

A packet can pass two functions that send events, `classify` and then
`handle_parsed`. Each sends one exactly where it replies, so the packet is in
hand once when its event is sent, and is not kept after that (`Keeps`). What is
counted, or in the channel, therefore agrees with the replies, outcome by
outcome: an invariant of every step (`step_accounts`) as long as the channel has
room.
-/

namespace Denis

open Text

namespace Traffic

variable {display : RecordType → Str} {s s' m t : Traffic} {e : TrafficInput}
  {es : List TrafficInput} {out outs : List TrafficOutput}

/-! ## One step -/

/-- What a step does to the packets and to the counts. -/
structure Accounts (s : Traffic) (e : TrafficInput) (s' : Traffic) (out : List TrafficOutput) :
    Prop where
  keeps : Keeps s s' (repliedIds out)
  paired : ∀ id, (eventsOf out id).map DnsQueryEvent.outcome =
    (repliesTo out id).map fun reply => reply.2.outcome
  total : ∀ k, s'.analytics.total k =
    s.analytics.total k + ((sources out).map ReplySource.outcome).count k
  genuine : ∀ o ∈ out, Genuine e o

/-- A step that neither sends nor replies. -/
theorem accounts_quiet (hkeeps : Keeps s s' []) (hanalytics : s'.analytics = s.analytics) :
    Accounts s e s' [] :=
  ⟨hkeeps, fun _ => rfl, fun _ => by rw [hanalytics]; rfl, by simp⟩

/-- A step that answers a packet in hand, with the event of the reply's outcome. -/
theorem accounts_answer {id : Nat} {event : DnsQueryEvent} {raw : Bytes} {source : ReplySource}
    (hroom : s.analytics.Room) (hkeeps : Keeps s m [id]) (hanalytics : m.analytics = s.analytics)
    (houtcome : event.outcome = source.outcome) (hgenuine : Genuine e (.replied id raw source)) :
    Accounts s e (m.send id event).1 ((m.send id event).2 ++ [.replied id raw source]) := by
  have hsent : (m.send id event).2 = [.sent id event] := by
    rw [← hanalytics] at hroom
    exact if_pos hroom
  rw [hsent]
  refine ⟨⟨hkeeps.next, hkeeps.ids⟩, ?_, ?_, ?_⟩
  · intro id'
    by_cases hid : id = id'
    · simp [eventsOf, repliesTo, hid, houtcome]
    · simp [eventsOf, repliesTo, hid]
  · intro k
    show (m.analytics.send event).total k = _
    rw [hanalytics, AnalyticsProducer.total_send hroom, houtcome]
    rfl
  · intro o ho
    rcases List.mem_pair.mp ho with rfl | rfl
    · trivial
    · exact hgenuine

/-- **What the first phase serves is counted as what it is**: the blocked reply
as blocked, a cached answer as a hit. -/
theorem served_outcome {cache cache' : Cache} {config : RuntimeConfig} {query : Query}
    {clock : Clock} {served : Served} (timestampMs : UInt64) (id : Nat)
    (h : QueryHandler.beginParsed display cache config query clock = some (cache', served)) :
    (QueryHandler.event query timestampMs served).outcome = (localSource cache query).outcome ∧
      Genuine e (.replied id served.raw (localSource cache query)) := by
  rw [QueryHandler.beginParsed_eq] at h
  unfold localSource
  split at h
  · next hblocked =>
    rw [if_pos hblocked]
    obtain ⟨-, rfl⟩ := Prod.mk.inj (Option.some.inj h)
    exact ⟨rfl, query, config.blockingMode, rfl⟩
  · next hopen =>
    rw [if_neg hopen]
    split at h
    · next cached _ =>
      obtain ⟨-, rfl⟩ := Prod.mk.inj (Option.some.inj h)
      exact ⟨rfl, query, cached, rfl⟩
    · cases h

/-- `handle_parsed` on a packet in hand, up to its reply or the wait. -/
theorem accounts_beginHandle {ticket : Ticket} {clock : Clock} (hroom : s.analytics.Room)
    (hkeeps : Keeps s m [ticket.id]) (hanalytics : m.analytics = s.analytics) :
    Accounts s e (m.beginHandle display ticket clock).1
      (m.beginHandle display ticket clock).2 := by
  unfold beginHandle
  cases hbegin : QueryHandler.beginParsed display m.cache m.config ticket.query clock with
  | none => exact accounts_quiet hkeeps.wait hanalytics
  | some p =>
    obtain ⟨cache, served⟩ := p
    obtain ⟨houtcome, hgenuine⟩ :=
      @served_outcome display e _ _ _ _ _ _ ticket.timestampMs ticket.id hbegin
    exact accounts_answer (m := { m with cache }) hroom ⟨hkeeps.next, hkeeps.ids⟩ hanalytics
      houtcome hgenuine

/-- `handle_parsed` on a packet in hand, after `upstream.resolve`. -/
theorem accounts_complete {i : Nat} {ticket : Ticket} {res : UpstreamResponse} {clock : Clock}
    (hroom : s.analytics.Room) (hkeeps : Keeps s m [ticket.id])
    (hanalytics : m.analytics = s.analytics) :
    Accounts s (.resolved i res clock) (m.complete display ticket res clock).1
      (m.complete display ticket res clock).2 :=
  accounts_answer (m := { m with
      cache := QueryHandler.store display m.cache m.config clock.now ticket.query res.raw })
    hroom ⟨hkeeps.next, hkeeps.ids⟩ hanalytics rfl ⟨i, res, clock, rfl, rfl⟩

/-- A packet that arrives at a worker. -/
theorem accounts_hot {packet : Bytes} {clock : Clock} (hroom : s.analytics.Room) :
    Accounts s e (s.hot display packet clock).1 (s.hot display packet clock).2 := by
  have hkeeps := keeps_arrival s
  have hclassify := @Worker.classify_eq display s.cache s.config packet clock
  unfold hot
  cases hparse : Parser.parseUdp packet with
  | error err =>
    simp only [hparse] at hclassify
    rw [hclassify]
    exact accounts_quiet hkeeps.drop rfl
  | ok query =>
    cases hbegin : QueryHandler.beginParsed display s.cache s.config query clock with
    | none =>
      simp only [hparse, hbegin] at hclassify
      rw [hclassify]
      exact accounts_quiet (hkeeps.queue (t := ⟨s.next, query, clock.timestampMs⟩)) rfl
    | some p =>
      obtain ⟨cache, served⟩ := p
      simp only [hparse, hbegin] at hclassify
      rw [hclassify]
      obtain ⟨houtcome, hgenuine⟩ :=
        @served_outcome display e _ _ _ _ _ _ clock.timestampMs s.next hbegin
      have haccounts := accounts_answer hroom hkeeps rfl houtcome hgenuine
      dsimp only [sendAll]
      rwa [List.append_nil]

/-- **Every step accounts** for the packets it takes and the replies it makes. -/
theorem step_accounts (hroom : s.analytics.Room) (h : step display s e = some (s', out)) :
    Accounts s e s' out := by
  cases e with
  | hot packet clock =>
    have haccounts := @accounts_hot display s (.hot packet clock) packet clock hroom
    rwa [Option.some.inj h] at haccounts
  | direct packet clock =>
    have hkeeps := keeps_arrival s
    have haccounts : Accounts s (.direct packet clock) (s.direct display packet clock).1
        (s.direct display packet clock).2 := by
      unfold direct
      cases hparse : Parser.parseUdp packet with
      | error err => exact accounts_quiet hkeeps.drop rfl
      | ok query =>
        exact @accounts_beginHandle display s _ _ ⟨s.next, query, clock.timestampMs⟩ clock hroom
          hkeeps rfl
    rwa [Option.some.inj h] at haccounts
  | cold i clock =>
    cases hcold : s.cold[i]? with
    | none => simp [step, hcold] at h
    | some ticket =>
      simp only [step, hcold, Option.some.injEq] at h
      have haccounts := @accounts_beginHandle display s _ (.cold i clock) ticket clock hroom
        (keeps_cold hcold) rfl
      rwa [h] at haccounts
  | resolved i res clock =>
    cases hwaiting : s.waiting[i]? with
    | none => simp [step, hwaiting] at h
    | some ticket =>
      simp only [step, hwaiting, Option.some.injEq] at h
      have haccounts := @accounts_complete display s _ i ticket res clock hroom
        (keeps_waiting hwaiting) rfl
      rwa [h] at haccounts
  | unresolved i =>
    cases hwaiting : s.waiting[i]? with
    | none => simp [step, hwaiting] at h
    | some ticket =>
      simp only [step, hwaiting, Option.some.injEq] at h
      obtain ⟨rfl, rfl⟩ := Prod.mk.inj h
      exact accounts_quiet (keeps_waiting hwaiting).drop rfl
  | change cache config =>
    obtain ⟨rfl, rfl⟩ := Prod.mk.inj (Option.some.inj h)
    exact accounts_quiet ⟨(keeps_refl s).next, (keeps_refl s).ids⟩ rfl
  | record =>
    cases hrecord : s.analytics.record with
    | none => simp [step, hrecord] at h
    | some analytics =>
      simp only [step, hrecord, Option.some.injEq] at h
      obtain ⟨rfl, rfl⟩ := Prod.mk.inj h
      refine ⟨⟨(keeps_refl s).next, (keeps_refl s).ids⟩, fun _ => rfl, ?_, by simp⟩
      exact AnalyticsProducer.total_record hrecord

/-! ## A run -/

/-- The channel has room at every step. -/
def NeverFull (s : Traffic) (_ : TrafficInput) : Prop := s.analytics.Room

instance (s : Traffic) (e : TrafficInput) : Decidable (NeverFull s e) :=
  inferInstanceAs (Decidable s.analytics.Room)

/-- What holds of the outputs so far and the state. -/
structure Balanced (outs : List TrafficOutput) (s : Traffic) : Prop where
  distinct : (repliedIds outs ++ s.pendingIds).Nodup
  arrived : ∀ id ∈ repliedIds outs ++ s.pendingIds, id < s.next
  paired : ∀ id, (eventsOf outs id).map DnsQueryEvent.outcome =
    (repliesTo outs id).map fun reply => reply.2.outcome
  total : ∀ k, s.analytics.total k = ((sources outs).map ReplySource.outcome).count k

theorem balanced_start (cache : Cache) (config : RuntimeConfig) :
    Balanced [] (start cache config) where
  distinct := List.nodup_nil
  arrived := by simp [repliedIds, pendingIds, start]
  paired _ := rfl
  total _ := rfl

/-- Numbers in use and new numbers are distinct, so what is kept of them is. -/
theorem Balanced.keeps (h : Balanced outs s) {answered : List Nat} (hkeeps : Keeps s s' answered) :
    (repliedIds outs ++ answered ++ s'.pendingIds).Nodup ∧
      ∀ id ∈ repliedIds outs ++ answered ++ s'.pendingIds, id < s'.next := by
  have hsub : (repliedIds outs ++ answered ++ s'.pendingIds).Subperm
      (repliedIds outs ++ s.pendingIds ++ List.range' s.next (s'.next - s.next)) := by
    rw [List.append_assoc, List.append_assoc]
    exact (List.subperm_append_left _).mpr hkeeps.ids
  refine ⟨?_, ?_⟩
  · obtain ⟨ids, hperm, hids⟩ := hsub
    refine hperm.nodup_iff.mp (hids.nodup ?_)
    refine List.nodup_append.mpr ⟨h.distinct, List.nodup_range', ?_⟩
    intro id hid id' hid'
    have hlt := h.arrived id hid
    have hle := (List.mem_range'_1.mp hid').1
    omega
  · intro id hid
    have hnext := hkeeps.next
    rcases List.mem_append.mp (hsub.subset hid) with hid | hid
    · exact Nat.lt_of_lt_of_le (h.arrived id hid) hnext
    · have hlt := (List.mem_range'_1.mp hid).2
      omega

theorem Balanced.step (h : Balanced outs s) (haccounts : Accounts s e s' out) :
    Balanced (outs ++ out) s' := by
  obtain ⟨hdistinct, harrived⟩ := h.keeps haccounts.keeps
  refine ⟨?_, ?_, ?_, ?_⟩
  · rwa [repliedIds, List.filterMap_append]
  · rwa [repliedIds, List.filterMap_append]
  · intro id
    rw [eventsOf, repliesTo, List.filterMap_append, List.filterMap_append, List.map_append,
      List.map_append]
    exact congrArg₂ (· ++ ·) (h.paired id) (haccounts.paired id)
  · intro k
    rw [haccounts.total, h.total, sources, sources, sources, List.filterMap_append,
      List.map_append, List.count_append]

/-- **The balance holds after every run** whose channel is never full, and every
reply has the bytes its source makes. -/
theorem balanced_run {cache : Cache} {config : RuntimeConfig}
    (hrun : (machine display).run (start cache config) es = some (t, outs))
    (hroom : (machine display).Along NeverFull (start cache config) es) :
    Balanced outs t ∧ ∀ o ∈ outs, ∃ e ∈ es, Genuine e o := by
  have hinputs : (machine display).Along (fun s e => NeverFull s e ∧ e ∈ es)
      (start cache config) es := by
    refine Machine.along_iff_split.mpr ?_
    intro pre e post m h heq hpre
    exact ⟨Machine.along_iff_split.mp hroom pre e post m h heq hpre, heq ▸ by simp⟩
  refine Machine.run_history (M := machine display)
    (J := fun outs s => Balanced outs s ∧ ∀ o ∈ outs, ∃ e ∈ es, Genuine e o) ?_ (h := [])
    ⟨balanced_start cache config, by simp⟩ hinputs hrun
  intro outs s e s' out ⟨hs, houts⟩ ⟨hfree, he⟩ hstep
  have haccounts := step_accounts hfree hstep
  refine ⟨hs.step haccounts, ?_⟩
  intro o ho
  rcases List.mem_append.mp ho with ho | ho
  · exact houts o ho
  · exact ⟨e, he, haccounts.genuine o ho⟩

/-- Replies to a packet are occurrences of its number. -/
theorem length_repliesTo (outs : List TrafficOutput) (id : Nat) :
    (repliesTo outs id).length = (repliedIds outs).count id := by
  induction outs with
  | nil => rfl
  | cons o outs ih =>
    unfold repliesTo repliedIds at ih ⊢
    cases o with
    | sent i event => exact ih
    | replied i raw source =>
      by_cases hid : i = id
      · simp [hid, ih]
      · simp [hid, ih]

/-- A packet has no reply and no event, or one reply and one event of its
outcome. -/
def CountedOnce (outs : List TrafficOutput) (id : Nat) : Prop :=
  (repliesTo outs id = [] ∧ eventsOf outs id = []) ∨
    ∃ raw source event, repliesTo outs id = [(raw, source)] ∧ eventsOf outs id = [event] ∧
      event.outcome = source.outcome

theorem Balanced.countedOnce (h : Balanced outs s) (id : Nat) : CountedOnce outs id := by
  have hpaired := h.paired id
  have hone : (repliesTo outs id).length ≤ 1 := by
    rw [length_repliesTo]
    exact List.nodup_iff_count_le_one.mp (List.nodup_append.mp h.distinct).1 id
  match hreplies : repliesTo outs id with
  | [] =>
    rw [hreplies, List.map_nil, List.map_eq_nil_iff] at hpaired
    exact .inl ⟨hreplies, hpaired⟩
  | [(raw, source)] =>
    rw [hreplies, List.map_singleton] at hpaired
    obtain ⟨event, hevent, houtcome⟩ := List.map_eq_singleton_iff.mp hpaired
    exact .inr ⟨raw, source, event, hreplies, hevent, houtcome⟩
  | _ :: _ :: _ =>
    rw [hreplies] at hone
    simp at hone

/-- The replies of a source. -/
def answered (outs : List TrafficOutput) (source : ReplySource) : Nat := (sources outs).count source

/-- **Every answer is counted once**, in every run whose channel is never full:

- each packet has no reply and no event, or one reply and one event of the
  reply's outcome;
- `blocked`, `hit` and `miss`, with what is still in the channel, count the
  blocked replies, those from the cache and those relayed;
- once the channel is empty the three counters sum to the replies;
- a reply's bytes are those its source makes: the blocked reply to a query, a
  cached answer with the query's id, or a response of `upstream.resolve`. -/
theorem counted_once {cache : Cache} {config : RuntimeConfig}
    (hrun : (machine display).run (start cache config) es = some (t, outs))
    (hroom : (machine display).Along NeverFull (start cache config) es) :
    (∀ id, CountedOnce outs id) ∧
      (∀ source : ReplySource, t.analytics.total source.outcome = answered outs source) ∧
      (t.analytics.channel = [] →
        t.analytics.metrics.queries .blocked + t.analytics.metrics.queries .hit +
          t.analytics.metrics.queries .miss = (sources outs).length) ∧
      ∀ o ∈ outs, ∃ e ∈ es, Genuine e o := by
  obtain ⟨hbalanced, hgenuine⟩ := balanced_run hrun hroom
  refine ⟨hbalanced.countedOnce, ?_, ?_, hgenuine⟩
  · intro source
    rw [hbalanced.total, answered]
    exact List.count_map_of_injective (sources outs) _ ReplySource.outcome_injective source
  · intro hempty
    have hcounted : ∀ k, t.analytics.metrics.queries k =
        ((sources outs).map ReplySource.outcome).count k := by
      intro k
      rw [← hbalanced.total k, AnalyticsProducer.total, hempty]
      rfl
    rw [hcounted, hcounted, hcounted, AnalyticsProducer.count_outcomes, List.length_map]

/-- A packet that misses on a worker and is relayed, and one over TCP that finds
the answer in the cache. -/
theorem miss_and_hit_counted : ∃ t outs, (machine Sample.display).run
      (start ⟨TtlMap.empty, ∅, ∅⟩ Sample.config)
      [.hot (Sample.packet 1 Sample.name) (Sample.clock 1), .cold 0 (Sample.clock 1),
        .resolved 0 (exchangeResponse (Sample.answer 1 Sample.name)) (Sample.clock 2), .record,
        .direct (Sample.packet 2 Sample.name) (Sample.clock 3), .record] = some (t, outs) ∧
    CountedOnce outs 0 ∧ CountedOnce outs 1 ∧ t.analytics.total .miss = 1 ∧
    t.analytics.metrics.queries .blocked + t.analytics.metrics.queries .hit +
      t.analytics.metrics.queries .miss = 2 := by
  obtain ⟨⟨t, outs⟩, hrun, hend⟩ := Option.map_eq_some_iff.mp
    (show ((machine Sample.display).run (start ⟨TtlMap.empty, ∅, ∅⟩ Sample.config)
      [.hot (Sample.packet 1 Sample.name) (Sample.clock 1), .cold 0 (Sample.clock 1),
        .resolved 0 (exchangeResponse (Sample.answer 1 Sample.name)) (Sample.clock 2), .record,
        .direct (Sample.packet 2 Sample.name) (Sample.clock 3), .record]).map
        (fun p => (p.1.analytics.channel, sources p.2)) = some ([], [.relayed, .cached]) by
      decide +kernel)
  obtain ⟨hchannel, hsources⟩ := Prod.mk.inj hend
  obtain ⟨honce, htotal, hsum, -⟩ := counted_once hrun (by decide +kernel)
  refine ⟨t, outs, hrun, honce 0, honce 1, ?_, ?_⟩
  · rw [show QueryOutcome.miss = ReplySource.relayed.outcome from rfl, htotal, answered, hsources]
    decide
  · rw [hsum hchannel, hsources]
    decide

end Traffic

end Denis
