import Denis.Dns.Linked

/-!
# Queries missed by the workers

Over whole runs of the process: it does what the server does (`refines_server`),
and every query the workers miss comes to an end (`misses_end`).
-/

namespace Denis

open Text

namespace Monoio

section Links

variable {display : RecordType → Str} {m : Nat → Request} {s s' : Monoio}
  {outs : List MonoioOutput} {a : Server} {h : List Output}

/-- Some message parses. -/
theorem exists_request : Nonempty Request :=
  ⟨⟨udpClient Sample.resolver, Sample.packet 1 Sample.name, Sample.query 1, 0, by decide +kernel⟩⟩

/-- Nothing is under way at the start. -/
theorem linked_start (m : Nat → Request) (acl : Acl) (config : RuntimeConfig)
    (blockList allowList : DomainSet) :
    (start acl config blockList allowList).Linked m []
      (Server.start .monoio acl config blockList allowList) [] where
  server := rfl
  runtime := rfl
  noCold := rfl
  others _ hw := absurd hw List.not_mem_nil
  channels := {
    fresh := fun _ hid => absurd hid List.not_mem_nil
    nodup := .nil
    tasks := .refl _ }
  client _ ht := absurd ht List.not_mem_nil
  query _ hreq := absurd hreq List.not_mem_nil
  cold := .refl _
  waiting := .refl _
  udp := .refl _
  beside := rfl

/-- Every reply on its way has a `serve_miss` waiting for it, -/
theorem Linked.task_of_reply {p : Nat × Bytes} (hl : s.Linked m outs a h) (hp : p ∈ s.replies) :
    ∃ t, s.task p.1 = some t := by
  obtain ⟨t, ht, hreply, -⟩ := hl.udp_client (mem_live_of_reply hp)
  have hfound : (s.task p.1).isSome := List.find?_isSome.mpr ⟨t, ht, by simpa using hreply⟩
  exact Option.isSome_iff_exists.mp hfound

/-- that of its client. -/
theorem Linked.pending_eq (hl : s.Linked m outs a h) :
    s.pending = s.replies.map fun p => ((m p.1).client.addr, p.2) := by
  rw [pending, ← List.filterMap_eq_map]
  refine List.filterMap_congr fun p hp => ?_
  obtain ⟨t, ht⟩ := hl.task_of_reply hp
  obtain ⟨hmem, hreply⟩ := task_eq_some ht
  have haddr : (m p.1).client.addr = t.src := by
    rw [← hreply, hl.client t hmem]
    rfl
  rw [ht, Function.comp_apply, haddr]
  rfl

/-- Every run from linked states is one of the server. -/
theorem Linked.run {es : List MonoioInput} {outs' : List MonoioOutput} (hl : s.Linked m outs a h)
    (hrun : (machine display).run s es = some (s', outs')) :
    ∃ es' b h', (Server.machine display).run a es' = some (b, h') ∧
      es'.filterMap Input.outside = es.filterMap MonoioInput.outside ∧
      ∃ μ, s'.Linked μ (outs ++ outs') b (h ++ h') :=
  have hstep : ∀ s outs a h e t out, (∃ m, Linked s m outs a h) → s.step display e = some (t, out) →
      ∃ es b out', (Server.machine display).run a es = some (b, out') ∧
        es.filterMap Input.outside = e.outside.toList ∧
          ∃ m, t.Linked m (outs ++ out) b (h ++ out') :=
    fun _ _ _ _ _ _ _ ⟨_, hl⟩ hs => hl.step hs
  Machine.run_forward hstep ⟨m, hl⟩ hrun

/-- A query handed to the handler has less before it. -/
theorem backlog_handle (s : Monoio) (req : ColdRequest) (clock : Clock) :
    (handle display s req clock).1.backlog ≤ s.backlog + 2 := by
  unfold handle
  split
  · simp only [backlog, List.length_append, List.length_singleton]
    omega
  · split
    · simp only [backlog, List.length_append, List.length_singleton]
      omega
    · simp only [backlog, List.length_append, List.length_singleton]
      omega

/-- With something under way some task of the process can go on. -/
theorem Linked.progress (display : RecordType → Str) (hl : s.Linked m outs a h)
    (htasks : s.tasks ≠ []) :
    ∃ e s' out, e.isInternal = true ∧ s.step display e = some (s', out) ∧
      s'.backlog < s.backlog := by
  cases hspawned : s.spawned with
  | cons req spawned =>
    refine ⟨.serveMiss 0, { s with spawned, channel := s.channel ++ [req] }, [], rfl, ?_, ?_⟩
    · rw [Monoio.step, hspawned]
      rfl
    · simp only [backlog, hspawned, List.length_append, List.length_cons, List.length_nil]
      omega
  | nil =>
  cases hchannel : s.channel with
  | cons req channel =>
    refine ⟨.coldPath, { s with channel, handlers := s.handlers ++ [req] }, [], rfl, ?_, ?_⟩
    · rw [Monoio.step, hchannel]
    · simp only [backlog, hchannel, List.length_append, List.length_cons, List.length_nil]
      omega
  | nil =>
  cases hhandlers : s.handlers with
  | cons req handlers =>
    let clock : Clock := ⟨s.server.now, 0, 0⟩
    have hadvance : s.advance clock = some s := by
      rw [Monoio.advance, Server.advance, if_neg (Nat.lt_irrefl _)]
      rfl
    refine ⟨.handle 0 clock, (handle display { s with handlers } req clock).1,
      (handle display { s with handlers } req clock).2, rfl, ?_, ?_⟩
    · have hreq : s.handlers[0]? = some req := by rw [hhandlers]; rfl
      have hrest : s.handlers.eraseIdx 0 = handlers := by rw [hhandlers]; rfl
      rw [Monoio.step, hadvance, hreq]
      dsimp only
      rw [hrest]
    · refine Nat.lt_of_le_of_lt (backlog_handle ..) ?_
      simp only [backlog, hhandlers, List.length_cons]
      omega
  | nil =>
  cases hresolving : s.resolving with
  | cons p resolving =>
    refine ⟨.unresolved 0, { s with resolving, dropped := s.dropped ++ [p.1.reply] }, [], rfl, ?_,
      ?_⟩
    · rw [Monoio.step, hresolving]
      rfl
    · simp only [backlog, hresolving, List.length_append, List.length_cons, List.length_nil]
      omega
  | nil =>
  cases hreplies : s.replies with
  | cons p replies =>
    have hmem : p ∈ s.replies := hreplies ▸ List.mem_cons_self
    obtain ⟨t, ht⟩ := hl.task_of_reply hmem
    refine ⟨.receive 0, endTask { s with replies } p.1, [.sent t.src p.2], rfl, ?_, ?_⟩
    · rw [Monoio.step, hreplies]
      dsimp only [List.getElem?_cons_zero]
      rw [ht]
      rfl
    · simp only [backlog, endTask, hreplies, List.length_cons]
      omega
  | nil =>
  cases hdropped : s.dropped with
  | cons id dropped =>
    refine ⟨.disconnected 0, endTask { s with dropped } id, [], rfl, ?_, ?_⟩
    · rw [Monoio.step, hdropped]
      rfl
    · simp only [backlog, endTask, hdropped, List.length_cons]
      omega
  | nil =>
    -- no channel is in use, so there is no task
    have hlive : s.live = [] := by
      simp only [live, requests, queued, hspawned, hchannel, hhandlers, hresolving, hreplies,
        hdropped, List.append_nil, List.map_nil]
    have hnone := hl.channels.tasks
    rw [hlive] at hnone
    exact absurd (List.map_eq_nil_iff.mp hnone.eq_nil) htasks

/-- The process can always finish what is under way. -/
theorem Linked.drains (display : RecordType → Str) (hl : s.Linked m outs a h) :
    ∃ es s' outs', (∀ e ∈ es, e.isInternal = true) ∧
      (machine display).run s es = some (s', outs') ∧ s'.tasks = [] := by
  induction hn : s.backlog using Nat.strong_induction_on generalizing s m outs a h with
  | h n ih =>
    by_cases htasks : s.tasks = []
    · exact ⟨[], s, [], by simp, rfl, htasks⟩
    · obtain ⟨e, s₁, out, hinternal, hstep, hless⟩ := hl.progress display htasks
      obtain ⟨-, b, h', -, -, μ, hl₁⟩ := hl.step hstep
      obtain ⟨es, s', outs', hes, hrun, hdone⟩ := ih _ (hn ▸ hless) hl₁ rfl
      refine ⟨e :: es, s', out ++ outs', ?_, ?_, hdone⟩
      · exact List.forall_mem_cons.mpr ⟨hinternal, hes⟩
      · exact Machine.run_cons_eq_some.mpr ⟨s₁, out, outs', hstep, hrun, rfl⟩

end Links

namespace Sample

open Denis.Sample

/-- A workers' client, -/
def first : SocketAddr := (client .monoUdp 1).addr

/-- and another. -/
def second : SocketAddr := (client .monoUdp 2).addr

/-- Two clients ask for one name; the second's query is queued first, and the first's
finds the answer in the cache. -/
def overtaking : List MonoioInput :=
  [.datagram first (packet 7 name) (clock 0), .datagram second (packet 9 name) (clock 0),
    .serveMiss 1, .coldPath, .handle 0 (clock 0),
    .response 0 resolver resolver (answer 9 name) (clock 1), .serveMiss 0, .coldPath,
    .handle 0 (clock 1), .receive 0]

/-- The second has its reply, the first's is on its way. -/
theorem overtaking_run : ∃ s outs,
    (machine display).run (start ⟨[]⟩ config ∅ ∅) overtaking = some (s, outs) ∧
      sentDatagrams outs = [(second, answer 9 name)] ∧ s.pending = [(first, answer 7 name)] := by
  have hlast : ((machine display).run (start ⟨[]⟩ config ∅ ∅) overtaking).map
      (fun p => (sentDatagrams p.2, p.1.pending)) =
      some ([(second, answer 9 name)], [(first, answer 7 name)]) := by
    decide +kernel
  obtain ⟨⟨s, outs⟩, hrun, hviews⟩ := Option.map_eq_some_iff.mp hlast
  obtain ⟨hsent, hpending⟩ := Prod.mk.inj hviews
  exact ⟨s, outs, hrun, hsent, hpending⟩

end Sample

section Runs

variable {display : RecordType → Str} {acl : Acl} {config : RuntimeConfig}
  {blockList allowList : DomainSet} {es : List MonoioInput} {s : Monoio}
  {outs : List MonoioOutput}

/-- **The tasks and channels of the cold path are one step of the server.** Every run
of the process is one of the server in which the outside does the same: the workers
send the server's replies to the clients they are for, each once, and all that are
left to send have a `serve_miss` waiting for them; all else is done in the same
order. -/
theorem refines_server
    (hrun : (machine display).run (start acl config blockList allowList) es = some (s, outs)) :
    ∃ es' a h,
      (Server.machine display).run (Server.start .monoio acl config blockList allowList) es' =
        some (a, h) ∧
      es'.filterMap Input.outside = es.filterMap MonoioInput.outside ∧
      (udpReplies h).Perm (sentDatagrams outs ++ s.pending) ∧
      s.pending.length = s.replies.length ∧
      h.flatMap Output.effects = effects outs := by
  obtain ⟨req⟩ := exists_request
  obtain ⟨es', a, h, hserver, houtside, m, hl⟩ :=
    (linked_start (fun _ => req) acl config blockList allowList).run hrun
  refine ⟨es', a, h, hserver, houtside, ?_, ?_, hl.beside⟩
  · rw [hl.pending_eq]
    exact hl.udp
  · rw [hl.pending_eq, List.length_map]

/-- The two are answered in the other order. -/
theorem Sample.overtaken : ∃ es' a h,
    (Server.machine Sample.display).run (Server.start .monoio ⟨[]⟩ Sample.config ∅ ∅) es' =
      some (a, h) ∧
    es'.filterMap Input.outside = Sample.overtaking.filterMap MonoioInput.outside ∧
    (udpReplies h).Perm [(Sample.second, Sample.answer 9 Sample.name),
      (Sample.first, Sample.answer 7 Sample.name)] := by
  obtain ⟨s, outs, hrun, hsent, hpending⟩ := Sample.overtaking_run
  obtain ⟨es', a, h, hserver, houtside, hudp, -⟩ := refines_server hrun
  refine ⟨es', a, h, hserver, houtside, ?_⟩
  rw [hsent, hpending] at hudp
  exact hudp

/-- **No query is stuck.** After every run the process can, on its own, end every
`serve_miss`, and what was on its way to a client is then sent. -/
theorem misses_end
    (hrun : (machine display).run (start acl config blockList allowList) es = some (s, outs)) :
    ∃ es' s' outs', (∀ e ∈ es', e.isInternal = true) ∧
      (machine display).run s es' = some (s', outs') ∧ s'.tasks = [] ∧
      s.pending.Subperm (sentDatagrams outs') := by
  obtain ⟨req⟩ := exists_request
  obtain ⟨-, a, h, -, -, m, hl⟩ :=
    (linked_start (fun _ => req) acl config blockList allowList).run hrun
  obtain ⟨es', s', outs', hinternal, hrun', hdone⟩ := hl.drains display
  refine ⟨es', s', outs', hinternal, hrun', hdone, ?_⟩
  obtain ⟨-, b, h', -, -, μ, hl'⟩ := hl.run hrun'
  have hnone : s'.replies = [] := by
    have hlive := hl'.channels.tasks
    rw [hdone] at hlive
    have hreplies := (List.append_eq_nil_iff.mp (List.append_eq_nil_iff.mp hlive.symm.eq_nil).1).2
    exact List.map_eq_nil_iff.mp hreplies
  have hsent := hl'.udp
  rw [hnone, udpReplies_append, sentDatagrams_append, List.map_nil, List.append_nil] at hsent
  have hsoFar := hl.udp
  rw [← hl.pending_eq, List.nil_append] at hsoFar
  have hmore : (sentDatagrams ([] ++ outs) ++ s.pending).Subperm
      (sentDatagrams ([] ++ outs) ++ sentDatagrams outs') :=
    hsoFar.symm.subperm.trans ((List.sublist_append_left ..).subperm.trans hsent.subperm)
  exact (List.subperm_append_left _).mp hmore

/-- The first gets its reply. -/
theorem Sample.first_answered : ∃ s outs es' s' outs',
    (machine Sample.display).run (start ⟨[]⟩ Sample.config ∅ ∅) Sample.overtaking =
      some (s, outs) ∧
    (∀ e ∈ es', e.isInternal = true) ∧
    (machine Sample.display).run s es' = some (s', outs') ∧ s'.tasks = [] ∧
    (Sample.first, Sample.answer 7 Sample.name) ∈ sentDatagrams outs' := by
  obtain ⟨s, outs, hrun, -, hpending⟩ := Sample.overtaking_run
  obtain ⟨es', s', outs', hinternal, hrun', hdone, hsub⟩ := misses_end hrun
  refine ⟨s, outs, es', s', outs', hrun, hinternal, hrun', hdone, hsub.subset ?_⟩
  rw [hpending]
  exact List.mem_singleton_self _

end Runs

end Monoio

end Denis
