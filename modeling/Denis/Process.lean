import Denis.Api.Durable
import Denis.Dns.Policy
import Denis.Repo.Decision

/-!
# The process (`main.rs:83–226`)

`run` builds one cache and one configuration and hands both to the handlers behind
the API and to the DNS server: what the one writes, the other reads with its next
query. A step of `Process` is one of theirs, in any order, or a restart, which ends
both and starts them again from the database.

What the API answers about the lists therefore holds of the wire:
`additions_enforced`, `removals_lifted` and `allowances_enforced`.
-/

namespace Denis

open Text

/-- The service behind the API and the DNS server. -/
structure Process where
  management : Management
  server : Server

/-- What happens next. A restart may start the other runtime, and reads the lists and
the access list again. -/
inductive ProcessInput
  | api (input : ApiInput)
  | dns (input : Input)
  | restart (salt : Str) (clock : AuthClock) (rows : ListKind → RowRead) (runtime : Runtime)
      (acl : Acl)

inductive ProcessOutput
  | api (event : ApiEvent)
  | dns (output : Output)
  deriving DecidableEq

def ApiInput.isRestart : ApiInput → Bool
  | .restart _ _ _ => true
  | _ => false

/-- What the service behind the API sees. -/
def ProcessInput.api? : ProcessInput → Option ApiInput
  | .api input => some input
  | .dns _ => none
  | .restart salt clock rows _ _ => some (.restart salt clock rows)

/-- If it is a restart, it reads the table of a kind without an error. -/
def ProcessInput.Reads (kind : ListKind) (e : ProcessInput) : Prop :=
  ∀ input ∈ e.api?, input.Reads kind

def ProcessOutput.api? : ProcessOutput → Option ApiEvent
  | .api event => some event
  | .dns _ => none

namespace Process

variable (d : Deployment) (display : RecordType → Str)

/-- The server over the lists and the configuration as they are now: both are shared
(`main.rs:142–166`). -/
def share (m : Management) (s : Server) : Server :=
  { s with
    config := m.config
    cache := { s.cache with
      allowList := m.store.lists.allowList, blockList := m.store.lists.blockList } }

/-- The process as `run` starts it, with nothing cached. -/
def start (m : Management) (runtime : Runtime) (acl : Acl) : Process :=
  ⟨m, .start runtime acl m.config m.store.lists.blockList m.store.lists.allowList⟩

/-- One step. Only the API edits what the server reads. -/
def step (p : Process) : ProcessInput → Option (Process × List ProcessOutput)
  | .api input =>
    if input.isRestart then none
    else
      match Management.step d p.management input with
      | some (management, events) =>
        some (⟨management, share management p.server⟩, events.map .api)
      | none => none
  | .dns input =>
    if input.isEdit then none
    else
      match p.server.step display input with
      | some (server, out) => some ({ p with server }, out.map .dns)
      | none => none
  | .restart salt clock rows runtime acl =>
    match Management.step d p.management (.restart salt clock rows) with
    | some (management, events) => some (start management runtime acl, events.map .api)
    | none => none

/-- The process as a machine. -/
abbrev machine : Machine Process ProcessInput ProcessOutput := ⟨step d display⟩

variable {d display} {p p' : Process} {h out : List ProcessOutput}

/-! ## One half at a time -/

@[simp] theorem api_map_api (events : List ApiEvent) :
    (events.map ProcessOutput.api).filterMap ProcessOutput.api? = events := by
  rw [List.filterMap_map]
  exact List.filterMap_some

@[simp] theorem api_map_dns (out : List Output) :
    (out.map ProcessOutput.dns).filterMap ProcessOutput.api? = [] := by
  rw [List.filterMap_map]
  exact List.filterMap_eq_nil_iff.mpr fun _ _ => rfl

/-- A step is one of the service behind the API, or none of it. -/
theorem step_management {e : ProcessInput} (hstep : step d display p e = some (p', out)) :
    match e.api? with
    | some input =>
      Management.step d p.management input = some (p'.management, out.filterMap ProcessOutput.api?)
    | none => p'.management = p.management ∧ out.filterMap ProcessOutput.api? = [] := by
  cases e with
  | api input =>
    rw [step] at hstep
    split at hstep
    · cases hstep
    · split at hstep
      · next management events hmanagement =>
        obtain ⟨rfl, rfl⟩ := Prod.mk.inj (Option.some.inj hstep)
        rw [api_map_api]
        exact hmanagement
      · cases hstep
  | dns input =>
    rw [step] at hstep
    split at hstep
    · cases hstep
    · split at hstep
      · obtain ⟨rfl, rfl⟩ := Prod.mk.inj (Option.some.inj hstep)
        exact ⟨rfl, api_map_dns _⟩
      · cases hstep
  | restart salt clock rows runtime acl =>
    rw [step] at hstep
    split at hstep
    · next management events hmanagement =>
      obtain ⟨rfl, rfl⟩ := Prod.mk.inj (Option.some.inj hstep)
      rw [api_map_api]
      exact hmanagement
    · cases hstep

/-- **The API knows nothing of the queries**: for the service behind it, a run of the
process is one of its own. -/
theorem management_run {es : List ProcessInput}
    (hrun : (machine d display).run p es = some (p', h)) :
    (Management.machine d).run p.management (es.filterMap ProcessInput.api?) =
      some (p'.management, h.filterMap ProcessOutput.api?) := by
  have hmatched : ∀ q h m g e q' out, (m = q.management ∧ g = h.filterMap ProcessOutput.api?) →
      (machine d display).step q e = some (q', out) →
        ∃ es' m' out', (Management.machine d).run m es' = some (m', out') ∧
          es'.filterMap some = e.api?.toList ∧
            (m' = q'.management ∧ g ++ out' = (h ++ out).filterMap ProcessOutput.api?) := by
    rintro q h _ _ e q' out ⟨rfl, rfl⟩ hstep
    have hone := step_management hstep
    rw [List.filterMap_append]
    split at hone
    · next input hinput =>
      refine ⟨[input], _, _, Machine.run_cons_eq_some.mpr ⟨_, _, [], hone, rfl, rfl⟩, ?_, rfl, ?_⟩
      · rw [hinput]
        rfl
      · rw [List.append_nil]
    · next hinput =>
      refine ⟨[], _, [], rfl, ?_, hone.1.symm, ?_⟩
      · rw [hinput]
        rfl
      · rw [hone.2]
  obtain ⟨es', m', out', hmanagement, hlabels, rfl, hout⟩ :=
    Machine.run_forward (R := fun q h m g => m = q.management ∧
      g = h.filterMap ProcessOutput.api?) (h := []) (g := []) hmatched ⟨rfl, rfl⟩ hrun
  rw [List.filterMap_some] at hlabels
  rw [List.nil_append, List.nil_append] at hout
  rw [← hlabels, ← hout]
  exact hmanagement

/-- What the server reads is what the API last wrote. -/
structure Shared (p : Process) : Prop where
  config : p.server.config = p.management.config
  blockList : p.server.cache.blockList = p.management.store.lists.blockList
  allowList : p.server.cache.allowList = p.management.store.lists.allowList

theorem shared_step {e : ProcessInput} (hshared : Shared p)
    (hstep : step d display p e = some (p', out)) : Shared p' := by
  cases e with
  | api input =>
    rw [step] at hstep
    split at hstep
    · cases hstep
    · split at hstep
      · obtain ⟨rfl, -⟩ := Prod.mk.inj (Option.some.inj hstep)
        exact ⟨rfl, rfl, rfl⟩
      · cases hstep
  | dns input =>
    rw [step] at hstep
    split at hstep
    · cases hstep
    · next hedit =>
      split at hstep
      · next server out hserver =>
        obtain ⟨rfl, -⟩ := Prod.mk.inj (Option.some.inj hstep)
        have hsame := Server.step_policy (Bool.eq_false_iff.mpr hedit) hserver
        exact ⟨(congrArg Policy.config hsame).trans hshared.config,
          (congrArg Policy.blockList hsame).trans hshared.blockList,
          (congrArg Policy.allowList hsame).trans hshared.allowList⟩
      · cases hstep
  | restart salt clock rows runtime acl =>
    rw [step] at hstep
    split at hstep
    · obtain ⟨rfl, -⟩ := Prod.mk.inj (Option.some.inj hstep)
      exact ⟨rfl, rfl, rfl⟩
    · cases hstep

theorem shared_run {m : Management} {runtime : Runtime} {acl : Acl} {es : List ProcessInput}
    (hrun : (machine d display).run (start m runtime acl) es = some (p, h)) : Shared p :=
  Machine.run_invariant (J := Shared) (fun _ _ _ _ hshared hstep => shared_step hshared hstep)
    ⟨rfl, rfl, rfl⟩ hrun

/-- A query's step is the server's. -/
theorem step_dns {input : Input} (hstep : step d display p (.dns input) = some (p', out)) :
    ∃ server replies, p.server.step display input = some (server, replies) ∧
      out = replies.map .dns := by
  rw [step] at hstep
  split at hstep
  · cases hstep
  · split at hstep
    · next server replies hserver =>
      exact ⟨server, replies, hserver, (Prod.mk.inj (Option.some.inj hstep)).2.symm⟩
    · cases hstep

/-- A query of a name that is not blocked. -/
theorem step_open {input : Input} {req : Request}
    (hopen : p.server.cache.isBlocked req.query.name = false) (htakes : p.server.Takes input req)
    (hstep : step d display p (.dns input) = some (p', out)) :
    ∀ r event, .dns (.reply r) ∈ out → r.event = some event → event.blocked = false := by
  obtain ⟨server, replies, hserver, rfl⟩ := step_dns hstep
  intro r event hr hevent
  obtain ⟨output, houtput, heq⟩ := List.mem_map.mp hr
  obtain rfl := ProcessOutput.dns.inj heq
  exact Server.step_unblocked htakes hopen hserver r event houtput hevent

theorem mem_api {es : List ProcessInput} {input : ApiInput} (hrestart : input.isRestart = false)
    (hmem : input ∈ es.filterMap ProcessInput.api?) : .api input ∈ es := by
  obtain ⟨e, he, hinput⟩ := List.mem_filterMap.mp hmem
  cases e with
  | api input' =>
    obtain rfl := Option.some.inj hinput
    exact he
  | dns input' => cases hinput
  | restart salt clock rows runtime acl =>
    obtain rfl := Option.some.inj hinput
    cases hrestart

theorem reads_api {es : List ProcessInput} {kind : ListKind} {input : ApiInput}
    (hreads : ∀ e ∈ es, e.Reads kind) (hmem : input ∈ es.filterMap ProcessInput.api?) :
    input.Reads kind := by
  obtain ⟨e, he, hinput⟩ := List.mem_filterMap.mp hmem
  exact hreads e he input hinput

/-! ## From an answer to the wire -/

section Enforced

variable {m : Management} {runtime : Runtime} {acl : Acl} {es : List ProcessInput} {x : Str}
  {token : Str} {route : Route} {input : Input} {req : Request}

/-- An addition on the tokio runtime, with queries on either side of it, and a restart. -/
def Sample.addition : List ProcessInput :=
  [.api (.request none (.login ['b'] ['p']) (Management.Sample.around 1)),
    .dns (Denis.Sample.ask (Denis.Sample.client .tokioUdp 1) 7 0),
    .api (Management.Sample.asked (.blockAddOne ['A', 'b', '.', 'c', 'd']) 2),
    .api (.resume 0 (Management.Sample.around 3)), .api (.resume 0 (Management.Sample.around 4)),
    .dns (Denis.Sample.answered 7 2), .api (.resume 0 (Management.Sample.around 5)),
    .restart ['s'] ⟨6, 50⟩ Management.Sample.allRows .tokio ⟨[]⟩]

/-- A query for the name added. -/
def Sample.request : Request :=
  ⟨Denis.Sample.client .tokioUdp 1, Denis.Sample.packet 7 Denis.Sample.name,
    Denis.Sample.query 7, 0, by decide +kernel⟩

/-- **What the API has answered as removed is open.** In any run in which no request
asks to add a domain, by a list fetched from a URL included: once a removal of the domain has been
answered without an error, no query then taken up gets a blocked reply, unless another
domain on the block list covers its name. -/
theorem removals_lifted (hidle : m.running = [])
    (hrun : (machine d display).run (start m runtime acl) es = some (p, h))
    (hrequests : ∀ authorization route env, .api (.request authorization route env) ∈ es →
      ¬ Route.Adds d.lc .blocked x route)
    {response : Response} (hanswer : .api (.answered (some token) route response) ∈ h)
    (hroute : route.Removes d.lc .blocked x) (hremoved : response.IsRemoved)
    (htakes : p.server.Takes input req)
    (hother : ∀ y ∈ p.management.store.lists.blockList, y ≠ x → ¬ Repo.EndsIn req.query.name y)
    (hstep : step d display p (.dns input) = some (p', out)) :
    ∀ r event, .dns (.reply r) ∈ out → r.event = some event → event.blocked = false := by
  have hshared := shared_run hrun
  have habsent : Absent x p.management.store := by
    refine (Management.removalPlan d x).run hidle (management_run hrun) ?_
      (List.mem_filterMap.mpr ⟨_, hanswer, rfl⟩) hroute hremoved
    rintro _ hmem authorization route env rfl
    exact hrequests authorization route env (mem_api rfl hmem)
  have hopen : p.server.cache.isBlocked req.query.name = false := by
    rw [Bool.eq_false_iff, Cache.isBlocked, Ne, Repo.decide_iff, hshared.blockList]
    rintro ⟨hcovers, -⟩
    obtain ⟨y, hy, hname⟩ := Repo.covers_iff_endsIn.mp hcovers
    exact hother y hy (fun heq => habsent.1 (heq ▸ hy)) hname
  exact step_open hopen htakes hstep

/-- A service with the name blocked. -/
noncomputable def Sample.listing : Management :=
  { Management.Sample.booted with
    store := ⟨⟨{['a', 'b', '.', 'c', 'd']}, ∅⟩,
      ⟨[⟨['c'], ['a', 'b', '.', 'c', 'd']⟩], by decide⟩, ⟨[], by decide⟩⟩ }

/-- A query, and the answer to it from upstream. -/
def Sample.resolved : List ProcessInput :=
  [.dns (Denis.Sample.ask (Denis.Sample.client .tokioUdp 1) 7 1),
    .dns (Denis.Sample.answered 7 2)]

/-- A blocked query, and the removal of its name. -/
def Sample.removal : List ProcessInput :=
  [.api (.request none (.login ['b'] ['p']) (Management.Sample.around 1)),
    .dns (Denis.Sample.ask (Denis.Sample.client .tokioUdp 1) 7 0),
    .api (Management.Sample.asked (.removeOne ['A', 'b', '.', 'c', 'd']) 2),
    .api (.resume 0 (Management.Sample.around 3)), .api (.resume 0 (Management.Sample.around 4))]
  ++ Sample.resolved

/-- The cached answer to the query. -/
def Sample.opened : Reply := Denis.Sample.reply (Denis.Sample.client .tokioUdp 1) 7 3 true

/-- The query blocked before the removal is answered after it. -/
theorem Sample.open_after_removal :
    ∃ p h p', (machine Management.Sample.deployment Denis.Sample.display).run
        (start Sample.listing .tokio ⟨[]⟩) Sample.removal = some (p, h) ∧
      step Management.Sample.deployment Denis.Sample.display p
        (.dns (Denis.Sample.ask (Denis.Sample.client .tokioUdp 1) 7 3)) =
          some (p', [.dns (.reply Sample.opened)]) ∧
      ∀ event, Sample.opened.event = some event → event.blocked = false := by
  obtain ⟨⟨p, h⟩, hrun, hviews⟩ := Option.map_eq_some_iff.mp
    (show ((machine Management.Sample.deployment Denis.Sample.display).run
        (start Sample.listing .tokio ⟨[]⟩) Sample.removal).map (fun q =>
          (decide (.api (.answered (some (randomToken (Management.Sample.around 1).drawn))
            (.removeOne ['A', 'b', '.', 'c', 'd']) (.ok (.removed true))) ∈ q.2),
            q.1.management.store.lists.blockList,
            (step Management.Sample.deployment Denis.Sample.display q.1 (.dns
              (Denis.Sample.ask (Denis.Sample.client .tokioUdp 1) 7 3))).map Prod.snd)) =
        some (true, ∅, some [.dns (.reply Sample.opened)]) by decide +kernel)
  obtain ⟨hanswer, hrest⟩ := Prod.mk.inj hviews
  obtain ⟨hblock, hsome⟩ := Prod.mk.inj hrest
  obtain ⟨⟨p', out⟩, hstep, rfl⟩ := Option.map_eq_some_iff.mp hsome
  have hroute : Route.Removes Management.Sample.deployment.lc .blocked ['a', 'b', '.', 'c', 'd']
      (.removeOne ['A', 'b', '.', 'c', 'd']) := ⟨rfl, by decide⟩
  have hrequests : ∀ authorization route env,
      .api (.request authorization route env) ∈ Sample.removal →
        ¬ Route.Adds Management.Sample.deployment.lc .blocked ['a', 'b', '.', 'c', 'd'] route := by
    intro authorization route env hmem
    simp only [Sample.removal, Sample.resolved, Management.Sample.asked, List.cons_append,
      List.nil_append, List.mem_cons, ProcessInput.api.injEq, ApiInput.request.injEq,
      reduceCtorEq, List.not_mem_nil, or_false, false_or] at hmem
    rcases hmem with ⟨-, rfl, -⟩ | ⟨-, rfl, -⟩ <;> exact id
  have hother : ∀ y ∈ p.management.store.lists.blockList, y ≠ ['a', 'b', '.', 'c', 'd'] →
      ¬ Repo.EndsIn Sample.request.query.name y := by
    rw [hblock]
    exact fun y hy => absurd hy (Finset.notMem_empty y)
  exact ⟨p, h, p', hrun, hstep, fun event hevent => removals_lifted rfl hrun hrequests
    (of_decide_eq_true hanswer) hroute ⟨by decide, by simp [Response.ok]⟩
    (Server.Takes.message Sample.request rfl) hother hstep Sample.opened event
    List.mem_cons_self hevent⟩

/-- **What the API has answered as allowed is open for good.** No request removes from
the allow list: in any run in which every restart reads the allow list without an error,
whatever else it interleaves, once an addition to it has been answered without an error,
no query then taken up for the domain or a name under it gets a blocked reply. -/
theorem allowances_enforced (hidle : m.running = [])
    (hrun : (machine d display).run (start m runtime acl) es = some (p, h))
    (hreads : ∀ e ∈ es, e.Reads .allowed)
    {status : StatusCode} {result : Option AddResult}
    (hanswer : .api (.answered (some token) route ⟨status, .added result⟩) ∈ h)
    (hroute : route.Adds d.lc .allowed x) (htakes : p.server.Takes input req)
    (hname : Repo.EndsIn req.query.name x)
    (hstep : step d display p (.dns input) = some (p', out)) :
    ∀ r event, .dns (.reply r) ∈ out → r.event = some event → event.blocked = false := by
  have hshared := shared_run hrun
  have hpresent : Present .allowed x p.management.store := by
    refine (Management.additionPlan d .allowed x).run hidle (management_run hrun) ?_
      (List.mem_filterMap.mpr ⟨_, hanswer, rfl⟩) hroute ⟨result, rfl⟩
    intro e hmem
    refine ⟨reads_api hreads hmem, ?_⟩
    rintro authorization route env rfl hremoves
    cases route with
    | removeOne domain => cases hremoves.1
    | removeBulk domains => cases hremoves.1
    | _ => exact hremoves
  have hopen : p.server.cache.isBlocked req.query.name = false := by
    rw [Bool.eq_false_iff, Cache.isBlocked, Ne, Repo.decide_iff, hshared.allowList]
    exact fun hblocked => hblocked.2 (Repo.covers_iff_endsIn.mpr ⟨x, hpresent.1, hname⟩)
  exact step_open hopen htakes hstep

/-- A blocked query, and its name allowed. -/
def Sample.allowance : List ProcessInput :=
  [.api (.request none (.login ['b'] ['p']) (Management.Sample.around 1)),
    .dns (Denis.Sample.ask (Denis.Sample.client .tokioUdp 1) 7 0),
    .api (Management.Sample.asked (.allowAddOne ['A', 'b', '.', 'c', 'd']) 2),
    .api (.resume 0 (Management.Sample.around 3)), .api (.resume 0 (Management.Sample.around 4)),
    .api (.resume 0 (Management.Sample.around 5))]
  ++ Sample.resolved

/-- The query blocked before the name is allowed is answered after it. -/
theorem Sample.open_after_allowance :
    ∃ p h p', (machine Management.Sample.deployment Denis.Sample.display).run
        (start Sample.listing .tokio ⟨[]⟩) Sample.allowance = some (p, h) ∧
      step Management.Sample.deployment Denis.Sample.display p
        (.dns (Denis.Sample.ask (Denis.Sample.client .tokioUdp 1) 7 3)) =
          some (p', [.dns (.reply Sample.opened)]) ∧
      ∀ event, Sample.opened.event = some event → event.blocked = false := by
  obtain ⟨⟨p, h⟩, hrun, hviews⟩ := Option.map_eq_some_iff.mp
    (show ((machine Management.Sample.deployment Denis.Sample.display).run
        (start Sample.listing .tokio ⟨[]⟩) Sample.allowance).map (fun q =>
          (decide (.api (.answered (some (randomToken (Management.Sample.around 1).drawn))
            (.allowAddOne ['A', 'b', '.', 'c', 'd']) ⟨.ok, .added (some ⟨1, 0, 0⟩)⟩) ∈ q.2),
            (step Management.Sample.deployment Denis.Sample.display q.1 (.dns
              (Denis.Sample.ask (Denis.Sample.client .tokioUdp 1) 7 3))).map Prod.snd)) =
        some (true, some [.dns (.reply Sample.opened)]) by decide +kernel)
  obtain ⟨hanswer, hsome⟩ := Prod.mk.inj hviews
  obtain ⟨⟨p', out⟩, hstep, rfl⟩ := Option.map_eq_some_iff.mp hsome
  have hroute : Route.Adds Management.Sample.deployment.lc .allowed ['a', 'b', '.', 'c', 'd']
      (.allowAddOne ['A', 'b', '.', 'c', 'd']) := ⟨rfl, by decide⟩
  have hreads : ∀ e ∈ Sample.allowance, e.Reads .allowed := by
    simp [Sample.allowance, Sample.resolved, Management.Sample.asked, ProcessInput.Reads,
      ProcessInput.api?, ApiInput.Reads]
  exact ⟨p, h, p', hrun, hstep, fun event hevent => allowances_enforced rfl hrun hreads
    (of_decide_eq_true hanswer) hroute (Server.Takes.message Sample.request rfl) (.inl rfl)
    hstep Sample.opened event List.mem_cons_self hevent⟩

end Enforced

end Process

end Denis
