import Denis.Api.Authority
import Denis.Repo.Import

/-!
# What bulk answers count (`api/mod.rs`)

An addition answers how many of its domains it added, skipped and found
invalid; a bulk removal how many it removed, skipped and failed on. The numbers
are kept over the suspensions of a handler, while others write the same tables,
statements are refused and clients hang up. `Counted` is what they are at each
place a handler stands (`runJob_counted`), so every answer of every run adds up
to the inputs of its request, and no subtraction of `from_outcome` underflows
(`answers_add_up`).
-/

namespace Denis

open Text

section Counting

variable (lc : Lowercase)

/-- The counts of an addition at a route: what was considered of how many. -/
def Route.Totals : Route → Nat → Nat → Prop
  | .blockAddOne _, considered, total => considered ≤ total ∧ total = 1
  | .allowAddOne _, considered, total => considered ≤ total ∧ total = 1
  | .blockAddBulk domains, considered, total => considered ≤ total ∧ total = domains.length
  | .allowAddBulk domains, considered, total => considered ≤ total ∧ total = domains.length
  -- what a fetched list holds has been parsed, and is valid
  | .blockAddUrl _ _ (.ok body), considered, total =>
    considered = total ∧ total = (Repo.parseDomainList lc.toLowercase body).length
  | _, _, _ => False

/-- An answer adds up: an addition counts every input once, one by URL every domain
parsed from what was fetched, none of them invalid, and a bulk removal counts every
input once. -/
def Route.AddsUp : Route → Body → Prop
  | route, .added result => ∃ r considered total, result = some r ∧
      route.Totals lc considered total ∧ r.added + r.skipped = considered ∧
      r.added + r.skipped + r.invalid = total
  | .removeBulk domains, .bulk r => r.added + r.skipped + r.errors.length = domains.length
  | _, .bulk _ => False
  | _, _ => True

/-- What a handler has counted where it stands. -/
def Route.Counted : Route → Job → Prop
  | route, .begin route' => route' = route
  | route, .insertBlocked _ chunks added considered total =>
    added + chunks.flatten.length ≤ considered ∧ route.Totals lc considered total
  | route, .insertAllowed chunks added considered total =>
    added + chunks.flatten.length ≤ considered ∧ route.Totals lc considered total
  | .removeBulk domains, .bulk rest r =>
    r.added + r.skipped + r.errors.length + rest.length = domains.length
  | _, .bulk _ _ => False
  | .removeBulk domains, .bulkDelete _ _ rest r =>
    r.added + r.skipped + r.errors.length + (rest.length + 1) = domains.length
  | _, .bulkDelete _ _ _ _ => False
  | _, _ => True

/-- The handler goes on counting, or answers what adds up. -/
def Route.Holds (route : Route) : Next → Prop
  | .more job => route.Counted lc job
  | .done response => route.AddsUp lc response.body

end Counting

theorem Route.Totals.le {lc : Lowercase} {route : Route} {considered total : Nat}
    (h : route.Totals lc considered total) : considered ≤ total := by
  cases route with
  | blockAddOne domain | allowAddOne domain | blockAddBulk domains | allowAddBulk domains =>
    exact h.1
  | blockAddUrl url list fetched =>
    cases fetched with
    | error message => exact h.elim
    | ok body => exact Nat.le_of_eq h.1
  | _ => exact h.elim

namespace Management

variable {d : Deployment} {s s' : Management} {e : ApiInput} {h out : List ApiEvent}

/-- The end of an addition. -/
theorem addsUp_added {route : Route} {added considered total : Nat} (hle : added ≤ considered)
    (htotals : route.Totals d.lc considered total) :
    route.AddsUp d.lc (.added (AddResult.fromOutcome ⟨added, considered⟩ total)) := by
  refine ⟨⟨added, considered - added, total - considered⟩, considered, total, ?_, htotals, ?_, ?_⟩
  · exact if_pos ⟨hle, htotals.le⟩
  · exact Nat.add_sub_cancel' hle
  · show added + (considered - added) + (total - considered) = total
    rw [Nat.add_sub_cancel' hle, Nat.add_sub_cancel' htotals.le]

/-- The beginning of an addition. -/
theorem beginAdd_holds {route : Route} {domains : List Str} {total : Nat} (kind : ListKind)
    (list : Str) (htotals : route.Totals d.lc (Repo.normalizeDomains d.lc domains).length total) :
    route.Holds d.lc (s.beginAdd d kind list domains total).2 := by
  unfold beginAdd
  dsimp only
  split
  · next hnone =>
    rw [hnone] at htotals
    exact addsUp_added (Nat.le_refl 0) htotals
  · have hbegun : 0 + (insertChunks (Repo.normalizeDomains d.lc domains)).flatten.length ≤
        (Repo.normalizeDomains d.lc domains).length := by
      rw [insertChunks_flatten, Nat.zero_add]
    cases kind with
    | blocked => exact ⟨hbegun, htotals⟩
    | allowed => exact ⟨hbegun, htotals⟩

/-- An error counts nothing. -/
theorem addsUp_error (route : Route) (message : Str) : route.AddsUp d.lc (.error message) := by
  cases route <;> trivial

theorem holds_error (route : Route) (status : StatusCode) (message : Str) :
    route.Holds d.lc (.done ⟨status, .error message⟩) :=
  @addsUp_error d route message

theorem beginList_holds {route : Route} (kind : ListKind) (p : Pagination) (env : Surroundings)
    (hcount : ∀ items limit offset, route.Counted d.lc (.count kind items limit offset)) :
    route.Holds d.lc (s.beginList d kind p env) := by
  unfold beginList
  split
  · exact holds_error route _ _
  · split
    · exact holds_error route _ _
    · next items _ => exact hcount items p.resolve.1 p.resolve.2

theorem account_holds {route : Route} (env : Surroundings) (call : AuthCall)
    {answer : AuthEvent → Response} (hanswer : ∀ event, route.AddsUp d.lc (answer event).body) :
    route.Holds d.lc (s.account d env call answer).2.2 := by
  unfold account
  split
  · exact holds_error route _ _
  · exact hanswer _

/-- What `changed` and `created` answer counts nothing. -/
theorem changed_addsUp {route : Route} (hchanged : route.AddsUp d.lc (.changed true))
    (status : StatusCode) (message : String) (event : AuthEvent) :
    route.AddsUp d.lc (changed (.error status message) event).body := by
  unfold changed
  split
  · exact hchanged
  · exact hchanged
  · exact hchanged
  · exact hchanged
  · exact addsUp_error route _

theorem beginRoute_holds (env : Surroundings) (route : Route) :
    route.Holds d.lc (s.beginRoute d env route).2.2 := by
  cases route with
  | listBlocked p => exact beginList_holds .blocked p env fun _ _ _ => trivial
  | listAllowed p => exact beginList_holds .allowed p env fun _ _ _ => trivial
  | blockAddOne domain =>
    exact beginAdd_holds .blocked "custom".toList ⟨length_normalizeDomains d.lc [domain], rfl⟩
  | allowAddOne domain =>
    exact beginAdd_holds .allowed [] ⟨length_normalizeDomains d.lc [domain], rfl⟩
  | blockAddBulk domains =>
    exact beginAdd_holds .blocked "custom".toList ⟨length_normalizeDomains d.lc domains, rfl⟩
  | allowAddBulk domains =>
    exact beginAdd_holds .allowed [] ⟨length_normalizeDomains d.lc domains, rfl⟩
  | blockAddUrl url list fetched =>
    cases fetched with
    | error message => exact holds_error (.blockAddUrl url list (.error message)) _ _
    | ok body =>
      refine beginAdd_holds .blocked (list.getD url) ⟨?_, rfl⟩
      rw [normalizeDomains_eq_self fun x => lowerDomain_of_parsed]
  | removeBulk domains => exact Nat.zero_add _
  | createUser username password => exact account_holds env _ (changed_addsUp trivial _ _)
  | setPassword username password => exact account_holds env _ (changed_addsUp trivial _ _)
  | deleteUser username => exact account_holds env _ (changed_addsUp trivial _ _)
  | revokeToken id => exact account_holds env _ (changed_addsUp trivial _ _)
  | createToken name ttlSecs =>
    refine account_holds env _ fun event => ?_
    unfold created
    split <;> trivial
  | listUsers | listTokens =>
    rw [beginRoute]
    unfold readRows
    split <;> trivial
  | stats =>
    rw [beginRoute]
    cases d.analytics <;> trivial
  | metrics =>
    rw [beginRoute]
    cases d.prometheus <;> trivial
  | login username password =>
    rw [beginRoute]
    cases env.fault with
    | some message => exact holds_error (.login username password) _ _
    | none =>
      dsimp only
      show Route.AddsUp d.lc _ (Response.body _)
      split <;> trivial
  | _ => trivial

/-- One insert of a chunk counts no more rows than the chunk has domains. -/
theorem inserted_le {ρ : Type} {key : ρ → Str} (t : Table key) (row : Str → ρ)
    {chunk : List Str} {rest : List (List Str)} {added considered : Nat}
    (hle : added + (chunk :: rest).flatten.length ≤ considered) :
    added + (t.insertIgnore (chunk.map row)).2 + rest.flatten.length ≤ considered := by
  have hrows := t.insertIgnore_le (chunk.map row)
  rw [List.length_map] at hrows
  rw [List.flatten_cons, List.length_append] at hle
  omega

/-- **A stretch keeps the counts.** -/
theorem runJob_holds {route : Route} {env : Surroundings} {job : Job}
    (hcounted : route.Counted d.lc job) : route.Holds d.lc (s.runJob d env job).2.2 := by
  cases job with
  | begin route' =>
    obtain rfl : route' = route := hcounted
    exact beginRoute_holds env route'
  | insertBlocked list chunks added considered total =>
    obtain ⟨hle, htotals⟩ := hcounted
    cases chunks with
    | nil => exact addsUp_added hle htotals
    | cons chunk rest =>
      rw [runJob]
      cases env.fault with
      | some message => exact holds_error route _ _
      | none => exact ⟨inserted_le s.store.blocked (BlockedRow.mk list) hle, htotals⟩
  | insertAllowed chunks added considered total =>
    obtain ⟨hle, htotals⟩ := hcounted
    cases chunks with
    | nil => exact addsUp_added hle htotals
    | cons chunk rest =>
      rw [runJob]
      cases env.fault with
      | some message => exact holds_error route _ _
      | none =>
        have hinserted := inserted_le s.store.allowed id hle
        rw [List.map_id] at hinserted
        exact ⟨hinserted, htotals⟩
  | bulk rest r =>
    cases route with
    | removeBulk domains =>
      cases rest with
      | nil => exact hcounted
      | cons domain rest => exact hcounted
    | _ => exact hcounted.elim
  | bulkDelete domain removed rest r =>
    cases route with
    | removeBulk domains =>
      change r.added + r.skipped + r.errors.length + (rest.length + 1) = domains.length at hcounted
      rw [runJob]
      -- each domain taken from `rest` goes to one of the three counts
      cases env.fault with
      | some message =>
        show r.added + r.skipped + (r.errors ++ [_]).length + rest.length = domains.length
        rw [List.length_append, List.length_singleton]
        omega
      | none =>
        cases removed with
        | true =>
          show r.added + 1 + r.skipped + r.errors.length + rest.length = domains.length
          omega
        | false =>
          show r.added + (r.skipped + 1) + r.errors.length + rest.length = domains.length
          omega
    | _ => exact hcounted.elim
  | count kind items limit offset =>
    rw [runJob]
    cases env.fault with
    | some message => exact holds_error route _ _
    | none => cases route <;> trivial
  | deleteOne domain removed =>
    rw [runJob]
    cases env.fault with
    | some message => exact holds_error route _ _
    | none =>
      cases removed with
      | true => cases route <;> trivial
      | false => exact holds_error route _ _
  | persist merged =>
    rw [runJob]
    cases env.fault with
    | some message => exact holds_error route _ _
    | none => cases route <;> trivial
  | store merged => cases route <;> trivial

/-- Every handler under way has counted right. -/
def AllCounted (lc : Lowercase) (s : Management) : Prop :=
  ∀ r ∈ s.running, r.route.Counted lc r.job

/-- An answer that adds up, and any other event. -/
def AddedUp (lc : Lowercase) : ApiEvent → Prop
  | .answered _ route response => route.AddsUp lc response.body
  | _ => True

theorem AllCounted.step (hs : s.AllCounted d.lc)
    (hstep : Management.step d s e = some (s', out)) :
    s'.AllCounted d.lc ∧ ∀ event ∈ out, AddedUp d.lc event := by
  have hquiet : ∀ (events : List AuthEvent) (answers : List ApiEvent),
      (∀ event ∈ answers, AddedUp d.lc event) →
        ∀ event ∈ events.map .auth ++ answers, AddedUp d.lc event := by
    intro events answers hanswers event hmem
    rcases List.mem_append.mp hmem with hmem | hmem
    · obtain ⟨auth, -, rfl⟩ := List.mem_map.mp hmem
      trivial
    · exact hanswers event hmem
  cases step_transition hstep with
  | @publicly _ route env _ events response _ hbegin =>
    have hstretch := @beginRoute_stretch d s env route
    have hholds := @beginRoute_holds d s env route
    rw [hbegin] at hstretch hholds
    refine ⟨?_, hquiet events _ (List.forall_mem_singleton.mpr hholds)⟩
    intro r hr
    rw [hstretch.running] at hr
    exact hs r hr
  | noToken | badToken => exact ⟨hs, by simp [AddedUp, unauthorized, Response.error, addsUp_error]⟩
  | admitted =>
    refine ⟨?_, by simp [AddedUp]⟩
    intro r hr
    rcases List.mem_append.mp hr with hr | hr
    · exact hs r hr
    · obtain rfl := List.mem_singleton.mp hr
      rfl
  | @wentOn i env r m events job hr hjob =>
    have hstretch := @runJob_stretch d s env r.job
    have hholds := @runJob_holds d s r.route env r.job (hs r (List.mem_of_getElem? hr))
    rw [hjob] at hstretch hholds
    refine ⟨?_, by simpa using hquiet events [] (by simp)⟩
    intro r' hr'
    rcases List.mem_or_eq_of_mem_set hr' with hr' | rfl
    · rw [hstretch.running] at hr'
      exact hs r' hr'
    · exact hholds
  | @finished i env r m events response hr hjob =>
    have hstretch := @runJob_stretch d s env r.job
    have hholds := @runJob_holds d s r.route env r.job (hs r (List.mem_of_getElem? hr))
    rw [hjob] at hstretch hholds
    refine ⟨?_, hquiet events _ (List.forall_mem_singleton.mpr hholds)⟩
    intro r' hr'
    have hmem := List.mem_of_mem_eraseIdx hr'
    rw [hstretch.running] at hmem
    exact hs r' hmem
  | hungUp => exact ⟨fun r hr => hs r (List.mem_of_mem_eraseIdx hr), by simp⟩
  | restarted =>
    refine ⟨?_, by simp [restart, AddedUp]⟩
    intro r hr
    cases hr

/-- **Every answer adds up.** In any run, whatever requests, refused statements,
hang-ups and restarts it interleaves, every addition that is answered counts each
input once, as added, skipped or invalid, with no underflow; one by URL counts
each domain parsed from the text fetched, and none as invalid; and every bulk
removal counts each input once, as removed, skipped or failed. -/
theorem answers_add_up {t : Management} {es : List ApiInput} (hidle : s.running = [])
    (hrun : (machine d).run s es = some (t, h)) {token : Option Str} {route : Route}
    {response : Response} (hanswer : .answered token route response ∈ h) :
    route.AddsUp d.lc response.body := by
  have hbegin : s.AllCounted d.lc := by
    intro r hr
    rw [hidle] at hr
    cases hr
  exact (Machine.run_outputs (J := AllCounted d.lc) (P := AddedUp d.lc)
    (fun _ _ _ _ hs hstep => hs.step hstep) hbegin hrun).2 _ hanswer

/-- The removal of two domains, of which one is not listed and the other meets a
locked database. -/
theorem Sample.removal_adds_up :
    ∃ t h response, (machine deployment).run booted
        [.request none (.login ['b'] ['p']) (around 1),
          .request (some (utf8 (bearerPrefix ++ randomToken (around 1).drawn)))
            (.removeBulk [['a'], ['b']]) (around 2),
          .resume 0 (around 3), .resume 0 (around 4), .resume 0 (around 5), .resume 0 (around 6),
          .resume 0 { around 7 with fault := some "database is locked" }, .resume 0 (around 8)] =
        some (t, h) ∧
      .answered (some (randomToken (around 1).drawn)) (.removeBulk [['a'], ['b']]) response ∈ h ∧
      Route.AddsUp deployment.lc (.removeBulk [['a'], ['b']]) response.body := by
  obtain ⟨t, h, response, hrun, hlast⟩ : ∃ t h response, (machine deployment).run booted
      [.request none (.login ['b'] ['p']) (around 1),
        .request (some (utf8 (bearerPrefix ++ randomToken (around 1).drawn)))
          (.removeBulk [['a'], ['b']]) (around 2),
        .resume 0 (around 3), .resume 0 (around 4), .resume 0 (around 5), .resume 0 (around 6),
        .resume 0 { around 7 with fault := some "database is locked" }, .resume 0 (around 8)] =
      some (t, h) ∧ h.getLast? =
        some (.answered (some (randomToken (around 1).drawn)) (.removeBulk [['a'], ['b']])
          response) := ⟨_, _, _, rfl, rfl⟩
  have hanswer := List.mem_of_getLast? hlast
  exact ⟨t, h, response, hrun, hanswer, answers_add_up rfl hrun hanswer⟩

end Management

end Denis
