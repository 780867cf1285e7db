import Denis.Api.Counts

/-!
# What an answered edit leaves (`repo/cache.rs`, `api/mod.rs`)

A handler that edits a list suspends between the list in memory and the
statements on the table, so others write both in between. Still, once an addition
is answered, its domains are in the list and in the table for as long as nobody
asks to remove them and restarts read the whole table (`addition_durable`), and
once a removal is answered, its domains are in neither for as long as nobody asks
to add them (`removal_durable`); restarts, refused statements and clients that
hang up included.

Both are one argument, `Plan`: what a handler has secured where it stands, which
no other handler takes back.
-/

namespace Denis

open Text

/-! ## Handlers among handlers -/

/-- What the covered handlers secure (`good`, `done`), while every handler is
`quiet`: each keeps what the others have secured. -/
structure Plan (d : Deployment) where
  permits : ApiInput → Prop
  quiet : Job → Prop
  covers : Route → Prop
  good : ListStore → Job → Prop
  answers : Response → Prop
  done : ListStore → Prop
  begins : ∀ authorization route env, permits (.request authorization route env) →
    quiet (.begin route)
  secures : ∀ store route, covers route → good store (.begin route)
  stays : ∀ (s : Management) env job job', quiet job →
    (s.runJob d env job).2.2 = .more job' → quiet job'
  keeps : ∀ (s : Management) env job, quiet job →
    (∀ job', good s.store job' → good (s.runJob d env job).1.store job') ∧
      (done s.store → done (s.runJob d env job).1.store)
  goesOn : ∀ (s : Management) env job job', good s.store job →
    (s.runJob d env job).2.2 = .more job' → good (s.runJob d env job).1.store job'
  finishes : ∀ (s : Management) env job response, good s.store job →
    (s.runJob d env job).2.2 = .done response → answers response →
      done (s.runJob d env job).1.store
  restarts : ∀ (store : ListStore) salt clock rows, permits (.restart salt clock rows) →
    done store → done { store with lists := Management.readLists rows store }

namespace Plan

variable {d : Deployment} (plan : Plan d) {s s' : Management} {e : ApiInput}
  {h out : List ApiEvent}

/-- What the plan has secured after some events. -/
structure Secured (h : List ApiEvent) (s : Management) : Prop where
  quiet : ∀ r ∈ s.running, plan.quiet r.job
  good : ∀ r ∈ s.running, plan.covers r.route → plan.good s.store r.job
  answered : ∀ token route response, .answered (some token) route response ∈ h →
    plan.covers route → plan.answers response → plan.done s.store

variable {plan}

/-- Events that answer no handler. -/
theorem Secured.answered_append (hs : plan.Secured h s)
    (hdone : plan.done s.store → plan.done s'.store)
    (hnone : ∀ token route response, .answered (some token) route response ∉ out) :
    ∀ token route response, .answered (some token) route response ∈ h ++ out →
      plan.covers route → plan.answers response → plan.done s'.store := by
  intro token route response hmem hcovers hanswers
  rcases List.mem_append.mp hmem with hmem | hmem
  · exact hdone (hs.answered token route response hmem hcovers hanswers)
  · exact absurd hmem (hnone token route response)

/-- A public handler writes neither list nor table. -/
theorem beginRoute_store {route : Route} (hpublic : route.isPublic = true) (env : Surroundings) :
    (s.beginRoute d env route).1.store = s.store :=
  congrArg Managed.store (Management.beginRoute_managed hpublic env)

/-- **One step keeps what is secured.** -/
theorem Secured.step (hs : plan.Secured h s) (hpermits : plan.permits e)
    (hstep : Management.step d s e = some (s', out)) : plan.Secured (h ++ out) s' := by
  cases Management.step_transition hstep with
  | @publicly _ route env _ events response hpublic hbegin =>
    have hstretch := @Management.beginRoute_stretch d s env route
    have hstore := @beginRoute_store d s route hpublic env
    rw [hbegin] at hstretch hstore
    refine ⟨?_, ?_, hs.answered_append (fun hdone => hstore ▸ hdone) (by simp)⟩
    · rw [hstretch.running]
      exact hs.quiet
    · rw [hstretch.running, hstore]
      exact hs.good
  | noToken | badToken =>
    exact ⟨hs.quiet, hs.good, hs.answered_append id (by simp)⟩
  | admitted =>
    refine ⟨?_, ?_, hs.answered_append id (by simp)⟩
    · intro r hr
      rcases List.mem_append.mp hr with hr | hr
      · exact hs.quiet r hr
      · obtain rfl := List.mem_singleton.mp hr
        exact plan.begins _ _ _ hpermits
    · intro r hr hcovers
      rcases List.mem_append.mp hr with hr | hr
      · exact hs.good r hr hcovers
      · obtain rfl := List.mem_singleton.mp hr
        exact plan.secures _ _ hcovers
  | @wentOn i env r m events job hr hjob =>
    have hmem := List.mem_of_getElem? hr
    have hstretch := @Management.runJob_stretch d s env r.job
    obtain ⟨hgood, hdone⟩ := plan.keeps s env r.job (hs.quiet r hmem)
    have hquiet := plan.stays s env r.job job (hs.quiet r hmem)
    -- the handler itself secures more, the others lose nothing
    have hown := plan.goesOn s env r.job job
    rw [hjob] at hstretch hgood hdone hquiet hown
    refine ⟨?_, ?_, hs.answered_append hdone (by simp)⟩
    · intro r' hr'
      rcases List.mem_or_eq_of_mem_set hr' with hr' | rfl
      · exact hs.quiet r' (hstretch.running ▸ hr')
      · exact hquiet rfl
    · intro r' hr' hcovers
      rcases List.mem_or_eq_of_mem_set hr' with hr' | rfl
      · exact hgood r'.job (hs.good r' (hstretch.running ▸ hr') hcovers)
      · exact hown (hs.good r hmem hcovers) rfl
  | @finished i env r m events response hr hjob =>
    have hmem := List.mem_of_getElem? hr
    have hstretch := @Management.runJob_stretch d s env r.job
    obtain ⟨hgood, hdone⟩ := plan.keeps s env r.job (hs.quiet r hmem)
    have hown := plan.finishes s env r.job response
    rw [hjob] at hstretch hgood hdone hown
    refine ⟨?_, ?_, ?_⟩
    · exact fun r' hr' => hs.quiet r' (hstretch.running ▸ List.mem_of_mem_eraseIdx hr')
    · exact fun r' hr' hcovers => hgood r'.job
        (hs.good r' (hstretch.running ▸ List.mem_of_mem_eraseIdx hr') hcovers)
    · intro token route response' hanswer hcovers hanswers
      rcases List.mem_append.mp hanswer with hanswer | hanswer
      · exact hdone (hs.answered token route response' hanswer hcovers hanswers)
      · -- the answer given now
        have hlast : ApiEvent.answered (some token) route response' =
            .answered (some r.token) r.route response := by simpa using hanswer
        obtain ⟨-, rfl, rfl⟩ := ApiEvent.answered.inj hlast
        exact hown (hs.good r hmem hcovers) rfl hanswers
  | hungUp =>
    refine ⟨?_, ?_, hs.answered_append id (by simp)⟩
    · exact fun r hr => hs.quiet r (List.mem_of_mem_eraseIdx hr)
    · exact fun r hr => hs.good r (List.mem_of_mem_eraseIdx hr)
  | restarted =>
    refine ⟨?_, ?_, hs.answered_append (plan.restarts s.store _ _ _ hpermits)
      (by simp [Management.restart])⟩
    · intro r hr
      cases hr
    · intro r hr
      cases hr

/-- **What a covered handler was answered stays secured** to the end of every run
of inputs the plan permits. -/
theorem run {t : Management} {es : List ApiInput} (hidle : s.running = [])
    (hrun : (Management.machine d).run s es = some (t, h)) (hpermits : ∀ e ∈ es, plan.permits e)
    {token : Str} {route : Route} {response : Response}
    (hanswer : .answered (some token) route response ∈ h) (hcovers : plan.covers route)
    (hanswers : plan.answers response) : plan.done t.store := by
  have hbegin : plan.Secured [] s := by
    refine ⟨?_, ?_, by simp⟩
    · rw [hidle]
      exact fun r hr => (List.not_mem_nil hr).elim
    · rw [hidle]
      exact fun r hr => (List.not_mem_nil hr).elim
  exact (Machine.run_history (C := fun _ => plan.permits) (J := plan.Secured)
    (fun _ _ _ _ _ hs hC hstep => hs.step hC hstep) hbegin
    (Machine.along_of_forall hpermits s) hrun).answered token route response hanswer hcovers
      hanswers

end Plan

/-! ## What handlers write -/

section Writing

variable (lc : Lowercase) (kind : ListKind) (x : Str)

/-- A request with a domain to add to a list, if only by the text it fetches. -/
def Route.Adds : Route → Prop
  | .blockAddOne domain => kind = .blocked ∧ x ∈ Repo.normalizeDomains lc [domain]
  | .blockAddBulk domains => kind = .blocked ∧ x ∈ Repo.normalizeDomains lc domains
  | .blockAddUrl _ _ (.ok body) => kind = .blocked ∧
      x ∈ Repo.normalizeDomains lc (Repo.parseDomainList lc.toLowercase body)
  | .allowAddOne domain => kind = .allowed ∧ x ∈ Repo.normalizeDomains lc [domain]
  | .allowAddBulk domains => kind = .allowed ∧ x ∈ Repo.normalizeDomains lc domains
  | _ => False

/-- A request with a domain to remove from the block list. -/
def Route.Removes : Route → Prop
  | .removeOne domain => kind = .blocked ∧ lc.toLowercase domain = x
  | .removeBulk domains => kind = .blocked ∧ ∃ domain ∈ domains, lc.toLowercase domain = x
  | _ => False

/-- What a handler may still add, where it stands. -/
def Job.Adds : Job → Prop
  | .begin route => route.Adds lc kind x
  | .insertBlocked _ chunks _ _ _ => kind = .blocked ∧ x ∈ chunks.flatten
  | .insertAllowed chunks _ _ _ => kind = .allowed ∧ x ∈ chunks.flatten
  | _ => False

/-- What it may still remove. -/
def Job.Removes : Job → Prop
  | .begin route => route.Removes lc kind x
  | .deleteOne domain _ => kind = .blocked ∧ lc.toLowercase domain = x
  | .bulk rest _ => kind = .blocked ∧ ∃ domain ∈ rest, lc.toLowercase domain = x
  | .bulkDelete domain _ rest _ =>
    kind = .blocked ∧ ∃ domain' ∈ domain :: rest, lc.toLowercase domain' = x
  | _ => False

/-- A change of the lists and tables that adds a domain only if it may, and
removes it only if it may. -/
structure Writes (adds removes : Prop) (before after : ListStore) : Prop where
  listed : x ∈ kind.list after.lists → x ∈ kind.list before.lists ∨ adds
  kept : x ∈ kind.list before.lists → x ∈ kind.list after.lists ∨ removes
  inserted : x ∈ kind.domains after → x ∈ kind.domains before ∨ adds
  stored : x ∈ kind.domains before → x ∈ kind.domains after ∨ removes

end Writing

section Writing

variable {lc : Lowercase} {kind : ListKind} {x : Str} {adds removes : Prop}
  {before after : ListStore}

theorem Writes.same : Writes kind x adds removes before before := ⟨.inl, .inl, .inl, .inl⟩

/-- A change of the lists in memory. -/
theorem Writes.memory (lists : Lists)
    (hlisted : x ∈ kind.list lists → x ∈ kind.list before.lists ∨ adds)
    (hkept : x ∈ kind.list before.lists → x ∈ kind.list lists ∨ removes) :
    Writes kind x adds removes before { before with lists } := by
  refine ⟨hlisted, hkept, ?_, ?_⟩
  · cases kind <;> exact .inl
  · cases kind <;> exact .inl

/-- A change of the table of the blocked. -/
theorem Writes.blocked (t : Table BlockedRow.domain)
    (hinserted : kind = .blocked → x ∈ t.keys → x ∈ before.blocked.keys ∨ adds)
    (hstored : kind = .blocked → x ∈ before.blocked.keys → x ∈ t.keys ∨ removes) :
    Writes kind x adds removes before { before with blocked := t } := by
  refine ⟨.inl, .inl, ?_, ?_⟩
  · cases kind with
    | blocked => exact hinserted rfl
    | allowed => exact .inl
  · cases kind with
    | blocked => exact hstored rfl
    | allowed => exact .inl

/-- A change of the table of the allowed. -/
theorem Writes.allowed (t : Table (id : Str → Str))
    (hinserted : kind = .allowed → x ∈ t.keys → x ∈ before.allowed.keys ∨ adds)
    (hstored : kind = .allowed → x ∈ before.allowed.keys → x ∈ t.keys ∨ removes) :
    Writes kind x adds removes before { before with allowed := t } := by
  refine ⟨.inl, .inl, ?_, ?_⟩
  · cases kind with
    | blocked => exact .inl
    | allowed => exact hinserted rfl
  · cases kind with
    | blocked => exact .inl
    | allowed => exact hstored rfl

end Writing

namespace Management

variable {d : Deployment} {s s' : Management} {kind : ListKind} {x : Str} {adds removes : Prop}

/-- What the first stretch of an addition lists. -/
theorem beginAdd_list (kind' : ListKind) (list : Str) (domains : List Str) (total : Nat) :
    x ∈ kind.list (s.beginAdd d kind' list domains total).1.store.lists ↔
      x ∈ kind.list s.store.lists ∨ kind = kind' ∧ x ∈ Repo.normalizeDomains d.lc domains := by
  unfold beginAdd
  dsimp only
  split
  · next hnone => simp [hnone]
  · cases kind' with
    | blocked =>
      cases kind with
      | blocked => simp [ListKind.list, cowInsert_eq]
      | allowed => simp [ListKind.list]
    | allowed =>
      cases kind with
      | blocked => simp [ListKind.list]
      | allowed => simp [ListKind.list, cowInsert_eq]

/-- It leaves the tables alone. -/
theorem beginAdd_domains (kind' : ListKind) (list : Str) (domains : List Str) (total : Nat) :
    kind.domains (s.beginAdd d kind' list domains total).1.store = kind.domains s.store := by
  unfold beginAdd
  dsimp only
  split
  · rfl
  · cases kind' <;> cases kind <;> rfl

theorem beginAdd_writes (kind' : ListKind) (list : Str) (domains : List Str) (total : Nat)
    (hadds : kind = kind' → x ∈ Repo.normalizeDomains d.lc domains → adds) :
    Writes kind x adds removes s.store (s.beginAdd d kind' list domains total).1.store := by
  have hdomains := @beginAdd_domains d s kind kind' list domains total
  refine ⟨?_, ?_, ?_, ?_⟩
  · rw [beginAdd_list]
    exact Or.imp_right fun ⟨hkind, hx⟩ => hadds hkind hx
  · exact fun hx => .inl (beginAdd_list .. |>.mpr (.inl hx))
  · rw [hdomains]
    exact .inl
  · rw [hdomains]
    exact .inl

/-- What the first stretch of a removal takes from the list. -/
theorem beginRemove_writes (domain : Str)
    (hremoves : kind = .blocked → d.lc.toLowercase domain = x → removes) :
    Writes kind x adds removes s.store (s.beginRemove d domain).1.store := by
  refine .memory _ ?_ ?_
  · cases kind with
    | blocked => exact fun hx => .inl (Finset.mem_of_mem_erase hx)
    | allowed => exact .inl
  · cases kind with
    | blocked =>
      intro hx
      by_cases heq : d.lc.toLowercase domain = x
      · exact .inr (hremoves rfl heq)
      · exact .inl (Finset.mem_erase.mpr ⟨Ne.symm heq, hx⟩)
    | allowed => exact .inl

/-- And what its second takes from the table. -/
theorem deleteRow_writes (domain : Str)
    (hremoves : kind = .blocked → d.lc.toLowercase domain = x → removes) :
    Writes kind x adds removes s.store (s.deleteRow d domain).store := by
  refine .blocked _ ?_ ?_
  · exact fun _ hx => .inl ((Table.mem_keys_deleteWhere ..).mp hx).1
  · intro hkind hx
    by_cases heq : d.lc.toLowercase domain = x
    · exact .inr (hremoves hkind heq)
    · exact .inl ((Table.mem_keys_deleteWhere ..).mpr ⟨hx, Ne.symm heq⟩)

theorem beginRoute_writes (env : Surroundings) (route : Route) :
    Writes kind x (route.Adds d.lc kind x) (route.Removes d.lc kind x) s.store
      (s.beginRoute d env route).1.store := by
  have haccount : ∀ call answer, Writes kind x (route.Adds d.lc kind x)
      (route.Removes d.lc kind x) s.store (s.account d env call answer).1.store := by
    intro call answer
    unfold account
    split <;> exact .same
  cases route with
  | blockAddOne domain =>
    exact beginAdd_writes .blocked _ [domain] 1 fun hkind hx => ⟨hkind, hx⟩
  | blockAddBulk domains =>
    exact beginAdd_writes .blocked _ domains _ fun hkind hx => ⟨hkind, hx⟩
  | allowAddOne domain =>
    exact beginAdd_writes .allowed [] [domain] 1 fun hkind hx => ⟨hkind, hx⟩
  | allowAddBulk domains =>
    exact beginAdd_writes .allowed [] domains _ fun hkind hx => ⟨hkind, hx⟩
  | blockAddUrl url list fetched =>
    cases fetched with
    | error message => exact .same
    | ok body =>
      exact beginAdd_writes .blocked _ (Repo.parseDomainList _ body) _
        fun hkind hx => ⟨hkind, hx⟩
  | removeOne domain => exact beginRemove_writes domain fun hkind heq => ⟨hkind, heq⟩
  | createUser username password => exact haccount ..
  | setPassword username password => exact haccount ..
  | deleteUser username => exact haccount ..
  | createToken name ttlSecs => exact haccount ..
  | revokeToken id => exact haccount ..
  | login username password =>
    rw [beginRoute]
    cases env.fault <;> exact .same
  | _ => exact .same

/-- **What a stretch writes** it may write: what it adds was to be added, and what
it removes was to be removed. -/
theorem runJob_writes (env : Surroundings) (job : Job) :
    Writes kind x (job.Adds d.lc kind x) (job.Removes d.lc kind x) s.store
      (s.runJob d env job).1.store := by
  cases job with
  | begin route => exact beginRoute_writes env route
  | count kind' items limit offset =>
    rw [runJob]
    cases env.fault <;> exact .same
  | insertBlocked list chunks added considered total =>
    cases chunks with
    | nil => exact .same
    | cons chunk rest =>
      rw [runJob]
      cases env.fault with
      | some message => exact .same
      | none =>
        refine .blocked _ ?_ ?_
        · intro hkind hx
          rw [Table.mem_keys_insertIgnore, ListStore.map_key_row fun _ => rfl] at hx
          exact hx.imp_right fun hx => ⟨hkind, List.mem_append_left _ hx⟩
        · exact fun _ hx => .inl ((Table.mem_keys_insertIgnore ..).mpr (.inl hx))
  | insertAllowed chunks added considered total =>
    cases chunks with
    | nil => exact .same
    | cons chunk rest =>
      rw [runJob]
      cases env.fault with
      | some message => exact .same
      | none =>
        refine .allowed _ ?_ ?_
        · intro hkind hx
          rw [Table.mem_keys_insertIgnore, List.map_id] at hx
          exact hx.imp_right fun hx => ⟨hkind, List.mem_append_left _ hx⟩
        · exact fun _ hx => .inl ((Table.mem_keys_insertIgnore ..).mpr (.inl hx))
  | deleteOne domain removed =>
    rw [runJob]
    cases env.fault with
    | some message => exact .same
    | none => exact deleteRow_writes domain fun hkind heq => ⟨hkind, heq⟩
  | bulk rest result =>
    cases rest with
    | nil => exact .same
    | cons domain rest =>
      exact beginRemove_writes domain fun hkind heq => ⟨hkind, domain, List.mem_cons_self, heq⟩
  | bulkDelete domain removed rest result =>
    rw [runJob]
    cases env.fault with
    | some message => exact .same
    | none =>
      exact deleteRow_writes domain fun hkind heq => ⟨hkind, domain, List.mem_cons_self, heq⟩
  | persist merged =>
    rw [runJob]
    cases env.fault <;> exact .same
  | store merged => exact .same

/-! ## What they still may write -/

/-- The handler goes on and may still remove the domain. -/
def StillRemoves (lc : Lowercase) (kind : ListKind) (x : Str) : Next → Prop
  | .more job => job.Removes lc kind x
  | .done _ => False

/-- The handler goes on and may still add the domain. -/
def StillAdds (lc : Lowercase) (kind : ListKind) (x : Str) : Next → Prop
  | .more job => job.Adds lc kind x
  | .done _ => False

theorem beginAdd_still (kind' : ListKind) (list : Str) (domains : List Str) (total : Nat) :
    ¬ StillRemoves d.lc kind x (s.beginAdd d kind' list domains total).2 ∧
      (StillAdds d.lc kind x (s.beginAdd d kind' list domains total).2 →
        kind = kind' ∧ x ∈ Repo.normalizeDomains d.lc domains) := by
  unfold beginAdd
  dsimp only
  split
  · exact ⟨id, False.elim⟩
  · cases kind' with
    | blocked =>
      refine ⟨id, fun ⟨hkind, hx⟩ => ⟨hkind, ?_⟩⟩
      rwa [insertChunks_flatten] at hx
    | allowed =>
      refine ⟨id, fun ⟨hkind, hx⟩ => ⟨hkind, ?_⟩⟩
      rwa [insertChunks_flatten] at hx

theorem beginList_still (kind' : ListKind) (p : Pagination) (env : Surroundings) :
    ¬ StillRemoves d.lc kind x (s.beginList d kind' p env) ∧
      ¬ StillAdds d.lc kind x (s.beginList d kind' p env) := by
  unfold beginList
  split
  · exact ⟨id, id⟩
  · split <;> exact ⟨id, id⟩

theorem account_still (env : Surroundings) (call : AuthCall) (answer : AuthEvent → Response) :
    ¬ StillRemoves d.lc kind x (s.account d env call answer).2.2 ∧
      ¬ StillAdds d.lc kind x (s.account d env call answer).2.2 := by
  unfold account
  split <;> exact ⟨id, id⟩

theorem readRows_still (env : Surroundings) (body : Body) :
    ¬ StillRemoves d.lc kind x (readRows env body) ∧
      ¬ StillAdds d.lc kind x (readRows env body) := by
  unfold readRows
  split <;> exact ⟨id, id⟩

theorem beginRoute_still (env : Surroundings) (route : Route) :
    (StillRemoves d.lc kind x (s.beginRoute d env route).2.2 → route.Removes d.lc kind x) ∧
      (StillAdds d.lc kind x (s.beginRoute d env route).2.2 → route.Adds d.lc kind x) := by
  have hneither : ∀ {next : Next}, ¬ StillRemoves d.lc kind x next ∧ ¬ StillAdds d.lc kind x next →
      (StillRemoves d.lc kind x next → route.Removes d.lc kind x) ∧
        (StillAdds d.lc kind x next → route.Adds d.lc kind x) :=
    fun h => ⟨fun hr => absurd hr h.1, fun ha => absurd ha h.2⟩
  cases route with
  | blockAddOne domain =>
    obtain ⟨hremoves, hadds⟩ :=
      @beginAdd_still d s kind x .blocked "custom".toList [domain] 1
    exact ⟨fun h => absurd h hremoves, hadds⟩
  | blockAddBulk domains =>
    obtain ⟨hremoves, hadds⟩ :=
      @beginAdd_still d s kind x .blocked "custom".toList domains domains.length
    exact ⟨fun h => absurd h hremoves, hadds⟩
  | allowAddOne domain =>
    obtain ⟨hremoves, hadds⟩ := @beginAdd_still d s kind x .allowed [] [domain] 1
    exact ⟨fun h => absurd h hremoves, hadds⟩
  | allowAddBulk domains =>
    obtain ⟨hremoves, hadds⟩ := @beginAdd_still d s kind x .allowed [] domains domains.length
    exact ⟨fun h => absurd h hremoves, hadds⟩
  | blockAddUrl url list fetched =>
    cases fetched with
    | error message => exact ⟨False.elim, False.elim⟩
    | ok body =>
      obtain ⟨hremoves, hadds⟩ := @beginAdd_still d s kind x .blocked (list.getD url)
        (Repo.parseDomainList d.lc.toLowercase body)
        (Repo.parseDomainList d.lc.toLowercase body).length
      exact ⟨fun h => absurd h hremoves, hadds⟩
  | listBlocked p => exact hneither (beginList_still .blocked p env)
  | listAllowed p => exact hneither (beginList_still .allowed p env)
  | removeOne domain => exact ⟨id, False.elim⟩
  | removeBulk domains => exact ⟨id, False.elim⟩
  | listUsers | listTokens => exact hneither (readRows_still env _)
  | createUser username password => exact hneither (account_still ..)
  | setPassword username password => exact hneither (account_still ..)
  | deleteUser username => exact hneither (account_still ..)
  | createToken name ttlSecs => exact hneither (account_still ..)
  | revokeToken id => exact hneither (account_still ..)
  | login username password =>
    rw [beginRoute]
    cases env.fault <;> exact ⟨False.elim, False.elim⟩
  | _ => exact ⟨False.elim, False.elim⟩

/-- **What a handler still may write**, it might before. -/
theorem runJob_still (env : Surroundings) (job : Job) :
    (StillRemoves d.lc kind x (s.runJob d env job).2.2 → job.Removes d.lc kind x) ∧
      (StillAdds d.lc kind x (s.runJob d env job).2.2 → job.Adds d.lc kind x) := by
  cases job with
  | begin route => exact beginRoute_still env route
  | count kind' items limit offset =>
    rw [runJob]
    cases env.fault <;> exact ⟨False.elim, False.elim⟩
  | insertBlocked list chunks added considered total =>
    cases chunks with
    | nil => exact ⟨False.elim, False.elim⟩
    | cons chunk rest =>
      rw [runJob]
      cases env.fault with
      | some message => exact ⟨False.elim, False.elim⟩
      | none =>
        exact ⟨False.elim, fun h => ⟨h.1, List.mem_append_right _ h.2⟩⟩
  | insertAllowed chunks added considered total =>
    cases chunks with
    | nil => exact ⟨False.elim, False.elim⟩
    | cons chunk rest =>
      rw [runJob]
      cases env.fault with
      | some message => exact ⟨False.elim, False.elim⟩
      | none =>
        exact ⟨False.elim, fun h => ⟨h.1, List.mem_append_right _ h.2⟩⟩
  | deleteOne domain removed =>
    rw [runJob]
    cases env.fault <;> exact ⟨False.elim, False.elim⟩
  | bulk rest result =>
    cases rest with
    | nil => exact ⟨False.elim, False.elim⟩
    | cons domain rest => exact ⟨id, False.elim⟩
  | bulkDelete domain removed rest result =>
    have hrest : ∀ result, Job.Removes d.lc kind x (.bulk rest result) →
        Job.Removes d.lc kind x (.bulkDelete domain removed rest result) := by
      rintro result ⟨hkind, y, hy, heq⟩
      exact ⟨hkind, y, List.mem_cons_of_mem _ hy, heq⟩
    rw [runJob]
    cases env.fault with
    | some message => exact ⟨hrest result, False.elim⟩
    | none => exact ⟨hrest result, False.elim⟩
  | persist merged =>
    rw [runJob]
    cases env.fault <;> exact ⟨False.elim, False.elim⟩
  | store merged => exact ⟨False.elim, False.elim⟩

end Management

/-! ## Additions -/

section Adding

variable (lc : Lowercase) (kind : ListKind) (x : Str)

/-- The domain is in the list and in its table. -/
def Present (store : ListStore) : Prop := x ∈ kind.list store.lists ∧ x ∈ kind.domains store

/-- What a handler that adds the domain has secured: it is in the list, and in the
table or still to be inserted. -/
def Adding (store : ListStore) : Job → Prop
  | .begin route => route.Adds lc kind x
  | .insertBlocked _ chunks _ _ _ => kind = .blocked ∧ x ∈ kind.list store.lists ∧
      (x ∈ chunks.flatten ∨ x ∈ kind.domains store)
  | .insertAllowed chunks _ _ _ => kind = .allowed ∧ x ∈ kind.list store.lists ∧
      (x ∈ chunks.flatten ∨ x ∈ kind.domains store)
  | _ => False

/-- An answer with the counts of an addition. -/
def Response.IsAdded (response : Response) : Prop := ∃ result, response.body = .added result

/-- And after its next stretch. -/
def AddingNext (store : ListStore) : Next → Prop
  | .more job => Adding lc kind x store job
  | .done response => response.IsAdded → Present kind x store

end Adding

namespace Management

variable {d : Deployment} {s s' : Management} {kind : ListKind} {x : Str}

theorem beginAdd_adding (list : Str) {domains : List Str} (total : Nat)
    (hx : x ∈ Repo.normalizeDomains d.lc domains) :
    AddingNext d.lc kind x (s.beginAdd d kind list domains total).1.store
      (s.beginAdd d kind list domains total).2 := by
  have hlist : x ∈ kind.list (s.beginAdd d kind list domains total).1.store.lists :=
    (beginAdd_list ..).mpr (.inr ⟨rfl, hx⟩)
  revert hlist
  unfold beginAdd
  dsimp only
  intro hlist
  split
  · next hnone =>
    rw [hnone] at hx
    cases hx
  · next hsome =>
    rw [if_neg hsome] at hlist
    have hchunks : x ∈ (insertChunks (Repo.normalizeDomains d.lc domains)).flatten := by
      rwa [insertChunks_flatten]
    cases kind with
    | blocked => exact ⟨rfl, hlist, .inl hchunks⟩
    | allowed => exact ⟨rfl, hlist, .inl hchunks⟩

/-- **A handler that adds the domain goes on to have added it.** -/
theorem runJob_adding {env : Surroundings} {job : Job} (hjob : Adding d.lc kind x s.store job) :
    AddingNext d.lc kind x (s.runJob d env job).1.store (s.runJob d env job).2.2 := by
  cases job with
  | begin route =>
    cases route with
    | blockAddOne domain =>
      obtain ⟨rfl, hx⟩ := hjob
      exact beginAdd_adding "custom".toList 1 hx
    | blockAddBulk domains =>
      obtain ⟨rfl, hx⟩ := hjob
      exact beginAdd_adding "custom".toList domains.length hx
    | blockAddUrl url list fetched =>
      cases fetched with
      | error message => exact hjob.elim
      | ok body =>
        obtain ⟨rfl, hx⟩ := hjob
        exact beginAdd_adding (list.getD url) _ hx
    | allowAddOne domain =>
      obtain ⟨rfl, hx⟩ := hjob
      exact beginAdd_adding [] 1 hx
    | allowAddBulk domains =>
      obtain ⟨rfl, hx⟩ := hjob
      exact beginAdd_adding [] domains.length hx
    | _ => exact hjob.elim
  | insertBlocked list chunks added considered total =>
    obtain ⟨rfl, hlist, hrest⟩ := hjob
    cases chunks with
    | nil => exact fun _ => ⟨hlist, hrest.resolve_left List.not_mem_nil⟩
    | cons chunk rest =>
      rw [runJob]
      cases env.fault with
      | some message =>
        rintro ⟨result, hresult⟩
        cases hresult
      | none =>
        refine ⟨rfl, hlist, ?_⟩
        -- the chunk is in the table now, the rest still to come
        show _ ∨ x ∈ (s.store.blocked.insertIgnore (chunk.map (BlockedRow.mk list))).1.keys
        rw [Table.mem_keys_insertIgnore, ListStore.map_key_row fun _ => rfl]
        rcases hrest with hrest | hstored
        · rcases List.mem_append.mp hrest with hchunk | hrest
          · exact .inr (.inr hchunk)
          · exact .inl hrest
        · exact .inr (.inl hstored)
  | insertAllowed chunks added considered total =>
    obtain ⟨rfl, hlist, hrest⟩ := hjob
    cases chunks with
    | nil => exact fun _ => ⟨hlist, hrest.resolve_left List.not_mem_nil⟩
    | cons chunk rest =>
      rw [runJob]
      cases env.fault with
      | some message =>
        rintro ⟨result, hresult⟩
        cases hresult
      | none =>
        refine ⟨rfl, hlist, ?_⟩
        show _ ∨ x ∈ (s.store.allowed.insertIgnore chunk).1.keys
        rw [Table.mem_keys_insertIgnore, List.map_id]
        rcases hrest with hrest | hstored
        · rcases List.mem_append.mp hrest with hchunk | hrest
          · exact .inr (.inr hchunk)
          · exact .inl hrest
        · exact .inr (.inl hstored)
  | _ => exact hjob.elim

/-- What others keep. -/
theorem adding_of_kept {lc : Lowercase} {before after : ListStore} {job : Job}
    (hlist : x ∈ kind.list before.lists → x ∈ kind.list after.lists)
    (hdomains : x ∈ kind.domains before → x ∈ kind.domains after)
    (hjob : Adding lc kind x before job) : Adding lc kind x after job := by
  cases job with
  | begin route => exact hjob
  | insertBlocked list chunks added considered total =>
    exact ⟨hjob.1, hlist hjob.2.1, hjob.2.2.imp_right hdomains⟩
  | insertAllowed chunks added considered total =>
    exact ⟨hjob.1, hlist hjob.2.1, hjob.2.2.imp_right hdomains⟩
  | _ => exact hjob.elim

/-- Additions, while nobody asks to remove the domain and restarts read its list to
the end. -/
def additionPlan (d : Deployment) (kind : ListKind) (x : Str) : Plan d where
  permits e := e.Reads kind ∧ ∀ authorization route env, e = .request authorization route env →
    ¬ route.Removes d.lc kind x
  quiet job := ¬ job.Removes d.lc kind x
  covers route := route.Adds d.lc kind x
  good store job := Adding d.lc kind x store job
  answers := Response.IsAdded
  done := Present kind x
  begins authorization route env hpermits := hpermits.2 authorization route env rfl
  secures _ _ hcovers := hcovers
  stays s env job job' hquiet hnext := by
    have hstill := (@runJob_still d s kind x env job).1
    rw [hnext] at hstill
    exact fun hremoves => hquiet (hstill hremoves)
  keeps s env job hquiet := by
    have hwrites := @runJob_writes d s kind x env job
    have hlist := fun hx => (hwrites.kept hx).resolve_right hquiet
    have hdomains := fun hx => (hwrites.stored hx).resolve_right hquiet
    exact ⟨fun _ hjob => adding_of_kept hlist hdomains hjob,
      fun hdone => ⟨hlist hdone.1, hdomains hdone.2⟩⟩
  goesOn s env job job' hjob hnext := by
    have hadding := @runJob_adding d s kind x env job hjob
    rw [hnext] at hadding
    exact hadding
  finishes s env job response hjob hnext hanswers := by
    have hadding := @runJob_adding d s kind x env job hjob
    rw [hnext] at hadding
    exact hadding hanswers
  restarts store salt clock rows hpermits hdone := by
    refine ⟨?_, ?_⟩
    · show x ∈ kind.list (readLists rows store)
      rw [list_readLists store hpermits.1]
      exact List.mem_toFinset.mpr hdone.2
    · cases kind <;> exact hdone.2

/-- **What an addition answered has added stays added.** In any run in which no
request asks to remove the domain and every restart reads the table of the list
without an error, whatever else it interleaves (other edits, refused statements,
hang-ups, restarts), once an addition of the domain (by itself, in bulk or with the
list a URL gave) has been answered without an error, the domain is in the list and
in the table. -/
theorem addition_durable {t : Management} {es : List ApiInput} {h : List ApiEvent}
    (hidle : s.running = []) (hrun : (machine d).run s es = some (t, h))
    (hkept : ∀ authorization route env, .request authorization route env ∈ es →
      ¬ Route.Removes d.lc kind x route)
    (hreads : ∀ e ∈ es, e.Reads kind)
    {token : Str} {route : Route} {status : StatusCode} {result : Option AddResult}
    (hanswer : .answered (some token) route ⟨status, .added result⟩ ∈ h)
    (hroute : route.Adds d.lc kind x) :
    x ∈ kind.list t.store.lists ∧ x ∈ kind.domains t.store := by
  refine (additionPlan d kind x).run hidle hrun ?_ hanswer hroute ⟨result, rfl⟩
  intro e he
  refine ⟨hreads e he, ?_⟩
  rintro authorization route env rfl
  exact hkept authorization route env he

/-- A request with the token of the login at the first instant. -/
def Sample.asked (route : Route) (instant : Nat) : ApiInput :=
  .request (some (utf8 (bearerPrefix ++ randomToken (around 1).drawn))) route (around instant)

/-- A domain added while another is removed, and a restart. -/
def Sample.additionInputs : List ApiInput :=
  [.request none (.login ['b'] ['p']) (around 1), asked (.blockAddOne ['A', '.', 'b']) 2,
    asked (.removeOne ['c', '.', 'd']) 3, .resume 0 (around 4), .resume 1 (around 5),
    .resume 0 (around 6), .resume 1 (around 7), .resume 0 (around 8),
    .restart ['s'] ⟨9, 50⟩ allRows]

/-- The domain added is kept. -/
theorem Sample.addition_kept :
    ∃ t h, (machine deployment).run booted additionInputs = some (t, h) ∧
      ['a', '.', 'b'] ∈ t.store.lists.blockList ∧ ['a', '.', 'b'] ∈ t.store.blocked.keys := by
  obtain ⟨⟨t, h⟩, hrun, hanswered⟩ := Option.map_eq_some_iff.mp
    (show ((machine deployment).run booted additionInputs).map
        (fun p => decide (.answered (some (randomToken (around 1).drawn))
          (.blockAddOne ['A', '.', 'b']) ⟨.ok, .added (some ⟨1, 0, 0⟩)⟩ ∈ p.2)) = some true by
      decide +kernel)
  have hroute : Route.Adds deployment.lc .blocked ['a', '.', 'b'] (.blockAddOne ['A', '.', 'b']) :=
    ⟨rfl, by decide⟩
  have hkept : ∀ authorization route env, .request authorization route env ∈ additionInputs →
      ¬ Route.Removes deployment.lc .blocked ['a', '.', 'b'] route := by
    intro authorization route env hmem
    simp only [additionInputs, asked, List.mem_cons, ApiInput.request.injEq, reduceCtorEq,
      List.not_mem_nil, or_false] at hmem
    rcases hmem with ⟨-, rfl, -⟩ | ⟨-, rfl, -⟩ | ⟨-, rfl, -⟩
    · exact id
    · exact id
    · rintro ⟨-, heq⟩
      exact absurd heq (by decide)
  have hreads : ∀ e ∈ additionInputs, e.Reads .blocked := by
    simp [additionInputs, asked, ApiInput.Reads, allRows]
  exact ⟨t, h, hrun, addition_durable rfl hrun hkept hreads (of_decide_eq_true hanswered) hroute⟩

end Management

/-! ## Removals -/

section Removing

variable (lc : Lowercase) (x : Str)

/-- The domain is neither in the block list nor in its table. -/
def Absent (store : ListStore) : Prop :=
  x ∉ store.lists.blockList ∧ x ∉ store.blocked.keys

/-- What a handler that removes the domain has secured: unless it has met an
error, the domain is gone, or gone from the list with its `DELETE` to come, or
still to be removed. -/
def Removing (store : ListStore) : Job → Prop
  | .begin route => route.Removes lc .blocked x
  | .deleteOne domain _ => lc.toLowercase domain = x ∧ x ∉ store.lists.blockList
  | .bulk rest result => result.errors = [] →
      (∃ domain ∈ rest, lc.toLowercase domain = x) ∨ Absent x store
  | .bulkDelete domain _ rest result => result.errors = [] →
      (∃ domain ∈ rest, lc.toLowercase domain = x) ∨
        (lc.toLowercase domain = x ∧ x ∉ store.lists.blockList) ∨ Absent x store
  | _ => False

/-- An answer of a removal that met no error: it removed, or found nothing in the
list. -/
def Response.IsRemoved (response : Response) : Prop :=
  response.status ≠ .internalServerError ∧
    ∀ result, response.body = .bulk result → result.errors = []

/-- And after its next stretch. -/
def RemovingNext (store : ListStore) : Next → Prop
  | .more job => Removing lc x store job
  | .done response => response.IsRemoved → Absent x store

end Removing

namespace Management

variable {d : Deployment} {s s' : Management} {x : Str}

/-- The first stretch of a removal takes the domain from the list. -/
theorem beginRemove_list (domain : Str) :
    d.lc.toLowercase domain ∉ (s.beginRemove d domain).1.store.lists.blockList := by
  intro hmem
  exact Finset.notMem_erase _ _ hmem

/-- The second takes it from the table. -/
theorem deleteRow_absent {domain : Str}
    (hlist : d.lc.toLowercase domain ∉ s.store.lists.blockList) :
    Absent (d.lc.toLowercase domain) (s.deleteRow d domain).store :=
  ⟨hlist, fun hx => ((Table.mem_keys_deleteWhere ..).mp hx).2 rfl⟩

/-- What others keep. -/
theorem removing_of_kept {lc : Lowercase} {before after : ListStore} {job : Job}
    (hlist : x ∉ before.lists.blockList → x ∉ after.lists.blockList)
    (hdomains : x ∉ before.blocked.keys → x ∉ after.blocked.keys)
    (hjob : Removing lc x before job) : Removing lc x after job := by
  have habsent : Absent x before → Absent x after := fun h => ⟨hlist h.1, hdomains h.2⟩
  cases job with
  | begin route => exact hjob
  | deleteOne domain removed => exact ⟨hjob.1, hlist hjob.2⟩
  | bulk rest result => exact fun hnone => (hjob hnone).imp_right habsent
  | bulkDelete domain removed rest result =>
    exact fun hnone => (hjob hnone).imp_right (Or.imp (And.imp_right hlist) habsent)
  | _ => exact hjob.elim

/-- **A handler that removes the domain goes on to have removed it.** -/
theorem runJob_removing {env : Surroundings} {job : Job} (hjob : Removing d.lc x s.store job) :
    RemovingNext d.lc x (s.runJob d env job).1.store (s.runJob d env job).2.2 := by
  cases job with
  | begin route =>
    cases route with
    | removeOne domain =>
      obtain ⟨-, rfl⟩ := hjob
      exact ⟨rfl, beginRemove_list domain⟩
    | removeBulk domains =>
      obtain ⟨-, hdomains⟩ := hjob
      exact fun _ => .inl hdomains
    | _ => exact hjob.elim
  | deleteOne domain removed =>
    obtain ⟨rfl, hlist⟩ := hjob
    rw [runJob]
    cases env.fault with
    | some message => exact fun hanswers => absurd rfl hanswers.1
    | none => exact fun _ => deleteRow_absent hlist
  | bulk rest result =>
    cases rest with
    | nil =>
      rintro ⟨-, hnone⟩
      refine (hjob (hnone result rfl)).resolve_left ?_
      rintro ⟨y, hy, -⟩
      cases hy
    | cons domain rest =>
      intro hnone
      have hkept : Absent x s.store → Absent x (s.beginRemove d domain).1.store :=
        fun habsent => ⟨fun hx => habsent.1 (Finset.mem_of_mem_erase hx), habsent.2⟩
      rcases hjob hnone with ⟨y, hy, heq⟩ | habsent
      · rcases List.mem_cons.mp hy with rfl | hy
        · exact .inr (.inl ⟨heq, heq ▸ beginRemove_list y⟩)
        · exact .inl ⟨y, hy, heq⟩
      · exact .inr (.inr (hkept habsent))
  | bulkDelete domain removed rest result =>
    rw [runJob]
    cases env.fault with
    | some message =>
      intro hnone
      exact absurd hnone (by simp)
    | none =>
      have hkept : Absent x s.store → Absent x (s.deleteRow d domain).store :=
        fun habsent => ⟨habsent.1, fun hx => habsent.2 ((Table.mem_keys_deleteWhere ..).mp hx).1⟩
      have hnext : result.errors = [] → (∃ domain ∈ rest, d.lc.toLowercase domain = x) ∨
          Absent x (s.deleteRow d domain).store := by
        intro hnone
        rcases hjob hnone with hrest | ⟨rfl, hlist⟩ | habsent
        · exact .inl hrest
        · exact .inr (deleteRow_absent hlist)
        · exact .inr (hkept habsent)
      cases removed with
      | true => exact hnext
      | false => exact hnext
  | _ => exact hjob.elim

/-- Removals, while nobody asks to add the domain. -/
def removalPlan (d : Deployment) (x : Str) : Plan d where
  permits e := ∀ authorization route env, e = .request authorization route env →
    ¬ route.Adds d.lc .blocked x
  quiet job := ¬ job.Adds d.lc .blocked x
  covers route := route.Removes d.lc .blocked x
  good store job := Removing d.lc x store job
  answers := Response.IsRemoved
  done := Absent x
  begins authorization route env hpermits := hpermits authorization route env rfl
  secures _ _ hcovers := hcovers
  stays s env job job' hquiet hnext := by
    have hstill := (@runJob_still d s .blocked x env job).2
    rw [hnext] at hstill
    exact fun hadds => hquiet (hstill hadds)
  keeps s env job hquiet := by
    have hwrites := @runJob_writes d s .blocked x env job
    have hlist : x ∉ s.store.lists.blockList →
        x ∉ (s.runJob d env job).1.store.lists.blockList :=
      fun hnot hx => hnot ((hwrites.listed hx).resolve_right hquiet)
    have hdomains : x ∉ s.store.blocked.keys →
        x ∉ (s.runJob d env job).1.store.blocked.keys :=
      fun hnot hx => hnot ((hwrites.inserted hx).resolve_right hquiet)
    exact ⟨fun _ hjob => removing_of_kept hlist hdomains hjob,
      fun hdone => ⟨hlist hdone.1, hdomains hdone.2⟩⟩
  goesOn s env job job' hjob hnext := by
    have hremoving := @runJob_removing d s x env job hjob
    rw [hnext] at hremoving
    exact hremoving
  finishes s env job response hjob hnext hanswers := by
    have hremoving := @runJob_removing d s x env job hjob
    rw [hnext] at hremoving
    exact hremoving hanswers
  -- a list read in part holds no more than the table
  restarts store salt clock rows _ hdone :=
    ⟨fun hx => hdone.2 (@mem_readLists rows .blocked store x hx), hdone.2⟩

/-- **What a removal answered has removed stays removed.** In any run in which no
request asks to add the domain, by a list fetched from a URL included, whatever
else it interleaves, once a removal of the domain has been answered without an
error (404 included), the domain is neither in the block list nor in its table. -/
theorem removal_durable {t : Management} {es : List ApiInput} {h : List ApiEvent}
    (hidle : s.running = []) (hrun : (machine d).run s es = some (t, h))
    (hrequests : ∀ authorization route env, .request authorization route env ∈ es →
      ¬ Route.Adds d.lc .blocked x route)
    {token : Str} {route : Route} {response : Response}
    (hanswer : .answered (some token) route response ∈ h)
    (hroute : route.Removes d.lc .blocked x) (hremoved : response.IsRemoved) :
    x ∉ t.store.lists.blockList ∧ x ∉ t.store.blocked.keys := by
  refine (removalPlan d x).run hidle hrun ?_ hanswer hroute hremoved
  rintro _ he authorization route env rfl
  exact hrequests authorization route env he

/-- A removal beside an addition of another domain, and a restart. -/
def Sample.removalInputs : List ApiInput :=
  [.request none (.login ['b'] ['p']) (around 1), asked (.removeOne ['C', '.', 'd']) 2,
    asked (.blockAddOne ['a', '.', 'b']) 3, .resume 0 (around 4), .resume 1 (around 5),
    .resume 0 (around 6), .restart ['s'] ⟨7, 50⟩ allRows]

/-- A domain that is not listed is not found, and stays unlisted. -/
theorem Sample.removal_kept :
    ∃ t h, (machine deployment).run booted removalInputs = some (t, h) ∧
      ['c', '.', 'd'] ∉ t.store.lists.blockList ∧ ['c', '.', 'd'] ∉ t.store.blocked.keys := by
  obtain ⟨⟨t, h⟩, hrun, hanswered⟩ := Option.map_eq_some_iff.mp
    (show ((machine deployment).run booted removalInputs).map
        (fun p => decide (.answered (some (randomToken (around 1).drawn))
          (.removeOne ['C', '.', 'd'])
          ⟨.notFound, .error "C.d not found in blocklist".toList⟩ ∈ p.2)) = some true by
      decide +kernel)
  have hroute : Route.Removes deployment.lc .blocked ['c', '.', 'd'] (.removeOne ['C', '.', 'd']) :=
    ⟨rfl, by decide⟩
  have hrequests : ∀ authorization route env, .request authorization route env ∈ removalInputs →
      ¬ Route.Adds deployment.lc .blocked ['c', '.', 'd'] route := by
    intro authorization route env hmem
    simp only [removalInputs, asked, List.mem_cons, ApiInput.request.injEq, reduceCtorEq,
      List.not_mem_nil, or_false] at hmem
    rcases hmem with ⟨-, rfl, -⟩ | ⟨-, rfl, -⟩ | ⟨-, rfl, -⟩
    · exact id
    · exact id
    · rintro ⟨-, heq⟩
      exact absurd heq (by decide)
  exact ⟨t, h, hrun, removal_durable rfl hrun hrequests (of_decide_eq_true hanswered) hroute
    ⟨by decide, by simp⟩⟩

end Management

end Denis
