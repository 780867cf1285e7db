import Denis.Api.Router

/-!
# Who changes what is managed (`api/mod.rs`, `api/auth.rs`)

Behind `require_auth` runs only what was admitted, and a token is admitted only
if it was issued: by a login, or by a handler of `create_token` that was itself
admitted on a token issued before. So every admission goes back to a login
(`Authorised`), and what an administrator manages (`Managed`: the lists, the
configuration, users, passwords and tokens) changes only in a stretch of a
handler so admitted, or at a restart (`changes_authorised`). A run in which
nobody logs in changes nothing at all, but that a restart may read its lists in
part (`unchanged_without_login`).

The invariant is `Chained`: what `Auth` keeps of its history (`Auth.Sessions`,
`Auth.Tokens`), and that every handler under way was admitted.
-/

namespace Denis

open Text

/-- What an administrator manages, without the times of last use. -/
structure Managed where
  store : ListStore
  config : RuntimeConfig
  row : Option Str
  users : List (Nat × Str × Str)
  tokens : List (Nat × Str × Str × Option Int64)

/-- What is managed, with other lists in memory. -/
def Managed.withLists (m : Managed) (lists : Lists) : Managed :=
  { m with store := { m.store with lists } }

namespace Auth

/-- A user without the time of the last login. -/
def credentials (row : UserRow) : Nat × Str × Str := (row.id, row.username, row.passwordHash)

/-- A token without the time of its last use. -/
def grant (row : TokenRow) : Nat × Str × Str × Option Int64 :=
  (row.id, row.name, row.tokenHash, row.expiresAt)

/-- Updates of what is not looked at do not show. -/
theorem map_updateWhere {ρ κ β : Type} {key : ρ → κ} {t : Table key} {p : ρ → Bool} {f : ρ → ρ}
    (hf : ∀ r, key (f r) = key r) {g : ρ → β} (hg : ∀ r, g (f r) = g r) :
    (t.updateWhere p f hf).1.rows.map g = t.rows.map g := by
  show (t.rows.map _).map g = _
  rw [List.map_map]
  refine List.map_congr_left fun r _ => ?_
  show g (if p r then f r else r) = g r
  split
  · exact hg r
  · rfl

variable (crypto : Crypto) (s : Auth) (clock : AuthClock)

theorem login_credentials (user pass token : Str) :
    (s.login crypto user pass token clock).1.users.rows.map credentials =
      s.users.rows.map credentials := by
  unfold login
  split
  · rfl
  · split
    · exact map_updateWhere (f := fun r : UserRow => { r with lastLogin := some clock.unix })
        (fun _ => rfl) fun _ => rfl
    · rfl

theorem validateToken_managed (token : Str) :
    (s.validateToken crypto token clock).1.users = s.users ∧
      (s.validateToken crypto token clock).1.apiTokens.rows.map grant =
        s.apiTokens.rows.map grant := by
  unfold validateToken
  split
  · exact ⟨rfl, map_updateWhere (f := fun r : TokenRow => { r with lastUsed := some clock.unix })
      (fun _ => rfl) fun _ => rfl⟩
  · exact ⟨rfl, rfl⟩

/-- Presenting a token changes no user and no token. -/
theorem validate_managed (token : Str) :
    (s.validate crypto token clock).1.users = s.users ∧
      (s.validate crypto token clock).1.apiTokens.rows.map grant =
        s.apiTokens.rows.map grant := by
  unfold validate
  split
  · split
    · exact ⟨rfl, rfl⟩
    · exact validateToken_managed ..
  · exact validateToken_managed ..

/-- A string accepted is in the session map, or its hash is in the table. -/
theorem validate_sound {token : Str} (h : (s.validate crypto token clock).2 = true) :
    (∃ expiry, s.sessions token = some expiry) ∨
      ∃ row ∈ s.apiTokens.rows, row.tokenHash = crypto.sha256Hex token := by
  unfold validate at h
  split at h
  · next expiry hexpiry => exact .inl ⟨expiry, hexpiry⟩
  · obtain ⟨row, hrow, hhash, -⟩ := validateToken_iff.mp h
    exact .inr ⟨row, hrow, hhash⟩

/-- A live session is accepted. -/
theorem validate_of_session {token : Str} {expiry : Nat} (hexpiry : s.sessions token = some expiry)
    (hlive : clock.instant < expiry) : (s.validate crypto token clock).2 = true := by
  unfold validate
  rw [hexpiry]
  dsimp only
  rw [if_pos hlive]

/-- Without the `SELECT`, only the live sessions are accepted. -/
theorem validateSession_iff {token : Str} :
    (s.validateSession token clock).2 = true ↔
      ∃ expiry, s.sessions token = some expiry ∧ clock.instant < expiry := by
  unfold validateSession
  cases s.sessions token with
  | none => simp
  | some expiry =>
    dsimp only
    split
    · next hlive => simp [hlive]
    · next hlive => simp [hlive]

end Auth

/-- What `Auth` did, of what came of some inputs. -/
def auths (h : List ApiEvent) : List AuthEvent :=
  h.filterMap fun
    | .auth event => some event
    | _ => none

@[simp] theorem auths_append (h h' : List ApiEvent) : auths (h ++ h') = auths h ++ auths h' :=
  List.filterMap_append ..

@[simp] theorem auths_map (events : List AuthEvent) : auths (events.map .auth) = events := by
  rw [auths, List.filterMap_map]
  exact List.filterMap_some

theorem mem_auths {h : List ApiEvent} {event : AuthEvent} :
    event ∈ auths h ↔ .auth event ∈ h := by
  rw [auths, List.mem_filterMap]
  constructor
  · rintro ⟨e, he, heq⟩
    cases e with
    | auth event' => exact Option.some.inj heq ▸ he
    | admitted token route => cases heq
    | answered token route response => cases heq
  · exact fun he => ⟨_, he, rfl⟩

/-- **A token goes back to a login**: one issued it, or a handler of
`create_token`, admitted on a token that does, issued one of the same hash. -/
inductive Authorised (crypto : Crypto) : List ApiEvent → Str → Prop
  | login {before after : List ApiEvent} {user pass token : Str} {at' : Nat} :
      Authorised crypto (before ++ .auth (.login user pass (some token) at') :: after) token
  | created {before after : List ApiEvent} {id : Nat} {issued token parent name : Str}
      {ttlSecs expiresAt : Option Int64} :
      .admitted parent (.createToken name ttlSecs) ∈ before → Authorised crypto before parent →
      crypto.sha256Hex issued = crypto.sha256Hex token →
      Authorised crypto (before ++ .auth (.tokenCreated id issued expiresAt) :: after) token

namespace Authorised

variable {crypto : Crypto} {h : List ApiEvent} {token : Str}

/-- What comes later takes nothing back. -/
theorem append (hauth : Authorised crypto h token) (h' : List ApiEvent) :
    Authorised crypto (h ++ h') token := by
  cases hauth with
  | login =>
    rw [List.append_assoc, List.cons_append]
    exact .login
  | created hadmitted hparent hhash =>
    rw [List.append_assoc, List.cons_append]
    exact .created hadmitted hparent hhash

/-- At the root there is a login. -/
theorem exists_login (hauth : Authorised crypto h token) :
    ∃ user pass issued at', .auth (.login user pass (some issued) at') ∈ h := by
  induction hauth with
  | login => exact ⟨_, _, _, _, List.mem_append_right _ List.mem_cons_self⟩
  | created _ _ _ ih =>
    obtain ⟨user, pass, issued, at', hlogin⟩ := ih
    exact ⟨user, pass, issued, at', List.mem_append_left _ hlogin⟩

end Authorised

namespace Management

variable {d : Deployment} {s s' : Management} {e : ApiInput} {h out : List ApiEvent}

/-- What is managed of the state. -/
def managed (s : Management) : Managed where
  store := s.store
  config := s.config
  row := s.row
  users := s.auth.users.rows.map Auth.credentials
  tokens := s.auth.apiTokens.rows.map Auth.grant

/-- A service about to start on a database of some users and no API token. -/
def boot (users : Table UserRow.username) (nextUser now : Nat) (store : ListStore)
    (config : RuntimeConfig) (row : Option Str) : Management where
  auth := Auth.boot users nextUser now
  store := store
  config := config
  row := row
  running := []

/-- A public handler manages nothing. -/
theorem beginRoute_managed {route : Route} (hpublic : route.isPublic = true)
    (env : Surroundings) : (s.beginRoute d env route).1.managed = s.managed := by
  cases route with
  | health => rfl
  | metrics => rfl
  | login username password =>
    rw [beginRoute]
    cases env.fault with
    | some message => rfl
    | none =>
      obtain ⟨htokens, -, -⟩ := @Auth.login_cases d.crypto (s.authAt env.clock) username password
        (randomToken env.drawn) env.clock
      have hcreds := Auth.login_credentials d.crypto (s.authAt env.clock) env.clock username
        password (randomToken env.drawn)
      show Managed.mk s.store s.config s.row
        (((s.authAt env.clock).login d.crypto username password _ env.clock).1.users.rows.map _)
        (((s.authAt env.clock).login d.crypto username password _ env.clock).1.apiTokens.rows.map
          _) = _
      rw [htokens, hcreds]
      rfl
  | _ => cases hpublic

/-- Presenting a token manages nothing. -/
theorem validate_managed (token : Str) (env : Surroundings) :
    Managed.mk s.store s.config s.row
      ((s.validate d token env).1.users.rows.map Auth.credentials)
      ((s.validate d token env).1.apiTokens.rows.map Auth.grant) = s.managed := by
  unfold validate
  split
  · obtain ⟨husers, htokens⟩ :=
      Auth.validate_managed d.crypto (s.authAt env.clock) env.clock token
    rw [husers, htokens]
    rfl
  · obtain ⟨-, husers, htokens, -⟩ := (s.authAt env.clock).validateSession_keeps token env.clock
    rw [husers, htokens]
    rfl

/-- **Only handlers and restarts manage.** -/
theorem step_managed (h : step d s e = some (s', out)) :
    s'.managed = s.managed ∨
      (∃ i env r, e = .resume i env ∧ s.running[i]? = some r) ∨
      ∃ salt clock rows, e = .restart salt clock rows := by
  cases step_transition h with
  | @publicly _ route env _ _ _ hpublic hbegin =>
    have hmanaged := @beginRoute_managed d s route hpublic env
    rw [hbegin] at hmanaged
    exact .inl hmanaged
  | noToken hprotected hnone => exact .inl rfl
  | badToken hprotected htoken hrefused => exact .inl (@validate_managed d s _ _)
  | admitted hprotected htoken haccepted => exact .inl (@validate_managed d s _ _)
  | wentOn hr hjob => exact .inr (.inl ⟨_, _, _, rfl, hr⟩)
  | finished hr hjob => exact .inr (.inl ⟨_, _, _, rfl, hr⟩)
  | hungUp => exact .inl rfl
  | restarted => exact .inr (.inr ⟨_, _, _, rfl⟩)

/-- A stretch is at most one step of `Auth`. -/
theorem Stretch.step {env : Surroundings} {call : Option AuthCall} {events : List AuthEvent}
    (hstretch : Stretch d s env call s' events) (hle : s.auth.now ≤ env.clock.instant) :
    (events = [] ∧ s'.auth = s.auth) ∨
      ∃ input, Auth.step d.crypto s.auth input = some (s'.auth, events) := by
  rcases hstretch.auth with hquiet | ⟨c, event, -, rfl, hperform⟩
  · exact .inl hquiet
  · refine .inr ⟨⟨c, env.clock⟩, ?_⟩
    rw [Auth.step_of_le hle]
    show some ((Auth.perform d.crypto (s.authAt env.clock) env.clock c).1,
      [(Auth.perform d.crypto (s.authAt env.clock) env.clock c).2]) = _
    rw [hperform]

/-- A request whose `SELECT` in `validate` is refused. -/
def Unread (s : Management) (e : ApiInput) (auth : Auth) (events : List AuthEvent) : Prop :=
  ∃ authorization route env token, e = .request authorization route env ∧ env.fault ≠ none ∧
    auth = ((s.authAt env.clock).validateSession token env.clock).1 ∧
    events = [.validated token env.clock.instant env.clock.unix
      ((s.authAt env.clock).validateSession token env.clock).2]

/-- What a token presented does to `Auth`. -/
theorem validate_auths {authorization : Option Bytes} {route : Route} {env : Surroundings}
    (token : Str) (hle : s.auth.now ≤ env.clock.instant) :
    (∃ input, Auth.step d.crypto s.auth input = some ((s.validate d token env).1,
      [.validated token env.clock.instant env.clock.unix (s.validate d token env).2])) ∨
      s.Unread (.request authorization route env) (s.validate d token env).1
        [.validated token env.clock.instant env.clock.unix (s.validate d token env).2] := by
  cases hfault : env.fault with
  | none =>
    rw [validate, hfault]
    exact .inl ⟨⟨.validate token, env.clock⟩, Auth.step_of_le hle⟩
  | some message =>
    refine .inr ⟨authorization, route, env, token, rfl, ?_, ?_, ?_⟩
    · rw [hfault]
      exact Option.some_ne_none message
    · rw [validate, hfault]
    · rw [validate, hfault]

/-- **The steps of the API are steps of `Auth`**, or leave it alone, but for a
`validate` that cannot read the tokens. -/
theorem step_auths (h : step d s e = some (s', out)) :
    (auths out = [] ∧ s'.auth = s.auth) ∨
      (∃ input, Auth.step d.crypto s.auth input = some (s'.auth, auths out)) ∨
      s.Unread e s'.auth (auths out) := by
  have hclock := step_clock h
  cases step_transition h with
  | @publicly _ route env _ events _ hpublic hbegin =>
    have hstretch := @beginRoute_stretch d s env route
    rw [hbegin] at hstretch
    have hstep := hstretch.step (hclock _ rfl)
    rw [auths_append, auths_map]
    exact or_assoc.mp (.inl (by simpa [auths] using hstep))
  | noToken hprotected hnone => exact .inl ⟨rfl, rfl⟩
  | @badToken authorization route env token hprotected htoken hrefused =>
    have hstep := @validate_auths d s authorization route env token (hclock _ rfl)
    rw [hrefused] at hstep
    exact .inr hstep
  | @admitted authorization route env token hprotected htoken haccepted =>
    have hstep := @validate_auths d s authorization route env token (hclock _ rfl)
    rw [haccepted] at hstep
    exact .inr hstep
  | @wentOn _ env r _ events _ hr hjob =>
    have hstretch := @runJob_stretch d s env r.job
    rw [hjob] at hstretch
    have hstep := hstretch.step (hclock _ rfl)
    exact or_assoc.mp (.inl (by simpa using hstep))
  | @finished _ env r _ events _ hr hjob =>
    have hstretch := @runJob_stretch d s env r.job
    rw [hjob] at hstretch
    have hstep := hstretch.step (hclock _ rfl)
    exact or_assoc.mp (.inl (by simpa [auths] using hstep))
  | hungUp => exact .inl ⟨rfl, rfl⟩
  | @restarted salt clock rows =>
    exact .inr (.inl ⟨⟨.restart salt, clock⟩, Auth.step_of_le (hclock _ rfl)⟩)

/-- A token accepted is in the session map, or its hash is in the table. -/
theorem validate_sound {token : Str} {env : Surroundings}
    (haccepted : (s.validate d token env).2 = true) :
    (∃ expiry, s.auth.sessions token = some expiry) ∨
      ∃ row ∈ s.auth.apiTokens.rows, row.tokenHash = d.crypto.sha256Hex token := by
  unfold validate at haccepted
  split at haccepted
  · exact Auth.validate_sound d.crypto (s.authAt env.clock) env.clock haccepted
  · obtain ⟨expiry, hexpiry, -⟩ := (Auth.validateSession_iff _ env.clock).mp haccepted
    exact .inl ⟨expiry, hexpiry⟩

/-! ## The chain behind every admission -/

/-- An admission is authorised by what came before it. -/
def WellAdmitted (crypto : Crypto) (before : List ApiEvent) : ApiEvent → Prop
  | .admitted token _ => Authorised crypto before token
  | _ => True

/-- What is known of the state after what came so far. -/
structure Chained (d : Deployment) (h : List ApiEvent) (s : Management) : Prop where
  sessions : Auth.Sessions (auths h) s.auth
  tokens : Auth.Tokens d.crypto (auths h) s.auth
  running : ∀ r ∈ s.running, .admitted r.token r.route ∈ h
  begun : ∀ r ∈ s.running, ∀ route, r.job = .begin route → r.route = route
  created : ∀ id issued expiresAt token, .auth (.tokenCreated id issued expiresAt) ∈ h →
    d.crypto.sha256Hex issued = d.crypto.sha256Hex token → Authorised d.crypto h token
  admitted : Machine.Justified (WellAdmitted d.crypto) h

namespace Chained

/-- A handler under way was admitted on a token that goes back to a login. -/
theorem authorised (hs : Chained d h s) {r : Running} (hr : r ∈ s.running) :
    Authorised d.crypto h r.token := by
  obtain ⟨before, after, hsplit⟩ := List.append_of_mem (hs.running r hr)
  have hbefore : Authorised d.crypto before r.token := hs.admitted before _ after hsplit
  rw [hsplit]
  exact hbefore.append _

/-- `Auth` at the instant of a call keeps what is known of it. -/
theorem authAt (hs : Chained d h s) {clock : AuthClock} (hle : s.auth.now ≤ clock.instant) :
    Auth.Sessions (auths h) (s.authAt clock) ∧
      Auth.Tokens d.crypto (auths h) (s.authAt clock) :=
  ⟨hs.sessions.advance hle, hs.tokens.advance _⟩

/-- So is a token that is accepted. -/
theorem accepts (hs : Chained d h s) {token : Str} {env : Surroundings}
    (haccepted : (s.validate d token env).2 = true) : Authorised d.crypto h token := by
  rcases validate_sound haccepted with ⟨expiry, hsession⟩ | ⟨row, hrow, hhash⟩
  · obtain ⟨user, pass, at', hlogin, -⟩ := hs.sessions.sound token expiry hsession
    have hmem := mem_auths.mp (Auth.mem_of_sinceRestart hlogin)
    obtain ⟨before, after, hsplit⟩ := List.append_of_mem hmem
    rw [hsplit]
    exact .login
  · obtain ⟨-, issued, hcreated, hissued⟩ := hs.tokens.sound row hrow
    exact hs.created _ issued _ token (mem_auths.mp hcreated) (hissued.symm.trans hhash)

/-- What is known of `Auth` is kept by every step. -/
theorem auth_step (hs : Chained d h s) (hstep : Management.step d s e = some (s', out)) :
    Auth.Sessions (auths (h ++ out)) s'.auth ∧
      Auth.Tokens d.crypto (auths (h ++ out)) s'.auth := by
  rw [auths_append]
  rcases step_auths hstep with ⟨hnone, hsame⟩ | ⟨input, hauth⟩ | hunread
  · rw [hnone, List.append_nil, hsame]
    exact ⟨hs.sessions, hs.tokens⟩
  · exact Auth.kept_step hs.sessions hs.tokens hauth
  · obtain ⟨authorization, route, env, token, rfl, -, hauth, hevents⟩ := hunread
    obtain ⟨hsessions, htokens⟩ := hs.authAt (step_clock hstep _ rfl)
    obtain ⟨hnow, -⟩ := (s.authAt env.clock).validateSession_keeps token env.clock
    rw [hauth, hevents]
    exact ⟨hsessions.step rfl hnow ((s.authAt env.clock).validateSession_sessions token env.clock),
      htokens.step ((s.authAt env.clock).validateSession_tokens token env.clock)⟩

end Chained

/-- Only `create_token` creates tokens. -/
theorem perform_created {crypto : Crypto} {a a' : Auth} {clock : AuthClock} {c : AuthCall}
    {id : Nat} {issued : Str} {expiresAt : Option Int64}
    (hperform : Auth.perform crypto a clock c = (a', .tokenCreated id issued expiresAt)) :
    ∃ name ttlSecs, c = .createToken name ttlSecs issued := by
  cases c with
  | createToken name ttlSecs token =>
    obtain ⟨-, hrefused | ⟨row, -, -, -, -, hevent⟩⟩ :=
      @Auth.createToken_cases crypto a name ttlSecs token clock
    · cases hrefused.symm.trans hperform
    · obtain ⟨-, rfl, -⟩ :=
        AuthEvent.tokenCreated.inj (hevent.symm.trans (congrArg Prod.snd hperform))
      exact ⟨name, ttlSecs, rfl⟩
  | _ => cases congrArg Prod.snd hperform

/-- A stretch creates a token only for the call it makes. -/
theorem Stretch.created {env : Surroundings} {call : Option AuthCall} {events : List AuthEvent}
    (hstretch : Stretch d s env call s' events) {id : Nat} {issued : Str}
    {expiresAt : Option Int64} (hmem : .tokenCreated id issued expiresAt ∈ events) :
    ∃ name ttlSecs, call = some (.createToken name ttlSecs issued) := by
  rcases hstretch.auth with ⟨rfl, -⟩ | ⟨c, event, rfl, rfl, hperform⟩
  · cases hmem
  · obtain rfl := List.mem_singleton.mp hmem
    obtain ⟨name, ttlSecs, rfl⟩ := perform_created hperform
    exact ⟨name, ttlSecs, rfl⟩

/-- A handler that creates a token is at the beginning of `create_token`. -/
theorem call_createToken {env : Surroundings} {job : Job} {name issued : Str}
    {ttlSecs : Option Int64} (hcall : job.call env = some (.createToken name ttlSecs issued)) :
    job = .begin (.createToken name ttlSecs) := by
  cases job with
  | begin route =>
    cases route with
    | createToken name' ttlSecs' =>
      obtain ⟨rfl, rfl, -⟩ := AuthCall.createToken.inj (Option.some.inj hcall)
      rfl
    | _ => cases hcall
  | _ => cases hcall

/-- Extending by events among which no token was created, or by one of a handler
under way. -/
theorem Chained.created_append (hs : Chained d h s)
    (hnew : ∀ id issued expiresAt, .auth (.tokenCreated id issued expiresAt) ∈ out →
      ∃ r ∈ s.running, ∃ name ttlSecs, r.route = .createToken name ttlSecs) :
    ∀ id issued expiresAt token, .auth (.tokenCreated id issued expiresAt) ∈ h ++ out →
      d.crypto.sha256Hex issued = d.crypto.sha256Hex token →
      Authorised d.crypto (h ++ out) token := by
  intro id issued expiresAt token hmem hhash
  rcases List.mem_append.mp hmem with hmem | hmem
  · exact (hs.created id issued expiresAt token hmem hhash).append _
  · obtain ⟨r, hr, name, ttlSecs, hroute⟩ := hnew id issued expiresAt hmem
    obtain ⟨before, after, rfl⟩ := List.append_of_mem hmem
    rw [← List.append_assoc]
    have hadmitted := hs.running r hr
    rw [hroute] at hadmitted
    exact .created (List.mem_append_left _ hadmitted) ((hs.authorised hr).append _) hhash

/-- Extending by events that admit nothing. -/
theorem Chained.admitted_append (hs : Chained d h s)
    (hnone : ∀ token route, .admitted token route ∉ out) :
    Machine.Justified (WellAdmitted d.crypto) (h ++ out) := by
  refine hs.admitted.append ?_ ?_
  · intro h₁ h₂ x hx
    cases x with
    | admitted token route => exact Authorised.append hx h₂
    | auth event => trivial
    | answered token route response => trivial
  · intro x hx
    cases x with
    | admitted token route => exact absurd hx (hnone token route)
    | auth event => trivial
    | answered token route response => trivial

/-- The handlers under way after one of them went on. -/
theorem Chained.running_set (hs : Chained d h s) {i : Nat} {r : Running}
    (hr : s.running[i]? = some r) (job : Job) (hlater : (Next.more job).Later) :
    ∀ r' ∈ s.running.set i { r with job },
      .admitted r'.token r'.route ∈ h ∧ ∀ route, r'.job = .begin route → r'.route = route := by
  intro r' hr'
  rcases List.mem_or_eq_of_mem_set hr' with hr' | rfl
  · exact ⟨hs.running r' hr', hs.begun r' hr'⟩
  · refine ⟨hs.running r (List.mem_of_getElem? hr), fun route hbegin => ?_⟩
    change job = .begin route at hbegin
    rw [hbegin] at hlater
    exact hlater.elim

/-- What a stretch of a handler under way creates, its route asks for. -/
theorem Chained.created_stretch (hs : Chained d h s) {i : Nat} {r : Running}
    (hr : s.running[i]? = some r) {env : Surroundings} {m : Management}
    {events : List AuthEvent} (hstretch : Stretch d s env (r.job.call env) m events) :
    ∀ id issued expiresAt, .tokenCreated id issued expiresAt ∈ events →
      ∃ r ∈ s.running, ∃ name ttlSecs, r.route = .createToken name ttlSecs := by
  intro id issued expiresAt hmem
  obtain ⟨name, ttlSecs, hcall⟩ := hstretch.created hmem
  have hr := List.mem_of_getElem? hr
  exact ⟨r, hr, name, ttlSecs, hs.begun r hr _ (call_createToken hcall)⟩

/-- **The chain is kept** by every step. -/
theorem Chained.step (hs : Chained d h s) (hstep : Management.step d s e = some (s', out)) :
    Chained d (h ++ out) s' := by
  obtain ⟨hsessions, htokens⟩ := hs.auth_step hstep
  cases step_transition hstep with
  | @publicly _ route env _ events response hpublic hbegin =>
    have hstretch := @beginRoute_stretch d s env route
    rw [hbegin] at hstretch
    refine ⟨hsessions, htokens, ?_, ?_, hs.created_append ?_, hs.admitted_append (by simp)⟩
    · rw [hstretch.running]
      exact fun r hr => List.mem_append_left _ (hs.running r hr)
    · rw [hstretch.running]
      exact hs.begun
    · intro id issued expiresAt hmem
      obtain ⟨name, ttlSecs, hcall⟩ := hstretch.created (by simpa using hmem)
      -- no public route asks for a token to be created
      have hcall : (Job.begin route).call env = some _ := hcall
      cases call_createToken hcall
      cases hpublic
  | noToken hprotected hnone =>
    exact ⟨hsessions, htokens, fun r hr => List.mem_append_left _ (hs.running r hr), hs.begun,
      hs.created_append (by simp), hs.admitted_append (by simp)⟩
  | badToken hprotected htoken hrefused =>
    exact ⟨hsessions, htokens, fun r hr => List.mem_append_left _ (hs.running r hr), hs.begun,
      hs.created_append (by simp), hs.admitted_append (by simp)⟩
  | @admitted _ route env token hprotected htoken haccepted =>
    refine ⟨hsessions, htokens, ?_, ?_, hs.created_append (by simp), ?_⟩
    · intro r hr
      rcases List.mem_append.mp hr with hr | hr
      · exact List.mem_append_left _ (hs.running r hr)
      · obtain rfl := List.mem_singleton.mp hr
        simp
    · intro r hr route' hbegin
      rcases List.mem_append.mp hr with hr | hr
      · exact hs.begun r hr route' hbegin
      · obtain rfl := List.mem_singleton.mp hr
        exact Job.begin.inj hbegin
    · -- the one event that admits comes after the validation
      rw [← List.singleton_append, ← List.append_assoc]
      refine (hs.admitted_append (by simp)).concat ?_
      exact (hs.accepts haccepted).append _
  | @wentOn i env r m events job hr hjob =>
    have hstretch := @runJob_stretch d s env r.job
    have hlater := @runJob_later d s env r.job
    rw [hjob] at hstretch hlater
    have hset := hs.running_set hr job hlater
    rw [← hstretch.running] at hset
    refine ⟨hsessions, htokens, fun r' hr' => List.mem_append_left _ (hset r' hr').1,
      fun r' hr' => (hset r' hr').2, hs.created_append ?_, hs.admitted_append (by simp)⟩
    simpa using hs.created_stretch hr hstretch
  | @finished i env r m events response hr hjob =>
    have hstretch := @runJob_stretch d s env r.job
    rw [hjob] at hstretch
    refine ⟨hsessions, htokens, ?_, ?_, hs.created_append ?_, hs.admitted_append (by simp)⟩
    · intro r' hr'
      have hmem := List.mem_of_mem_eraseIdx hr'
      rw [hstretch.running] at hmem
      exact List.mem_append_left _ (hs.running r' hmem)
    · intro r' hr'
      have hmem := List.mem_of_mem_eraseIdx hr'
      rw [hstretch.running] at hmem
      exact hs.begun r' hmem
    · simpa using hs.created_stretch hr hstretch
  | hungUp =>
    rw [List.append_nil] at hsessions htokens ⊢
    exact ⟨hsessions, htokens, fun r hr => hs.running r (List.mem_of_mem_eraseIdx hr),
      fun r hr => hs.begun r (List.mem_of_mem_eraseIdx hr), hs.created, hs.admitted⟩
  | @restarted salt clock rows =>
    exact ⟨hsessions, htokens, by simp [restart], by simp [restart],
      hs.created_append (by simp [restart, authCall, Auth.perform]),
      hs.admitted_append (by simp [restart])⟩

variable {users : Table UserRow.username} {nextUser now : Nat} {store : ListStore}
  {config : RuntimeConfig} {row : Option Str}

theorem Chained.boot : Chained d [] (boot users nextUser now store config row) := by
  have htracked := @Auth.tracked_boot d.crypto users nextUser now
  exact ⟨htracked.sessions, htracked.tokens, by simp [Management.boot], by simp [Management.boot],
    by simp, Machine.justified_nil _⟩

/-- So it is by every run. -/
theorem Chained.run {m : Management} {es : List ApiInput}
    (hrun : (machine d).run (Management.boot users nextUser now store config row) es =
      some (m, h)) : Chained d h m := by
  exact Machine.run_history (C := fun _ _ => True) (J := Chained d)
    (fun _ _ _ _ _ hs _ hstep => hs.step hstep) Chained.boot (Machine.along_true _ _) hrun

/-- A deployment of the sample parts. -/
noncomputable def Sample.deployment : Deployment where
  crypto := Auth.Sample.crypto
  lc := .asciiOnly
  db := .sqlite
  json := Denis.Sample.json
  defaults := Denis.Sample.config
  prometheus := false
  analytics := false
  uniqueViolation := "UNIQUE constraint failed: users.username"

/-- An instant at which nothing goes wrong, and 32 equal bytes are drawn. -/
def Sample.around (instant : Nat) : Surroundings where
  clock := ⟨instant, 50⟩
  fault := none
  salt := ['s']
  drawn := .replicate 32 7
  l1Entries := 0

/-- A service with one user and the default configuration, persisted. -/
noncomputable def Sample.booted : Management :=
  boot ⟨[⟨1, ['b'], Auth.Sample.crypto.hashPassword [] ['p'], 50, none⟩], by decide⟩ 2 0 .empty
    Denis.Sample.config (some (Denis.Sample.json.toString Denis.Sample.config))

/-- The database restarts bring back what is in force: the lists are their
tables, the row holds the configuration, and there is a user. -/
structure Settled (d : Deployment) (s : Management) : Prop where
  lists : s.store.lists = ⟨s.store.blocked.keys.toFinset, s.store.allowed.keys.toFinset⟩
  row : s.row = some (d.json.toString s.config)
  users : s.auth.users.size ≠ 0

/-- Nobody has logged in. -/
def NoLogin (h : List ApiEvent) : Prop :=
  ∀ user pass token at', .auth (.login user pass (some token) at') ∉ h

/-- A restart on a row that holds the configuration and a table with a user reads
the lists, and changes nothing else that is managed. -/
theorem restart_managed (hrow : s.row = some (d.json.toString s.config))
    (husers : s.auth.users.size ≠ 0) (salt : Str) (clock : AuthClock)
    (rows : ListKind → RowRead) :
    (s.restart d salt clock rows).1.managed = s.managed.withLists (readLists rows s.store) := by
  have hload : loadOrInit d.json s.row d.defaults = (s.config, s.row) := by
    rw [loadOrInit, hrow, Option.bind_some, d.json.fromStr_toString]
  have hauth : (Auth.perform d.crypto (s.authAt clock) clock (.restart salt)).1 =
      { s.authAt clock with sessions := fun _ => none } := if_neg husers
  unfold restart
  rw [hload]
  show Managed.mk { s.store with lists := _ } s.config s.row
    ((Auth.perform d.crypto (s.authAt clock) clock (.restart salt)).1.users.rows.map _)
    ((Auth.perform d.crypto (s.authAt clock) clock (.restart salt)).1.apiTokens.rows.map _) = _
  rw [hauth]
  rfl

/-- Protected routes answer their own 401 and nothing else. -/
def TurnedAway (e : ApiEvent) : Prop :=
  ∀ token route response, e = .answered token route response → route.isPublic = false →
    token = none ∧ response = unauthorized

theorem turnedAway_auth (event : AuthEvent) : TurnedAway (.auth event) := by
  intro token route response h
  cases h

theorem turnedAway_unauthorized (route : Route) :
    TurnedAway (.answered none route unauthorized) := by
  rintro token route' response h -
  obtain ⟨rfl, -, rfl⟩ := ApiEvent.answered.inj h
  exact ⟨rfl, rfl⟩

/-- Where nobody has logged in, no token goes back to a login. -/
theorem NoLogin.not_authorised {crypto : Crypto} (hnone : NoLogin h) (token : Str) :
    ¬ Authorised crypto h token := by
  intro hauth
  obtain ⟨user, pass, issued, at', hlogin⟩ := hauth.exists_login
  exact hnone user pass issued at' hlogin

/-- What is kept while nobody logs in; the lists whole, if restarts read them so. -/
structure Locked (d : Deployment) (initial : Management) (whole : Prop) (h : List ApiEvent)
    (s : Management) : Prop where
  chained : Chained d h s
  managed : s.managed = initial.managed.withLists s.store.lists
  listed : ∀ kind : ListKind, kind.list s.store.lists ⊆ kind.list initial.store.lists
  lists : whole → s.store.lists = initial.store.lists
  running : s.running = []
  answers : ∀ e ∈ h, TurnedAway e

/-- A step that manages nothing keeps what is managed. -/
theorem Locked.same {initial : Management} {whole : Prop} (hs : Locked d initial whole h s)
    (hsame : s'.managed = s.managed) :
    s'.managed = initial.managed.withLists s'.store.lists ∧
      (∀ kind : ListKind, kind.list s'.store.lists ⊆ kind.list initial.store.lists) ∧
      (whole → s'.store.lists = initial.store.lists) := by
  have hstore : s'.store = s.store := congrArg Managed.store hsame
  rw [hsame, hstore]
  exact ⟨hs.managed, hs.listed, hs.lists⟩

/-- A restart of a settled service reads a part of what was listed. -/
theorem Locked.restarted {initial : Management} {whole : Prop} (hsettled : initial.Settled d)
    (hs : Locked d initial whole h s) {salt : Str} {clock : AuthClock} {rows : ListKind → RowRead}
    (hreads : whole → ∀ kind, (rows kind).fault = none) :
    (s.restart d salt clock rows).1.managed =
        initial.managed.withLists (readLists rows s.store) ∧
      (∀ kind : ListKind, kind.list (readLists rows s.store) ⊆ kind.list initial.store.lists) ∧
      (whole → readLists rows s.store = initial.store.lists) := by
  obtain ⟨hstore, hconfig, hrow, husers, -⟩ := Managed.mk.inj hs.managed
  have hdomains : ∀ kind : ListKind,
      (kind.domains s.store).toFinset = kind.list initial.store.lists := by
    intro kind
    rw [hstore, hsettled.lists]
    cases kind <;> rfl
  have hsize : s.auth.users.size = initial.auth.users.size := by
    have hlength : (s.auth.users.rows.map Auth.credentials).length =
        (initial.auth.users.rows.map Auth.credentials).length := congrArg List.length husers
    rwa [List.length_map, List.length_map] at hlength
  refine ⟨?_, ?_, ?_⟩
  · have hconfigured : s.row = some (d.json.toString s.config) := by
      rw [hrow, hconfig]
      exact hsettled.row
    rw [restart_managed hconfigured (hsize ▸ hsettled.users), hs.managed]
    rfl
  · intro kind x hx
    rw [← hdomains kind, List.mem_toFinset]
    exact mem_readLists hx
  · intro hwhole
    refine ListKind.list_ext fun kind => ?_
    rw [list_readLists s.store (hreads hwhole kind), hdomains kind]

/-- A step without a login keeps it. -/
theorem Locked.step {initial : Management} {whole : Prop} (hsettled : initial.Settled d)
    (hs : Locked d initial whole h s) (hreads : whole → ∀ kind, e.Reads kind)
    (hnone : NoLogin h) (hstep : step d s e = some (s', out)) :
    Locked d initial whole (h ++ out) s' := by
  have hchain := hs.chained.step hstep
  have hanswers : (∀ e ∈ out, TurnedAway e) → ∀ e ∈ h ++ out, TurnedAway e := by
    intro hout e he
    exact (List.mem_append.mp he).elim (hs.answers e) (hout e)
  have hidle : ∀ {i : Nat} {r : Running}, s.running[i]? ≠ some r := by simp [hs.running]
  obtain ⟨hmanaged, hlisted, hlists⟩ :
      s'.managed = initial.managed.withLists s'.store.lists ∧
        (∀ kind : ListKind, kind.list s'.store.lists ⊆ kind.list initial.store.lists) ∧
        (whole → s'.store.lists = initial.store.lists) := by
    rcases step_managed hstep with hsame | ⟨i, env, r, rfl, hr⟩ | ⟨salt, clock, rows, rfl⟩
    · exact hs.same hsame
    · exact absurd hr hidle
    · cases step_transition hstep with
      | restarted => exact hs.restarted hsettled hreads
  refine ⟨hchain, hmanaged, hlisted, hlists, ?_, hanswers ?_⟩
  · cases step_transition hstep with
    | @publicly _ route env _ events response hpublic hbegin =>
      have hstretch := @beginRoute_stretch d s env route
      rw [hbegin] at hstretch
      exact hstretch.running.trans hs.running
    | noToken | badToken => exact hs.running
    | admitted _ _ haccepted =>
      exact absurd (hs.chained.accepts haccepted) (hnone.not_authorised _)
    | wentOn hr | finished hr => exact absurd hr hidle
    | hungUp => simp [hs.running]
    | restarted => rfl
  · cases step_transition hstep with
    | publicly hpublic =>
      intro e he
      rcases List.mem_append.mp he with he | he
      · obtain ⟨event, -, rfl⟩ := List.mem_map.mp he
        exact turnedAway_auth event
      · obtain rfl := List.mem_singleton.mp he
        intro token route' response heq hprotected
        obtain ⟨-, rfl, -⟩ := ApiEvent.answered.inj heq
        cases hpublic.symm.trans hprotected
    | noToken => simpa using turnedAway_unauthorized _
    | badToken => simpa using ⟨turnedAway_auth _, turnedAway_unauthorized _⟩
    | admitted _ _ haccepted =>
      exact absurd (hs.chained.accepts haccepted) (hnone.not_authorised _)
    | wentOn hr | finished hr => exact absurd hr hidle
    | hungUp => simp
    | restarted => simpa [restart] using turnedAway_auth _

/-- **Without a login nothing changes.** In any run of a settled service in which
nobody logs in, whatever requests and restarts it interleaves, no handler is ever
admitted, every request for a protected route is answered 401, and nothing that is
managed changes but the lists in memory, which a restart may read in part: they
lose domains at most, and none if every restart reads both tables without an
error. -/
theorem unchanged_without_login {t : Management} {es : List ApiInput}
    (hsettled : (boot users nextUser now store config row).Settled d)
    (hrun : (machine d).run (boot users nextUser now store config row) es = some (t, h))
    (hlogin : NoLogin h) :
    t.managed = (boot users nextUser now store config row).managed.withLists t.store.lists ∧
      (∀ kind : ListKind, kind.list t.store.lists ⊆ kind.list store.lists) ∧
      ((∀ e ∈ es, ∀ kind, e.Reads kind) →
        t.managed = (boot users nextUser now store config row).managed) ∧
      t.running = [] ∧ ∀ e ∈ h, TurnedAway e := by
  generalize hwhole : (∀ e ∈ es, ∀ kind, e.Reads kind) = whole
  have hlocked : NoLogin h → Locked d (boot users nextUser now store config row) whole h t := by
    refine Machine.run_history (C := fun _ e => whole → ∀ kind, e.Reads kind)
      (J := fun h s => NoLogin h → Locked d (boot users nextUser now store config row) whole h s)
      ?_ (h := []) ?_ (Machine.along_of_forall ?_ _) hrun
    · intro h s e s' out hs hreads hstep hnone
      have hbefore : NoLogin h := fun user pass token at' hmem =>
        hnone user pass token at' (List.mem_append_left _ hmem)
      exact (hs hbefore).step hsettled hreads hbefore hstep
    · exact fun _ => ⟨.boot, rfl, fun _ => Finset.Subset.refl _, fun _ => rfl, rfl, by simp⟩
    · intro e he hreads
      rw [← hwhole] at hreads
      exact hreads e he
  obtain ⟨-, hmanaged, hlisted, hlists, hidle, hanswers⟩ := hlocked hlogin
  refine ⟨hmanaged, hlisted, fun hreads => ?_, hidle, hanswers⟩
  rw [hmanaged, hlists hreads]
  rfl

/-- A table read in the order of its rows, without an error. -/
def Sample.allRows : ListKind → RowRead := fun _ => ⟨id, .refl, none⟩

/-- A wrong password, the password presented as a token, and a restart. -/
theorem Sample.locked_out :
    ∃ t h, (machine deployment).run booted
        [.request none (.login ['b'] ['q']) (around 1),
          .request (some (utf8 (bearerPrefix ++ ['p']))) (.deleteUser ['b']) (around 2),
          .restart ['s'] ⟨3, 50⟩ allRows] = some (t, h) ∧
      t.managed = booted.managed ∧ t.running = [] ∧ ∀ e ∈ h, TurnedAway e := by
  have hsettled : booted.Settled deployment := ⟨rfl, rfl, by decide⟩
  obtain ⟨t, hrun⟩ : ∃ t, (machine deployment).run booted
      [.request none (.login ['b'] ['q']) (around 1),
        .request (some (utf8 (bearerPrefix ++ ['p']))) (.deleteUser ['b']) (around 2),
        .restart ['s'] ⟨3, 50⟩ allRows] =
    some (t, [.auth (.login ['b'] ['q'] none 1),
      .answered none (.login ['b'] ['q']) (.error .unauthorized "invalid credentials"),
      .auth (.validated ['p'] 2 50 false), .answered none (.deleteUser ['b']) unauthorized,
      .auth .restarted]) := ⟨_, rfl⟩
  obtain ⟨-, -, hmanaged, hidle, hanswers⟩ := unchanged_without_login hsettled hrun (by
    intro user pass token at' hmem
    simp at hmem)
  exact ⟨t, _, hrun, hmanaged (by simp [ApiInput.Reads, allRows]), hidle, hanswers⟩

end Management

end Denis
