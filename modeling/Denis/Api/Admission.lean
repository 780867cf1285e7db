import Denis.Api.Authority
import Denis.Api.EndedAccess

/-!
# Who is admitted (`api/auth.rs`)

For users, sessions and tokens, a run of the whole API in which the tokens can be
read is a run of `Auth` (`auth_refined`), so what is known of the one machine
holds in the other. `require_auth` admits a request exactly while its token is
live, and on a session only where the tokens cannot be read
(`admitted_iff_live`). A client that presents what its login answered, in the
one header the code reads, is admitted for the `expires_in` it was told
(`login_admits`).
-/

namespace Denis

open Text

namespace Management

variable {d : Deployment} {s s' : Management} {e : ApiInput} {h out : List ApiEvent}

/-- **A run of the API is a run of `Auth`**, with the calls its requests and
handlers make, if no `SELECT` of a request is refused. -/
theorem auth_refined {t : Management} {es : List ApiInput}
    (hread : ∀ e ∈ es, ∀ authorization route env, e = .request authorization route env →
      env.fault = none)
    (hrun : (machine d).run s es = some (t, h)) :
    ∃ inputs, (Auth.machine d.crypto).run s.auth inputs = some (t.auth, auths h) := by
  refine Machine.run_refines (N := Auth.machine d.crypto) (f := Management.auth)
    (fun s e s' out he hstep => ?_) hread hrun
  rcases step_auths hstep with hquiet | hcall | hunread
  · exact .inl hquiet
  · exact .inr hcall
  · obtain ⟨authorization, route, env, token, heq, hfault, -⟩ := hunread
    exact absurd (he authorization route env heq) hfault

/-! ## Exactly the live tokens -/

variable {users : Table UserRow.username} {nextUser now : Nat} {store : ListStore}
  {config : RuntimeConfig} {row : Option Str}

/-- A request with a token behind `require_auth`: admitted if its token is
accepted, and else answered 401. -/
theorem request_cases {authorization : Option Bytes} {route : Route} {env : Surroundings}
    {token : Str} (hprotected : route.isPublic = false)
    (htoken : bearerToken authorization = some token)
    (hstep : step d s (.request authorization route env) = some (s', out)) :
    let accepted := (s.validate d token env).2
    (accepted = true ∧ .admitted token route ∈ out) ∨
      (accepted = false ∧ .answered none route unauthorized ∈ out ∧
        ∀ token', .admitted token' route ∉ out) := by
  cases step_transition hstep with
  | publicly hpublic => cases hpublic.symm.trans hprotected
  | noToken _ hnone => cases hnone.symm.trans htoken
  | badToken _ htoken' hrefused =>
    obtain rfl := Option.some.inj (htoken'.symm.trans htoken)
    exact .inr ⟨hrefused, by simp, by simp⟩
  | admitted _ htoken' haccepted =>
    obtain rfl := Option.some.inj (htoken'.symm.trans htoken)
    exact .inl ⟨haccepted, by simp⟩

/-- What is accepted: a live session, or a live token where the tokens can be
read. -/
theorem validate_iff (hs : Chained d h s) {token : Str} {env : Surroundings}
    (hle : s.auth.now ≤ env.clock.instant) (hfree : Auth.CollisionFree d.crypto (auths h) token) :
    (s.validate d token env).2 = true ↔
      Auth.LiveSession (auths h) token env.clock.instant ∨
        env.fault = none ∧ Auth.LiveToken (auths h) token env.clock.unix := by
  obtain ⟨hsessions, htokens⟩ := hs.authAt hle
  cases hfault : env.fault with
  | none =>
    rw [validate, hfault]
    simpa using Auth.validate_iff hsessions htokens rfl hfree
  | some message =>
    rw [validate, hfault]
    simpa [Auth.liveSession_iff hsessions rfl] using
      Auth.validateSession_iff (s.authAt env.clock) env.clock

/-- Only a restart restarts. -/
theorem perform_restarted {crypto : Crypto} {a a' : Auth} {clock : AuthClock} {c : AuthCall}
    (hperform : Auth.perform crypto a clock c = (a', .restarted)) : ∃ salt, c = .restart salt := by
  cases c with
  | restart salt => exact ⟨salt, rfl⟩
  | createToken name ttlSecs token =>
    obtain ⟨-, hrefused | ⟨row, -, -, -, -, hevent⟩⟩ :=
      @Auth.createToken_cases crypto a name ttlSecs token clock
    · cases hrefused.symm.trans hperform
    · cases hevent.symm.trans (congrArg Prod.snd hperform)
  | _ => cases congrArg Prod.snd hperform

theorem call_ne_restart {env : Surroundings} {job : Job} {salt : Str} :
    job.call env ≠ some (.restart salt) := by
  cases job with
  | begin route => cases route <;> simp [Job.call, Route.call]
  | _ => simp [Job.call]

theorem Stretch.not_restarted {env : Surroundings} {job : Job} {events : List AuthEvent}
    (hstretch : Stretch d s env (job.call env) s' events) : .restarted ∉ events := by
  intro hmem
  rcases hstretch.auth with ⟨rfl, -⟩ | ⟨c, event, hcall, rfl, hperform⟩
  · cases hmem
  · obtain rfl := List.mem_singleton.mp hmem
    obtain ⟨salt, rfl⟩ := perform_restarted hperform
    exact call_ne_restart hcall

/-- No other step of the API restarts. -/
theorem step_not_restarted (hstep : step d s e = some (s', out))
    (hkept : ∀ salt clock rows, e ≠ .restart salt clock rows) : .restarted ∉ auths out := by
  cases step_transition hstep with
  | @publicly _ route env _ _ _ _ hbegin =>
    have hstretch := @beginRoute_stretch d s env route
    rw [hbegin] at hstretch
    simpa [auths] using @Stretch.not_restarted d s s' env (.begin route) _ hstretch
  | noToken | badToken | admitted | hungUp => simp [auths]
  | @wentOn _ env r _ _ _ _ hjob =>
    have hstretch := @runJob_stretch d s env r.job
    rw [hjob] at hstretch
    simpa using hstretch.not_restarted
  | @finished _ env r _ _ _ _ hjob =>
    have hstretch := @runJob_stretch d s env r.job
    rw [hjob] at hstretch
    simpa [auths] using hstretch.not_restarted
  | @restarted salt clock rows => exact absurd rfl (hkept salt clock rows)

theorem run_not_restarted {t : Management} {es : List ApiInput}
    (hrun : (machine d).run s es = some (t, h))
    (hkept : ∀ salt clock rows, .restart salt clock rows ∉ es) : .restarted ∉ auths h := by
  refine Machine.run_history
    (C := fun _ e => ∀ salt clock rows, e ≠ .restart salt clock rows)
    (J := fun h _ => .restarted ∉ auths h) ?_ (h := []) (by simp [auths])
    (Machine.along_of_forall
      (by rintro _ he salt clock rows rfl; exact hkept salt clock rows he) s) hrun
  intro h s e s' out hnone hC hstep
  rw [auths_append, List.mem_append, not_or]
  exact ⟨hnone, step_not_restarted hstep hC⟩

/-- What a login that answers a token did. -/
theorem login_answered {authorization : Option Bytes} {user pass token : Str} {env : Surroundings}
    {expiresIn : Nat}
    (hstep : step d s (.request authorization (.login user pass) env) = some (s', out))
    (hanswer : .answered none (.login user pass) (.ok (.login token expiresIn)) ∈ out) :
    token = randomToken env.drawn ∧ expiresIn * 1000000000 = sessionTtl ∧
      auths out = [.login user pass (some token) env.clock.instant] := by
  cases step_transition hstep with
  | @publicly _ _ _ _ events response _ hbegin =>
    obtain ⟨-, -, hcases⟩ := @Auth.login_cases d.crypto (s.authAt env.clock) user pass
      (randomToken env.drawn) env.clock
    have hcall : (s.authCall d env.clock (.login user pass (randomToken env.drawn))).2 =
        .login user pass ((s.authAt env.clock).login d.crypto user pass (randomToken env.drawn)
          env.clock).2 env.clock.instant := rfl
    rw [beginRoute] at hbegin
    cases hfault : env.fault with
    | some message =>
      rw [hfault] at hbegin
      obtain ⟨rfl, hresponse⟩ := Prod.mk.inj (Prod.mk.inj hbegin).2
      obtain rfl := Next.done.inj hresponse
      simp [Response.ok, Response.error] at hanswer
    | none =>
      rw [hfault] at hbegin
      dsimp only at hbegin
      rcases hcases with ⟨hnone, -⟩ | ⟨hsome, -⟩
      · rw [hcall, hnone] at hbegin
        obtain ⟨rfl, hresponse⟩ := Prod.mk.inj (Prod.mk.inj hbegin).2
        obtain rfl := Next.done.inj hresponse
        simp [Response.ok, Response.error] at hanswer
      · rw [hcall, hsome] at hbegin
        obtain ⟨rfl, hresponse⟩ := Prod.mk.inj (Prod.mk.inj hbegin).2
        obtain rfl := Next.done.inj hresponse
        obtain ⟨rfl, rfl⟩ : token = randomToken env.drawn ∧ expiresIn = 86400 := by
          simpa [Response.ok] using hanswer
        exact ⟨rfl, rfl, rfl⟩
  | noToken hprotected | badToken hprotected | admitted hprotected => cases hprotected

/-- A live session is accepted, whatever the database answers. -/
theorem validate_of_session {token : Str} {env : Surroundings} {expiry : Nat}
    (hexpiry : s.auth.sessions token = some expiry) (hlive : env.clock.instant < expiry) :
    (s.validate d token env).2 = true := by
  unfold validate
  split
  · exact Auth.validate_of_session d.crypto (s.authAt env.clock) env.clock hexpiry hlive
  · exact (Auth.validateSession_iff (s.authAt env.clock) env.clock).mpr ⟨expiry, hexpiry, hlive⟩

/-- **A login admits for as long as it says.** In any run in which a login answers
with a token, that token, presented as `Authorization: Bearer <token>`, gets past
`require_auth` on every protected route until `expires_in` seconds have passed or
the service restarts, whatever else the API does meanwhile: users deleted and
passwords changed included. -/
theorem login_admits {m m₁ m₂ : Management} {es es' : List ApiInput} {out h' : List ApiEvent}
    {authorization : Option Bytes} {user pass token : Str} {expiresIn : Nat}
    {env env' : Surroundings} {route : Route}
    (hrun : (machine d).run (boot users nextUser now store config row) es = some (m, h))
    (hlogin : step d m (.request authorization (.login user pass) env) = some (m₁, out))
    (hanswer : .answered none (.login user pass) (.ok (.login token expiresIn)) ∈ out)
    (hlater : (machine d).run m₁ es' = some (m₂, h'))
    (hkept : ∀ salt clock rows, .restart salt clock rows ∉ es')
    (hle : m₂.auth.now ≤ env'.clock.instant)
    (hlt : env'.clock.instant < env.clock.instant + expiresIn * 1000000000)
    (hprotected : route.isPublic = false) :
    ∃ m₃ out', step d m₂ (.request (some (utf8 (bearerPrefix ++ token))) route env') =
        some (m₃, out') ∧ .admitted token route ∈ out' := by
  obtain ⟨rfl, hexpires, hissued⟩ := login_answered hlogin hanswer
  have hwhole : (machine d).run (boot users nextUser now store config row)
      (es ++ .request authorization (.login user pass) env :: es') =
        some (m₂, h ++ (out ++ h')) :=
    Machine.run_append.mpr ⟨m, h, _, hrun,
      Machine.run_cons_eq_some.mpr ⟨m₁, out, h', hlogin, hlater, rfl⟩, rfl⟩
  obtain ⟨hsessions, -⟩ := (Chained.run hwhole).authAt hle
  have hlive : .login user pass (some (randomToken env.drawn)) env.clock.instant ∈
      Auth.sinceRestart (auths (h ++ (out ++ h'))) := by
    rw [auths_append, auths_append, hissued, ← List.append_assoc,
      Auth.sinceRestart_append (run_not_restarted hlater hkept),
      Auth.sinceRestart_concat (by simp)]
    simp
  rw [hexpires] at hlt
  obtain ⟨expiry, hexpiry, hlater'⟩ := hsessions.complete _ _ _ _ hlive hlt
  have haccepted : (m₂.validate d (randomToken env.drawn) env').2 = true :=
    validate_of_session hexpiry (Nat.lt_of_lt_of_le hlt hlater')
  have hstep : step d m₂ (.request (some (utf8 (bearerPrefix ++ randomToken env.drawn))) route
      env') = some (m₂.request d _ route env') := if_neg (Nat.not_lt.mpr hle)
  rcases request_cases hprotected (bearerToken_randomToken env.drawn) hstep with
    ⟨-, hadmitted⟩ | ⟨hrefused, -⟩
  · exact ⟨_, _, hstep, hadmitted⟩
  · cases haccepted.symm.trans hrefused

/-- A user who deletes himself stays admitted. -/
theorem Sample.deleted_user_admitted :
    ∃ m₂ h m₃ out, (machine deployment).run booted
        [.request none (.login ['b'] ['p']) (around 1),
          .request (some (utf8 (bearerPrefix ++ randomToken (around 1).drawn)))
            (.deleteUser ['b']) (around 2), .resume 0 (around 3)] = some (m₂, h) ∧
      m₂.auth.users.rows = [] ∧
      step deployment m₂ (.request
        (some (utf8 (bearerPrefix ++ randomToken (around 1).drawn))) .listTokens
        (around Denis.sessionTtl)) = some (m₃, out) ∧
      .admitted (randomToken (around 1).drawn) .listTokens ∈ out := by
  obtain ⟨m₁, out, m₂, h', hlogin, hanswer, hlater, hrows, hnow⟩ :
      ∃ m₁ out m₂ h', step deployment booted
          (.request none (.login ['b'] ['p']) (around 1)) = some (m₁, out) ∧
        .answered none (.login ['b'] ['p'])
          (.ok (.login (randomToken (around 1).drawn) 86400)) ∈ out ∧
        (machine deployment).run m₁
          [.request (some (utf8 (bearerPrefix ++ randomToken (around 1).drawn)))
            (.deleteUser ['b']) (around 2), .resume 0 (around 3)] = some (m₂, h') ∧
        m₂.auth.users.rows = [] ∧ m₂.auth.now ≤ (around Denis.sessionTtl).clock.instant :=
    ⟨_, _, _, _, rfl, .tail _ (.head _), rfl, rfl, by decide⟩
  have hbegun := Machine.run_nil (M := machine deployment) booted
  have hprotected : Route.isPublic .listTokens = false := rfl
  obtain ⟨m₃, out', hstep, hadmitted⟩ :=
    login_admits hbegun hlogin hanswer hlater (by simp) hnow (by decide) hprotected
  exact ⟨m₂, _, m₃, out', Machine.run_cons_eq_some.mpr ⟨m₁, out, h', hlogin, hlater, rfl⟩, hrows,
    hstep, hadmitted⟩

end Management

end Denis
