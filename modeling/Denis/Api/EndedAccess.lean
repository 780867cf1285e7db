import Denis.Api.Validation

/-!
# Sessions after a change of credentials (`api/auth.rs`)

`set_password` and `delete_user` write the table of users; `validate` reads the
session map, which keeps a token and an expiry but no user. So a change of
credentials ends no session. A session token of a user whose password has been
set, or who has been deleted, is accepted until it expires or the service
restarts, and `access_ended_iff` says that nothing else ends it.

`revoke_token` does end what it revokes: it deletes the row that `validate`
reads.
-/

namespace Denis

open Text

namespace Auth

/-! ## The history since an event -/

theorem sinceRestart_append {h rest : List AuthEvent} (hrest : .restarted ∉ rest) :
    sinceRestart (h ++ rest) = sinceRestart h ++ rest := by
  induction rest using List.reverseRecOn with
  | nil => simp
  | append_singleton rest event ih =>
    rw [List.mem_append, List.mem_singleton, not_or] at hrest
    rw [← List.append_assoc, sinceRestart_concat (Ne.symm hrest.2), ih hrest.1,
      List.append_assoc]

/-- A restart leaves only what comes after it. -/
theorem mem_of_sinceRestart_append {h rest : List AuthEvent} {event : AuthEvent}
    (hrest : .restarted ∈ rest) (hmem : event ∈ sinceRestart (h ++ rest)) : event ∈ rest := by
  induction rest using List.reverseRecOn with
  | nil => cases hrest
  | append_singleton rest last ih =>
    rw [← List.append_assoc] at hmem
    by_cases hlast : last = .restarted
    · subst hlast
      rw [sinceRestart_restarted] at hmem
      cases hmem
    · rw [sinceRestart_concat hlast] at hmem
      rcases List.mem_append.mp hmem with hmem | hmem
      · refine List.mem_append_left _ (ih ?_ hmem)
        exact (List.mem_append.mp hrest).resolve_right fun hm =>
          hlast (List.mem_singleton.mp hm).symm
      · exact List.mem_append_right _ hmem

/-- An event that does not come again is one of those since the last restart iff
no restart follows it. -/
theorem mem_sinceRestart_append_cons {h rest : List AuthEvent} {event : AuthEvent}
    (hne : event ≠ .restarted) (honce : event ∉ rest) :
    event ∈ sinceRestart (h ++ event :: rest) ↔ .restarted ∉ rest := by
  rw [← List.singleton_append, ← List.append_assoc]
  constructor
  · intro hmem hrestart
    exact honce (mem_of_sinceRestart_append hrestart hmem)
  · intro hrest
    rw [sinceRestart_append hrest, sinceRestart_concat hne]
    simp

/-! ## Checks of ended sessions -/

/-- The answers that end a user's access: the password set, or the user
deleted. -/
def Ends (user : Str) : AuthEvent → Prop
  | .passwordSet u _ found => u = user ∧ found = true
  | .userDeleted u found => u = user ∧ found = true
  | _ => False

/-- A check of a session token that a login issued to a user whose credentials
were then changed. -/
structure StaleCheck (outs : List AuthEvent) where
  before : List AuthEvent
  user : Str
  pass : Str
  token : Str
  loginAt : Nat
  toEnd : List AuthEvent
  ending : AuthEvent
  ends : Ends user ending
  toCheck : List AuthEvent
  checkedAt : Nat
  unix : Int64
  accepted : Bool
  after : List AuthEvent
  split : outs = before ++ .login user pass (some token) loginAt ::
    (toEnd ++ ending :: (toCheck ++ .validated token checkedAt unix accepted :: after))

variable {crypto : Crypto} {users : Table UserRow.username} {nextUser now : Nat}
  {es : List AuthInput} {t : Auth} {outs : List AuthEvent}

namespace StaleCheck

variable (c : StaleCheck outs)

/-- The login whose token is checked. -/
def login : AuthEvent := .login c.user c.pass (some c.token) c.loginAt

/-- The answers between the login and the check. -/
def between : List AuthEvent := c.toEnd ++ c.ending :: c.toCheck

theorem split_check : outs = (c.before ++ c.login :: c.between) ++
    .validated c.token c.checkedAt c.unix c.accepted :: c.after := by
  refine c.split.trans ?_
  simp [login, between]

theorem mem_iff {event : AuthEvent} :
    event ∈ outs ↔ event ∈ (c.before ++ c.login :: c.between) ++
      .validated c.token c.checkedAt c.unix c.accepted :: c.after :=
  .of_eq (congrArg (event ∈ ·) c.split_check)

theorem login_mem : c.login ∈ outs := c.mem_iff.mpr (by simp)

/-- The login is not among the answers after it: its token is issued once. -/
theorem login_notMem_between (hdistinct : (issued outs).Nodup) : c.login ∉ c.between := by
  intro hmem
  rw [c.split_check, issued, List.filterMap_append, List.filterMap_append] at hdistinct
  have hlogin := (List.nodup_append.mp (List.nodup_append.mp hdistinct).1).2.1
  rw [List.filterMap_cons, show issue? c.login = some c.token from rfl] at hlogin
  exact (List.nodup_cons.mp hlogin).1 (List.mem_filterMap.mpr ⟨c.login, hmem, rfl⟩)

/-- What ends access is not a restart. -/
theorem restarted_mem_between :
    .restarted ∈ c.between ↔ .restarted ∈ c.toEnd ++ c.toCheck := by
  have hne : AuthEvent.restarted ≠ c.ending := by
    intro heq
    have hends := c.ends
    rw [← heq] at hends
    exact hends
  simp [between, hne]

/-- **An ended session is accepted iff it is not over**: no restart since the
login, and less than `SESSION_TTL` passed. -/
theorem accepted_iff (hrun : (machine crypto).run (boot users nextUser now) es = some (t, outs))
    (hdistinct : (issued outs).Nodup) (hfree : Set.InjOn crypto.sha256Hex {x | x ∈ hashed outs}) :
    c.accepted = true ↔
      .restarted ∉ c.toEnd ++ c.toCheck ∧ c.checkedAt < c.loginAt + sessionTtl := by
  rw [validated_iff_live hrun hfree c.split_check, ← c.restarted_mem_between,
    ← mem_sinceRestart_append_cons (h := c.before) (show c.login ≠ .restarted by simp [login])
      (c.login_notMem_between hdistinct)]
  -- every event that issues the token is the login
  have hone : ∀ {event : AuthEvent}, event ∈ c.before ++ c.login :: c.between →
      issue? event = some c.token → event = c.login := by
    intro event hmem hissue
    exact eq_of_issued hdistinct (c.mem_iff.mpr (List.mem_append_left _ hmem)) c.login_mem
      hissue rfl
  constructor
  · rintro (⟨user, pass, at', hmem, hlt⟩ | ⟨id, e, hcreated, -⟩)
    · have heq := hone (mem_of_sinceRestart hmem) rfl
      obtain ⟨-, -, -, rfl⟩ := AuthEvent.login.inj heq
      exact ⟨heq ▸ hmem, hlt⟩
    · cases hone hcreated rfl
  · rintro ⟨hmem, hlt⟩
    exact .inl ⟨c.user, c.pass, c.loginAt, hmem, hlt⟩

end StaleCheck

/-- **Ended sessions are refused** in a run iff each is checked only after a
restart since its login, or when its `SESSION_TTL` is over. -/
theorem access_ended_iff
    (hrun : (machine crypto).run (boot users nextUser now) es = some (t, outs))
    (hdistinct : (issued outs).Nodup) (hfree : Set.InjOn crypto.sha256Hex {x | x ∈ hashed outs}) :
    (∀ c : StaleCheck outs, c.accepted = false) ↔
      ∀ c : StaleCheck outs,
        .restarted ∈ c.toEnd ++ c.toCheck ∨ c.loginAt + sessionTtl ≤ c.checkedAt := by
  refine forall_congr' ?_
  intro c
  rw [← Bool.not_eq_true, c.accepted_iff hrun hdistinct hfree, not_and_or, not_not, Nat.not_lt]

/-- The session of a deleted user, checked when a day has passed. -/
theorem expired_session_refused :
    let es : List AuthInput := [⟨.restart [], 0, 50⟩, ⟨.login adminName adminName ['s'], 1, 50⟩,
      ⟨.deleteUser adminName, 2, 50⟩, ⟨.validate ['s'], 1 + sessionTtl, 51⟩]
    ∃ t outs, (machine Sample.crypto).run (boot (.empty _) 1 0) es = some (t, outs) ∧
      Nonempty (StaleCheck outs) ∧ ∀ c : StaleCheck outs, c.accepted = false := by
  intro es
  obtain ⟨⟨t, outs⟩, hrun, rfl⟩ := Option.map_eq_some_iff.mp
    (show ((machine Sample.crypto).run (boot (.empty _) 1 0) es).map Prod.snd =
      some [.restarted, .login adminName adminName (some ['s']) 1, .userDeleted adminName true,
        .validated ['s'] (1 + sessionTtl) 51 false] by decide +kernel)
  refine ⟨t, _, hrun, ⟨⟨[.restarted], adminName, adminName, ['s'], 1, [],
    .userDeleted adminName true, ⟨rfl, rfl⟩, [], _, _, _, [], rfl⟩⟩, ?_⟩
  refine (access_ended_iff hrun (by decide) Sample.sha256Hex_injective.injOn).mpr ?_
  -- there is one login and one check
  intro c
  have hlogin := c.login_mem
  have hcheck : AuthEvent.validated c.token c.checkedAt c.unix c.accepted ∈ _ :=
    c.mem_iff.mpr (by simp)
  simp only [StaleCheck.login, List.mem_cons, reduceCtorEq, AuthEvent.login.injEq,
    AuthEvent.validated.injEq, List.not_mem_nil, false_or, or_false] at hlogin hcheck
  exact .inr (by omega)

/-- **A deleted user's session is accepted**: the default user logs in and is
deleted, and the token still opens the API. -/
theorem deleted_user_keeps_session : ∃ es t outs,
    (machine Sample.crypto).run (boot (.empty _) 1 0) es = some (t, outs) ∧
      (issued outs).Nodup ∧ ¬ ∀ c : StaleCheck outs, c.accepted = false := by
  obtain ⟨⟨t, outs⟩, hrun, rfl⟩ := Option.map_eq_some_iff.mp
    (show ((machine Sample.crypto).run (boot (.empty _) 1 0)
        [⟨.restart [], 0, 50⟩, ⟨.login adminName adminName ['s'], 1, 50⟩,
          ⟨.deleteUser adminName, 2, 50⟩, ⟨.validate ['s'], 3, 51⟩]).map Prod.snd =
      some [.restarted, .login adminName adminName (some ['s']) 1, .userDeleted adminName true,
        .validated ['s'] 3 51 true] by decide +kernel)
  refine ⟨_, t, _, hrun, by decide, ?_⟩
  intro hall
  cases hall ⟨[.restarted], adminName, adminName, ['s'], 1, [], .userDeleted adminName true,
    ⟨rfl, rfl⟩, [], 3, 51, true, [], rfl⟩

end Auth

end Denis
