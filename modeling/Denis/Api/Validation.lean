import Denis.Api.Tokens

/-!
# `validate` over runs (`api/auth.rs`)

The two halves of what a client can rely on. Every answer of `validate` in a run
is the liveness of its string in the answers before it (`tracked_step`, over
runs). And no other answer depends on a call of `validate`: what it changes is
an expired session and `last_used`, which decide nothing (`SameView`), so a run
without the call goes through with the same answers.
-/

namespace Denis

open Text

namespace Auth

variable {crypto : Crypto}

/-- The tokens issued, by login and by `create_token`. -/
def issue? : AuthEvent → Option Str
  | .login _ _ token _ => token
  | .tokenCreated _ x _ => some x
  | _ => none

/-- All tokens issued, in order. -/
def issued (h : List AuthEvent) : List Str := h.filterMap issue?

/-! ## A call of `validate` left out -/

/-- A row without its last use. -/
def forgetUse (row : TokenRow) : TokenRow := { row with lastUsed := none }

/-- The session of a string, unless it has expired. -/
def liveAt (s : Auth) (now : Nat) (x : Str) : Option Nat :=
  (s.sessions x).filter (now < ·)

/-- Equal but for sessions that have expired and for last uses. -/
structure SameView (now : Nat) (s s' : Auth) : Prop where
  users : s'.users = s.users
  nextUser : s'.nextUser = s.nextUser
  nextToken : s'.nextToken = s.nextToken
  tokens : s'.apiTokens.rows.map forgetUse = s.apiTokens.rows.map forgetUse
  sessions : ∀ x, s'.liveAt now x = s.liveAt now x

section View

variable {s s' : Auth} {clock : AuthClock} {now : Nat}

theorem SameView.symm (h : SameView now s s') : SameView now s' s :=
  ⟨h.users.symm, h.nextUser.symm, h.nextToken.symm, h.tokens.symm, fun x => (h.sessions x).symm⟩

theorem SameView.trans {s'' : Auth} (h : SameView now s s') (h' : SameView now s' s'') :
    SameView now s s'' :=
  ⟨h'.users.trans h.users, h'.nextUser.trans h.nextUser, h'.nextToken.trans h.nextToken,
    h'.tokens.trans h.tokens, fun x => (h'.sessions x).trans (h.sessions x)⟩

/-- Later, less is live. -/
theorem liveAt_mono {now' : Nat} (hle : now ≤ now') (x : Str) :
    s.liveAt now' x = (s.liveAt now x).filter (now' < ·) := by
  unfold liveAt
  cases s.sessions x with
  | none => rfl
  | some expiry =>
    by_cases hlive : now' < expiry
    · have hlive' : now < expiry := Nat.lt_of_le_of_lt hle hlive
      simp [Option.filter, hlive, hlive']
    · by_cases hlive' : now < expiry <;> simp [Option.filter, hlive, hlive']

theorem SameView.mono {now' : Nat} (h : SameView now s s') (hle : now ≤ now') :
    SameView now' s s' :=
  ⟨h.users, h.nextUser, h.nextToken, h.tokens, fun x => by
    rw [liveAt_mono hle, liveAt_mono hle, h.sessions x]⟩

/-- The instants last read are not in the view. -/
theorem SameView.setNow (h : SameView now s s') (now₁ now₂ : Nat) :
    SameView now { s with now := now₁ } { s' with now := now₂ } :=
  ⟨h.users, h.nextUser, h.nextToken, h.tokens, h.sessions⟩

/-- The same sessions and other parts of the same view. -/
theorem SameView.of_sessions (husers : s'.users = s.users) (hnext : s'.nextUser = s.nextUser)
    (hnextToken : s'.nextToken = s.nextToken)
    (htokens : s'.apiTokens.rows.map forgetUse = s.apiTokens.rows.map forgetUse)
    (hsessions : s'.sessions = s.sessions) : SameView now s s' :=
  ⟨husers, hnext, hnextToken, htokens, fun x => by rw [liveAt, hsessions, liveAt]⟩

theorem forgetUse_validateToken (s : Auth) (token : Str) (clock : AuthClock) :
    (s.validateToken crypto token clock).1.apiTokens.rows.map forgetUse =
      s.apiTokens.rows.map forgetUse := by
  unfold validateToken
  split
  · show (s.apiTokens.rows.map _).map forgetUse = _
    rw [List.map_map]
    refine List.map_congr_left ?_
    intro row _
    show forgetUse (if _ then _ else _) = _
    split <;> rfl
  · rfl

/-- Looking up an API token leaves the view as it is. -/
theorem sameView_validateToken (s : Auth) (token : Str) (clock : AuthClock) :
    SameView now s (s.validateToken crypto token clock).1 := by
  obtain ⟨hsessions, -, -, hnext⟩ := @validateToken_keeps crypto s token clock
  refine .of_sessions ?_ ?_ hnext (forgetUse_validateToken ..) hsessions
  · unfold validateToken
    split <;> rfl
  · unfold validateToken
    split <;> rfl

/-- **`validate` leaves the view as it is**: what it removes has expired. -/
theorem sameView_validate (s : Auth) (token : Str) (clock : AuthClock) :
    SameView clock.instant s (s.validate crypto token clock).1 := by
  unfold validate
  split
  · next expiry hexpiry =>
    split
    · exact .of_sessions rfl rfl rfl rfl rfl
    · next hdead =>
      refine .trans ?_ (sameView_validateToken ..)
      refine ⟨rfl, rfl, rfl, rfl, ?_⟩
      intro x
      unfold liveAt
      by_cases hx : x = token
      · subst hx
        simp [hexpiry, Option.filter, hdead]
      · dsimp only
        rw [Function.update_of_ne hx]
  · exact sameView_validateToken ..

/-- What decides nothing by last uses is decided by the view. -/
theorem exists_row_iff {rows rows' : List TokenRow}
    (h : rows'.map forgetUse = rows.map forgetUse) {p : TokenRow → Prop}
    (hp : ∀ row, p (forgetUse row) ↔ p row) : (∃ row ∈ rows', p row) ↔ ∃ row ∈ rows, p row := by
  have hmap : ∀ rows : List TokenRow,
      (∃ row ∈ rows, p row) ↔ ∃ row ∈ rows.map forgetUse, p row := by
    intro rows
    simp [hp]
  rw [hmap rows, hmap rows', h]

/-- `validate`'s answer, from the view. -/
theorem validate_answer (s : Auth) (token : Str) (clock : AuthClock) :
    (s.validate crypto token clock).2 = true ↔
      (s.liveAt clock.instant token).isSome = true ∨
        ∃ row ∈ s.apiTokens.rows, row.tokenHash = crypto.sha256Hex token ∧
          row.unexpired clock.unix = true := by
  unfold validate liveAt
  cases s.sessions token with
  | none =>
    show (s.validateToken crypto token clock).2 = true ↔ _
    rw [validateToken_iff]
    simp
  | some expiry =>
    by_cases hlive : clock.instant < expiry
    · simp [hlive, Option.filter]
    · dsimp only
      rw [if_neg hlive, validateToken_iff]
      simp [hlive, Option.filter]

theorem SameView.validate (h : SameView clock.instant s s') (token : Str) :
    (s'.validate crypto token clock).2 = (s.validate crypto token clock).2 := by
  rw [Bool.eq_iff_iff, validate_answer, validate_answer, h.sessions]
  exact or_congr_right (exists_row_iff h.tokens fun _ => Iff.rfl)

/-- The hashes taken are in the view. -/
theorem SameView.keys (h : SameView now s s') : s'.apiTokens.keys = s.apiTokens.keys := by
  have hkeys : ∀ s : Auth,
      s.apiTokens.keys = (s.apiTokens.rows.map forgetUse).map TokenRow.tokenHash := by
    intro s
    rw [List.map_map]
    rfl
  rw [hkeys s, hkeys s', h.tokens]

/-- Deleting by id, and how many rows that takes, are decided by the view. -/
theorem SameView.revokeToken (h : SameView now s s') (id : Nat) :
    (s'.revokeToken id).2 = (s.revokeToken id).2 ∧
      SameView now (s.revokeToken id).1 (s'.revokeToken id).1 := by
  constructor
  · rw [Bool.eq_iff_iff, (revokeToken_spec s id).1, (revokeToken_spec s' id).1]
    exact exists_row_iff h.tokens fun _ => Iff.rfl
  · refine ⟨h.users, h.nextUser, h.nextToken, ?_, h.sessions⟩
    have hfilter : ∀ s : Auth, (s.revokeToken id).1.apiTokens.rows.map forgetUse =
        (s.apiTokens.rows.map forgetUse).filter fun row => !decide (row.id = id) := by
      intro s
      rw [List.filter_map]
      rfl
    rw [hfilter s, hfilter s', h.tokens]

/-- So is creating a token. -/
theorem SameView.createToken (h : SameView now s s') (name : Str) (ttlSecs : Option Int64)
    (token : Str) (clock : AuthClock) :
    (s'.createToken crypto name ttlSecs token clock).2 =
        (s.createToken crypto name ttlSecs token clock).2 ∧
      SameView now (s.createToken crypto name ttlSecs token clock).1
        (s'.createToken crypto name ttlSecs token clock).1 := by
  unfold Auth.createToken
  rw [h.nextToken]
  dsimp only
  generalize hrow : TokenRow.mk s.nextToken name _ _ _ _ = row
  cases hinsert : s.apiTokens.insert row with
  | none =>
    have hinsert' : s'.apiTokens.insert row = none := by
      rw [Table.insert_eq_none, h.keys, ← Table.insert_eq_none, hinsert]
    rw [hinsert']
    exact ⟨rfl, h⟩
  | some t =>
    cases hinsert' : s'.apiTokens.insert row with
    | none =>
      rw [Table.insert_eq_none, h.keys, ← Table.insert_eq_none, hinsert] at hinsert'
      cases hinsert'
    | some t' =>
      refine ⟨rfl, h.users, h.nextUser, rfl, ?_, h.sessions⟩
      show t'.rows.map forgetUse = t.rows.map forgetUse
      rw [(Table.insert_eq_some hinsert).2, (Table.insert_eq_some hinsert').2, List.map_append,
        List.map_append, h.tokens]

/-- A login reads the users only. -/
theorem SameView.login (h : SameView now s s') (crypto : Crypto) (user pass token : Str)
    (clock : AuthClock) :
    (s'.login crypto user pass token clock).2 = (s.login crypto user pass token clock).2 ∧
      SameView now (s.login crypto user pass token clock).1
        (s'.login crypto user pass token clock).1 := by
  unfold Auth.login
  rw [h.users]
  split
  · exact ⟨rfl, h⟩
  · split
    · refine ⟨rfl, rfl, h.nextUser, h.nextToken, h.tokens, ?_⟩
      intro x
      have hx := h.sessions x
      unfold liveAt at hx ⊢
      dsimp only
      by_cases hxt : x = token
      · subst hxt
        rw [Function.update_self, Function.update_self]
      · rw [Function.update_of_ne hxt, Function.update_of_ne hxt, hx]
    · exact ⟨rfl, h⟩

/-- So does inserting a user. -/
theorem SameView.insertUser (h : SameView now s s') (crypto : Crypto) (user pass salt : Str)
    (clock : AuthClock) :
    (s.insertUser crypto user pass salt clock = none ∧
        s'.insertUser crypto user pass salt clock = none) ∨
      ∃ t t', s.insertUser crypto user pass salt clock = some t ∧
        s'.insertUser crypto user pass salt clock = some t' ∧ SameView now t t' := by
  unfold Auth.insertUser
  rw [h.users, h.nextUser]
  split
  · exact .inl ⟨rfl, rfl⟩
  · exact .inr ⟨_, _, rfl, rfl, rfl, rfl, h.nextToken, h.tokens, h.sessions⟩

theorem SameView.createUser (h : SameView now s s') (crypto : Crypto) (user pass salt : Str)
    (clock : AuthClock) :
    (s'.createUser crypto user pass salt clock).2 = (s.createUser crypto user pass salt clock).2 ∧
      SameView now (s.createUser crypto user pass salt clock).1
        (s'.createUser crypto user pass salt clock).1 := by
  unfold Auth.createUser
  rcases h.insertUser crypto user pass salt clock with ⟨hs, hs'⟩ | ⟨t, t', hs, hs', hview⟩
  · rw [hs, hs']
    exact ⟨rfl, h⟩
  · rw [hs, hs']
    exact ⟨rfl, hview⟩

/-- And so does a restart, with no sessions left to tell apart. -/
theorem SameView.new (h : SameView now s s') (crypto : Crypto) (salt : Str) (clock : AuthClock) :
    SameView now (s.new crypto salt clock) (s'.new crypto salt clock) := by
  have hcleared : SameView now { s with sessions := fun _ => none }
      { s' with sessions := fun _ => none } :=
    ⟨h.users, h.nextUser, h.nextToken, h.tokens, fun _ => rfl⟩
  have husers : s'.users.size = s.users.size := by rw [h.users]
  unfold Auth.new
  dsimp only
  by_cases hnone : s.users.size = 0
  · rw [if_pos hnone, if_pos (husers.trans hnone)]
    rcases hcleared.insertUser crypto adminName adminName salt clock with
      ⟨hs, hs'⟩ | ⟨t, t', hs, hs', hview⟩
    · rw [hs, hs']
      exact hcleared
    · rw [hs, hs']
      exact hview
  · rw [if_neg hnone, if_neg fun hzero => hnone (husers.symm.trans hzero)]
    exact hcleared

/-- **A call answers, and changes the view, by the view.** -/
theorem SameView.perform (h : SameView clock.instant s s') (crypto : Crypto) (call : AuthCall) :
    (Auth.perform crypto s' clock call).2 = (Auth.perform crypto s clock call).2 ∧
      SameView clock.instant (Auth.perform crypto s clock call).1
        (Auth.perform crypto s' clock call).1 := by
  cases call with
  | login user pass token =>
    obtain ⟨hanswer, hview⟩ := h.login crypto user pass token clock
    exact ⟨congrArg (AuthEvent.login user pass · clock.instant) hanswer, hview⟩
  | validate token =>
    refine ⟨congrArg (AuthEvent.validated token clock.instant clock.unix) (h.validate token), ?_⟩
    exact (sameView_validate s token clock).symm.trans (h.trans (sameView_validate s' token clock))
  | createUser user pass salt =>
    obtain ⟨hanswer, hview⟩ := h.createUser crypto user pass salt clock
    exact ⟨congrArg (AuthEvent.userCreated user pass) hanswer, hview⟩
  | setPassword user pass salt =>
    show AuthEvent.passwordSet user pass (s'.setPassword crypto user pass salt).2 =
        AuthEvent.passwordSet user pass (s.setPassword crypto user pass salt).2 ∧
      SameView _ (s.setPassword crypto user pass salt).1 (s'.setPassword crypto user pass salt).1
    unfold setPassword
    rw [h.users]
    exact ⟨rfl, rfl, h.nextUser, h.nextToken, h.tokens, h.sessions⟩
  | deleteUser user =>
    show AuthEvent.userDeleted user (s'.deleteUser user).2 =
        AuthEvent.userDeleted user (s.deleteUser user).2 ∧
      SameView _ (s.deleteUser user).1 (s'.deleteUser user).1
    unfold deleteUser
    rw [h.users]
    exact ⟨rfl, rfl, h.nextUser, h.nextToken, h.tokens, h.sessions⟩
  | createToken name ttlSecs token => exact h.createToken name ttlSecs token clock
  | revokeToken id =>
    obtain ⟨hanswer, hview⟩ := h.revokeToken id
    exact ⟨congrArg (AuthEvent.tokenRevoked id) hanswer, hview⟩
  | restart salt => exact ⟨rfl, h.new crypto salt clock⟩

/-- A step taken where the clock has come further is taken, with the same
answer, where the view is the same. -/
theorem sameView_step {input : AuthInput} {t : Auth} {out : List AuthEvent}
    (h : s'.now ≤ s.now ∧ SameView s.now s s') (hstep : step crypto s input = some (t, out)) :
    ∃ t', step crypto s' input = some (t', out) ∧ t'.now ≤ t.now ∧ SameView t.now t t' := by
  obtain ⟨hle, event, hperform, rfl⟩ := step_eq_some hstep
  have hview := (h.2.mono hle).setNow input.clock.instant input.clock.instant
  obtain ⟨hanswer, hafter⟩ := hview.perform crypto input.call
  have hnow := @perform_now crypto { s with now := input.clock.instant } input.clock input.call
  have hnow' := @perform_now crypto { s' with now := input.clock.instant } input.clock input.call
  rw [hperform] at hanswer hafter hnow
  refine ⟨_, ?_, Nat.le_of_eq (hnow'.trans hnow.symm), ?_⟩
  · rw [step_of_le (Nat.le_trans h.1 hle), hanswer]
  · rw [show t.now = input.clock.instant from hnow]
    exact hafter

/-- Leaving out a call of `validate` leaves the view of the state after it. -/
theorem sameView_left_out {token : Str} {t : Auth} {out : List AuthEvent}
    (hstep : step crypto s ⟨.validate token, clock⟩ = some (t, out)) :
    (∃ accepted, out = [.validated token clock.instant clock.unix accepted]) ∧
      s.now ≤ t.now ∧ SameView t.now t s := by
  obtain ⟨hle, event, hperform, rfl⟩ := step_eq_some hstep
  have hview := @sameView_validate crypto { s with now := clock.instant } token clock
  have hnow := @perform_now crypto { s with now := clock.instant } clock (.validate token)
  rw [hperform] at hnow
  obtain ⟨hstate, hevent⟩ := Prod.mk.inj hperform
  refine ⟨⟨_, congrArg (fun e => [e]) hevent.symm⟩, ?_, ?_⟩
  · rw [show t.now = clock.instant from hnow]
    exact hle
  · rw [show t.now = clock.instant from hnow, ← hstate]
    exact hview.symm.setNow _ s.now

/-- **A call of `validate` is unobservable**: the run without it goes through
with the same other answers. -/
theorem validate_unobservable {pre post : List AuthInput} {token : Str} {t : Auth}
    {outs : List AuthEvent}
    (hrun : (machine crypto).run s (pre ++ ⟨.validate token, clock⟩ :: post) = some (t, outs)) :
    ∃ t' before accepted after,
      outs = before ++ .validated token clock.instant clock.unix accepted :: after ∧
        (machine crypto).run s (pre ++ post) = some (t', before ++ after) := by
  obtain ⟨m, before, rest, hpre, hlater, rfl⟩ := Machine.run_append.mp hrun
  obtain ⟨m', out, after, hstep, hpost, rfl⟩ := Machine.run_cons_eq_some.mp hlater
  obtain ⟨⟨accepted, rfl⟩, hview⟩ := sameView_left_out hstep
  obtain ⟨t', hpost', -⟩ := Machine.run_simulation (M := machine crypto)
    (R := fun s s' => s'.now ≤ s.now ∧ SameView s.now s s')
    (fun _ _ _ _ _ h hs => sameView_step h hs) hview hpost
  exact ⟨t', before, accepted, after, rfl,
    Machine.run_append.mpr ⟨m, before, after, hpre, hpost', rfl⟩⟩

end View

/-! ## Every answer -/

section Answers

variable {users : Table UserRow.username} {nextUser now : Nat} {es : List AuthInput} {t : Auth}
  {outs : List AuthEvent}

theorem tracked_run
    (hrun : (machine crypto).run (boot users nextUser now) es = some (t, outs)) :
    Tracked crypto outs t :=
  Machine.run_history (M := machine crypto) (C := fun _ _ => True) (J := Tracked crypto)
    (fun _ _ _ _ _ hs _ hstep => tracked_step hs hstep) (h := []) (tracked_boot ..)
    (Machine.along_true _ _) hrun

/-- Tokens issued are hashed, and so are the strings validated. -/
theorem collisionFree_of_injOn {before after : List AuthEvent} {x : Str} {at' : Nat}
    {unix : Int64} {accepted : Bool}
    (hfree : Set.InjOn crypto.sha256Hex
      {y | y ∈ hashed (before ++ .validated x at' unix accepted :: after)}) :
    CollisionFree crypto before x := by
  intro id y e hc hhash
  refine hfree ?_ ?_ hhash
  · exact List.mem_filterMap.mpr ⟨_, List.mem_append_left _ hc, rfl⟩
  · exact List.mem_filterMap.mpr ⟨_, List.mem_append_right _ (List.mem_cons_self ..), rfl⟩

/-- **An answer is the liveness of the string** in the answers before it. -/
theorem validated_iff_live
    (hrun : (machine crypto).run (boot users nextUser now) es = some (t, outs))
    (hfree : Set.InjOn crypto.sha256Hex {x | x ∈ hashed outs})
    {before after : List AuthEvent} {x : Str} {at' : Nat} {unix : Int64} {accepted : Bool}
    (hsplit : outs = before ++ .validated x at' unix accepted :: after) :
    accepted = true ↔ LiveSession before x at' ∨ LiveToken before x unix := by
  refine (tracked_run hrun).explained before _ after hsplit ?_
  rw [hsplit] at hfree
  exact collisionFree_of_injOn hfree

/-- Of distinct tokens each is issued in one event. -/
theorem eq_of_issued {h : List AuthEvent} (hdistinct : (issued h).Nodup) {e e' : AuthEvent}
    (he : e ∈ h) (he' : e' ∈ h) {x : Str} (hx : issue? e = some x) (hx' : issue? e' = some x) :
    e = e' := by
  induction h with
  | nil => cases he
  | cons a h ih =>
    unfold issued at hdistinct
    rw [List.filterMap_cons] at hdistinct
    -- the token is not issued again after the event that issues it
    have hhead : ∀ {e'}, issue? a = some x → e' ∈ h → issue? e' ≠ some x := by
      intro e' ha he' hx'
      rw [ha] at hdistinct
      exact (List.nodup_cons.mp hdistinct).1 (List.mem_filterMap.mpr ⟨e', he', hx'⟩)
    have htail : (issued h).Nodup := by
      split at hdistinct
      · exact hdistinct
      · exact (List.nodup_cons.mp hdistinct).2
    rcases List.mem_cons.mp he with rfl | hmem
    · rcases List.mem_cons.mp he' with rfl | hmem'
      · rfl
      · exact absurd hx' (hhead hx hmem')
    · rcases List.mem_cons.mp he' with rfl | hmem'
      · exact absurd hx (hhead hx' hmem)
      · exact ih htail hmem hmem'

/-- **`validate` accepts exactly the live tokens.** In every run from a start on
a database without API tokens, with issued tokens distinct and no collision
among the strings hashed:

- each answer is yes iff the string was issued by a login since the last
  restart less than `SESSION_TTL` before, or by `create_token` in a row not
  revoked whose stored expiry is null or later than now;
- a token that was revoked is never accepted again;
- leaving out one call of `validate` changes no other answer. -/
theorem validate_exact
    (hrun : (machine crypto).run (boot users nextUser now) es = some (t, outs))
    (hdistinct : (issued outs).Nodup) (hfree : Set.InjOn crypto.sha256Hex {x | x ∈ hashed outs}) :
    (∀ before x at' unix accepted after,
        outs = before ++ .validated x at' unix accepted :: after →
        (accepted = true ↔ LiveSession before x at' ∨ LiveToken before x unix)) ∧
      (∀ before x at' unix accepted after id e,
        outs = before ++ .validated x at' unix accepted :: after →
        .tokenCreated id x e ∈ before → .tokenRevoked id true ∈ before → accepted = false) ∧
      (∀ pre x clock post, es = pre ++ ⟨.validate x, clock⟩ :: post →
        ∃ t' before accepted after,
          outs = before ++ .validated x clock.instant clock.unix accepted :: after ∧
            (machine crypto).run (boot users nextUser now) (pre ++ post) =
              some (t', before ++ after)) := by
  refine ⟨?_, ?_, ?_⟩
  · intro before x at' unix accepted after hsplit
    exact validated_iff_live hrun hfree hsplit
  · intro before x at' unix accepted after id e hsplit hcreated hrevoked
    have hmem : ∀ {event : AuthEvent}, event ∈ before → event ∈ outs := by
      intro event hevent
      rw [hsplit]
      exact List.mem_append_left _ hevent
    rw [← Bool.not_eq_true, validated_iff_live hrun hfree hsplit]
    rintro (⟨user, pass, at'', hlogin, -⟩ | ⟨id', e', hcreated', hnot, -⟩)
    · -- its one issue is by `create_token`
      cases eq_of_issued hdistinct (hmem (mem_of_sinceRestart hlogin)) (hmem hcreated) rfl rfl
    · cases eq_of_issued hdistinct (hmem hcreated') (hmem hcreated) rfl rfl
      exact hnot hrevoked
  · intro pre x clock post hsplit
    rw [hsplit] at hrun
    exact validate_unobservable hrun

/-- A session and an API token, validated while live and after the restart and
the revocation. -/
theorem session_and_token_validated :
    let es : List AuthInput := [⟨.restart [], 0, 50⟩, ⟨.login adminName adminName ['s'], 1, 50⟩,
      ⟨.createToken ['c', 'i'] (some 60) ['t'], 2, 50⟩, ⟨.validate ['s'], 3, 51⟩,
      ⟨.revokeToken 1, 4, 52⟩, ⟨.restart [], 5, 53⟩, ⟨.validate ['s'], 6, 53⟩,
      ⟨.validate ['t'], 7, 53⟩]
    let outs : List AuthEvent := [.restarted, .login adminName adminName (some ['s']) 1,
      .tokenCreated 1 ['t'] (some 110), .validated ['s'] 3 51 true, .tokenRevoked 1 true,
      .restarted, .validated ['s'] 6 53 false, .validated ['t'] 7 53 false]
    ∃ t, (machine Sample.crypto).run (boot (.empty _) 1 0) es = some (t, outs) ∧
      LiveSession (outs.take 3) ['s'] 3 ∧ ¬ LiveSession (outs.take 6) ['s'] 6 ∧
      ∃ t' before accepted after,
        outs = before ++ .validated ['s'] 3 51 accepted :: after ∧
          (machine Sample.crypto).run (boot (.empty _) 1 0) (es.take 3 ++ es.drop 4) =
            some (t', before ++ after) := by
  intro es outs
  obtain ⟨⟨t, _⟩, hrun, rfl⟩ := Option.map_eq_some_iff.mp
    (show ((machine Sample.crypto).run (boot (.empty _) 1 0) es).map Prod.snd = some outs by
      decide +kernel)
  obtain ⟨hanswers, -, hleft⟩ := validate_exact hrun (by decide)
    Sample.sha256Hex_injective.injOn
  refine ⟨t, hrun, ?_, ?_, hleft (es.take 3) ['s'] ⟨3, 51⟩ (es.drop 4) rfl⟩
  · rcases (hanswers (outs.take 3) _ _ _ _ (outs.drop 4) rfl).mp rfl with hlive | htoken
    · exact hlive
    · obtain ⟨id, e, hcreated, -⟩ := htoken
      simp [outs] at hcreated
  · intro hlive
    cases (hanswers (outs.take 6) _ _ _ _ (outs.drop 7) rfl).mpr (.inl hlive)

end Answers

end Auth

end Denis
