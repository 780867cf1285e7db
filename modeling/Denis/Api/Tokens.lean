import Denis.Api.Auth
import Mathlib.Data.List.DropRight

/-!
# What `validate` accepts (`api/auth.rs`)

The specification is the history of answers. A string is live at a call of
`validate` if a login issued it since the last restart, less than `SESSION_TTL`
ago (`LiveSession`), or if a call of `create_token` issued it, its row was not
revoked, and the expiry stored with it is null or later than now (`LiveToken`).

The state keeps what is needed to decide this: `Sessions` and `Tokens` tie the
map and the table to the history. The map may lack a session that has expired
(`validate` removes it, a later login replaces it), never a live one. Each kind
of change has its lemma; `validate_iff` reads the answer off both invariants.
-/

namespace Denis

open Text

namespace Auth

/-! ## Liveness, of the history -/

/-- The answers since the last restart. -/
def sinceRestart (h : List AuthEvent) : List AuthEvent := h.rtakeWhile (· ≠ .restarted)

/-- A login since the last restart issued `x`, less than `SESSION_TTL` before
`t`. -/
def LiveSession (h : List AuthEvent) (x : Str) (t : Nat) : Prop :=
  ∃ user pass at', .login user pass (some x) at' ∈ sinceRestart h ∧ t < at' + sessionTtl

/-- `create_token` issued `x`, in a row that has not been revoked and whose
expiry is null or later than `unix`. -/
def LiveToken (h : List AuthEvent) (x : Str) (unix : Int64) : Prop :=
  ∃ id expiresAt, .tokenCreated id x expiresAt ∈ h ∧ .tokenRevoked id true ∉ h ∧
    ∀ expiry ∈ expiresAt, unix < expiry

/-- The strings hashed: those `create_token` issued and those validated. -/
def hashed (h : List AuthEvent) : List Str :=
  h.filterMap fun
    | .tokenCreated _ x _ => some x
    | .validated x _ _ _ => some x
    | _ => none

@[simp] theorem sinceRestart_restarted (h : List AuthEvent) :
    sinceRestart (h ++ [.restarted]) = [] := by
  rw [sinceRestart, List.rtakeWhile_concat_neg _ _ _ (by simp)]

theorem sinceRestart_concat {h : List AuthEvent} {event : AuthEvent} (hne : event ≠ .restarted) :
    sinceRestart (h ++ [event]) = sinceRestart h ++ [event] := by
  rw [sinceRestart, List.rtakeWhile_concat_pos _ _ _ (by simpa using hne), sinceRestart]

theorem mem_of_sinceRestart {h : List AuthEvent} {event : AuthEvent}
    (hmem : event ∈ sinceRestart h) : event ∈ h :=
  (List.rtakeWhile_suffix _ _).mem hmem

/-- Any event but a restart and a successful login adds no session. -/
theorem mem_sinceRestart_concat {h : List AuthEvent} {event : AuthEvent} {user pass x : Str}
    {at' : Nat} (hne : event ≠ .restarted)
    (hother : ∀ user pass x at', event ≠ .login user pass (some x) at') :
    .login user pass (some x) at' ∈ sinceRestart (h ++ [event]) ↔
      .login user pass (some x) at' ∈ sinceRestart h := by
  rw [sinceRestart_concat hne, List.mem_append, List.mem_singleton]
  exact or_iff_left (hother user pass x at').symm

theorem TokenRow.unexpired_iff {row : TokenRow} {unix : Int64} :
    row.unexpired unix = true ↔ ∀ expiry ∈ row.expiresAt, unix < expiry := by
  unfold TokenRow.unexpired
  split
  · next hnone => simp [hnone]
  · next expiry hsome => simp [hsome]

/-! ## What the state keeps of the history -/

/-- The session map: what it holds was issued since the last restart, and what
was issued since and has not expired is in it. -/
structure Sessions (h : List AuthEvent) (s : Auth) : Prop where
  past : ∀ user pass x at', .login user pass (some x) at' ∈ h → at' ≤ s.now
  sound : ∀ x expiry, s.sessions x = some expiry →
    ∃ user pass at', .login user pass (some x) at' ∈ sinceRestart h ∧ expiry = at' + sessionTtl
  complete : ∀ user pass x at', .login user pass (some x) at' ∈ sinceRestart h →
    s.now < at' + sessionTtl → ∃ expiry, s.sessions x = some expiry ∧ at' + sessionTtl ≤ expiry

/-- The table of tokens: its rows are those created and not revoked. -/
structure Tokens (crypto : Crypto) (h : List AuthEvent) (s : Auth) : Prop where
  created : ∀ id x e, .tokenCreated id x e ∈ h → id < s.nextToken
  revoked : ∀ id, .tokenRevoked id true ∈ h → id < s.nextToken
  sound : ∀ row ∈ s.apiTokens.rows, .tokenRevoked row.id true ∉ h ∧
    ∃ x, .tokenCreated row.id x row.expiresAt ∈ h ∧ row.tokenHash = crypto.sha256Hex x
  complete : ∀ id x e, .tokenCreated id x e ∈ h → .tokenRevoked id true ∉ h →
    ∃ row ∈ s.apiTokens.rows,
      row.id = id ∧ row.expiresAt = e ∧ row.tokenHash = crypto.sha256Hex x

section Invariants

variable {crypto : Crypto} {h : List AuthEvent} {s s' : Auth} {clock : AuthClock}
  {event : AuthEvent}

/-- The clock moving on loses no live session. -/
theorem Sessions.advance (hs : Sessions h s) {now : Nat} (hle : s.now ≤ now) :
    Sessions h { s with now } where
  past user pass x at' hmem := Nat.le_trans (hs.past user pass x at' hmem) hle
  sound := hs.sound
  complete user pass x at' hmem hlive :=
    hs.complete user pass x at' hmem (Nat.lt_of_le_of_lt hle hlive)

/-- The logins known stay in the past if the new one, if any, is. -/
theorem Sessions.past_concat (hs : Sessions h s) (hnow : s'.now = s.now)
    (hlogin : ∀ user pass x at', event = .login user pass (some x) at' → at' ≤ s.now) :
    ∀ user pass x at', .login user pass (some x) at' ∈ h ++ [event] → at' ≤ s'.now := by
  intro user pass x at' hmem
  rw [hnow]
  rcases List.mem_append.mp hmem with hmem | hmem
  · exact hs.past user pass x at' hmem
  · exact hlogin user pass x at' (List.mem_singleton.mp hmem).symm

/-- A call that leaves the map alone. -/
theorem Sessions.keep (hs : Sessions h s) (hnow : s'.now = s.now)
    (hsessions : s'.sessions = s.sessions) (hrestart : event ≠ .restarted)
    (hlogin : ∀ user pass x at', event ≠ .login user pass (some x) at') :
    Sessions (h ++ [event]) s' := by
  refine ⟨?_, ?_, ?_⟩
  · exact hs.past_concat hnow fun user pass x at' heq => absurd heq (hlogin user pass x at')
  · intro x expiry hx
    rw [hsessions] at hx
    obtain ⟨user, pass, at', hmem, rfl⟩ := hs.sound x expiry hx
    exact ⟨user, pass, at', (mem_sinceRestart_concat hrestart hlogin).mpr hmem, rfl⟩
  · intro user pass x at' hmem hlive
    rw [hsessions]
    exact hs.complete user pass x at' ((mem_sinceRestart_concat hrestart hlogin).mp hmem)
      (hnow ▸ hlive)

/-- A login that issues `x`. -/
theorem Sessions.issue (hs : Sessions h s) (hclock : clock.instant = s.now)
    (hnow : s'.now = s.now) (user pass x : Str)
    (hsessions : s'.sessions = Function.update s.sessions x (some (clock.instant + sessionTtl))) :
    Sessions (h ++ [.login user pass (some x) clock.instant]) s' := by
  have hconcat : sinceRestart (h ++ [.login user pass (some x) clock.instant]) =
      sinceRestart h ++ [.login user pass (some x) clock.instant] :=
    sinceRestart_concat (by simp)
  have hpast : ∀ user' pass' x' at',
      .login user' pass' (some x') at' ∈ h ++ [.login user pass (some x) clock.instant] →
        at' ≤ s'.now := by
    refine hs.past_concat hnow ?_
    intro user' pass' x' at' heq
    obtain ⟨-, -, -, rfl⟩ := AuthEvent.login.inj heq
    exact Nat.le_of_eq hclock
  refine ⟨hpast, ?_, ?_⟩
  · intro x' expiry hx'
    rw [hsessions] at hx'
    rw [hconcat]
    by_cases hxx : x' = x
    · subst hxx
      rw [Function.update_self] at hx'
      exact ⟨user, pass, clock.instant, by simp, (Option.some.inj hx').symm⟩
    · rw [Function.update_of_ne hxx] at hx'
      obtain ⟨user', pass', at', hmem, rfl⟩ := hs.sound x' expiry hx'
      exact ⟨user', pass', at', List.mem_append_left _ hmem, rfl⟩
  · intro user' pass' x' at' hmem hlive
    rw [hsessions]
    by_cases hxx : x' = x
    · -- the session issued now outlives any earlier one of the string
      subst hxx
      have hle := hpast user' pass' x' at' (mem_of_sinceRestart hmem)
      exact ⟨_, Function.update_self .., by omega⟩
    · rw [hconcat] at hmem
      rw [Function.update_of_ne hxx]
      rcases List.mem_append.mp hmem with hmem | hmem
      · exact hs.complete user' pass' x' at' hmem (hnow ▸ hlive)
      · obtain ⟨-, -, hx, -⟩ := AuthEvent.login.inj (List.mem_singleton.mp hmem)
        exact absurd (Option.some.inj hx) hxx

/-- A call of `validate` that removes an expired session. -/
theorem Sessions.expire (hs : Sessions h s) (hclock : clock.instant = s.now)
    (hnow : s'.now = s.now) {x : Str} {expiry : Nat} (hx : s.sessions x = some expiry)
    (hexpired : expiry ≤ clock.instant)
    (hsessions : s'.sessions = Function.update s.sessions x none)
    (accepted : Bool) :
    Sessions (h ++ [.validated x clock.instant clock.unix accepted]) s' := by
  have hconcat : ∀ user pass x' at', .login user pass (some x') at' ∈
      sinceRestart (h ++ [.validated x clock.instant clock.unix accepted]) ↔
        .login user pass (some x') at' ∈ sinceRestart h :=
    fun user pass x' at' => mem_sinceRestart_concat (by simp) (by simp)
  refine ⟨hs.past_concat hnow (by simp), ?_, ?_⟩
  · intro x' expiry' hx'
    rw [hsessions] at hx'
    by_cases hxx : x' = x
    · subst hxx
      rw [Function.update_self] at hx'
      cases hx'
    · rw [Function.update_of_ne hxx] at hx'
      obtain ⟨user, pass, at', hmem, rfl⟩ := hs.sound x' expiry' hx'
      exact ⟨user, pass, at', (hconcat ..).mpr hmem, rfl⟩
  · intro user pass x' at' hmem hlive
    rw [hnow] at hlive
    obtain ⟨expiry', hx', hle⟩ := hs.complete user pass x' at' ((hconcat ..).mp hmem) hlive
    rw [hsessions]
    by_cases hxx : x' = x
    · -- the one removed has expired
      subst hxx
      obtain rfl := Option.some.inj (hx.symm.trans hx')
      omega
    · exact ⟨expiry', by rw [Function.update_of_ne hxx, hx'], hle⟩

/-- A restart. -/
theorem Sessions.clear (hs : Sessions h s) (hnow : s'.now = s.now)
    (hsessions : s'.sessions = fun _ => none) : Sessions (h ++ [.restarted]) s' := by
  refine ⟨hs.past_concat hnow (by simp), ?_, ?_⟩
  · intro x expiry hx
    rw [hsessions] at hx
    cases hx
  · intro user pass x at' hmem
    rw [sinceRestart_restarted] at hmem
    cases hmem

/-- **Sessions are tracked** by every call. -/
theorem Sessions.step (hs : Sessions h s) (hclock : clock.instant = s.now)
    (hnow : s'.now = s.now) (hchange : SessionChange s s' clock event) :
    Sessions (h ++ [event]) s' := by
  cases hchange with
  | keep hsessions hrestart hlogin => exact hs.keep hnow hsessions hrestart hlogin
  | issue user pass x hsessions => exact hs.issue hclock hnow user pass x hsessions
  | expire x expiry accepted hx hexpired hsessions =>
    exact hs.expire hclock hnow hx hexpired hsessions accepted
  | clear hsessions => exact hs.clear hnow hsessions

/-- The clock does not move tokens. -/
theorem Tokens.advance (ht : Tokens crypto h s) (now : Nat) : Tokens crypto h { s with now } :=
  ⟨ht.created, ht.revoked, ht.sound, ht.complete⟩

/-- A call that creates and revokes nothing. -/
theorem Tokens.keep (ht : Tokens crypto h s)
    (hkept : ∀ row ∈ s.apiTokens.rows, ∃ row' ∈ s'.apiTokens.rows, row.Same row')
    (hold : ∀ row' ∈ s'.apiTokens.rows, ∃ row ∈ s.apiTokens.rows, row.Same row')
    (hnext : s'.nextToken = s.nextToken) (hcreated : ∀ id x e, event ≠ .tokenCreated id x e)
    (hrevoked : ∀ id, event ≠ .tokenRevoked id true) : Tokens crypto (h ++ [event]) s' := by
  have hmem : ∀ {e : AuthEvent}, e ≠ event → (e ∈ h ++ [event] ↔ e ∈ h) := by
    intro e hne
    rw [List.mem_append, List.mem_singleton]
    exact or_iff_left hne
  refine ⟨?_, ?_, ?_, ?_⟩
  · intro id x e hc
    rw [hnext]
    exact ht.created id x e ((hmem (hcreated id x e).symm).mp hc)
  · intro id hr
    rw [hnext]
    exact ht.revoked id ((hmem (hrevoked id).symm).mp hr)
  · intro row' hrow'
    obtain ⟨row, hrow, hid, hhash, hexpires⟩ := hold row' hrow'
    obtain ⟨hnot, x, hc, hx⟩ := ht.sound row hrow
    rw [hid, hhash, hexpires, hmem (hrevoked _).symm]
    exact ⟨hnot, x, List.mem_append_left _ hc, hx⟩
  · intro id x e hc hnot
    obtain ⟨row, hrow, rfl, rfl, hx⟩ := ht.complete id x e ((hmem (hcreated id x e).symm).mp hc)
      (fun hr => hnot (List.mem_append_left _ hr))
    obtain ⟨row', hrow', hid, hhash, hexpires⟩ := hkept row hrow
    exact ⟨row', hrow', hid, hexpires, hhash.trans hx⟩

/-- A token created, in a row of the next id. -/
theorem Tokens.create (ht : Tokens crypto h s) {row : TokenRow} {x : Str}
    (hid : row.id = s.nextToken) (hhash : row.tokenHash = crypto.sha256Hex x)
    (hrows : s'.apiTokens.rows = s.apiTokens.rows ++ [row])
    (hnext : s'.nextToken = s.nextToken + 1) :
    Tokens crypto (h ++ [.tokenCreated row.id x row.expiresAt]) s' := by
  have hrevoked : ∀ id, .tokenRevoked id true ∈ h ++ [.tokenCreated row.id x row.expiresAt] ↔
      .tokenRevoked id true ∈ h := by simp
  refine ⟨?_, ?_, ?_, ?_⟩
  · intro id y e hc
    rw [hnext]
    rcases List.mem_append.mp hc with hc | hc
    · exact Nat.lt_succ_of_lt (ht.created id y e hc)
    · obtain ⟨rfl, -, -⟩ := AuthEvent.tokenCreated.inj (List.mem_singleton.mp hc)
      omega
  · intro id hr
    rw [hnext]
    exact Nat.lt_succ_of_lt (ht.revoked id ((hrevoked id).mp hr))
  · intro row' hrow'
    rw [hrows] at hrow'
    rw [hrevoked]
    rcases List.mem_append.mp hrow' with hrow' | hrow'
    · obtain ⟨hnot, y, hc, hy⟩ := ht.sound row' hrow'
      exact ⟨hnot, y, List.mem_append_left _ hc, hy⟩
    · -- the new id has never been in use
      obtain rfl := List.mem_singleton.mp hrow'
      refine ⟨?_, x, by simp, hhash⟩
      intro hr
      have hlt := ht.revoked _ hr
      omega
  · intro id y e hc hnot
    rw [hrows]
    rw [hrevoked] at hnot
    rcases List.mem_append.mp hc with hc | hc
    · obtain ⟨row', hrow', hspec⟩ := ht.complete id y e hc hnot
      exact ⟨row', List.mem_append_left _ hrow', hspec⟩
    · obtain ⟨rfl, rfl, rfl⟩ := AuthEvent.tokenCreated.inj (List.mem_singleton.mp hc)
      exact ⟨row, by simp, rfl, rfl, hhash⟩

/-- A row revoked. -/
theorem Tokens.revoke (ht : Tokens crypto h s) {id : Nat}
    (hfound : ∃ row ∈ s.apiTokens.rows, row.id = id)
    (hrows : ∀ row, row ∈ s'.apiTokens.rows ↔ row ∈ s.apiTokens.rows ∧ row.id ≠ id)
    (hnext : s'.nextToken = s.nextToken) :
    Tokens crypto (h ++ [.tokenRevoked id true]) s' := by
  have hcreated : ∀ id' x e, .tokenCreated id' x e ∈ h ++ [.tokenRevoked id true] ↔
      .tokenCreated id' x e ∈ h := by simp
  have hrevoked : ∀ id', .tokenRevoked id' true ∈ h ++ [.tokenRevoked id true] ↔
      .tokenRevoked id' true ∈ h ∨ id' = id := by simp
  refine ⟨?_, ?_, ?_, ?_⟩
  · intro id' x e hc
    rw [hnext]
    exact ht.created id' x e ((hcreated id' x e).mp hc)
  · intro id' hr
    rw [hnext]
    rcases (hrevoked id').mp hr with hr | rfl
    · exact ht.revoked id' hr
    · obtain ⟨row, hrow, rfl⟩ := hfound
      obtain ⟨-, x, hc, -⟩ := ht.sound row hrow
      exact ht.created _ x _ hc
  · intro row hrow
    obtain ⟨hrow, hne⟩ := (hrows row).mp hrow
    obtain ⟨hnot, x, hc, hx⟩ := ht.sound row hrow
    rw [hrevoked]
    exact ⟨fun hr => hr.elim hnot hne, x, (hcreated ..).mpr hc, hx⟩
  · intro id' x e hc hnot
    rw [hrevoked, not_or] at hnot
    obtain ⟨row, hrow, hid, hspec⟩ := ht.complete id' x e ((hcreated ..).mp hc) hnot.1
    exact ⟨row, (hrows row).mpr ⟨hrow, hid ▸ hnot.2⟩, hid, hspec⟩

/-- **Tokens are tracked** by every call. -/
theorem Tokens.step (ht : Tokens crypto h s) (hchange : TokenChange crypto s s' event) :
    Tokens crypto (h ++ [event]) s' := by
  cases hchange with
  | keep hkept hold hnext hcreated hrevoked => exact ht.keep hkept hold hnext hcreated hrevoked
  | create row x hid hhash hrows hnext => exact ht.create hid hhash hrows hnext
  | revoke id hfound hrows hnext => exact ht.revoke hfound hrows hnext

/-- **Both are tracked** by every step. -/
theorem kept_step {input : AuthInput} {out : List AuthEvent} (hs : Sessions h s)
    (ht : Tokens crypto h s) (hstep : step crypto s input = some (s', out)) :
    Sessions (h ++ out) s' ∧ Tokens crypto (h ++ out) s' := by
  obtain ⟨hle, event, hperform, rfl⟩ := step_eq_some hstep
  have hchange := @perform_sessions crypto { s with now := input.clock.instant }
    input.clock input.call
  have htable := @perform_tokens crypto { s with now := input.clock.instant }
    input.clock input.call
  have hnow := @perform_now crypto { s with now := input.clock.instant }
    input.clock input.call
  rw [hperform] at hchange htable hnow
  exact ⟨(hs.advance hle).step rfl hnow hchange, (ht.advance _).step htable⟩

end Invariants

/-! ## What `validate` answers -/

variable {crypto : Crypto} {h : List AuthEvent} {s : Auth} {clock : AuthClock}

/-- No other string that `create_token` issued has the hash of `x`. -/
def CollisionFree (crypto : Crypto) (h : List AuthEvent) (x : Str) : Prop :=
  ∀ id y e, .tokenCreated id y e ∈ h → crypto.sha256Hex y = crypto.sha256Hex x → y = x

/-- The table has an unexpired row of the hash iff the string is a live token. -/
theorem liveToken_iff (ht : Tokens crypto h s) {x : Str} (hfree : CollisionFree crypto h x)
    {unix : Int64} :
    (∃ row ∈ s.apiTokens.rows, row.tokenHash = crypto.sha256Hex x ∧ row.unexpired unix = true) ↔
      LiveToken h x unix := by
  constructor
  · rintro ⟨row, hrow, hhash, hlive⟩
    obtain ⟨hnot, y, hc, hy⟩ := ht.sound row hrow
    obtain rfl := hfree row.id y _ hc (hy.symm.trans hhash)
    exact ⟨row.id, row.expiresAt, hc, hnot, TokenRow.unexpired_iff.mp hlive⟩
  · rintro ⟨id, e, hc, hnot, hlive⟩
    obtain ⟨row, hrow, -, rfl, hx⟩ := ht.complete id x e hc hnot
    exact ⟨row, hrow, hx, TokenRow.unexpired_iff.mpr hlive⟩

theorem validateToken_iff {token : Str} :
    (s.validateToken crypto token clock).2 = true ↔
      ∃ row ∈ s.apiTokens.rows, row.tokenHash = crypto.sha256Hex token ∧
        row.unexpired clock.unix = true := by
  unfold validateToken
  split
  · next row hfind =>
    have hrow := List.mem_of_find?_eq_some hfind
    have hspec := List.find?_some hfind
    simp only [Bool.and_eq_true, decide_eq_true_eq] at hspec
    simp only [true_iff]
    exact ⟨row, hrow, hspec⟩
  · next hfind =>
    simp only [Bool.false_eq_true, false_iff]
    rintro ⟨row, hrow, hhash, hlive⟩
    have hno := List.find?_eq_none.mp hfind row hrow
    simp [hhash, hlive] at hno

/-- A live login is in the map, with an expiry no earlier. -/
theorem liveSession_iff (hs : Sessions h s) (hclock : clock.instant = s.now) {token : Str} :
    LiveSession h token clock.instant ↔
      ∃ expiry, s.sessions token = some expiry ∧ clock.instant < expiry := by
  constructor
  · rintro ⟨user, pass, at', hmem, hlt⟩
    obtain ⟨expiry, hx, hle⟩ := hs.complete user pass token at' hmem (hclock ▸ hlt)
    exact ⟨expiry, hx, Nat.lt_of_lt_of_le hlt hle⟩
  · rintro ⟨expiry, hx, hlt⟩
    obtain ⟨user, pass, at', hmem, rfl⟩ := hs.sound token expiry hx
    exact ⟨user, pass, at', hmem, hlt⟩

/-- **`validate` accepts exactly the live strings.** -/
theorem validate_iff (hs : Sessions h s) (ht : Tokens crypto h s)
    (hclock : clock.instant = s.now) {token : Str} (hfree : CollisionFree crypto h token) :
    (s.validate crypto token clock).2 = true ↔
      LiveSession h token clock.instant ∨ LiveToken h token clock.unix := by
  rw [liveSession_iff hs hclock, ← liveToken_iff ht hfree]
  unfold validate
  cases hx : s.sessions token with
  | none =>
    show (s.validateToken crypto token clock).2 = true ↔ _
    rw [validateToken_iff]
    simp
  | some expiry =>
    dsimp only
    split
    · next hlt => simp [hlt]
    · next hlt =>
      rw [validateToken_iff]
      simp [hlt]

/-- Only `validate` answers as it does. -/
theorem perform_validated {s' : Auth} {call : AuthCall} {x : Str} {at' : Nat} {unix : Int64}
    {accepted : Bool} (h : perform crypto s clock call = (s', .validated x at' unix accepted)) :
    call = .validate x ∧ at' = clock.instant ∧ unix = clock.unix ∧
      (s.validate crypto x clock).2 = accepted := by
  cases call with
  | validate token =>
    obtain ⟨-, hevent⟩ := Prod.mk.inj h
    obtain ⟨rfl, rfl, rfl, haccepted⟩ := AuthEvent.validated.inj hevent
    exact ⟨rfl, rfl, rfl, haccepted⟩
  | createToken name ttlSecs token =>
    obtain ⟨-, hrefused | ⟨row, -, -, -, -, hevent⟩⟩ :=
      @createToken_cases crypto s name ttlSecs token clock
    · cases hrefused.symm.trans h
    · cases hevent.symm.trans (congrArg Prod.snd h)
  | _ => cases congrArg Prod.snd h

/-- An answer of `validate`, explained by the answers before it. -/
def Explained (crypto : Crypto) (before : List AuthEvent) : AuthEvent → Prop
  | .validated x at' unix accepted => CollisionFree crypto before x →
      (accepted = true ↔ LiveSession before x at' ∨ LiveToken before x unix)
  | _ => True

/-- What is known of the state after a run's answers. -/
structure Tracked (crypto : Crypto) (h : List AuthEvent) (s : Auth) : Prop where
  sessions : Sessions h s
  tokens : Tokens crypto h s
  explained : Machine.Justified (Explained crypto) h

theorem tracked_boot (users : Table UserRow.username) (nextUser now : Nat) :
    Tracked crypto [] (boot users nextUser now) where
  sessions := ⟨by simp, by simp [boot], by simp [sinceRestart]⟩
  tokens := ⟨by simp, by simp, by simp [boot, Table.empty], by simp⟩
  explained := Machine.justified_nil _

theorem tracked_step {s s' : Auth} {input : AuthInput} {out : List AuthEvent}
    (hs : Tracked crypto h s) (hstep : step crypto s input = some (s', out)) :
    Tracked crypto (h ++ out) s' := by
  obtain ⟨hsessions, htokens⟩ := kept_step hs.sessions hs.tokens hstep
  obtain ⟨hle, event, hperform, rfl⟩ := step_eq_some hstep
  refine ⟨hsessions, htokens, hs.explained.concat ?_⟩
  cases event with
  | validated x at' unix accepted =>
    obtain ⟨-, rfl, rfl, rfl⟩ := perform_validated hperform
    -- the call runs at its own instant
    exact validate_iff (hs.sessions.advance hle) (hs.tokens.advance _) rfl
  | _ => trivial

end Auth

end Denis
