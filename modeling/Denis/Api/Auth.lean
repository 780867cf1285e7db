import Denis.Lib.Machine
import Denis.Lib.Table
import Denis.Lib.Text
import Mathlib.Logic.Function.Basic

/-!
# Users, sessions and API tokens (`api/auth.rs`)

`Auth` is the two tables, kept over restarts, and the session map, which is not.
Each function of `auth.rs` is a function of that state and of the clocks it
reads; `Auth.step` is one call, or a restart of the service, which runs
`Auth::new`. The database refuses nothing in a call of `Auth.step`;
`validateSession` is what `validate` does where it does. `list_users` and
`list_tokens` only read and are left out, and so is an `UPDATE` of a time of last
use that is refused, which the code ignores.

Parameters, as `Crypto`: argon2 with its salt, its verification and the hex text
of SHA-256. Salts and the tokens `random_token` draws are arguments of the
calls. `Instant` is nanoseconds of a clock that does not run backwards; unix
time is a 64-bit integer that may jump, and adding a token's lifetime to it
wraps.

`perform_sessions` and `perform_tokens` list what a call can do to the session
map and to the table of tokens.
-/

namespace Denis

open Text

/-- What the code uses of argon2 and SHA-256. -/
structure Crypto where
  /-- `hash_password`'s argon2, of the salt and the password. -/
  hashPassword : Str → Str → Str
  /-- `verify`, of the password and the stored text. -/
  verify : Str → Str → Bool
  sha256Hex : Str → Str

/-- A row of table `users` (`auth.rs:224–234`). -/
structure UserRow where
  id : Nat
  username : Str
  passwordHash : Str
  createdAt : Int64
  lastLogin : Option Int64
  deriving DecidableEq

/-- A row of table `api_tokens` (`auth.rs:235–246`). -/
structure TokenRow where
  id : Nat
  name : Str
  tokenHash : Str
  createdAt : Int64
  lastUsed : Option Int64
  expiresAt : Option Int64
  deriving DecidableEq

/-- `expires_at IS NULL OR expires_at > now`. -/
def TokenRow.unexpired (row : TokenRow) (unix : Int64) : Bool :=
  match row.expiresAt with
  | none => true
  | some expiry => decide (unix < expiry)

/-- The same token in two rows: all but the name and the times nothing decides by. -/
def TokenRow.Same (row row' : TokenRow) : Prop :=
  row'.id = row.id ∧ row'.tokenHash = row.tokenHash ∧ row'.expiresAt = row.expiresAt

theorem TokenRow.Same.refl (row : TokenRow) : row.Same row := ⟨rfl, rfl, rfl⟩

/-- `SESSION_TTL`, in nanoseconds. -/
def sessionTtl : Nat := 86400 * 1000000000

/-- The clocks a call reads. -/
structure AuthClock where
  instant : Nat
  unix : Int64

/-- The tables, the next ids of their `AUTOINCREMENT` columns, the sessions with
their expiry, and the latest instant read. -/
structure Auth where
  users : Table UserRow.username
  apiTokens : Table TokenRow.tokenHash
  nextUser : Nat
  nextToken : Nat
  sessions : Str → Option Nat
  now : Nat

/-- The calls, and a restart, with what is drawn at random in them. -/
inductive AuthCall
  | login (user pass token : Str)
  | validate (token : Str)
  | createUser (user pass salt : Str)
  | setPassword (user pass salt : Str)
  | deleteUser (user : Str)
  | createToken (name : Str) (ttlSecs : Option Int64) (token : Str)
  | revokeToken (id : Nat)
  | restart (salt : Str)
  deriving DecidableEq

/-- A call and the clocks it reads. -/
structure AuthInput where
  call : AuthCall
  clock : AuthClock

/-- What a call answered, and when. A token created is given with its row's id
and expiry. -/
inductive AuthEvent
  | login (user pass : Str) (token : Option Str) (at' : Nat)
  | validated (token : Str) (at' : Nat) (unix : Int64) (accepted : Bool)
  | userCreated (user pass : Str) (ok : Bool)
  | passwordSet (user pass : Str) (found : Bool)
  | userDeleted (user : Str) (found : Bool)
  | tokenCreated (id : Nat) (token : Str) (expiresAt : Option Int64)
  | tokenRefused (token : Str)
  | tokenRevoked (id : Nat) (found : Bool)
  | restarted
  deriving DecidableEq

/-- The user and the password `Auth::new` seeds. -/
def adminName : Str := ['a', 'd', 'm', 'i', 'n']

namespace Auth

variable (crypto : Crypto)

/-- `INSERT INTO users (username, password_hash, created_at)`: refused if the
name is taken. -/
def insertUser (s : Auth) (user pass salt : Str) (clock : AuthClock) : Option Auth :=
  match s.users.insert ⟨s.nextUser, user, crypto.hashPassword salt pass, clock.unix, none⟩ with
  | none => none
  | some users => some { s with users, nextUser := s.nextUser + 1 }

/-- `Auth::new` (`auth.rs:32–59`): seed the default user if there is none, and
start without sessions. -/
def new (s : Auth) (salt : Str) (clock : AuthClock) : Auth :=
  let s := { s with sessions := fun _ => none }
  if s.users.size = 0 then (s.insertUser crypto adminName adminName salt clock).getD s else s

/-- `Auth::login` (`auth.rs:69–95`), where `random_token` draws `token`. -/
def login (s : Auth) (user pass token : Str) (clock : AuthClock) : Auth × Option Str :=
  match s.users.rows.find? (fun row => row.username = user) with
  | none => (s, none)
  | some row =>
    if crypto.verify pass row.passwordHash then
      ({ s with
        users := (s.users.updateWhere (fun r => r.id = row.id)
          (fun r => { r with lastLogin := some clock.unix }) fun _ => rfl).1
        sessions := Function.update s.sessions token (some (clock.instant + sessionTtl)) },
        some token)
    else (s, none)

/-- The lookup of an API token (`auth.rs:108–129`). -/
def validateToken (s : Auth) (token : Str) (clock : AuthClock) : Auth × Bool :=
  match s.apiTokens.rows.find? (fun row =>
      row.tokenHash = crypto.sha256Hex token && row.unexpired clock.unix) with
  | some row =>
    ({ s with
      apiTokens := (s.apiTokens.updateWhere (fun r => r.id = row.id)
        (fun r => { r with lastUsed := some clock.unix }) fun _ => rfl).1 }, true)
  | none => (s, false)

/-- `Auth::validate` (`auth.rs:97–130`): a live session, or else an API token;
an expired session is removed. -/
def validate (s : Auth) (token : Str) (clock : AuthClock) : Auth × Bool :=
  match s.sessions token with
  | some expiry =>
    if clock.instant < expiry then (s, true)
    else
      validateToken crypto { s with sessions := Function.update s.sessions token none } token clock
  | none => s.validateToken crypto token clock

/-- `Auth::validate` when its `SELECT` is refused, which `.ok().flatten()` takes
for no row (`auth.rs:109–118`). -/
def validateSession (s : Auth) (token : Str) (clock : AuthClock) : Auth × Bool :=
  match s.sessions token with
  | some expiry =>
    if clock.instant < expiry then (s, true)
    else ({ s with sessions := Function.update s.sessions token none }, false)
  | none => (s, false)

/-- `Auth::create_user` (`auth.rs:147–156`). -/
def createUser (s : Auth) (user pass salt : Str) (clock : AuthClock) : Auth × Bool :=
  match s.insertUser crypto user pass salt clock with
  | some s => (s, true)
  | none => (s, false)

/-- `Auth::set_password` (`auth.rs:158–167`). -/
def setPassword (s : Auth) (user pass salt : Str) : Auth × Bool :=
  let (users, affected) := s.users.updateWhere (fun row => row.username = user)
    (fun row => { row with passwordHash := crypto.hashPassword salt pass }) fun _ => rfl
  ({ s with users }, decide (0 < affected))

/-- `Auth::delete_user` (`auth.rs:169–176`). -/
def deleteUser (s : Auth) (user : Str) : Auth × Bool :=
  let (users, affected) := s.users.deleteWhere fun row => row.username = user
  ({ s with users }, decide (0 < affected))

/-- `Auth::create_token` (`auth.rs:178–193`), where `random_token` draws
`token`. -/
def createToken (s : Auth) (name : Str) (ttlSecs : Option Int64) (token : Str)
    (clock : AuthClock) : Auth × AuthEvent :=
  let expiresAt := ttlSecs.map fun ttl => clock.unix + ttl
  match s.apiTokens.insert
      ⟨s.nextToken, name, crypto.sha256Hex token, clock.unix, none, expiresAt⟩ with
  | none => (s, .tokenRefused token)
  | some apiTokens =>
    ({ s with apiTokens, nextToken := s.nextToken + 1 },
      .tokenCreated s.nextToken token expiresAt)

/-- `Auth::revoke_token` (`auth.rs:213–220`). -/
def revokeToken (s : Auth) (id : Nat) : Auth × Bool :=
  let (apiTokens, affected) := s.apiTokens.deleteWhere fun row => row.id = id
  ({ s with apiTokens }, decide (0 < affected))

/-- A call and its answer. -/
def perform (s : Auth) (clock : AuthClock) : AuthCall → Auth × AuthEvent
  | .login user pass token =>
    (s.login crypto user pass token clock).map id (.login user pass · clock.instant)
  | .validate token =>
    (s.validate crypto token clock).map id (.validated token clock.instant clock.unix)
  | .createUser user pass salt =>
    (s.createUser crypto user pass salt clock).map id (.userCreated user pass)
  | .setPassword user pass salt =>
    (s.setPassword crypto user pass salt).map id (.passwordSet user pass)
  | .deleteUser user => (s.deleteUser user).map id (.userDeleted user)
  | .createToken name ttlSecs token => s.createToken crypto name ttlSecs token clock
  | .revokeToken id' => (s.revokeToken id').map id (.tokenRevoked id')
  | .restart salt => (s.new crypto salt clock, .restarted)

/-- One call; the clock of instants does not run backwards. -/
def step (s : Auth) (input : AuthInput) : Option (Auth × List AuthEvent) :=
  if input.clock.instant < s.now then none
  else
    let (s', event) := perform crypto { s with now := input.clock.instant } input.clock input.call
    some (s', [event])

/-- The management API over restarts, as a machine. -/
abbrev machine : Machine Auth AuthInput AuthEvent := ⟨step crypto⟩

/-- A process about to start on a database of some users and no API token. -/
def boot (users : Table UserRow.username) (nextUser : Nat) (now : Nat) : Auth where
  users := users
  apiTokens := .empty _
  nextUser := nextUser
  nextToken := 1
  sessions := fun _ => none
  now := now

variable {crypto}

/-- A call that reads no earlier clock is taken. -/
theorem step_of_le {s : Auth} {input : AuthInput} (hle : s.now ≤ input.clock.instant) :
    step crypto s input =
      some ((perform crypto { s with now := input.clock.instant } input.clock input.call).1,
        [(perform crypto { s with now := input.clock.instant } input.clock input.call).2]) :=
  if_neg (Nat.not_lt.mpr hle)

/-- A step performs its call at its own instant, and answers once. -/
theorem step_eq_some {s s' : Auth} {input : AuthInput} {out : List AuthEvent}
    (h : step crypto s input = some (s', out)) :
    s.now ≤ input.clock.instant ∧
      ∃ event, perform crypto { s with now := input.clock.instant } input.clock input.call =
        (s', event) ∧ out = [event] := by
  unfold step at h
  split at h
  · cases h
  · next hle =>
    obtain ⟨rfl, rfl⟩ := Prod.mk.inj (Option.some.inj h)
    exact ⟨Nat.le_of_not_lt hle, _, rfl, rfl⟩

/-! ## What a call does to sessions and tokens -/

section Changes

variable (crypto) (s s' : Auth) (clock : AuthClock)

/-- What a call does to the session map. -/
inductive SessionChange : AuthEvent → Prop
  | keep {event : AuthEvent} : s'.sessions = s.sessions → event ≠ .restarted →
      (∀ user pass x at', event ≠ .login user pass (some x) at') → SessionChange event
  | issue (user pass x : Str) :
      s'.sessions = Function.update s.sessions x (some (clock.instant + sessionTtl)) →
      SessionChange (.login user pass (some x) clock.instant)
  | expire (x : Str) (expiry : Nat) (accepted : Bool) : s.sessions x = some expiry →
      expiry ≤ clock.instant → s'.sessions = Function.update s.sessions x none →
      SessionChange (.validated x clock.instant clock.unix accepted)
  | clear : s'.sessions = (fun _ => none) → SessionChange .restarted

/-- What a call does to the table of tokens. -/
inductive TokenChange : AuthEvent → Prop
  | keep {event : AuthEvent} :
      (∀ row ∈ s.apiTokens.rows, ∃ row' ∈ s'.apiTokens.rows, row.Same row') →
      (∀ row' ∈ s'.apiTokens.rows, ∃ row ∈ s.apiTokens.rows, row.Same row') →
      s'.nextToken = s.nextToken → (∀ id x e, event ≠ .tokenCreated id x e) →
      (∀ id, event ≠ .tokenRevoked id true) → TokenChange event
  | create (row : TokenRow) (x : Str) : row.id = s.nextToken →
      row.tokenHash = crypto.sha256Hex x → s'.apiTokens.rows = s.apiTokens.rows ++ [row] →
      s'.nextToken = s.nextToken + 1 → TokenChange (.tokenCreated row.id x row.expiresAt)
  | revoke (id : Nat) : (∃ row ∈ s.apiTokens.rows, row.id = id) →
      (∀ row, row ∈ s'.apiTokens.rows ↔ row ∈ s.apiTokens.rows ∧ row.id ≠ id) →
      s'.nextToken = s.nextToken → TokenChange (.tokenRevoked id true)

end Changes

variable {s s' : Auth} {clock : AuthClock}

/-- A call that leaves the table of tokens alone. -/
theorem TokenChange.of_eq {event : AuthEvent} (htokens : s'.apiTokens = s.apiTokens)
    (hnext : s'.nextToken = s.nextToken) (hcreated : ∀ id x e, event ≠ .tokenCreated id x e)
    (hrevoked : ∀ id, event ≠ .tokenRevoked id true) : TokenChange crypto s s' event := by
  refine .keep ?_ ?_ hnext hcreated hrevoked
  · exact fun row hrow => ⟨row, htokens ▸ hrow, .refl row⟩
  · exact fun row hrow => ⟨row, htokens ▸ hrow, .refl row⟩

/-- A change of the users only. -/
structure Keeps (s s' : Auth) : Prop where
  sessions : s'.sessions = s.sessions
  apiTokens : s'.apiTokens = s.apiTokens
  nextToken : s'.nextToken = s.nextToken
  now : s'.now = s.now

theorem insertUser_eq_some {user pass salt : Str}
    (h : s.insertUser crypto user pass salt clock = some s') : Keeps s s' := by
  unfold insertUser at h
  split at h
  · cases h
  · obtain rfl := Option.some.inj h
    exact ⟨rfl, rfl, rfl, rfl⟩

/-- `Auth::new` drops the sessions and keeps the tokens. -/
theorem new_keeps (crypto : Crypto) (s : Auth) (salt : Str) (clock : AuthClock) :
    Keeps { s with sessions := fun _ => none } (s.new crypto salt clock) := by
  unfold new
  dsimp only
  split
  · cases hinsert : insertUser crypto { s with sessions := fun _ => none } adminName adminName
        salt clock with
    | none => exact ⟨rfl, rfl, rfl, rfl⟩
    | some s' => exact insertUser_eq_some hinsert
  · exact ⟨rfl, rfl, rfl, rfl⟩

/-- Looking up an API token touches its last use only. -/
theorem validateToken_keeps (s : Auth) (token : Str) (clock : AuthClock) :
    (s.validateToken crypto token clock).1.sessions = s.sessions ∧
      (∀ row ∈ s.apiTokens.rows,
        ∃ row' ∈ (s.validateToken crypto token clock).1.apiTokens.rows, row.Same row') ∧
      (∀ row' ∈ (s.validateToken crypto token clock).1.apiTokens.rows,
        ∃ row ∈ s.apiTokens.rows, row.Same row') ∧
      (s.validateToken crypto token clock).1.nextToken = s.nextToken := by
  unfold validateToken
  split
  · next row _ =>
    -- the update changes `last_used` of one row
    have htouch : ∀ r : TokenRow, r.Same
        (if decide (r.id = row.id) then { r with lastUsed := some clock.unix } else r) := by
      intro r
      split
      · exact ⟨rfl, rfl, rfl⟩
      · exact .refl r
    refine ⟨rfl, ?_, ?_, rfl⟩
    · intro r hr
      exact ⟨_, List.mem_map_of_mem hr, htouch r⟩
    · intro r' hr'
      obtain ⟨r, hr, rfl⟩ := List.mem_map.mp hr'
      exact ⟨r, hr, htouch r⟩
  · exact ⟨rfl, fun row hrow => ⟨row, hrow, .refl row⟩, fun row hrow => ⟨row, hrow, .refl row⟩,
      rfl⟩

/-- A login: refused, or a session issued. -/
theorem login_cases (s : Auth) (user pass token : Str) (clock : AuthClock) :
    (s.login crypto user pass token clock).1.apiTokens = s.apiTokens ∧
      (s.login crypto user pass token clock).1.nextToken = s.nextToken ∧
      (((s.login crypto user pass token clock).2 = none ∧
          (s.login crypto user pass token clock).1 = s) ∨
        ((s.login crypto user pass token clock).2 = some token ∧
          (s.login crypto user pass token clock).1.sessions =
            Function.update s.sessions token (some (clock.instant + sessionTtl)))) := by
  unfold login
  split
  · exact ⟨rfl, rfl, .inl ⟨rfl, rfl⟩⟩
  · split
    · exact ⟨rfl, rfl, .inr ⟨rfl, rfl⟩⟩
    · exact ⟨rfl, rfl, .inl ⟨rfl, rfl⟩⟩

/-- A token created, or refused. -/
theorem createToken_cases (s : Auth) (name : Str) (ttlSecs : Option Int64) (token : Str)
    (clock : AuthClock) :
    (s.createToken crypto name ttlSecs token clock).1.sessions = s.sessions ∧
      (s.createToken crypto name ttlSecs token clock = (s, .tokenRefused token) ∨
        ∃ row : TokenRow, row.id = s.nextToken ∧ row.tokenHash = crypto.sha256Hex token ∧
          (s.createToken crypto name ttlSecs token clock).1.apiTokens.rows =
            s.apiTokens.rows ++ [row] ∧
          (s.createToken crypto name ttlSecs token clock).1.nextToken = s.nextToken + 1 ∧
          (s.createToken crypto name ttlSecs token clock).2 =
            .tokenCreated row.id token row.expiresAt) := by
  unfold createToken
  dsimp only
  split
  · exact ⟨rfl, .inl rfl⟩
  · next hinsert =>
    exact ⟨rfl, .inr ⟨_, rfl, rfl, (Table.insert_eq_some hinsert).2, rfl, rfl⟩⟩

/-- A user created changes neither sessions nor tokens. -/
theorem createUser_keeps (s : Auth) (user pass salt : Str) (clock : AuthClock) :
    Keeps s (s.createUser crypto user pass salt clock).1 := by
  unfold createUser
  split
  · next hinsert => exact insertUser_eq_some hinsert
  · exact ⟨rfl, rfl, rfl, rfl⟩

/-- A revocation: the rows with the id are gone, and it says whether there were
any. -/
theorem revokeToken_spec (s : Auth) (id : Nat) :
    ((s.revokeToken id).2 = true ↔ ∃ row ∈ s.apiTokens.rows, row.id = id) ∧
      ∀ row, row ∈ (s.revokeToken id).1.apiTokens.rows ↔
        row ∈ s.apiTokens.rows ∧ row.id ≠ id := by
  constructor
  · show decide (0 < s.apiTokens.rows.countP _) = true ↔ _
    rw [decide_eq_true_iff, List.countP_pos_iff]
    simp
  · intro row
    show row ∈ (s.apiTokens.deleteWhere _).1.rows ↔ _
    rw [Table.mem_deleteWhere]
    simp

/-- A call is over at the instant it reads. -/
theorem perform_now (s : Auth) (clock : AuthClock) (call : AuthCall) :
    (perform crypto s clock call).1.now = s.now := by
  cases call with
  | login user pass token =>
    show (s.login crypto user pass token clock).1.now = s.now
    unfold login
    split
    · rfl
    · split <;> rfl
  | validate token =>
    show (s.validate crypto token clock).1.now = s.now
    unfold validate validateToken
    split
    · split
      · rfl
      · split <;> rfl
    · split <;> rfl
  | createUser user pass salt => exact (createUser_keeps s user pass salt clock).now
  | setPassword user pass salt => rfl
  | deleteUser user => rfl
  | createToken name ttlSecs token =>
    show (s.createToken crypto name ttlSecs token clock).1.now = s.now
    unfold createToken
    dsimp only
    split <;> rfl
  | revokeToken id => rfl
  | restart salt => exact (new_keeps crypto s salt clock).now

/-- **What a call does to the session map.** -/
theorem perform_sessions (s : Auth) (clock : AuthClock) (call : AuthCall) :
    SessionChange s (perform crypto s clock call).1 clock (perform crypto s clock call).2 := by
  cases call with
  | login user pass token =>
    show SessionChange s (s.login crypto user pass token clock).1 clock
      (.login user pass (s.login crypto user pass token clock).2 clock.instant)
    obtain ⟨-, -, ⟨hnone, hsame⟩ | ⟨hsome, hsessions⟩⟩ :=
      @login_cases crypto s user pass token clock
    · rw [hnone, hsame]
      exact .keep rfl (by simp) (by simp)
    · rw [hsome]
      exact .issue user pass token hsessions
  | validate token =>
    show SessionChange s (s.validate crypto token clock).1 clock
      (.validated token clock.instant clock.unix (s.validate crypto token clock).2)
    unfold validate
    split
    · next expiry hexpiry =>
      split
      · exact .keep rfl (by simp) (by simp)
      · next hlive =>
        exact .expire token expiry _ hexpiry (Nat.le_of_not_lt hlive)
          (validateToken_keeps ..).1
    · exact .keep (validateToken_keeps ..).1 (by simp) (by simp)
  | createUser user pass salt =>
    exact .keep (createUser_keeps s user pass salt clock).sessions (by simp [perform])
      (by simp [perform])
  | setPassword user pass salt => exact .keep rfl (by simp [perform]) (by simp [perform])
  | deleteUser user => exact .keep rfl (by simp [perform]) (by simp [perform])
  | createToken name ttlSecs token =>
    show SessionChange s (s.createToken crypto name ttlSecs token clock).1 clock
      (s.createToken crypto name ttlSecs token clock).2
    obtain ⟨hsessions, hrefused | ⟨row, -, -, -, -, hevent⟩⟩ :=
      @createToken_cases crypto s name ttlSecs token clock
    · rw [hrefused]
      exact .keep rfl (by simp) (by simp)
    · rw [hevent]
      exact .keep hsessions (by simp) (by simp)
  | revokeToken id => exact .keep rfl (by simp [perform]) (by simp [perform])
  | restart salt => exact .clear (new_keeps crypto s salt clock).sessions

/-- **What a call does to the table of tokens.** -/
theorem perform_tokens (s : Auth) (clock : AuthClock) (call : AuthCall) :
    TokenChange crypto s (perform crypto s clock call).1 (perform crypto s clock call).2 := by
  cases call with
  | login user pass token =>
    obtain ⟨htokens, hnext, -⟩ := @login_cases crypto s user pass token clock
    exact .of_eq htokens hnext (by simp [perform]) (by simp [perform])
  | validate token =>
    show TokenChange crypto s (s.validate crypto token clock).1
      (.validated token clock.instant clock.unix (s.validate crypto token clock).2)
    unfold validate
    split
    · split
      · exact .of_eq rfl rfl (by simp) (by simp)
      · obtain ⟨-, hkept, hold, hnext⟩ := @validateToken_keeps crypto
          { s with sessions := Function.update s.sessions token none } token clock
        exact .keep hkept hold hnext (by simp) (by simp)
    · obtain ⟨-, hkept, hold, hnext⟩ := @validateToken_keeps crypto s token clock
      exact .keep hkept hold hnext (by simp) (by simp)
  | createUser user pass salt =>
    have hkeeps := @createUser_keeps crypto s user pass salt clock
    exact .of_eq hkeeps.apiTokens hkeeps.nextToken (by simp [perform]) (by simp [perform])
  | setPassword user pass salt =>
    exact .of_eq rfl rfl (by simp [perform]) (by simp [perform])
  | deleteUser user => exact .of_eq rfl rfl (by simp [perform]) (by simp [perform])
  | createToken name ttlSecs token =>
    show TokenChange crypto s (s.createToken crypto name ttlSecs token clock).1
      (s.createToken crypto name ttlSecs token clock).2
    obtain ⟨-, hrefused | ⟨row, hid, hhash, hrows, hnext, hevent⟩⟩ :=
      @createToken_cases crypto s name ttlSecs token clock
    · rw [hrefused]
      exact .of_eq rfl rfl (by simp) (by simp)
    · rw [hevent]
      exact .create row token hid hhash hrows hnext
  | revokeToken id =>
    show TokenChange crypto s (s.revokeToken id).1 (.tokenRevoked id (s.revokeToken id).2)
    obtain ⟨hfound, hmem⟩ := revokeToken_spec s id
    cases hanswer : (s.revokeToken id).2 with
    | true => exact .revoke id (hfound.mp hanswer) hmem rfl
    | false =>
      -- no row has the id, so none is gone
      have hnone : ∀ row ∈ s.apiTokens.rows, row.id ≠ id := by
        intro row hrow hid
        rw [hfound.mpr ⟨row, hrow, hid⟩] at hanswer
        cases hanswer
      refine .keep ?_ ?_ rfl (by simp) (by simp)
      · exact fun row hrow => ⟨row, (hmem row).mpr ⟨hrow, hnone row hrow⟩, .refl row⟩
      · exact fun row hrow => ⟨row, ((hmem row).mp hrow).1, .refl row⟩
  | restart salt =>
    have hkeeps := new_keeps crypto s salt clock
    exact .of_eq hkeeps.apiTokens hkeeps.nextToken (by simp [perform]) (by simp [perform])

/-- A `validate` without its `SELECT` keeps all but an expired session. -/
theorem validateSession_keeps (s : Auth) (token : Str) (clock : AuthClock) :
    (s.validateSession token clock).1.now = s.now ∧
      (s.validateSession token clock).1.users = s.users ∧
      (s.validateSession token clock).1.apiTokens = s.apiTokens ∧
      (s.validateSession token clock).1.nextToken = s.nextToken := by
  unfold validateSession
  split
  · split <;> exact ⟨rfl, rfl, rfl, rfl⟩
  · exact ⟨rfl, rfl, rfl, rfl⟩

theorem validateSession_sessions (s : Auth) (token : Str) (clock : AuthClock) :
    SessionChange s (s.validateSession token clock).1 clock
      (.validated token clock.instant clock.unix (s.validateSession token clock).2) := by
  unfold validateSession
  split
  · next expiry hexpiry =>
    split
    · exact .keep rfl (by simp) (by simp)
    · next hlive => exact .expire token expiry _ hexpiry (Nat.le_of_not_lt hlive) rfl
  · exact .keep rfl (by simp) (by simp)

theorem validateSession_tokens (s : Auth) (token : Str) (clock : AuthClock) :
    TokenChange crypto s (s.validateSession token clock).1
      (.validated token clock.instant clock.unix (s.validateSession token clock).2) := by
  obtain ⟨-, -, htokens, hnext⟩ := s.validateSession_keeps token clock
  exact .of_eq htokens hnext (by simp) (by simp)

end Auth

/-! ## Sample data -/

namespace Auth.Sample

/-- The length of the password in unary, the password and the salt; a hash that
keeps its text. -/
def crypto : Crypto where
  hashPassword salt pass := List.replicate pass.length '1' ++ '$' :: (pass ++ salt)
  verify pass phc := (List.replicate pass.length '1' ++ '$' :: pass).isPrefixOf phc
  sha256Hex x := '#' :: x

/-- What `crypto` verifies is what it hashed. -/
theorem verify_iff (salt p q : Str) :
    crypto.verify p (crypto.hashPassword salt q) = true ↔ p = q := by
  show List.isPrefixOf _ _ = true ↔ p = q
  rw [List.isPrefixOf_iff_prefix]
  have hlength : ∀ (n : Nat) (rest : Str),
      ((List.replicate n '1' ++ '$' :: rest).takeWhile (· = '1')).length = n := by
    intro n rest
    rw [List.takeWhile_append_of_pos (by simp)]
    simp
  constructor
  · rintro ⟨tail, h⟩
    rw [List.append_assoc, List.cons_append] at h
    change _ = List.replicate q.length '1' ++ '$' :: (q ++ salt) at h
    have hpq : p.length = q.length := by
      rw [← hlength p.length (p ++ tail), h, hlength]
    rw [hpq] at h
    exact (List.append_inj (List.cons.inj (List.append_cancel_left h)).2 hpq).1
  · rintro rfl
    exact ⟨salt, List.append_assoc ..⟩

theorem sha256Hex_injective : Function.Injective crypto.sha256Hex := by
  intro x y h
  exact (List.cons.inj h).2

end Auth.Sample

end Denis
