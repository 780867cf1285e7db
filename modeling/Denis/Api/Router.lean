import Denis.Api.Bearer
import Denis.Api.Listing
import Denis.Api.PatchConfig
import Denis.Api.Tokens
import Denis.Repo.Accounting
import Denis.Repo.DomainList
import Denis.Repo.Reload

/-!
# The management API (`api/mod.rs`, `api/auth.rs`)

`router` puts three routes in front of everybody and the others behind
`require_auth`. A request that passes it runs a handler, which suspends at every
statement it gives the database and at the request `block_add_url` makes; other
requests go on meanwhile, and a client that hangs up drops its handler where it
stands. `Job` is where a handler stands; `Management.step` is a request's
arrival, one stretch of one handler, or a restart.

Users, sessions and tokens are `Auth`, whose functions run in one piece here;
the lists and the configuration are written in the stretches the code writes
them in. A statement the database refuses is `fault`, in `validate` and `login`
the `SELECT`. A restart reads each list as far as `load_set` comes (`RowRead`).
Request bodies are those the extractors accept; what a fetched URL will answer is
drawn with the request.

`Transition` lists what a step can do, and `Stretch` what a stretch of a handler
does with `Auth`.
-/

namespace Denis

open Text

/-- The status codes the handlers answer with. -/
inductive StatusCode
  | ok
  | badRequest
  | unauthorized
  | notFound
  | internalServerError
  | serviceUnavailable
  deriving DecidableEq, Repr

/-- A request past its extractors, by its route (`api/mod.rs:152–190`). `fetched`
is no part of the request: it is what `reqwest::get` and `text` answer when the
handler comes to them, the text of an error included. -/
inductive Route
  | health
  | metrics
  | login (username password : Str)
  | listBlocked (p : Pagination)
  | blockAddOne (domain : Str)
  | blockAddBulk (domains : List Str)
  | blockAddUrl (url : Str) (list : Option Str) (fetched : Except String Str)
  | removeBulk (domains : List Str)
  | removeOne (domain : Str)
  | listAllowed (p : Pagination)
  | allowAddOne (domain : Str)
  | allowAddBulk (domains : List Str)
  | getConfig
  | patchConfig (patch : RuntimeConfigPatch)
  | listUsers
  | createUser (username password : Str)
  | deleteUser (username : Str)
  | setPassword (username password : Str)
  | listTokens
  | createToken (name : Str) (ttlSecs : Option Int64)
  | revokeToken (id : Nat)
  | stats
  deriving DecidableEq

/-- The routes outside `require_auth` (`api/mod.rs:153–156`). -/
def Route.isPublic : Route → Bool
  | .health => true
  | .metrics => true
  | .login _ _ => true
  | _ => false

/-- `UserInfo` (`auth.rs:275–280`). -/
structure UserInfo where
  username : Str
  createdAt : Int64
  lastLogin : Option Int64
  deriving DecidableEq

/-- `TokenInfo` (`auth.rs:293–300`). -/
structure TokenInfo where
  id : Nat
  name : Str
  createdAt : Int64
  lastUsed : Option Int64
  expiresAt : Option Int64
  deriving DecidableEq

/-- `BulkResult` (`api/mod.rs:66–71`). -/
structure BulkResult where
  added : Nat
  skipped : Nat
  errors : List Str
  deriving DecidableEq

/-- The data of an answer, or its error. -/
inductive Body
  | health (blockListSize allowListSize l1CacheEntries : Nat)
  | metrics (blockListSize allowListSize l1CacheEntries : Nat)
  | login (token : Str) (expiresIn : Nat)
  | page (items : List Str) (total : Int64) (limit offset : UInt64)
  | added (result : Option AddResult)
  | bulk (result : BulkResult)
  | removed (removed : Bool)
  | config (config : RuntimeConfig)
  | users (users : List UserInfo)
  | tokens (tokens : List TokenInfo)
  | tokenCreated (token : Str)
  | changed (ok : Bool)
  | stats
  | error (message : Str)
  deriving DecidableEq

/-- An answer. -/
structure Response where
  status : StatusCode
  body : Body
  deriving DecidableEq

namespace Response

/-- `ApiResponse::ok`. -/
def ok (body : Body) : Response := ⟨.ok, body⟩

/-- `ApiError::into_response`. -/
def error (status : StatusCode) (message : String) : Response := ⟨status, .error message.toList⟩

/-- `ApiError::internal` of a `CacheError::Sql`. -/
def cacheSql (message : String) : Response :=
  .error .internalServerError ("cache sql: " ++ message)

/-- `ApiError::internal` of a `DbError::Sql`. -/
def database (message : String) : Response :=
  .error .internalServerError ("database: " ++ message)

end Response

/-- Where a handler stands. -/
inductive Job
  | begin (route : Route)
  /-- The page is read, its total is not. -/
  | count (kind : ListKind) (items : List Str) (limit offset : UInt64)
  /-- In `add_block_domains`, with the chunks not yet inserted. -/
  | insertBlocked (list : Str) (chunks : List (List Str)) (added considered total : Nat)
  /-- In `add_allow_domains`. -/
  | insertAllowed (chunks : List (List Str)) (added considered total : Nat)
  /-- In `remove_block_domain` of `remove_one`, before its `DELETE`. -/
  | deleteOne (domain : Str) (removed : Bool)
  /-- At the head of the loop of `remove_bulk`. -/
  | bulk (rest : List Str) (result : BulkResult)
  /-- In `remove_block_domain` of that loop. -/
  | bulkDelete (domain : Str) (removed : Bool) (rest : List Str) (result : BulkResult)
  /-- `patch_config` before and after `persist`. -/
  | persist (merged : RuntimeConfig)
  | store (merged : RuntimeConfig)
  deriving DecidableEq

/-- A handler under way: the token it was admitted with, its route, and where it
stands. -/
structure Running where
  token : Str
  route : Route
  job : Job
  deriving DecidableEq

/-- What is chosen when the service is built and started. -/
structure Deployment where
  crypto : Crypto
  lc : Lowercase
  db : Backend
  json : ConfigJson
  defaults : RuntimeConfig
  prometheus : Bool
  analytics : Bool
  /-- How the database words a broken `UNIQUE`. -/
  uniqueViolation : String

/-- What a stretch of a handler meets: the clocks, the statement refused, the salt
and the 32 bytes drawn, and the size of the L1 cache. -/
structure Surroundings where
  clock : AuthClock
  fault : Option String
  salt : Str
  drawn : Vector UInt8 32
  l1Entries : Nat

/-- The service behind the API: users, tokens and sessions, the lists, the
configuration and its row, and the handlers under way. -/
structure Management where
  auth : Auth
  store : ListStore
  config : RuntimeConfig
  row : Option Str
  running : List Running

/-- What happens next; a restart reads its row of settings, and the tables as they
are yielded to it. -/
inductive ApiInput
  | request (authorization : Option Bytes) (route : Route) (env : Surroundings)
  | resume (i : Nat) (env : Surroundings)
  | hangUp (i : Nat)
  | restart (salt : Str) (clock : AuthClock) (rows : ListKind → RowRead)

/-- What comes of it: what `Auth` did, a request admitted with a token, an
answer (of a handler, with the token it was admitted with). -/
inductive ApiEvent
  | auth (event : AuthEvent)
  | admitted (token : Str) (route : Route)
  | answered (token : Option Str) (route : Route) (response : Response)
  deriving DecidableEq

/-- A handler goes on, or answers. -/
inductive Next
  | more (job : Job)
  | done (response : Response)
  deriving DecidableEq

/-- The list of a kind, in memory. -/
def ListKind.list : ListKind → Lists → DomainSet
  | .blocked, lists => lists.blockList
  | .allowed, lists => lists.allowList

theorem ListKind.list_ext {lists lists' : Lists}
    (h : ∀ kind : ListKind, kind.list lists = kind.list lists') : lists = lists' := by
  obtain ⟨block, allow⟩ := lists
  obtain ⟨block', allow'⟩ := lists'
  exact congrArg₂ Lists.mk (h .blocked) (h .allowed)

namespace Management

variable (d : Deployment)

/-- `Auth` as a call at an instant finds it. -/
def authAt (s : Management) (clock : AuthClock) : Auth := { s.auth with now := clock.instant }

/-- A call of `Auth`. -/
def authCall (s : Management) (clock : AuthClock) (call : AuthCall) : Management × AuthEvent :=
  let (auth, event) := Auth.perform d.crypto (s.authAt clock) clock call
  ({ s with auth }, event)

/-- `Auth::validate` (`auth.rs:97–130`). -/
def validate (s : Management) (token : Str) (env : Surroundings) : Auth × Bool :=
  match env.fault with
  | none => (s.authAt env.clock).validate d.crypto token env.clock
  | some _ => (s.authAt env.clock).validateSession token env.clock

/-- `Cache::stats` (`cache.rs:322–328`), of the lists. -/
def sizes (s : Management) : Nat × Nat :=
  (s.store.lists.blockList.card, s.store.lists.allowList.card)

/-- The in-memory half of an addition, and where it leaves the handler
(`cache.rs:208–216`, `238–246`). -/
def beginAdd (s : Management) (kind : ListKind) (list : Str) (domains : List Str) (total : Nat) :
    Management × Next :=
  let valid := Repo.normalizeDomains d.lc domains
  if valid = [] then (s, .done (.ok (.added (AddResult.fromOutcome ⟨0, 0⟩ total))))
  else
    match kind with
    | .blocked =>
      ({ s with store := { s.store with lists := { s.store.lists with
          blockList := cowInsert s.store.lists.blockList valid } } },
        .more (.insertBlocked list (insertChunks valid) 0 valid.length total))
    | .allowed =>
      ({ s with store := { s.store with lists := { s.store.lists with
          allowList := cowInsert s.store.lists.allowList valid } } },
        .more (.insertAllowed (insertChunks valid) 0 valid.length total))

/-- The in-memory half of a removal, and whether it removed
(`cache.rs:266–273`). -/
def beginRemove (s : Management) (domain : Str) : Management × Bool :=
  let lower := d.lc.toLowercase domain
  ({ s with store := { s.store with lists := { s.store.lists with
      blockList := s.store.lists.blockList.erase lower } } },
    decide (lower ∈ s.store.lists.blockList))

/-- The `DELETE` of a removal (`cache.rs:275–279`). -/
def deleteRow (s : Management) (domain : Str) : Management :=
  { s with store := { s.store with
    blocked := (s.store.blocked.deleteWhere fun row => row.domain = d.lc.toLowercase domain).1 } }

/-- `list_blocked` and `list_allowed` up to their second statement
(`api/mod.rs:254–266`, `319–331`). -/
def beginList (s : Management) (kind : ListKind) (p : Pagination) (env : Surroundings) : Next :=
  match env.fault with
  | some message => .done (.cacheSql message)
  | none =>
    match p.select d.db (kind.domains s.store) with
    | .error (.sql message) => .done (.cacheSql message)
    | .ok items => .more (.count kind items p.resolve.1 p.resolve.2)

/-- A handler of users or tokens: one statement, and what is answered of what
`Auth` did. -/
def account (s : Management) (env : Surroundings) (call : AuthCall)
    (answer : AuthEvent → Response) : Management × List AuthEvent × Next :=
  match env.fault with
  | some message => (s, [], .done (.database message))
  | none =>
    let (s', event) := s.authCall d env.clock call
    (s', [event], .done (answer event))

/-- What `create_user`, `set_password`, `delete_user` and `revoke_token` answer
(`auth.rs:329–361`, `382–391`). -/
def changed (refused : Response) : AuthEvent → Response
  | .userCreated _ _ true => .ok (.changed true)
  | .passwordSet _ _ true => .ok (.changed true)
  | .userDeleted _ true => .ok (.changed true)
  | .tokenRevoked _ true => .ok (.changed true)
  | _ => refused

/-- What `create_token` answers (`auth.rs:363–373`). -/
def created (refused : Response) : AuthEvent → Response
  | .tokenCreated _ token _ => .ok (.tokenCreated token)
  | _ => refused

/-- `Auth::list_users` (`auth.rs:132–145`). -/
def listUsers (s : Management) : List UserInfo :=
  (s.auth.users.rows.mergeSort fun a b => d.db.collation.le a.username b.username).map
    fun row => ⟨row.username, row.createdAt, row.lastLogin⟩

/-- `Auth::list_tokens` (`auth.rs:195–211`). -/
def listTokens (s : Management) : List TokenInfo :=
  (s.auth.apiTokens.rows.mergeSort fun a b => a.id ≤ b.id).map
    fun row => ⟨row.id, row.name, row.createdAt, row.lastUsed, row.expiresAt⟩

/-- A read of the database that may be refused. -/
def readRows (env : Surroundings) (body : Body) : Next :=
  match env.fault with
  | some message => .done (.database message)
  | none => .done (.ok body)

/-- The handlers up to their first suspension that matters
(`api/mod.rs:192–403`, `auth.rs:309–391`). -/
def beginRoute (s : Management) (env : Surroundings) :
    Route → Management × List AuthEvent × Next
  | .listBlocked p => (s, [], s.beginList d .blocked p env)
  | .listAllowed p => (s, [], s.beginList d .allowed p env)
  | .blockAddOne domain =>
    let (s', next) := s.beginAdd d .blocked "custom".toList [domain] 1
    (s', [], next)
  | .blockAddBulk domains =>
    let (s', next) := s.beginAdd d .blocked "custom".toList domains domains.length
    (s', [], next)
  | .blockAddUrl url list fetched =>
    match fetched with
    | .error message => (s, [], .done (.error .badRequest message))
    | .ok body =>
      let domains := Repo.parseDomainList d.lc.toLowercase body
      let (s', next) := s.beginAdd d .blocked (list.getD url) domains domains.length
      (s', [], next)
  | .allowAddOne domain =>
    let (s', next) := s.beginAdd d .allowed [] [domain] 1
    (s', [], next)
  | .allowAddBulk domains =>
    let (s', next) := s.beginAdd d .allowed [] domains domains.length
    (s', [], next)
  | .removeBulk domains => (s, [], .more (.bulk domains ⟨0, 0, []⟩))
  | .removeOne domain =>
    let (s', removed) := s.beginRemove d domain
    (s', [], .more (.deleteOne domain removed))
  | .getConfig => (s, [], .done (.ok (.config s.config)))
  | .patchConfig patch => (s, [], .more (.persist (patch.applyTo s.config)))
  | .listUsers => (s, [], readRows env (.users (s.listUsers d)))
  | .listTokens => (s, [], readRows env (.tokens s.listTokens))
  | .createUser username password =>
    s.account d env (.createUser username password env.salt)
      (changed (.database d.uniqueViolation))
  | .setPassword username password =>
    s.account d env (.setPassword username password env.salt)
      (changed (.error .notFound "user not found"))
  | .deleteUser username =>
    s.account d env (.deleteUser username) (changed (.error .notFound "user not found"))
  | .createToken name ttlSecs =>
    s.account d env (.createToken name ttlSecs (randomToken env.drawn))
      (created (.database d.uniqueViolation))
  | .revokeToken id' =>
    s.account d env (.revokeToken id') (changed (.error .notFound "token not found"))
  | .stats =>
    (s, [], .done (if d.analytics then .ok .stats
      else .error .serviceUnavailable "analytics disabled"))
  | .health =>
    (s, [], .done (.ok (.health s.sizes.1 s.sizes.2 env.l1Entries)))
  | .metrics =>
    (s, [], .done (if d.prometheus then .ok (.metrics s.sizes.1 s.sizes.2 env.l1Entries)
      else .error .serviceUnavailable "prometheus disabled"))
  | .login username password =>
    match env.fault with
    | some _ => (s, [], .done (.error .unauthorized "invalid credentials"))
    | none =>
      let (s', event) := s.authCall d env.clock (.login username password (randomToken env.drawn))
      (s', [event], .done (match event with
        | .login _ _ (some token) _ => .ok (.login token 86400)
        | _ => .error .unauthorized "invalid credentials"))

/-- One stretch of a handler. -/
def runJob (s : Management) (env : Surroundings) : Job → Management × List AuthEvent × Next
  | .begin route => s.beginRoute d env route
  | .count kind items limit offset =>
    match env.fault with
    | some message => (s, [], .done (.cacheSql message))
    | none =>
      (s, [], .done (.ok (.page items (Int64.ofNat (kind.domains s.store).length) limit offset)))
  | .insertBlocked _ [] added considered total =>
    (s, [], .done (.ok (.added (AddResult.fromOutcome ⟨added, considered⟩ total))))
  | .insertBlocked list (chunk :: rest) added considered total =>
    match env.fault with
    | some message => (s, [], .done (.cacheSql message))
    | none =>
      let (blocked, rows) := s.store.blocked.insertIgnore (chunk.map (BlockedRow.mk list))
      ({ s with store := { s.store with blocked } }, [],
        .more (.insertBlocked list rest (added + rows) considered total))
  | .insertAllowed [] added considered total =>
    (s, [], .done (.ok (.added (AddResult.fromOutcome ⟨added, considered⟩ total))))
  | .insertAllowed (chunk :: rest) added considered total =>
    match env.fault with
    | some message => (s, [], .done (.cacheSql message))
    | none =>
      let (allowed, rows) := s.store.allowed.insertIgnore chunk
      ({ s with store := { s.store with allowed } }, [],
        .more (.insertAllowed rest (added + rows) considered total))
  | .deleteOne domain removed =>
    match env.fault with
    | some message => (s, [], .done (.cacheSql message))
    | none =>
      (s.deleteRow d domain, [], .done (if removed then .ok (.removed true)
        else ⟨.notFound, .error (domain ++ " not found in blocklist".toList)⟩))
  | .bulk [] result => (s, [], .done (.ok (.bulk result)))
  | .bulk (domain :: rest) result =>
    let (s', removed) := s.beginRemove d domain
    (s', [], .more (.bulkDelete domain removed rest result))
  | .bulkDelete domain removed rest result =>
    match env.fault with
    | some message =>
      (s, [], .more (.bulk rest { result with
        errors := result.errors ++ [domain ++ (": cache sql: " ++ message).toList] }))
    | none =>
      (s.deleteRow d domain, [], .more (.bulk rest
        (if removed then { result with added := result.added + 1 }
        else { result with skipped := result.skipped + 1 })))
  | .persist merged =>
    match env.fault with
    | some message => (s, [], .done (.database message))
    | none => ({ s with row := some (d.json.toString merged) }, [], .more (.store merged))
  | .store merged => ({ s with config := merged }, [], .done (.ok (.config merged)))

/-- What `require_auth` answers of itself. -/
def unauthorized : Response := .error .unauthorized "unauthorized"

/-- A request: `router`, and `require_auth` before the protected routes
(`api/mod.rs:152–190`, `auth.rs:394–405`). -/
def request (s : Management) (authorization : Option Bytes) (route : Route) (env : Surroundings) :
    Management × List ApiEvent :=
  if route.isPublic then
    match s.beginRoute d env route with
    | (s', events, .done response) =>
      (s', events.map .auth ++ [.answered none route response])
    -- the public handlers answer at once
    | (s', events, .more _) => (s', events.map .auth)
  else
    match bearerToken authorization with
    | none => (s, [.answered none route unauthorized])
    | some token =>
      let (auth, accepted) := s.validate d token env
      let event := .auth (.validated token env.clock.instant env.clock.unix accepted)
      if accepted then
        ({ s with auth, running := s.running ++ [⟨token, route, .begin route⟩] },
          [event, .admitted token route])
      else ({ s with auth }, [event, .answered none route unauthorized])

/-- The `i`-th handler goes on. -/
def resume (s : Management) (i : Nat) (r : Running) (env : Surroundings) :
    Management × List ApiEvent :=
  match s.runJob d env r.job with
  | (s', events, .more job) =>
    ({ s' with running := s'.running.set i { r with job } }, events.map .auth)
  | (s', events, .done response) =>
    ({ s' with running := s'.running.eraseIdx i },
      events.map .auth ++ [.answered (some r.token) r.route response])

/-- The lists a restart reads, into a cache that has none (`main.rs:133–139`). -/
def readLists (rows : ListKind → RowRead) (store : ListStore) : Lists :=
  let blocked := Lists.readBlocklistDbMemory ⟨∅, ∅⟩ ((rows .blocked).stream store.blocked).items
  (blocked.lists.readAllowlistDbMemory ((rows .allowed).stream store.allowed).items).lists

/-- A restart (`main.rs:83–164`): the lists are read from their tables, the
configuration from its row, and no handler is under way. -/
def restart (s : Management) (salt : Str) (clock : AuthClock) (rows : ListKind → RowRead) :
    Management × List ApiEvent :=
  let (s', event) := s.authCall d clock (.restart salt)
  let (config, row) := loadOrInit d.json s.row d.defaults
  ({ s' with
    store := { s.store with lists := readLists rows s.store }
    config, row, running := [] }, [.auth event])

/-- One step; the clock of instants does not run backwards. -/
def step (s : Management) : ApiInput → Option (Management × List ApiEvent)
  | .request authorization route env =>
    if env.clock.instant < s.auth.now then none else some (s.request d authorization route env)
  | .resume i env =>
    if env.clock.instant < s.auth.now then none
    else
      match s.running[i]? with
      | none => none
      | some r => some (s.resume d i r env)
  | .hangUp i => some ({ s with running := s.running.eraseIdx i }, [])
  | .restart salt clock rows =>
    if clock.instant < s.auth.now then none else some (s.restart d salt clock rows)

/-- The management API as a machine. -/
abbrev machine : Machine Management ApiInput ApiEvent := ⟨step d⟩

/-! ## What a restart reads -/

/-- Nothing that is not in the table. -/
theorem mem_readLists {rows : ListKind → RowRead} {kind : ListKind} {store : ListStore} {x : Str}
    (hx : x ∈ kind.list (readLists rows store)) : x ∈ kind.domains store := by
  cases kind <;> exact List.mem_toFinset.mp (loadSet_subset _ hx)

/-- All of the table, unless it meets an error. -/
theorem list_readLists {rows : ListKind → RowRead} {kind : ListKind} (store : ListStore)
    (hread : (rows kind).fault = none) :
    kind.list (readLists rows store) = (kind.domains store).toFinset := by
  cases kind <;> exact loadSet_whole _ hread

/-! ## What a step can do -/

/-- Everything a step can do. -/
inductive Transition (s : Management) : ApiInput → Management → List ApiEvent → Prop
  | publicly {authorization : Option Bytes} {route : Route} {env : Surroundings}
      {s' : Management} {events : List AuthEvent} {response : Response} :
      route.isPublic = true → s.beginRoute d env route = (s', events, .done response) →
      Transition s (.request authorization route env) s'
        (events.map .auth ++ [.answered none route response])
  | noToken {authorization : Option Bytes} {route : Route} {env : Surroundings} :
      route.isPublic = false → bearerToken authorization = none →
      Transition s (.request authorization route env) s [.answered none route unauthorized]
  | badToken {authorization : Option Bytes} {route : Route} {env : Surroundings} {token : Str} :
      route.isPublic = false → bearerToken authorization = some token →
      (s.validate d token env).2 = false →
      Transition s (.request authorization route env)
        { s with auth := (s.validate d token env).1 }
        [.auth (.validated token env.clock.instant env.clock.unix false),
          .answered none route unauthorized]
  | admitted {authorization : Option Bytes} {route : Route} {env : Surroundings} {token : Str} :
      route.isPublic = false → bearerToken authorization = some token →
      (s.validate d token env).2 = true →
      Transition s (.request authorization route env)
        { s with
          auth := (s.validate d token env).1
          running := s.running ++ [⟨token, route, .begin route⟩] }
        [.auth (.validated token env.clock.instant env.clock.unix true), .admitted token route]
  | wentOn {i : Nat} {env : Surroundings} {r : Running} {s' : Management}
      {events : List AuthEvent} {job : Job} :
      s.running[i]? = some r → s.runJob d env r.job = (s', events, .more job) →
      Transition s (.resume i env) { s' with running := s'.running.set i { r with job } }
        (events.map .auth)
  | finished {i : Nat} {env : Surroundings} {r : Running} {s' : Management}
      {events : List AuthEvent} {response : Response} :
      s.running[i]? = some r → s.runJob d env r.job = (s', events, .done response) →
      Transition s (.resume i env) { s' with running := s'.running.eraseIdx i }
        (events.map .auth ++ [.answered (some r.token) r.route response])
  | hungUp {i : Nat} :
      Transition s (.hangUp i) { s with running := s.running.eraseIdx i } []
  | restarted {salt : Str} {clock : AuthClock} {rows : ListKind → RowRead} :
      Transition s (.restart salt clock rows) (s.restart d salt clock rows).1
        (s.restart d salt clock rows).2

variable {d} {s s' : Management} {e : ApiInput} {out : List ApiEvent}

/-- The public handlers answer at once. -/
theorem beginRoute_public {route : Route} (hpublic : route.isPublic = true) (env : Surroundings) :
    ∃ s' events response, s.beginRoute d env route = (s', events, .done response) := by
  cases route with
  | health => exact ⟨_, _, _, rfl⟩
  | metrics => exact ⟨_, _, _, rfl⟩
  | login username password =>
    rw [beginRoute]
    cases env.fault <;> exact ⟨_, _, _, rfl⟩
  | _ => cases hpublic

theorem request_transition {authorization : Option Bytes} {route : Route} {env : Surroundings}
    (h : s.request d authorization route env = (s', out)) :
    Transition d s (.request authorization route env) s' out := by
  unfold request at h
  split at h
  · next hpublic =>
    obtain ⟨s₁, events, response, hbegin⟩ := @beginRoute_public d s route hpublic env
    rw [hbegin] at h
    obtain ⟨rfl, rfl⟩ := Prod.mk.inj h
    exact .publicly hpublic hbegin
  · next hprotected =>
    rw [Bool.not_eq_true] at hprotected
    split at h
    · next hnone =>
      obtain ⟨rfl, rfl⟩ := Prod.mk.inj h
      exact .noToken hprotected hnone
    · next token htoken =>
      dsimp only at h
      cases haccepted : (s.validate d token env).2 with
      | true =>
        rw [haccepted, if_pos rfl] at h
        obtain ⟨rfl, rfl⟩ := Prod.mk.inj h
        exact .admitted hprotected htoken haccepted
      | false =>
        rw [haccepted, if_neg Bool.false_ne_true] at h
        obtain ⟨rfl, rfl⟩ := Prod.mk.inj h
        exact .badToken hprotected htoken haccepted

/-- **Step inversion.** -/
theorem step_transition (h : step d s e = some (s', out)) : Transition d s e s' out := by
  cases e with
  | request authorization route env =>
    rw [step] at h
    split at h
    · cases h
    · exact request_transition (Option.some.inj h)
  | resume i env =>
    rw [step] at h
    split at h
    · cases h
    · split at h
      · cases h
      · next r hr =>
        have hresume := Option.some.inj h
        unfold resume at hresume
        split at hresume
        · next hmore =>
          obtain ⟨rfl, rfl⟩ := Prod.mk.inj hresume
          exact .wentOn hr hmore
        · next hdone =>
          obtain ⟨rfl, rfl⟩ := Prod.mk.inj hresume
          exact .finished hr hdone
  | hangUp i =>
    obtain ⟨rfl, rfl⟩ := Prod.mk.inj (Option.some.inj h)
    exact .hungUp
  | restart salt clock rows =>
    rw [step] at h
    split at h
    · cases h
    · obtain ⟨rfl, rfl⟩ := Prod.mk.inj (Option.some.inj h)
      exact .restarted

end Management

/-- The clocks an input reads. -/
def ApiInput.clock? : ApiInput → Option AuthClock
  | .request _ _ env => some env.clock
  | .resume _ env => some env.clock
  | .hangUp _ => none
  | .restart _ clock _ => some clock

/-- If it is a restart, it reads the table of a kind without an error. -/
def ApiInput.Reads (kind : ListKind) : ApiInput → Prop
  | .restart _ _ rows => (rows kind).fault = none
  | _ => True

/-- The call of `Auth` a route makes. -/
def Route.call (env : Surroundings) : Route → Option AuthCall
  | .login username password => some (.login username password (randomToken env.drawn))
  | .createUser username password => some (.createUser username password env.salt)
  | .setPassword username password => some (.setPassword username password env.salt)
  | .deleteUser username => some (.deleteUser username)
  | .createToken name ttlSecs => some (.createToken name ttlSecs (randomToken env.drawn))
  | .revokeToken id' => some (.revokeToken id')
  | _ => none

/-- The handler does not go back to where a handler begins. -/
def Next.Later : Next → Prop
  | .more (.begin _) => False
  | _ => True

/-- A handler calls `Auth` at its beginning. -/
def Job.call (env : Surroundings) : Job → Option AuthCall
  | .begin route => route.call env
  | _ => none

namespace Management

variable {d : Deployment} {s s' : Management} {e : ApiInput} {out : List ApiEvent}

/-- A step reads no clock before the last one read. -/
theorem step_clock (h : step d s e = some (s', out)) :
    ∀ clock ∈ e.clock?, s.auth.now ≤ clock.instant := by
  rintro clock hclock
  cases e with
  | request authorization route env =>
    obtain rfl := Option.some.inj hclock
    rw [step] at h
    split at h
    · cases h
    · next hle => exact Nat.le_of_not_lt hle
  | resume i env =>
    obtain rfl := Option.some.inj hclock
    rw [step] at h
    split at h
    · cases h
    · next hle => exact Nat.le_of_not_lt hle
  | hangUp i => cases hclock
  | restart salt clock' rows =>
    obtain rfl := Option.some.inj hclock
    rw [step] at h
    split at h
    · cases h
    · next hle => exact Nat.le_of_not_lt hle

/-- A stretch that may call `Auth`, and does nothing to the handlers under
way. -/
structure Stretch (d : Deployment) (s : Management) (env : Surroundings) (call : Option AuthCall)
    (s' : Management) (events : List AuthEvent) : Prop where
  running : s'.running = s.running
  auth : (events = [] ∧ s'.auth = s.auth) ∨
    ∃ c event, call = some c ∧ events = [event] ∧
      Auth.perform d.crypto (s.authAt env.clock) env.clock c = (s'.auth, event)

/-- A stretch without a call. -/
theorem Stretch.quiet {env : Surroundings} {call : Option AuthCall}
    (hrunning : s'.running = s.running) (hauth : s'.auth = s.auth) :
    Stretch d s env call s' [] := ⟨hrunning, .inl ⟨rfl, hauth⟩⟩

theorem beginAdd_stretch (kind : ListKind) (list : Str) (domains : List Str) (total : Nat)
    (env : Surroundings) (call : Option AuthCall) :
    Stretch d s env call (s.beginAdd d kind list domains total).1 [] := by
  unfold beginAdd
  dsimp only
  split
  · exact .quiet rfl rfl
  · cases kind <;> exact .quiet rfl rfl

theorem account_stretch (env : Surroundings) (call : AuthCall) (answer : AuthEvent → Response) :
    Stretch d s env (some call) (s.account d env call answer).1
      (s.account d env call answer).2.1 := by
  unfold account
  split
  · exact .quiet rfl rfl
  · exact ⟨rfl, .inr ⟨call, _, rfl, rfl, rfl⟩⟩

theorem beginRoute_stretch (env : Surroundings) (route : Route) :
    Stretch d s env (route.call env) (s.beginRoute d env route).1
      (s.beginRoute d env route).2.1 := by
  cases route with
  | login username password =>
    rw [beginRoute]
    cases env.fault with
    | some message => exact .quiet rfl rfl
    | none => exact ⟨rfl, .inr ⟨_, _, rfl, rfl, rfl⟩⟩
  | blockAddOne domain => exact beginAdd_stretch .blocked _ [domain] 1 env none
  | blockAddBulk domains => exact beginAdd_stretch .blocked _ domains _ env none
  | blockAddUrl url list fetched =>
    cases fetched with
    | error message => exact .quiet rfl rfl
    | ok body => exact beginAdd_stretch .blocked _ (Repo.parseDomainList _ body) _ env none
  | allowAddOne domain => exact beginAdd_stretch .allowed [] [domain] 1 env none
  | allowAddBulk domains => exact beginAdd_stretch .allowed [] domains _ env none
  | createUser username password => exact account_stretch ..
  | setPassword username password => exact account_stretch ..
  | deleteUser username => exact account_stretch ..
  | createToken name ttlSecs => exact account_stretch ..
  | revokeToken id' => exact account_stretch ..
  | _ => exact .quiet rfl rfl

/-- **What a stretch of a handler does with `Auth`.** -/
theorem runJob_stretch (env : Surroundings) (job : Job) :
    Stretch d s env (job.call env) (s.runJob d env job).1 (s.runJob d env job).2.1 := by
  cases job with
  | begin route => exact beginRoute_stretch env route
  | count kind items limit offset =>
    rw [runJob]
    cases env.fault <;> exact .quiet rfl rfl
  | insertBlocked list chunks added considered total =>
    cases chunks with
    | nil => exact .quiet rfl rfl
    | cons chunk rest =>
      rw [runJob]
      cases env.fault <;> exact .quiet rfl rfl
  | insertAllowed chunks added considered total =>
    cases chunks with
    | nil => exact .quiet rfl rfl
    | cons chunk rest =>
      rw [runJob]
      cases env.fault <;> exact .quiet rfl rfl
  | deleteOne domain removed =>
    rw [runJob]
    cases env.fault <;> exact .quiet rfl rfl
  | bulk rest result =>
    cases rest with
    | nil => exact .quiet rfl rfl
    | cons domain rest => exact .quiet rfl rfl
  | bulkDelete domain removed rest result =>
    rw [runJob]
    cases env.fault <;> exact .quiet rfl rfl
  | persist merged =>
    rw [runJob]
    cases env.fault <;> exact .quiet rfl rfl
  | store merged => exact .quiet rfl rfl

theorem beginAdd_later (kind : ListKind) (list : Str) (domains : List Str) (total : Nat) :
    (s.beginAdd d kind list domains total).2.Later := by
  unfold beginAdd
  dsimp only
  split
  · trivial
  · cases kind <;> trivial

theorem beginList_later (kind : ListKind) (p : Pagination) (env : Surroundings) :
    (s.beginList d kind p env).Later := by
  unfold beginList
  split
  · trivial
  · split <;> trivial

theorem account_later (env : Surroundings) (call : AuthCall) (answer : AuthEvent → Response) :
    (s.account d env call answer).2.2.Later := by
  unfold account
  split <;> trivial

theorem readRows_later (env : Surroundings) (body : Body) : (readRows env body).Later := by
  unfold readRows
  split <;> trivial

theorem beginRoute_later (env : Surroundings) (route : Route) :
    (s.beginRoute d env route).2.2.Later := by
  cases route with
  | listBlocked p => exact beginList_later ..
  | listAllowed p => exact beginList_later ..
  | blockAddOne domain => exact beginAdd_later .blocked _ [domain] 1
  | blockAddBulk domains => exact beginAdd_later .blocked _ domains _
  | blockAddUrl url list fetched =>
    cases fetched with
    | error message => trivial
    | ok body => exact beginAdd_later .blocked _ (Repo.parseDomainList _ body) _
  | allowAddOne domain => exact beginAdd_later .allowed [] [domain] 1
  | allowAddBulk domains => exact beginAdd_later .allowed [] domains _
  | listUsers => exact readRows_later ..
  | listTokens => exact readRows_later ..
  | login username password =>
    rw [beginRoute]
    cases env.fault <;> trivial
  | createUser username password => exact account_later ..
  | setPassword username password => exact account_later ..
  | deleteUser username => exact account_later ..
  | createToken name ttlSecs => exact account_later ..
  | revokeToken id' => exact account_later ..
  | _ => trivial

/-- A handler does not begin again. -/
theorem runJob_later (env : Surroundings) (job : Job) : (s.runJob d env job).2.2.Later := by
  cases job with
  | begin route => exact beginRoute_later env route
  | insertBlocked list chunks added considered total =>
    cases chunks with
    | nil => trivial
    | cons chunk rest =>
      rw [runJob]
      cases env.fault <;> trivial
  | insertAllowed chunks added considered total =>
    cases chunks with
    | nil => trivial
    | cons chunk rest =>
      rw [runJob]
      cases env.fault <;> trivial
  | bulk rest result =>
    cases rest with
    | nil => trivial
    | cons domain rest => trivial
  | store merged => trivial
  | _ =>
    rw [runJob]
    cases env.fault <;> trivial

end Management

end Denis
