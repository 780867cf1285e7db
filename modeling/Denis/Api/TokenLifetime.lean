import Denis.Api.Validation
import Mathlib.Algebra.Order.Ring.Int

/-!
# How long an API token lives (`api/auth.rs`)

`create_token` stores `now_unix() + ttl_secs`, a 64-bit sum of two numbers the
code checks neither of, and `validate` compares what was stored with a later
clock reading. In a release build the sum wraps, so a lifetime that reaches
past the last second of the type is stored as a time before 1970.

`Creation` is a run up to and past the call that made a token; a check of the
token finds exactly what was stored (`accepted_iff`). The main result is
`lives_as_asked_iff`: a token is accepted for the lifetime asked for iff the sum
fits.
-/

namespace Denis

open Text

namespace Auth

/-- The history of a token: the run up to the call of `create_token`, the call,
and what it answered. -/
structure Creation (crypto : Crypto) (users : Table UserRow.username) (nextUser now : Nat) where
  pre : List AuthInput
  s : Auth
  before : List AuthEvent
  run : (machine crypto).run (boot users nextUser now) pre = some (s, before)
  name : Str
  ttlSecs : Int64
  token : Str
  clock : AuthClock
  s' : Auth
  id : Nat
  expiresAt : Option Int64
  step : step crypto s ⟨.createToken name (some ttlSecs) token, clock⟩ =
    some (s', [.tokenCreated id token expiresAt])

namespace Creation

variable {crypto : Crypto} {users : Table UserRow.username} {nextUser now : Nat}
  (c : Creation crypto users nextUser now)

/-- The answers up to the creation. -/
def history : List AuthEvent := c.before ++ [.tokenCreated c.id c.token c.expiresAt]

/-- In these answers the tokens issued are distinct, and no two strings hashed
have one hash. -/
def Fresh (crypto : Crypto) (h : List AuthEvent) : Prop :=
  (issued h).Nodup ∧ Set.InjOn crypto.sha256Hex {x | x ∈ hashed h}

/-- **As asked**: in every continuation, a check of the token while it is not
revoked accepts it from its creation for `ttl_secs` seconds, as integers, and at
no later time. -/
def LivesAsAsked : Prop :=
  ∀ post t rest, (machine crypto).run c.s' post = some (t, rest) →
    Fresh crypto (c.history ++ rest) →
    ∀ upto at' unix accepted after,
      rest = upto ++ .validated c.token at' unix accepted :: after →
      .tokenRevoked c.id true ∉ upto →
        (c.clock.unix.toInt ≤ unix.toInt → unix.toInt < c.clock.unix.toInt + c.ttlSecs.toInt →
          accepted = true) ∧
        (c.clock.unix.toInt + c.ttlSecs.toInt ≤ unix.toInt → accepted = false)

/-- What the call stored: the wrapped sum, in a row of the next id. -/
theorem stored : c.id = c.s.nextToken ∧ c.expiresAt = some (c.clock.unix + c.ttlSecs) := by
  obtain ⟨-, event, hperform, hevent⟩ := step_eq_some c.step
  obtain rfl := List.singleton_inj.mp hevent
  have hcreated := congrArg Prod.snd hperform
  change (createToken crypto { c.s with now := c.clock.instant } c.name (some c.ttlSecs) c.token
    c.clock).2 = _ at hcreated
  unfold createToken at hcreated
  dsimp only at hcreated
  split at hcreated
  · cases hcreated
  · obtain ⟨hid, -, hexpiry⟩ := AuthEvent.tokenCreated.inj hcreated
    exact ⟨hid.symm, hexpiry.symm⟩

/-- A run past the creation is one from the start. -/
theorem run_history {post : List AuthInput} {t : Auth} {rest : List AuthEvent}
    (hrun : (machine crypto).run c.s' post = some (t, rest)) :
    ∃ es, (machine crypto).run (boot users nextUser now) es = some (t, c.history ++ rest) := by
  refine ⟨c.pre ++ ⟨.createToken c.name (some c.ttlSecs) c.token, c.clock⟩ :: post, ?_⟩
  refine Machine.run_append.mpr ⟨c.s, c.before, _, c.run,
    Machine.run_cons_eq_some.mpr ⟨c.s', _, rest, c.step, hrun, rfl⟩, ?_⟩
  rw [history, List.append_assoc]

/-- The row has not been revoked when it is made: its id is new. -/
theorem notMem_revoked : .tokenRevoked c.id true ∉ c.before := by
  intro hrevoked
  have hlt := (tracked_run c.run).tokens.revoked c.id hrevoked
  rw [c.stored.1] at hlt
  exact Nat.lt_irrefl _ hlt

/-- **A check finds what was stored**: until it is revoked, the token is
accepted iff the wrapped sum is later than the time of the check. -/
theorem accepted_iff {post : List AuthInput} {t : Auth} {rest : List AuthEvent}
    (hrun : (machine crypto).run c.s' post = some (t, rest))
    (hfresh : Fresh crypto (c.history ++ rest)) {upto after : List AuthEvent} {at' : Nat}
    {unix : Int64} {accepted : Bool}
    (hsplit : rest = upto ++ .validated c.token at' unix accepted :: after)
    (hrevoked : .tokenRevoked c.id true ∉ upto) :
    accepted = true ↔ unix < c.clock.unix + c.ttlSecs := by
  obtain ⟨es, hfull⟩ := c.run_history hrun
  obtain ⟨hdistinct, hfree⟩ := hfresh
  have houts : c.history ++ rest =
      (c.history ++ upto) ++ .validated c.token at' unix accepted :: after := by
    rw [hsplit, List.append_assoc]
  have hcreated : .tokenCreated c.id c.token c.expiresAt ∈ c.history ++ upto := by
    simp [history]
  have hmem : ∀ {event : AuthEvent}, event ∈ c.history ++ upto → event ∈ c.history ++ rest := by
    intro event hevent
    rw [houts]
    exact List.mem_append_left _ hevent
  rw [validated_iff_live hfull hfree houts]
  constructor
  · rintro (⟨user, pass, at'', hlogin, -⟩ | ⟨id, e, hmade, -, hlive⟩)
    · -- its one issue is the creation
      cases eq_of_issued hdistinct (hmem (mem_of_sinceRestart hlogin)) (hmem hcreated) rfl rfl
    · obtain ⟨-, -, rfl⟩ := AuthEvent.tokenCreated.inj
        (eq_of_issued hdistinct (hmem hmade) (hmem hcreated) rfl rfl)
      exact hlive _ c.stored.2
  · intro hlt
    refine .inr ⟨c.id, c.expiresAt, hcreated, ?_, fun expiry hexpiry => ?_⟩
    · simp [history, c.notMem_revoked, hrevoked]
    · rw [c.stored.2] at hexpiry
      exact Option.some.inj hexpiry ▸ hlt

/-- The sum of two times that are not negative: itself if it fits, and below
zero if not. -/
theorem sum_cases {x y : Int64} (hx : 0 ≤ x.toInt) (hy : 0 ≤ y.toInt) :
    (x.toInt + y.toInt < 2 ^ 63 ∧ (x + y).toInt = x.toInt + y.toInt) ∨
      (2 ^ 63 ≤ x.toInt + y.toInt ∧ (x + y).toInt < 0) := by
  have hx' := x.toInt_lt
  have hy' := y.toInt_lt
  rw [Int64.toInt_add, Int.bmod_def]
  omega

/-- A token can be checked at once, whatever the time. -/
theorem check_runs (crypto : Crypto) (s : Auth) (token : Str) (unix : Int64) :
    ∃ t accepted, (machine crypto).run s [⟨.validate token, s.now, unix⟩] =
      some (t, [.validated token s.now unix accepted]) := by
  have hstep := @step_of_le crypto s ⟨.validate token, s.now, unix⟩ (Nat.le_refl _)
  exact ⟨_, _, Machine.run_cons_eq_some.mpr ⟨_, _, [], hstep, rfl, rfl⟩⟩

/-- A check of the token issues and hashes nothing new. -/
theorem fresh_validated (hfresh : Fresh crypto c.history) (at' : Nat) (unix : Int64)
    (accepted : Bool) : Fresh crypto (c.history ++ [.validated c.token at' unix accepted]) := by
  obtain ⟨hdistinct, hfree⟩ := hfresh
  refine ⟨?_, hfree.mono fun x hx => ?_⟩
  · rw [issued, List.filterMap_append]
    exact (List.append_nil _).symm ▸ hdistinct
  · rcases List.mem_append.mp ((List.filterMap_append ..).symm ▸ hx :
        x ∈ hashed c.history ++ hashed [.validated c.token at' unix accepted]) with hx | hx
    · exact hx
    · obtain rfl := List.mem_singleton.mp hx
      exact List.mem_filterMap.mpr
        ⟨.tokenCreated c.id c.token c.expiresAt, by simp [history], rfl⟩

/-- **Tokens live as long as asked** iff the time they are made and the lifetime
asked for have a sum below 2⁶³. -/
theorem lives_as_asked_iff (hunix : 0 ≤ c.clock.unix.toInt) (httl : 0 ≤ c.ttlSecs.toInt)
    (hfresh : Fresh crypto c.history) :
    c.LivesAsAsked ↔ c.clock.unix.toInt + c.ttlSecs.toInt < 2 ^ 63 := by
  constructor
  · intro hlives
    rcases sum_cases hunix httl with ⟨hfits, -⟩ | ⟨hpast, hnegative⟩
    · exact hfits
    · -- checked in the second it was made, the token has expired long ago
      obtain ⟨t, accepted, hrun⟩ := check_runs crypto c.s' c.token c.clock.unix
      have hfresh' := c.fresh_validated hfresh c.s'.now c.clock.unix accepted
      have hmade : c.clock.unix.toInt < c.clock.unix.toInt + c.ttlSecs.toInt := by
        have hlt := c.clock.unix.toInt_lt
        omega
      have htrue := (hlives _ t _ hrun hfresh' [] _ _ accepted [] rfl (by simp)).1 (le_refl _) hmade
      have hlater := (c.accepted_iff hrun hfresh' (List.nil_append _).symm (by simp)).mp htrue
      rw [Int64.lt_iff_toInt_lt] at hlater
      omega
  · intro hfits post t rest hrun hfresh' upto at' unix accepted after hsplit hrevoked
    have haccepted := c.accepted_iff hrun hfresh' hsplit hrevoked
    rw [Int64.lt_iff_toInt_lt] at haccepted
    rcases sum_cases hunix httl with ⟨-, hsum⟩ | ⟨hpast, -⟩
    · rw [hsum] at haccepted
      refine ⟨fun _ hlt => haccepted.mpr hlt, fun hle => ?_⟩
      rw [← Bool.not_eq_true, haccepted]
      exact Int.not_lt.mpr hle
    · exact absurd hfits (Int.not_lt.mpr hpast)

end Creation

/-- A token made at a time for a lifetime, on a database of no users. -/
def Sample.creation (unix ttlSecs : Int64) : Creation Sample.crypto (.empty _) 1 0 where
  pre := []
  s := boot (.empty _) 1 0
  before := []
  run := rfl
  name := ['c', 'i']
  ttlSecs := ttlSecs
  token := ['t']
  clock := ⟨1, unix⟩
  s' := (perform Sample.crypto { boot (.empty _) 1 0 with now := 1 } ⟨1, unix⟩
    (.createToken ['c', 'i'] (some ttlSecs) ['t'])).1
  id := 1
  expiresAt := some (unix + ttlSecs)
  step := rfl

theorem Sample.creation_fresh (unix ttlSecs : Int64) :
    Creation.Fresh Sample.crypto (creation unix ttlSecs).history :=
  ⟨List.nodup_singleton _, Sample.sha256Hex_injective.injOn⟩

/-- A minute is a minute. -/
theorem minute_as_asked : (Sample.creation 1700000000 60).LivesAsAsked :=
  (Creation.lives_as_asked_iff _ (by decide) (by decide) (Sample.creation_fresh ..)).mpr
    (by decide)

/-- **The longest lifetime is over at once**: `ttl_secs = i64::MAX`, asked for at
any time after the first second of 1970. -/
theorem longest_expires_at_once :
    0 ≤ (1700000000 : Int64).toInt ∧ 0 ≤ Int64.maxValue.toInt ∧
      ¬ (Sample.creation 1700000000 Int64.maxValue).LivesAsAsked := by
  refine ⟨by decide, by decide, fun hlives => ?_⟩
  -- checked in the next instant of the same second
  obtain ⟨⟨t, rest⟩, hrun, rfl⟩ := Option.map_eq_some_iff.mp
    (show ((machine Sample.crypto).run (Sample.creation 1700000000 Int64.maxValue).s'
        [⟨.validate ['t'], ⟨2, 1700000000⟩⟩]).map Prod.snd =
      some [.validated ['t'] 2 1700000000 false] by decide +kernel)
  have hcheck := hlives _ t _ hrun ⟨List.nodup_singleton _, Sample.sha256Hex_injective.injOn⟩
    [] 2 1700000000 false [] rfl (by simp)
  cases hcheck.1 (le_refl _) (by decide)

end Auth

end Denis
