import Denis.Api.Validation

/-!
# The default credentials (`api/auth.rs`)

`Auth::new` runs at every start and seeds user `admin` with password `admin`
whenever table `users` is empty. So an `admin` who is deleted comes back, with
the default password, if nobody else is left at a restart
(`default_login_seeded_again`).

Nothing else brings the default login back. A row after a call has the name and
the hash of a row before, or a hash that the call stores (`perform_users`), and
only three calls store one (`Stores`).
-/

namespace Denis

open Text

namespace Auth

variable {crypto : Crypto} {s s' : Auth} {clock : AuthClock}

/-- The calls that store a hash of the password for the user. -/
def Stores (s : Auth) (user pass : Str) : AuthCall → Prop
  | .createUser u p _ => u = user ∧ p = pass ∧ user ∉ s.users.keys
  | .setPassword u p _ => u = user ∧ p = pass ∧ user ∈ s.users.keys
  | .restart _ => s.users.size = 0 ∧ user = adminName ∧ pass = adminName
  | _ => False

instance (s : Auth) (user pass : Str) : ∀ call, Decidable (Stores s user pass call)
  | .createUser u p _ => inferInstanceAs (Decidable (u = user ∧ p = pass ∧ user ∉ s.users.keys))
  | .setPassword u p _ => inferInstanceAs (Decidable (u = user ∧ p = pass ∧ user ∈ s.users.keys))
  | .restart _ =>
    inferInstanceAs (Decidable (s.users.size = 0 ∧ user = adminName ∧ pass = adminName))
  | .login .. => .isFalse id
  | .validate .. => .isFalse id
  | .deleteUser .. => .isFalse id
  | .createToken .. => .isFalse id
  | .revokeToken .. => .isFalse id

/-- The calls that delete the default user or give it another password. -/
def Closes : AuthCall → Prop
  | .deleteUser user => user = adminName
  | .setPassword user pass _ => user = adminName ∧ pass ≠ adminName
  | _ => False

/-- No row of the default user has the hash of its default password. -/
def Closed (crypto : Crypto) (s : Auth) : Prop :=
  ∀ row ∈ s.users.rows, row.username = adminName →
    crypto.verify adminName row.passwordHash = false

/-! ## The rows of table `users` -/

/-- What explains a row after a call: a row before with its name and hash, or a
hash stored. -/
def FromCall (crypto : Crypto) (s : Auth) (call : AuthCall) (row' : UserRow) : Prop :=
  (∃ row ∈ s.users.rows, row'.username = row.username ∧ row'.passwordHash = row.passwordHash) ∨
    ∃ pass salt, Stores s row'.username pass call ∧
      row'.passwordHash = crypto.hashPassword salt pass

/-- A row inserted, and the rows before. -/
theorem insertUser_rows {user pass salt : Str}
    (h : s.insertUser crypto user pass salt clock = some s') {row' : UserRow}
    (hrow' : row' ∈ s'.users.rows) :
    row' ∈ s.users.rows ∨ user ∉ s.users.keys ∧ row'.username = user ∧
      row'.passwordHash = crypto.hashPassword salt pass := by
  unfold insertUser at h
  split at h
  · cases h
  · next users hinsert =>
    obtain rfl := Option.some.inj h
    obtain ⟨hfree, hrows⟩ := Table.insert_eq_some hinsert
    have hmem : row' ∈ users.rows := hrow'
    rw [hrows] at hmem
    rcases List.mem_append.mp hmem with hold | hnew
    · exact .inl hold
    · obtain rfl := List.mem_singleton.mp hnew
      exact .inr ⟨hfree, rfl, rfl⟩

/-- The rows after a restart: the rows before, or a default user where there was
no user. -/
theorem new_rows {s : Auth} {salt : Str} {row' : UserRow}
    (hrow' : row' ∈ (s.new crypto salt clock).users.rows) :
    row' ∈ s.users.rows ∨ s.users.size = 0 ∧ row'.username = adminName ∧
      row'.passwordHash = crypto.hashPassword salt adminName := by
  unfold new at hrow'
  dsimp only at hrow'
  split at hrow'
  · next hnone =>
    cases hinsert : insertUser crypto { s with sessions := fun _ => none } adminName adminName
        salt clock with
    | none =>
      rw [hinsert] at hrow'
      exact .inl hrow'
    | some s' =>
      rw [hinsert] at hrow'
      rcases insertUser_rows hinsert hrow' with hrow | ⟨-, hname, hhash⟩
      · exact .inl hrow
      · exact .inr ⟨hnone, hname, hhash⟩
  · exact .inl hrow'

/-- **Where the rows after a call come from.** -/
theorem perform_users (s : Auth) (clock : AuthClock) (call : AuthCall) {row' : UserRow}
    (hrow' : row' ∈ (perform crypto s clock call).1.users.rows) :
    FromCall crypto s call row' := by
  have hold : ∀ {row}, row ∈ s.users.rows → FromCall crypto s call row :=
    fun hrow => .inl ⟨_, hrow, rfl, rfl⟩
  cases call with
  | login user pass token =>
    change row' ∈ (s.login crypto user pass token clock).1.users.rows at hrow'
    unfold login at hrow'
    split at hrow'
    · exact hold hrow'
    · split at hrow'
      · -- only `last_login` of a row changes
        obtain ⟨row, hrow, rfl⟩ := List.mem_map.mp hrow'
        refine .inl ⟨row, hrow, ?_⟩
        split
        · exact ⟨rfl, rfl⟩
        · exact ⟨rfl, rfl⟩
      · exact hold hrow'
  | validate token =>
    have husers := (@sameView_validate crypto s token clock).users
    exact hold (husers ▸ hrow')
  | createUser user pass salt =>
    change row' ∈ (s.createUser crypto user pass salt clock).1.users.rows at hrow'
    unfold createUser at hrow'
    split at hrow'
    · next hinsert =>
      rcases insertUser_rows hinsert hrow' with hrow | ⟨hfree, rfl, hhash⟩
      · exact hold hrow
      · exact .inr ⟨pass, salt, ⟨rfl, rfl, hfree⟩, hhash⟩
    · exact hold hrow'
  | setPassword user pass salt =>
    obtain ⟨row, hrow, rfl⟩ := List.mem_map.mp hrow'
    by_cases huser : row.username = user
    · subst huser
      have hkey : row.username ∈ s.users.keys := List.mem_map_of_mem hrow
      rw [if_pos (by simp)]
      exact .inr ⟨pass, salt, ⟨rfl, rfl, hkey⟩, rfl⟩
    · rw [if_neg (by simp [huser])]
      exact hold hrow
  | deleteUser user => exact hold (Table.mem_deleteWhere.mp hrow').1
  | createToken name ttlSecs token =>
    change row' ∈ (s.createToken crypto name ttlSecs token clock).1.users.rows at hrow'
    unfold createToken at hrow'
    dsimp only at hrow'
    split at hrow'
    · exact hold hrow'
    · exact hold hrow'
  | revokeToken id => exact hold hrow'
  | restart salt =>
    rcases new_rows hrow' with hrow | ⟨hnone, hname, hhash⟩
    · exact hold hrow
    · exact .inr ⟨adminName, salt, ⟨hnone, hname, rfl⟩, hhash⟩

/-! ## The default login, over runs -/

/-- What is assumed of argon2: it verifies exactly what was hashed. -/
def VerifiesHashed (crypto : Crypto) : Prop :=
  ∀ salt p q, crypto.verify p (crypto.hashPassword salt q) = true ↔ p = q

/-- A call that does not store the default hash keeps the default login
closed. -/
theorem closed_perform (hexact : VerifiesHashed crypto) (h : Closed crypto s) {call : AuthCall}
    (hcall : ¬ Stores s adminName adminName call) :
    Closed crypto (perform crypto s clock call).1 := by
  intro row' hrow' hname
  rcases perform_users s clock call hrow' with ⟨row, hrow, hrowName, hhash⟩ |
      ⟨pass, salt, hstores, hhash⟩
  · rw [hhash]
    exact h row hrow (hrowName.symm.trans hname)
  · rw [hname] at hstores
    rw [hhash, ← Bool.not_eq_true, hexact]
    rintro rfl
    exact hcall hstores

/-- Deleting the default user, or giving it another password, closes the default
login. -/
theorem closed_of_closes (hexact : VerifiesHashed crypto) {call : AuthCall} (hcall : Closes call) :
    Closed crypto (perform crypto s clock call).1 := by
  intro row' hrow' hname
  cases call with
  | deleteUser user =>
    obtain rfl : user = adminName := hcall
    have hne := (Table.mem_deleteWhere.mp hrow').2
    simp [hname] at hne
  | setPassword user pass salt =>
    obtain ⟨rfl, hpass⟩ := hcall
    obtain ⟨row, hrow, rfl⟩ := List.mem_map.mp hrow'
    by_cases hrowName : row.username = adminName
    · rw [if_pos (by simp [hrowName]), ← Bool.not_eq_true, hexact]
      exact hpass.symm
    · rw [if_neg (by simp [hrowName])] at hname
      exact absurd hname hrowName
  | _ => exact hcall.elim

/-- A default login that is closed is refused. -/
theorem login_refused (h : Closed crypto s) {call : AuthCall} {result : Option Str} {at' : Nat}
    (hanswer : (perform crypto s clock call).2 = .login adminName adminName result at') :
    result = none := by
  cases call with
  | login user pass token =>
    obtain ⟨rfl, rfl, rfl, -⟩ := AuthEvent.login.inj hanswer
    show (s.login crypto adminName adminName token clock).2 = none
    unfold login
    split
    · rfl
    · next row hfind =>
      have hname := List.find?_some hfind
      rw [h row (List.mem_of_find?_eq_some hfind) (by simpa using hname)]
      rfl
  | createToken name ttlSecs token =>
    obtain ⟨-, hrefused | ⟨row, -, -, -, -, hevent⟩⟩ :=
      @createToken_cases crypto s name ttlSecs token clock
    · cases (congrArg Prod.snd hrefused).symm.trans hanswer
    · cases hevent.symm.trans hanswer
  | _ => cases hanswer

/-- **The default login stays closed.** From a call that deletes `admin`, or
sets its password to something else than `admin`, every later login with
`admin` and `admin` fails, in every run in which no call stores the default
hash: no call creates `admin` with it or sets it, and no restart finds the users
empty. -/
theorem default_login_refused (hexact : VerifiesHashed crypto) {t : Auth} {closing : AuthInput}
    {es : List AuthInput} {out outs : List AuthEvent}
    (hstep : step crypto s closing = some (s', out)) (hcloses : Closes closing.call)
    (hrun : (machine crypto).run s' es = some (t, outs))
    (hkept : (machine crypto).Along
      (fun s input => ¬ Stores s adminName adminName input.call) s' es)
    {result : Option Str} {at' : Nat} (hlogin : .login adminName adminName result at' ∈ outs) :
    result = none := by
  obtain ⟨-, event, hperform, -⟩ := step_eq_some hstep
  have hclosed : Closed crypto s' := by
    have hafter := @closed_of_closes crypto { s with now := closing.clock.instant } closing.clock
      hexact _ hcloses
    rwa [hperform] at hafter
  refine (Machine.run_history (M := machine crypto)
    (J := fun h m => Closed crypto m ∧ ∀ result at', .login adminName adminName result at' ∈ h →
      result = none) ?_ (h := []) ⟨hclosed, by simp⟩ hkept hrun).2 result at' hlogin
  intro h m input m' out ⟨hm, hrefused⟩ hcall hstep
  obtain ⟨-, event, hperform, rfl⟩ := step_eq_some hstep
  have hnow : Closed crypto { m with now := input.clock.instant } := hm
  have hcall' : ¬ Stores { m with now := input.clock.instant } adminName adminName input.call :=
    hcall
  refine ⟨?_, ?_⟩
  · have hafter := @closed_perform crypto _ input.clock hexact hnow _ hcall'
    rwa [hperform] at hafter
  · intro result at' hmem
    rcases List.mem_append.mp hmem with hmem | hmem
    · exact hrefused result at' hmem
    · obtain rfl := List.mem_singleton.mp hmem
      exact login_refused hnow (congrArg Prod.snd hperform)

/-- Another user is there when `admin` is deleted, and the service restarts. -/
theorem deleted_default_login_refused :
    let users : Table UserRow.username :=
      ⟨[⟨1, adminName, Sample.crypto.hashPassword [] adminName, 50, none⟩,
        ⟨2, ['b'], Sample.crypto.hashPassword [] ['p'], 50, none⟩], by decide⟩
    let m := (perform Sample.crypto (boot users 3 1) ⟨1, 50⟩ (.deleteUser adminName)).1
    ∃ t result, (machine Sample.crypto).run m
        [⟨.restart [], 2, 51⟩, ⟨.login adminName adminName ['s'], 3, 51⟩] =
      some (t, [.restarted, .login adminName adminName result 3]) ∧ result = none := by
  intro users m
  obtain ⟨⟨t, outs⟩, hrun, rfl⟩ := Option.map_eq_some_iff.mp
    (show ((machine Sample.crypto).run m
        [⟨.restart [], 2, 51⟩, ⟨.login adminName adminName ['s'], 3, 51⟩]).map Prod.snd =
      some [.restarted, .login adminName adminName none 3] by decide +kernel)
  have hstep : step Sample.crypto (boot users 3 1) ⟨.deleteUser adminName, 1, 50⟩ =
      some (m, [.userDeleted adminName true]) := step_of_le (Nat.le_refl 1)
  have hkept : (machine Sample.crypto).Along
      (fun s input => ¬ Stores s adminName adminName input.call) m
      [⟨.restart [], 2, 51⟩, ⟨.login adminName adminName ['s'], 3, 51⟩] := by decide +kernel
  have hlogin : AuthEvent.login adminName adminName none 3 ∈
      [.restarted, .login adminName adminName none 3] := by simp
  exact ⟨t, none, hrun, default_login_refused Sample.verify_iff hstep rfl hrun hkept hlogin⟩

/-- **The default login comes back**: `admin` is deleted, being the only user,
and the next start seeds it again; no call creates it or sets its password. -/
theorem default_login_seeded_again :
    VerifiesHashed Sample.crypto ∧ ∃ es t before after token at',
      (machine Sample.crypto).run (boot (.empty _) 1 0) es =
          some (t, before ++ .userDeleted adminName true :: after) ∧
        (∀ ok, .userCreated adminName adminName ok ∉ after) ∧
        (∀ found, .passwordSet adminName adminName found ∉ after) ∧
        .login adminName adminName (some token) at' ∈ after := by
  obtain ⟨⟨t, _⟩, hrun, rfl⟩ := Option.map_eq_some_iff.mp
    (show ((machine Sample.crypto).run (boot (.empty _) 1 0)
        [⟨.restart [], 0, 50⟩, ⟨.deleteUser adminName, 1, 50⟩, ⟨.restart [], 2, 51⟩,
          ⟨.login adminName adminName ['s'], 3, 51⟩]).map Prod.snd =
      some ([.restarted] ++ .userDeleted adminName true ::
        [.restarted, .login adminName adminName (some ['s']) 3]) by decide +kernel)
  exact ⟨Sample.verify_iff, _, t, _, _, ['s'], 3, hrun, by decide, by decide, by decide⟩

end Auth

end Denis
