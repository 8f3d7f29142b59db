import TickerWatch.Auth.History

/-!
# Which passwords work

`RegisterRequest` admits passwords of up to 256 characters.  bcrypt takes 72 bytes and raises
`ValueError` past them: `verify_password` turns that into a failed login, `hash_password` lets it
out of `register`.

What is assumed of bcrypt is `Bcrypt.Pinned`, what its pinned release documents.  A user's row is
never changed (`user_perform`), so what a registration stored decides every later login.
-/

namespace TickerWatch

/-- The two functions of bcrypt.  A password is given as the text whose UTF-8 encoding the code
passes; `none` is `ValueError`. -/
structure Bcrypt where
  hashpw : String → String → Option String
  checkpw : String → String → Option Bool

/-- Text without the NUL character, which neither bcrypt nor Postgres takes. -/
def NoNul (s : String) : Prop := '\x00' ∉ s.toList

instance (s : String) : Decidable (NoNul s) := inferInstanceAs (Decidable (¬ _))

namespace Bcrypt

/-- What the pinned release does with passwords without NUL: both functions raise past 72 bytes, and
otherwise a hash checks exactly the password it was made of. -/
structure Pinned (bc : Bcrypt) : Prop where
  hashpw_raises : ∀ salt p, NoNul p → (bc.hashpw salt p = none ↔ 72 < p.utf8ByteSize)
  checkpw_raises : ∀ p hashed, NoNul p → 72 < p.utf8ByteSize → bc.checkpw p hashed = none
  checkpw_hashpw : ∀ salt p q hashed, NoNul p → NoNul q → p.utf8ByteSize ≤ 72 →
    bc.hashpw salt q = some hashed → (bc.checkpw p hashed = some true ↔ p = q)

/-- `hash_password`. -/
def hashPassword (bc : Bcrypt) (salt plain : String) : Option String := bc.hashpw salt plain

/-- `verify_password`: a `ValueError` is a failed login. -/
def verifyPassword (bc : Bcrypt) (plain hashed : String) : Bool :=
  match bc.checkpw plain hashed with
  | some answer => answer
  | none => false

variable {bc : Bcrypt} {salt p q hashed : String}

/-- A stored hash verifies exactly the password it was made of, also past 72 bytes. -/
lemma Pinned.verifyPassword_iff (hbc : bc.Pinned) (hp : NoNul p) (hq : NoNul q)
    (hhash : bc.hashPassword salt q = some hashed) :
    bc.verifyPassword p hashed = true ↔ p = q := by
  unfold verifyPassword
  rcases Nat.lt_or_ge 72 p.utf8ByteSize with hlong | hshort
  · rw [hbc.checkpw_raises p hashed hp hlong]
    refine iff_of_false (by simp) ?_
    rintro rfl
    have hnone := (hbc.hashpw_raises salt p hp).2 hlong
    exact absurd (hnone.symm.trans hhash) (by simp)
  · rw [← hbc.checkpw_hashpw salt p q hashed hp hq hshort hhash]
    cases bc.checkpw p hashed with
    | none => simp
    | some answer => simp

end Bcrypt

/-- The libraries with bcrypt for the passwords. -/
def Crypto.withBcrypt (sec : Crypto) (bc : Bcrypt) : Crypto :=
  { sec with
    hashpw := bc.hashPassword
    checkpw := bc.verifyPassword }

/-! ## The requests -/

/-- The body of a login. -/
structure LoginRequest where
  username : String
  password : String
  deriving DecidableEq, Repr

/-- The body of a registration. -/
structure RegisterRequest extends LoginRequest where
  email : Option String := none
  firstName : String := ""
  lastName : String := ""
  deriving DecidableEq, Repr

/-- The lengths `LoginRequest` checks, of text Postgres can store. -/
structure LoginRequest.Accepted (r : LoginRequest) : Prop where
  username_length : 1 ≤ r.username.length ∧ r.username.length ≤ 150
  password_length : 1 ≤ r.password.length ∧ r.password.length ≤ 256
  username_noNul : NoNul r.username
  password_noNul : NoNul r.password

/-- `RegisterRequest` checks what `LoginRequest` does; its other fields are text Postgres can
store. -/
structure RegisterRequest.Accepted (r : RegisterRequest) : Prop where
  login : r.toLoginRequest.Accepted
  email_noNul : ∀ email ∈ r.email, NoNul email
  firstName_noNul : NoNul r.firstName
  lastName_noNul : NoNul r.lastName

/-! ## Rows of users are never changed -/

section Users

variable {sec : Crypto} {cfg : AuthSettings} {now : Timestamp} {db db' : AuthDb} {id : UserId}
  {row : UserRow}

@[simp] lemma users_issueSession (token : String) (user : User) (db : AuthDb) :
    (issueSession sec cfg now token user db).2.users = db.users := by
  unfold issueSession
  split
  · rfl
  · exact (AuthDb.insertToken_eq_some_iff.1 ‹_›).2.2.1

lemma users_login (token username password : String) (db : AuthDb) :
    (login sec cfg now token username password db).2.users = db.users := by
  unfold login
  split
  · rfl
  · split
    · exact users_issueSession _ _ _
    · rfl

lemma users_refresh (token refreshToken : String) (db : AuthDb) :
    (refresh sec cfg now token refreshToken db).2.users = db.users := by
  unfold refresh
  split
  · rfl
  · split
    · split
      · rfl
      · split
        · rfl
        · split
          · rename_i heq
            have husers := congrArg (fun out => out.2.users) heq
            exact husers.symm.trans (users_issueSession _ _ _)
          · rfl
    · rfl

lemma users_logout (refreshToken : String) (db : AuthDb) :
    (logout sec now refreshToken db).users = db.users := by
  unfold logout
  split <;> rfl

/-- **A user's row stays** as it is under every request but the deletion of the user. -/
theorem user_perform (r : Request) (hr : r ≠ .deleteUser id) (h : db.users.get? id = some row) :
    (r.perform sec cfg now db).2.users.get? id = some row := by
  cases r with
  | register salt token username password email firstName lastName =>
    show (register sec cfg now salt token username password email firstName lastName
      db).2.users.get? id = some row
    unfold register
    split
    · exact h
    · dsimp only
      split
      · exact h
      · rw [users_issueSession]
        obtain ⟨-, hinsert⟩ := AuthDb.users_create ‹_›
        -- a new user gets a new id
        have hne : id ≠ db.users.nextId := (db.users.id_lt id row h).ne
        rw [Table.get?_insertAt hinsert, if_neg hne]
        exact h
  | login token username password =>
    show (login sec cfg now token username password db).2.users.get? id = some row
    rw [users_login]
    exact h
  | refresh token refreshToken =>
    show (refresh sec cfg now token refreshToken db).2.users.get? id = some row
    rw [users_refresh]
    exact h
  | logout refreshToken =>
    show (logout sec now refreshToken db).users.get? id = some row
    rw [users_logout]
    exact h
  | deleteUser user =>
    have hne : id ≠ user := fun heq => hr (by rw [heq])
    exact Table.get?_delete_eq_some_iff.2 ⟨h, decide_eq_false hne⟩
  | advance micros => exact h

/-- A login succeeds exactly for a user whose stored hash verifies the password, as long as the
token it draws is new. -/
lemma login_isOk_iff {token username password : String}
    (hnew : db.getRefreshToken (sec.hashRefreshToken token) = none) :
    (∃ session, (login sec cfg now token username password db).1 = .ok session) ↔
      ∃ id row, db.getByUsername username = some (id, row) ∧
        sec.checkpw password row.passwordHash = true := by
  unfold login
  cases hfind : db.getByUsername username with
  | none => simp
  | some found =>
    obtain ⟨id, row⟩ := found
    obtain ⟨hrow, -⟩ := Table.find?_eq_some_iff.1 hfind
    dsimp only
    cases hcheck : sec.checkpw password row.passwordHash with
    | false => simp [hcheck]
    | true =>
      have huser : (db.getById (toUser id row).id).isSome = true := by
        show (db.users.get? id).isSome = true
        rw [hrow]
        rfl
      obtain ⟨db', hstore⟩ := AuthDb.exists_storeRefreshToken (cfg.expiresAt now) huser hnew
      rw [if_pos rfl]
      unfold issueSession
      rw [hstore]
      exact iff_of_true ⟨_, rfl⟩ ⟨id, row, rfl, hcheck⟩

end Users

/-! ## Every password up to 72 bytes works, and only that one -/

variable {sec : Crypto} {bc : Bcrypt} {cfg : AuthSettings} {now : Timestamp}

/-- The registration succeeds, and then, whatever is done but to delete the user, a login under the
username succeeds exactly with the registered password. -/
def PasswordWorks (sec : Crypto) (cfg : AuthSettings) (now : Timestamp) (salt token : String)
    (req : RegisterRequest) (db : AuthDb) : Prop :=
  ∃ session db', register sec cfg now salt token req.username req.password req.email req.firstName
      req.lastName db = (.ok session, db') ∧
    ∀ w, (AuthRun.system sec cfg).RunWhere (fun _ r => r ≠ .deleteUser session.user.id)
        ⟨db', now, []⟩ w →
      ∀ (l : LoginRequest) (token' : String), l.Accepted → l.username = req.username →
        w.db.getRefreshToken (sec.hashRefreshToken token') = none →
        ((∃ s, (login sec cfg w.now token' l.username l.password w.db).1 = .ok s) ↔
          l.password = req.password)

/-- What a registration stores, when its username and its token are new and bcrypt takes the
password. -/
lemma exists_register (sec : Crypto) (cfg : AuthSettings) (now : Timestamp)
    {salt token passwordHash : String} {req : RegisterRequest} {db : AuthDb}
    (hfree : db.getByUsername req.username = none)
    (hnew : db.getRefreshToken (sec.hashRefreshToken token) = none)
    (hhash : sec.hashpw salt req.password = some passwordHash) :
    ∃ session db', register sec cfg now salt token req.username req.password req.email
        req.firstName req.lastName db = (.ok session, db') ∧
      db'.users.get? session.user.id =
        some ⟨req.username, passwordHash, req.email, req.firstName, req.lastName⟩ := by
  -- the username is free, so both rows are inserted
  obtain ⟨db₁, hcreate⟩ := AuthDb.exists_create ⟨req.username, passwordHash, req.email,
    req.firstName, req.lastName⟩ hfree
  obtain ⟨-, hinsert⟩ := AuthDb.users_create hcreate
  have hrow : db₁.users.get? db.users.nextId =
      some ⟨req.username, passwordHash, req.email, req.firstName, req.lastName⟩ := by
    rw [Table.get?_insertAt hinsert, if_pos rfl]
  have huser : (db₁.getById db.users.nextId).isSome = true := by
    rw [AuthDb.getById, hrow]
    rfl
  have hnew₁ : db₁.getRefreshToken (sec.hashRefreshToken token) = none := by
    rw [AuthDb.getRefreshToken, AuthDb.refreshTokens_create hcreate]
    exact hnew
  -- the user is there and the token is new, so the session is stored
  obtain ⟨db', hstore⟩ := AuthDb.exists_storeRefreshToken (cfg.expiresAt now) huser hnew₁
  have hissue : issueSession sec cfg now token (toUser db.users.nextId ⟨req.username, passwordHash,
      req.email, req.firstName, req.lastName⟩) db₁ =
      (.ok (newSession sec cfg now (toUser db.users.nextId ⟨req.username, passwordHash, req.email,
        req.firstName, req.lastName⟩) token), db') := issueSession_of_stored hstore
  refine ⟨newSession sec cfg now (toUser db.users.nextId ⟨req.username, passwordHash, req.email,
    req.firstName, req.lastName⟩) token, db', ?_, ?_⟩
  · unfold register
    rw [hhash]
    dsimp only
    rw [hcreate]
    exact hissue
  · show db'.users.get? db.users.nextId = _
    rw [(AuthDb.insertToken_eq_some_iff.1 hstore).2.2.1]
    exact hrow

/-- A password that bcrypt refuses does not work: the exception leaves `register`. -/
lemma not_passwordWorks {salt token : String} {req : RegisterRequest} {db : AuthDb}
    (hnone : sec.hashpw salt req.password = none) :
    ¬ PasswordWorks sec cfg now salt token req db := by
  rintro ⟨session, db', hregister, -⟩
  unfold register at hregister
  rw [hnone] at hregister
  exact absurd (congrArg Prod.fst hregister) (by simp)

/-- **A password works exactly if its encoding has at most 72 bytes.**  For every accepted
registration under a username that is not taken: it succeeds and afterwards exactly its password
logs in, if and only if bcrypt takes the password. -/
theorem password_works_iff (hbc : bc.Pinned) (sec : Crypto) (cfg : AuthSettings) (now : Timestamp)
    (salt token : String) (req : RegisterRequest) (db : AuthDb) (hreq : req.Accepted)
    (hfree : db.getByUsername req.username = none)
    (hnew : db.getRefreshToken (sec.hashRefreshToken token) = none) :
    PasswordWorks (sec.withBcrypt bc) cfg now salt token req db ↔
      req.password.utf8ByteSize ≤ 72 := by
  have hnul := hreq.login.password_noNul
  constructor
  · intro hworks
    by_contra hlong
    -- past 72 bytes `hashpw` raises, so not even the registration succeeds
    exact not_passwordWorks ((hbc.hashpw_raises salt _ hnul).2 (by omega)) hworks
  · intro hshort
    have hsome : (bc.hashpw salt req.password).isSome = true := by
      rw [← Option.ne_none_iff_isSome, Ne, hbc.hashpw_raises salt _ hnul]
      omega
    obtain ⟨passwordHash, hhash⟩ := Option.isSome_iff_exists.1 hsome
    obtain ⟨session, db', hregister, hrow⟩ :=
      exists_register (sec.withBcrypt bc) cfg now hfree hnew hhash
    refine ⟨session, db', hregister, fun w hrun l token' hl hname hnew' => ?_⟩
    -- no request of the run deletes the user, so the row with the hash stays
    have hstays : w.db.users.get? session.user.id =
        some ⟨req.username, passwordHash, req.email, req.firstName, req.lastName⟩ := by
      refine hrun.invariant (I := fun w => w.db.users.get? session.user.id = _) hrow ?_
      intro v r v' hr hv hstep
      obtain rfl := Option.some.inj hstep
      exact user_perform r hr hv
    have hfound : w.db.getByUsername l.username = some (session.user.id,
        ⟨req.username, passwordHash, req.email, req.firstName, req.lastName⟩) :=
      Table.find?_eq_some_iff.2 ⟨hstays, hname.symm⟩
    rw [login_isOk_iff hnew', hfound]
    -- and a hash that was made of one password verifies no other
    have hverify : bc.verifyPassword l.password passwordHash = true ↔ l.password = req.password :=
      hbc.verifyPassword_iff hl.password_noNul hnul hhash
    constructor
    · rintro ⟨id, row, heq, hcheck⟩
      obtain ⟨-, rfl⟩ := Prod.mk.inj (Option.some.inj heq)
      exact hverify.1 hcheck
    · exact fun heq => ⟨_, _, rfl, hverify.2 heq⟩

/-! ## A password of 37 characters -/

/-- A bcrypt that keeps the password, up to 72 bytes of it. -/
def Bcrypt.plain : Bcrypt where
  hashpw _ p := if 72 < p.utf8ByteSize then none else some p
  checkpw p hashed := if 72 < p.utf8ByteSize then none else some (decide (p = hashed))

lemma Bcrypt.pinned_plain : Bcrypt.plain.Pinned where
  hashpw_raises salt p _ := by simp [plain]
  checkpw_raises p hashed _ hlong := if_pos hlong
  checkpw_hashpw salt p q hashed _ _ hshort hhash := by
    have hhash' : (if 72 < q.utf8ByteSize then none else some q) = some hashed := hhash
    split at hhash'
    · exact absurd hhash' (by simp)
    · obtain rfl := Option.some.inj hhash'
      simp [plain, Nat.not_lt.2 hshort]

/-- A registration with the given password. -/
def registration (password : String) : RegisterRequest :=
  { username := "user1", password := password }

/-- Characters of two bytes each. -/
def twoByteChars (n : ℕ) : String := String.ofList (List.replicate n 'é')

/-- **37 characters of two bytes are too many for bcrypt**, although the schema admits 256. -/
theorem two_byte_password_fails : ¬ ∀ (bc : Bcrypt) (sec : Crypto) (cfg : AuthSettings)
    (now : Timestamp) (salt token : String) (req : RegisterRequest) (db : AuthDb), bc.Pinned →
    req.Accepted → db.getByUsername req.username = none →
    db.getRefreshToken (sec.hashRefreshToken token) = none →
    PasswordWorks (sec.withBcrypt bc) cfg now salt token req db := by
  intro h
  have haccepted : (registration (twoByteChars 37)).Accepted :=
    ⟨⟨by decide, by decide +kernel, by decide, by decide +kernel⟩, by decide, by decide, by decide⟩
  have hworks := h Bcrypt.plain .plain {} 0 "salt" "token" (registration (twoByteChars 37)) .empty
    Bcrypt.pinned_plain haccepted rfl rfl
  have hnone : (Crypto.plain.withBcrypt Bcrypt.plain).hashpw "salt" (twoByteChars 37) = none := by
    decide +kernel
  exact not_passwordWorks hnone hworks

/-- 36 of them work. -/
theorem two_byte_password_works : PasswordWorks (Crypto.plain.withBcrypt Bcrypt.plain) {} 0 "salt"
    "token" (registration (twoByteChars 36)) .empty :=
  (password_works_iff Bcrypt.pinned_plain .plain {} 0 "salt" "token"
    (registration (twoByteChars 36)) .empty
    ⟨⟨by decide, by decide +kernel, by decide, by decide +kernel⟩, by decide, by decide, by decide⟩
    rfl rfl).2 (by decide +kernel)

end TickerWatch
