import TickerWatch.Shared.Security

/-!
# Registration, login and token issue

`auth_handler.py`, one call after another.  An operation takes the database, the time it runs at and
the random values it draws, and returns the session or the error it raises with the database it
leaves.

`refresh_cases` says once what a refresh can do; everything about sequences of calls is derived from
it.
-/

namespace TickerWatch

/-- What the API says about a user. -/
structure User where
  id : UserId
  username : String
  email : Option String
  firstName : String
  lastName : String
  deriving DecidableEq, Repr

/-- What a successful register, login or refresh returns. -/
structure Session where
  accessToken : String
  tokenType : String := "bearer"
  expiresIn : ℤ
  refreshToken : String
  user : User
  deriving DecidableEq, Repr

/-- What an operation raises: the three errors that `auth_handler` declares, bcrypt's `ValueError`
on a password it does not take, and a constraint that the database reports. -/
inductive AuthError
  | usernameTaken (username : String)
  | invalidCredentials
  | invalidRefreshToken
  /-- bcrypt refuses the password. -/
  | passwordValue
  /-- A constraint of the token table. -/
  | integrity
  deriving DecidableEq, Repr

/-- `_to_user`. -/
def toUser (id : UserId) (row : UserRow) : User :=
  ⟨id, row.username, row.email, row.firstName, row.lastName⟩

/-- `get_user`. -/
def getUser (db : AuthDb) (id : UserId) : Option User := (db.getById id).map (toUser id)

section Operations

variable (sec : Crypto) (cfg : AuthSettings) (now : Timestamp)

/-- The session `_issue_session` returns once the token is stored. -/
def newSession (user : User) (token : String) : Session :=
  let access := sec.issueToken cfg now user.id user.username
  { accessToken := access.1, expiresIn := access.2, refreshToken := token, user := user }

/-- `_issue_session`: a short-lived access token and a fresh, stored refresh token. -/
def issueSession (token : String) (user : User) (db : AuthDb) : Except AuthError Session × AuthDb :=
  match db.storeRefreshToken user.id (sec.hashRefreshToken token) (cfg.expiresAt now) with
  | none => (.error .integrity, db)
  | some db' => (.ok (newSession sec cfg now user token), db')

/-- `register`. -/
def register (salt token username password : String) (email : Option String)
    (firstName lastName : String) (db : AuthDb) : Except AuthError Session × AuthDb :=
  match sec.hashpw salt password with
  | none => (.error .passwordValue, db)
  | some passwordHash =>
    let row : UserRow := ⟨username, passwordHash, email, firstName, lastName⟩
    match db.create row with
    | none => (.error (.usernameTaken username), db)
    | some (id, db') => issueSession sec cfg now token (toUser id row) db'

/-- `login`. -/
def login (token username password : String) (db : AuthDb) : Except AuthError Session × AuthDb :=
  match db.getByUsername username with
  | none => (.error .invalidCredentials, db)
  | some (id, row) =>
    if sec.checkpw password row.passwordHash then
      issueSession sec cfg now token (toUser id row) db
    else (.error .invalidCredentials, db)

/-- `refresh`: the revoke and the insert are one transaction. -/
def refresh (token refreshToken : String) (db : AuthDb) : Except AuthError Session × AuthDb :=
  match db.getRefreshToken (sec.hashRefreshToken refreshToken) with
  | none => (.error .invalidRefreshToken, db)
  | some (id, row) =>
    if row.live then
      if row.expiresAt ≤ now then (.error .invalidRefreshToken, db)
      else
        match getUser db row.userId with
        | none => (.error .invalidRefreshToken, db)
        | some user =>
          match issueSession sec cfg now token user (db.revokeRefreshToken now id) with
          | (.ok session, db') => (.ok session, db')
          | (.error e, _) => (.error e, db)
    else (.error .invalidRefreshToken, (db.revokeAllRefreshTokens now row.userId).1)

/-- `logout`. -/
def logout (refreshToken : String) (db : AuthDb) : AuthDb :=
  match db.getRefreshToken (sec.hashRefreshToken refreshToken) with
  | none => db
  | some (id, _) => db.revokeRefreshToken now id

end Operations

variable {sec : Crypto} {cfg : AuthSettings} {now : Timestamp} {db db' : AuthDb}
  {token refreshToken : String} {user : User}

lemma issueSession_of_stored (h : db.storeRefreshToken user.id (sec.hashRefreshToken token)
    (cfg.expiresAt now) = some db') :
    issueSession sec cfg now token user db = (.ok (newSession sec cfg now user token), db') := by
  unfold issueSession
  rw [h]

lemma getRefreshToken_revokeWhere (db : AuthDb) (now : Timestamp)
    (p : TokenId → RefreshTokenRow → Bool) (tokenHash : String) :
    (db.revokeWhere now p).getRefreshToken tokenHash =
      (db.getRefreshToken tokenHash).map fun e =>
        (e.1, if p e.1 e.2 then e.2.revoke now else e.2) := by
  ext ⟨id, row⟩
  rw [AuthDb.getRefreshToken_eq_some_iff, AuthDb.token_revokeWhere, Option.map_eq_some_iff,
    Option.map_eq_some_iff]
  constructor
  · rintro ⟨⟨r, hr, rfl⟩, hhash⟩
    have hsame : r.tokenHash = tokenHash := by
      split at hhash
      · exact hhash
      · exact hhash
    exact ⟨(id, r), AuthDb.getRefreshToken_eq_some_iff.2 ⟨hr, hsame⟩, rfl⟩
  · rintro ⟨⟨id', r⟩, hget, heq⟩
    obtain ⟨rfl, rfl⟩ := Prod.mk.inj heq
    obtain ⟨hr, hhash⟩ := AuthDb.getRefreshToken_eq_some_iff.1 hget
    refine ⟨⟨r, hr, rfl⟩, ?_⟩
    split
    · exact hhash
    · exact hhash

/-- Storing a token finds it, and finds every other as before. -/
lemma getRefreshToken_insertToken {id : TokenId} {row : RefreshTokenRow}
    (h : db.insertToken id row = some db') (tokenHash : String) :
    db'.getRefreshToken tokenHash =
      if row.tokenHash = tokenHash then some (id, row) else db.getRefreshToken tokenHash := by
  obtain ⟨-, hinsert, -⟩ := AuthDb.insertToken_eq_some_iff.1 h
  obtain ⟨hnone, -⟩ := Table.insertAt_eq_some_iff.1 hinsert
  split
  · rename_i hhash
    refine AuthDb.getRefreshToken_eq_some_iff.2 ⟨?_, hhash⟩
    rw [AuthDb.token_insertToken h, if_pos rfl]
  · rename_i hhash
    refine Table.find?_congr fun id' row' hkey => ?_
    have hget := AuthDb.token_insertToken h id'
    change db'.token id' = some row' ↔ db.token id' = some row'
    rw [hget]
    by_cases hid : id' = id
    · subst hid
      rw [if_pos rfl]
      constructor
      · intro heq
        obtain rfl := Option.some.inj heq
        exact absurd hkey hhash
      · intro heq
        exact absurd (hnone.symm.trans heq) (by simp)
    · rw [if_neg hid]

/-- What a registration or a login does to the tokens: nothing, when it raises, or it stores the one
it returns. -/
inductive IssueCase (sec : Crypto) (cfg : AuthSettings) (now : Timestamp) (token : String)
    (db : AuthDb) : Except AuthError Session × AuthDb → Prop
  | raised {err db'} (h : ∀ id, db'.token id = db.token id) :
    IssueCase sec cfg now token db (.error err, db')
  | issued {user : User} {db₀ db' : AuthDb} (h : ∀ id, db₀.token id = db.token id)
    (hstore : db₀.storeRefreshToken user.id (sec.hashRefreshToken token)
      (cfg.expiresAt now) = some db') :
    IssueCase sec cfg now token db (.ok (newSession sec cfg now user token), db')

lemma issueSession_case {db₀ : AuthDb} (h : ∀ id, db₀.token id = db.token id) :
    IssueCase sec cfg now token db (issueSession sec cfg now token user db₀) := by
  unfold issueSession
  split
  · exact .raised h
  · exact .issued h ‹_›

theorem register_case {salt username password : String} {email : Option String}
    {firstName lastName : String} : IssueCase sec cfg now token db
      (register sec cfg now salt token username password email firstName lastName db) := by
  unfold register
  split
  · exact .raised fun _ => rfl
  · dsimp only
    split
    · exact .raised fun _ => rfl
    · exact issueSession_case (AuthDb.token_create ‹_›)

theorem login_case {username password : String} :
    IssueCase sec cfg now token db (login sec cfg now token username password db) := by
  unfold login
  split
  · exact .raised fun _ => rfl
  · split
    · exact issueSession_case fun _ => rfl
    · exact .raised fun _ => rfl

/-- What a refresh does, by the row it finds: none, one that was used before, one that has expired,
or one it exchanges.  The order of the checks is that of the handler, so a used row revokes the
user's tokens even when it has expired. -/
inductive RefreshCase (sec : Crypto) (cfg : AuthSettings) (now : Timestamp)
    (token refreshToken : String) (db : AuthDb) : Except AuthError Session × AuthDb → Prop
  | unknown (h : db.getRefreshToken (sec.hashRefreshToken refreshToken) = none) :
    RefreshCase sec cfg now token refreshToken db (.error .invalidRefreshToken, db)
  | reused {id row} (h : db.getRefreshToken (sec.hashRefreshToken refreshToken) = some (id, row))
    (hlive : row.live = false) : RefreshCase sec cfg now token refreshToken db
      (.error .invalidRefreshToken, (db.revokeAllRefreshTokens now row.userId).1)
  | expired {id row} (h : db.getRefreshToken (sec.hashRefreshToken refreshToken) = some (id, row))
    (hlive : row.live = true) (hexp : row.expiresAt ≤ now) :
    RefreshCase sec cfg now token refreshToken db (.error .invalidRefreshToken, db)
  | rotated {id row user db'}
    (h : db.getRefreshToken (sec.hashRefreshToken refreshToken) = some (id, row))
    (hlive : row.live = true) (hexp : now < row.expiresAt) (huser : user.id = row.userId)
    (hstore : (db.revokeRefreshToken now id).storeRefreshToken row.userId
      (sec.hashRefreshToken token) (cfg.expiresAt now) = some db') :
    RefreshCase sec cfg now token refreshToken db (.ok (newSession sec cfg now user token), db')

/-- A refresh that draws a new token value ends in one of four ways. -/
theorem refresh_cases (hnew : db.getRefreshToken (sec.hashRefreshToken token) = none) :
    RefreshCase sec cfg now token refreshToken db (refresh sec cfg now token refreshToken db) := by
  unfold refresh
  split
  · exact .unknown ‹_›
  · rename_i id row hrow
    obtain ⟨hget, -⟩ := AuthDb.getRefreshToken_eq_some_iff.1 hrow
    by_cases hlive : row.live = true
    · rw [if_pos hlive]
      by_cases hexp : row.expiresAt ≤ now
      · rw [if_pos hexp]
        exact .expired hrow hlive hexp
      · rw [if_neg hexp]
        obtain ⟨userRow, huser⟩ := Option.isSome_iff_exists.1 (db.token_user id row hget)
        have hfound : getUser db row.userId = some (toUser row.userId userRow) := by
          rw [getUser, AuthDb.getById, huser, Option.map_some]
        -- the UPDATE leaves the new hash free and the user there, so the INSERT cannot fail
        have hstill : (db.revokeRefreshToken now id).getRefreshToken (sec.hashRefreshToken token) =
            none := by
          rw [AuthDb.revokeRefreshToken, getRefreshToken_revokeWhere, hnew, Option.map_none]
        have hstays : ((db.revokeRefreshToken now id).getById row.userId).isSome = true :=
          db.token_user id row hget
        obtain ⟨db', hstore⟩ := AuthDb.exists_storeRefreshToken (cfg.expiresAt now) hstays hstill
        have hissue : issueSession sec cfg now token (toUser row.userId userRow)
            (db.revokeRefreshToken now id) =
            (.ok (newSession sec cfg now (toUser row.userId userRow) token), db') :=
          issueSession_of_stored hstore
        simp only [hfound, hissue]
        exact .rotated hrow hlive (not_le.1 hexp) rfl hstore
    · rw [if_neg hlive]
      exact .reused hrow (Bool.not_eq_true _ ▸ hlive)

end TickerWatch
