import Mathlib.Tactic.IntervalCases
import TickerWatch.Auth.Handler
import TickerWatch.Foundations.Transaction

/-!
# What a failed auth call leaves

`register`, `login` and `refresh` statement by statement, each statement able to fail.  `create` and
the rotation of `refresh` are transactions; a login writes once.  Only `register` writes twice: its
`create` has committed when `_issue_session` inserts the token, outside any transaction.

A statement that fails was not executed.  The writes of the price service are modelled otherwise: a
`PostgresOutcome` can fail after the server has executed the statement.
-/

namespace TickerWatch

/-- What leaves an auth call as an exception.  The handlers catch `UniqueViolationError` in one
place only, so it is told apart from what else a statement can raise. -/
inductive AuthException
  /-- One of the handler's own errors, or bcrypt's. -/
  | raised (e : AuthError)
  /-- `asyncpg.UniqueViolationError`. -/
  | uniqueViolation
  /-- Whatever else the database or the connection raises. -/
  | database
  deriving DecidableEq, Repr

namespace AuthDb

/-! ## Rollbacks -/

/-- What a rollback to `before` leaves of `after`: the rows there were, and sequences that stand
where they are. -/
def rollback (before after : AuthDb) : AuthDb :=
  { before with
    users := before.users.skipTo after.users.nextId
    watchlists := before.watchlists.skipTo after.watchlists.nextId
    refreshTokens := before.refreshTokens.skipTo after.refreshTokens.nextId }

/-- `users`, `watchlists` and `refresh_tokens` have the same rows. -/
structure SameRows (db db' : AuthDb) : Prop where
  users : db.users.rows = db'.users.rows
  watchlists : db.watchlists.rows = db'.watchlists.rows
  refreshTokens : db.refreshTokens.rows = db'.refreshTokens.rows

instance : Rollback AuthDb where
  Same := SameRows
  refl _ := ⟨rfl, rfl, rfl⟩
  trans _ _ _ h h' := ⟨h.users.trans h'.users, h.watchlists.trans h'.watchlists,
    h.refreshTokens.trans h'.refreshTokens⟩
  rollback := rollback
  same_rollback _ _ := ⟨rfl, rfl, rfl⟩

variable {db db' : AuthDb} {row : UserRow} {id : UserId}

lemma ext_tables (husers : db.users = db'.users) (hlists : db.watchlists = db'.watchlists)
    (htokens : db.refreshTokens = db'.refreshTokens) : db = db' := by
  cases db
  cases db'
  simp only at husers hlists htokens
  subst husers hlists htokens
  rfl

lemma create_of_insert_none (h : db.users.insert row = none) : db.create row = none := by
  unfold create
  split
  · rfl
  · rename_i hsome
    exact absurd (h.symm.trans hsome) (by simp)

lemma create_of_insert_some {users : Table UserRow.username}
    (h : db.users.insert row = some (id, users)) : ∃ db', db.create row = some (id, db') ∧
      db'.users = users ∧ db'.watchlists = insertWatchlist db.watchlists id ∧
      db'.refreshTokens = db.refreshTokens := by
  unfold create
  split
  · rename_i hnone
    exact absurd (hnone.symm.trans h) (by simp)
  · rename_i hsome
    obtain ⟨rfl, rfl⟩ := Prod.mk.inj (Option.some.inj (hsome.symm.trans h))
    exact ⟨_, rfl, rfl, rfl, rfl⟩

lemma insertUser_of_insert_none (h : db.users.insert row = none) : db.insertUser row = none := by
  unfold insertUser
  split
  · rfl
  · rename_i hsome
    exact absurd (h.symm.trans hsome) (by simp)

lemma insertUser_of_insert_some {users : Table UserRow.username}
    (h : db.users.insert row = some (id, users)) : ∃ db', db.insertUser row = some (id, db') ∧
      db'.users = users ∧ db'.watchlists = db.watchlists ∧
      db'.refreshTokens = db.refreshTokens := by
  unfold insertUser
  split
  · rename_i hnone
    exact absurd (hnone.symm.trans h) (by simp)
  · rename_i hsome
    obtain ⟨rfl, rfl⟩ := Prod.mk.inj (Option.some.inj (hsome.symm.trans h))
    exact ⟨_, rfl, rfl, rfl, rfl⟩

lemma exists_insertDefaultWatchlist {user : UserId}
    (h : (db.users.get? user).isSome = true) : ∃ db', db.insertDefaultWatchlist user = some db' ∧
      db'.users = db.users ∧ db'.watchlists = insertWatchlist db.watchlists user ∧
      db'.refreshTokens = db.refreshTokens := by
  unfold insertDefaultWatchlist
  rw [dif_pos h]
  exact ⟨_, rfl, rfl, rfl, rfl⟩

/-- The two statements of `create`, one after the other, are `create`. -/
lemma create_eq (db : AuthDb) (row : UserRow) :
    db.create row = (db.insertUser row).bind fun e =>
      (e.2.insertDefaultWatchlist e.1).map fun db' => (e.1, db') := by
  cases hinsert : db.users.insert row with
  | none =>
    rw [create_of_insert_none hinsert, insertUser_of_insert_none hinsert]
    rfl
  | some inserted =>
    obtain ⟨id, users⟩ := inserted
    obtain ⟨db', hcreate, husers, hlists, htokens⟩ := create_of_insert_some hinsert
    obtain ⟨db₁, hfirst, husers₁, hlists₁, htokens₁⟩ := insertUser_of_insert_some hinsert
    have huser : (db₁.users.get? id).isSome = true := by
      obtain ⟨rfl, hat⟩ := Table.insert_eq_some_iff.1 hinsert
      rw [husers₁, Table.get?_insertAt hat, if_pos rfl]
      rfl
    obtain ⟨db₂, hsecond, husers₂, hlists₂, htokens₂⟩ := exists_insertDefaultWatchlist huser
    obtain rfl : db' = db₂ := ext_tables (husers.trans (husers₂.trans husers₁).symm)
      (by rw [hlists, hlists₂, hlists₁]) (htokens.trans (htokens₂.trans htokens₁).symm)
    rw [hcreate, hfirst, Option.bind_some, hsecond]
    rfl

lemma insertUser_of_create_none (h : db.create row = none) : db.insertUser row = none := by
  cases hinsert : db.users.insert row with
  | none => exact insertUser_of_insert_none hinsert
  | some inserted =>
    obtain ⟨db', hcreate, -⟩ := create_of_insert_some hinsert
    exact absurd (h.symm.trans hcreate) (by simp)

lemma SameRows.getByUsername (h : db.SameRows db') (username : String) :
    db.getByUsername username = db'.getByUsername username := by
  unfold AuthDb.getByUsername Table.find?
  rw [h.users]

lemma SameRows.getRefreshToken (h : db.SameRows db') (tokenHash : String) :
    db.getRefreshToken tokenHash = db'.getRefreshToken tokenHash := by
  unfold AuthDb.getRefreshToken Table.find?
  rw [h.refreshTokens]

lemma get?_create (h : db.create row = some (id, db')) : db'.users.get? id = some row := by
  obtain ⟨rfl, hinsert⟩ := users_create h
  rw [Table.get?_insertAt hinsert, if_pos rfl]

lemma isSome_getById_create (h : db.create row = some (id, db')) :
    (db'.getById id).isSome = true := by
  rw [getById, get?_create h]
  rfl

lemma getByUsername_of_create (h : db.create row = some (id, db')) :
    db.getByUsername row.username = none :=
  (Table.insertAt_eq_some_iff.1 (users_create h).2).2.1

lemma not_sameRows_create (h : db.create row = some (id, db')) : ¬ db'.SameRows db := by
  intro hsame
  have hrow : db.users.get? id = some row := by
    show db.users.rows.get? id = _
    rw [← hsame.users]
    exact get?_create h
  obtain ⟨rfl, -⟩ := users_create h
  rw [Table.get?_eq_none_of_nextId_le le_rfl] at hrow
  exact absurd hrow (by simp)

end AuthDb

/-! ## The calls -/

namespace AuthSql

variable (sec : Crypto) (cfg : AuthSettings) (now : Timestamp)

/-- A statement that writes, or breaks a constraint with the trace it leaves in the sequences. -/
def write {α : Type} (run : AuthDb → Option (α × AuthDb)) (violation : AuthException)
    (trace : AuthDb → AuthDb) : Sql AuthDb AuthException α :=
  Sql.statement fun db =>
    match run db with
    | some (a, db') => (.ok a, db')
    | none => (.error violation, trace db)

/-- The `users` statement of `create`. -/
def insertUser (row : UserRow) : Sql AuthDb AuthException UserId :=
  write (fun db => db.insertUser row) .uniqueViolation AuthDb.nextUserId

/-- The `watchlists` statement of `create`. -/
def insertDefaultWatchlist (id : UserId) : Sql AuthDb AuthException Unit :=
  write (fun db => (db.insertDefaultWatchlist id).map fun db' => ((), db')) .database fun db => db

/-- What `create` runs in its transaction. -/
def createBody (row : UserRow) : Sql AuthDb AuthException UserId := do
  let id ← insertUser row
  insertDefaultWatchlist id
  return id

/-- `create`. -/
def create (row : UserRow) : Sql AuthDb AuthException UserId := Sql.transaction (createBody row)

/-- `store_refresh_token`. -/
def storeRefreshToken (user : UserId) (tokenHash : String) (expiresAt : Timestamp) :
    Sql AuthDb AuthException Unit :=
  write (fun db => (db.storeRefreshToken user tokenHash expiresAt).map fun db' => ((), db'))
    .uniqueViolation AuthDb.nextTokenId

/-- `_issue_session`. -/
def issueSession (token : String) (user : User) : Sql AuthDb AuthException Session := do
  storeRefreshToken user.id (sec.hashRefreshToken token) (cfg.expiresAt now)
  return newSession sec cfg now user token

/-- `except asyncpg.UniqueViolationError` in `register`. -/
def asUsernameTaken (username : String) : AuthException → AuthException
  | .uniqueViolation => .raised (.usernameTaken username)
  | e => e

/-- `register`. -/
def register (salt token username password : String) (email : Option String)
    (firstName lastName : String) : Sql AuthDb AuthException Session :=
  match sec.hashpw salt password with
  | none => Sql.throw (.raised .passwordValue)
  | some passwordHash => do
    let row : UserRow := ⟨username, passwordHash, email, firstName, lastName⟩
    let id ← (create row).mapError (asUsernameTaken username)
    issueSession sec cfg now token (toUser id row)

/-- `login`. -/
def login (token username password : String) : Sql AuthDb AuthException Session := do
  match ← Sql.select fun db => db.getByUsername username with
  | none => Sql.throw (.raised .invalidCredentials)
  | some (id, row) =>
    if sec.checkpw password row.passwordHash then
      issueSession sec cfg now token (toUser id row)
    else Sql.throw (.raised .invalidCredentials)

/-- What `refresh` runs in its transaction. -/
def rotate (token : String) (id : TokenId) (user : User) : Sql AuthDb AuthException Session := do
  Sql.statement fun db => (.ok (), db.revokeRefreshToken now id)
  issueSession sec cfg now token user

/-- `refresh` once the row of the token is read. -/
def refreshFound (token : String) :
    Option (TokenId × RefreshTokenRow) → Sql AuthDb AuthException Session
  | none => Sql.throw (.raised .invalidRefreshToken)
  | some (id, row) =>
    if row.live then
      if row.expiresAt ≤ now then Sql.throw (.raised .invalidRefreshToken)
      else do
        match ← Sql.select fun db => getUser db row.userId with
        | none => Sql.throw (.raised .invalidRefreshToken)
        | some user => Sql.transaction (rotate sec cfg now token id user)
    else do
      Sql.statement fun db => (.ok (), (db.revokeAllRefreshTokens now row.userId).1)
      Sql.throw (.raised .invalidRefreshToken)

/-- `refresh`. -/
def refresh (token refreshToken : String) : Sql AuthDb AuthException Session := do
  let found ← Sql.select fun db => db.getRefreshToken (sec.hashRefreshToken refreshToken)
  refreshFound sec cfg now token found

variable {sec cfg now} {α : Type} {run : AuthDb → Option (α × AuthDb)} {violation : AuthException}
  {trace : AuthDb → AuthDb} {fails : ℕ → Option AuthException} {c : Conn AuthDb} {db db' : AuthDb}
  {row : UserRow} {id : UserId} {user : User} {token refreshToken : String}

/-! ## What each part does -/

lemma write_of_some {a : α} (hfail : fails c.statements = none) (h : run c.visible = some (a, db')) :
    write run violation trace fails c = (.ok a, c.tick.write db') := by
  unfold write
  rw [Sql.statement_of_none hfail, h]

lemma write_of_none (hfail : fails c.statements = none) (h : run c.visible = none) :
    write run violation trace fails c = (.error violation, c.tick.write (trace c.visible)) := by
  unfold write
  rw [Sql.statement_of_none hfail, h]

lemma write_of_fail {e : AuthException} (hfail : fails c.statements = some e) :
    write run violation trace fails c = (.error e, c.tick) := Sql.statement_of_some hfail

/-- The body of `create` raises, or it does what `AuthDb.create` does. -/
lemma createBody_cases (row : UserRow) (fails : ℕ → Option AuthException) (db : AuthDb) :
    (∃ e c', createBody row fails ⟨db, some db, 1⟩ = (.error e, c') ∧
      (db.create row = none ∨ fails 1 ≠ none ∨ fails 2 ≠ none)) ∨
    fails 1 = none ∧ fails 2 = none ∧ ∃ id db', db.create row = some (id, db') ∧
      createBody row fails ⟨db, some db, 1⟩ = (.ok id, ⟨db, some db', 3⟩) := by
  rw [AuthDb.create_eq, createBody]
  cases hfirst : fails 1 with
  | some e =>
    -- the INSERT INTO users fails
    have hfail : insertUser row fails ⟨db, some db, 1⟩ = (.error e, ⟨db, some db, 2⟩) :=
      write_of_fail hfirst
    exact Or.inl ⟨e, _, Sql.bind_of_error hfail, Or.inr (Or.inl (by simp))⟩
  | none =>
    cases huser : db.insertUser row with
    | none =>
      -- it is executed, and the username is taken
      have hviolation : insertUser row fails ⟨db, some db, 1⟩ =
          (.error .uniqueViolation, ⟨db, some db.nextUserId, 2⟩) := write_of_none hfirst huser
      exact Or.inl ⟨_, _, Sql.bind_of_error hviolation, Or.inl rfl⟩
    | some inserted =>
      obtain ⟨id, db₁⟩ := inserted
      have hwrite : insertUser row fails ⟨db, some db, 1⟩ = (.ok id, ⟨db, some db₁, 2⟩) :=
        write_of_some hfirst huser
      rw [Sql.bind_of_ok hwrite]
      -- it goes through, and the INSERT INTO watchlists is next
      cases hsecond : fails 2 with
      | some e =>
        have hfail : insertDefaultWatchlist id fails ⟨db, some db₁, 2⟩ =
            (.error e, ⟨db, some db₁, 3⟩) := write_of_fail hsecond
        exact Or.inl ⟨e, _, Sql.bind_of_error hfail, Or.inr (Or.inr (by simp))⟩
      | none =>
        cases hlist : db₁.insertDefaultWatchlist id with
        | none =>
          have hnone : insertDefaultWatchlist id fails ⟨db, some db₁, 2⟩ =
              (.error .database, ⟨db, some db₁, 3⟩) := write_of_none hsecond (by
            show (db₁.insertDefaultWatchlist id).map _ = none
            rw [hlist]
            rfl)
          refine Or.inl ⟨_, _, Sql.bind_of_error hnone, Or.inl ?_⟩
          rw [Option.bind_some, hlist]
          rfl
        | some db₂ =>
          have hsome : insertDefaultWatchlist id fails ⟨db, some db₁, 2⟩ =
              (.ok (), ⟨db, some db₂, 3⟩) := write_of_some hsecond (by
            show (db₁.insertDefaultWatchlist id).map _ = _
            rw [hlist]
            rfl)
          refine Or.inr ⟨rfl, rfl, id, db₂, ?_, ?_⟩
          · rw [Option.bind_some, hlist]
            rfl
          · rw [Sql.bind_of_ok hsome]
            rfl

/-- `create` raises, when the username is taken or one of its four statements fails; or it commits
what `AuthDb.create` gives. -/
lemma create_cases (row : UserRow) (fails : ℕ → Option AuthException) (db : AuthDb) :
    (∃ e c', create row fails ⟨db, none, 0⟩ = (.error e, c') ∧
      (db.create row = none ∨ ∃ n < 4, fails n ≠ none)) ∨
    (∀ n < 4, fails n = none) ∧ ∃ id db', db.create row = some (id, db') ∧
      create row fails ⟨db, none, 0⟩ = (.ok id, ⟨db', none, 4⟩) := by
  rw [create]
  cases hbegin : fails 0 with
  | some e =>
    have htx : Sql.transaction (createBody row) fails ⟨db, none, 0⟩ = (.error e, ⟨db, none, 1⟩) :=
      Sql.transaction_of_begin hbegin
    exact Or.inl ⟨e, _, htx, Or.inr ⟨0, by omega, by simp [hbegin]⟩⟩
  | none =>
    rcases createBody_cases row fails db with ⟨e, c', hbody, hwhy⟩ |
      ⟨h1, h2, id, db', hcreate, hbody⟩
    · have htx := Sql.transaction_of_error (c := ⟨db, none, 0⟩) hbegin hbody
      refine Or.inl ⟨e, _, htx, ?_⟩
      rcases hwhy with htaken | hfail | hfail
      · exact Or.inl htaken
      · exact Or.inr ⟨1, by omega, hfail⟩
      · exact Or.inr ⟨2, by omega, hfail⟩
    · cases hcommit : fails 3 with
      | some e =>
        have htx := Sql.transaction_of_commit (c := ⟨db, none, 0⟩) hbegin hbody hcommit
        exact Or.inl ⟨e, _, htx, Or.inr ⟨3, by omega, by simp [hcommit]⟩⟩
      | none =>
        have htx := Sql.transaction_of_ok (c := ⟨db, none, 0⟩) hbegin hbody hcommit
        refine Or.inr ⟨fun n hn => ?_, id, db', hcreate, htx⟩
        interval_cases n <;> assumption

lemma atomic_write (htrace : ∀ db : AuthDb, (trace db).SameRows db) :
    (write run violation trace).Atomic := by
  refine Sql.atomic_statement fun db e he => ?_
  cases hrun : run db with
  | some out =>
    rw [hrun] at he
    exact absurd he (by simp)
  | none => exact htrace db

lemma atomic_issueSession (token : String) (user : User) :
    (issueSession sec cfg now token user).Atomic := by
  have hstore : (storeRefreshToken user.id (sec.hashRefreshToken token)
      (cfg.expiresAt now)).Atomic := atomic_write fun _ => ⟨rfl, rfl, rfl⟩
  exact hstore.map fun _ => newSession sec cfg now user token

lemma atomic_create (row : UserRow) : (create row).Atomic := Sql.atomic_transaction _

lemma atomic_login (token username password : String) :
    (login sec cfg now token username password).Atomic := by
  refine Sql.Atomic.bind (Sql.readOnly_select _) fun found => ?_
  cases found with
  | none => exact Sql.atomic_throw _
  | some e =>
    show Sql.Atomic (if sec.checkpw password e.2.passwordHash then _ else _)
    split
    · exact atomic_issueSession _ _
    · exact Sql.atomic_throw _

/-- Past a row that is not revoked, `refresh` writes in its transaction only. -/
lemma atomic_refreshFound {found : Option (TokenId × RefreshTokenRow)}
    (hlive : ∀ e ∈ found, e.2.live = true) : (refreshFound sec cfg now token found).Atomic := by
  cases found with
  | none => exact Sql.atomic_throw _
  | some e =>
    show Sql.Atomic (if e.2.live then _ else _)
    rw [if_pos (hlive _ rfl)]
    split
    · exact Sql.atomic_throw _
    · refine Sql.Atomic.bind (Sql.readOnly_select _) fun user => ?_
      cases user with
      | none => exact Sql.atomic_throw _
      | some user => exact Sql.atomic_transaction _

lemma issueSession_of_stored (hfail : fails c.statements = none)
    (h : c.visible.storeRefreshToken user.id (sec.hashRefreshToken token) (cfg.expiresAt now) =
      some db') : issueSession sec cfg now token user fails c =
      (.ok (newSession sec cfg now user token), c.tick.write db') := by
  have hwrite : storeRefreshToken user.id (sec.hashRefreshToken token) (cfg.expiresAt now) fails c =
      (.ok (), c.tick.write db') := write_of_some hfail (by
    show (c.visible.storeRefreshToken _ _ _).map _ = _
    rw [h]
    rfl)
  rw [issueSession, Sql.bind_of_ok hwrite]
  rfl

lemma issueSession_of_violation (hfail : fails c.statements = none)
    (h : c.visible.storeRefreshToken user.id (sec.hashRefreshToken token) (cfg.expiresAt now) =
      none) : issueSession sec cfg now token user fails c =
      (.error .uniqueViolation, c.tick.write c.visible.nextTokenId) := by
  have hwrite : storeRefreshToken user.id (sec.hashRefreshToken token) (cfg.expiresAt now) fails c =
      (.error .uniqueViolation, c.tick.write c.visible.nextTokenId) := write_of_none hfail (by
    show (c.visible.storeRefreshToken _ _ _).map _ = _
    rw [h]
    rfl)
  rw [issueSession, Sql.bind_of_error hwrite]

lemma issueSession_of_fail {e : AuthException} (hfail : fails c.statements = some e) :
    issueSession sec cfg now token user fails c = (.error e, c.tick) := by
  have hwrite : storeRefreshToken user.id (sec.hashRefreshToken token) (cfg.expiresAt now) fails c =
      (.error e, c.tick) := write_of_fail hfail
  rw [issueSession, Sql.bind_of_error hwrite]

lemma storeRefreshToken_of_known {u : UserId} {tokenHash : String} {expiresAt : Timestamp}
    (h : db.getRefreshToken tokenHash ≠ none) :
    db.storeRefreshToken u tokenHash expiresAt = none := by
  cases hstore : db.storeRefreshToken u tokenHash expiresAt with
  | none => rfl
  | some db' =>
    obtain ⟨-, hinsert, -⟩ := AuthDb.insertToken_eq_some_iff.1 hstore
    obtain ⟨-, hfind, -⟩ := Table.insertAt_eq_some_iff.1 hinsert
    exact absurd hfind h

section Register

variable {salt username password passwordHash : String} {email : Option String}
  {firstName lastName : String}

/-- A registration whose `create` raises raises too, and leaves the connection where that left
it. -/
lemma register_of_raised {e : AuthException} {c' : Conn AuthDb}
    (hhash : sec.hashpw salt password = some passwordHash)
    (h : create ⟨username, passwordHash, email, firstName, lastName⟩ fails c = (.error e, c')) :
    register sec cfg now salt token username password email firstName lastName fails c =
      (.error (asUsernameTaken username e), c') := by
  unfold register
  rw [hhash]
  exact Sql.bind_of_error (Sql.mapError_of_error h)

/-- After a `create` that commits, what is left of a registration is `_issue_session`. -/
lemma register_of_created {c' : Conn AuthDb}
    (hhash : sec.hashpw salt password = some passwordHash)
    (h : create ⟨username, passwordHash, email, firstName, lastName⟩ fails c = (.ok id, c')) :
    register sec cfg now salt token username password email firstName lastName fails c =
      issueSession sec cfg now token
        (toUser id ⟨username, passwordHash, email, firstName, lastName⟩) fails c' := by
  unfold register
  rw [hhash]
  exact Sql.bind_of_ok (Sql.mapError_of_ok h)

end Register

/-! ## The operations -/

/-- A call of one of the three operations that return a session, with the random values it draws:
the salt of the password and the new refresh token. -/
inductive AuthCall
  | register (salt token username password : String) (email : Option String)
    (firstName lastName : String)
  | login (token username password : String)
  | refresh (token refreshToken : String)
  deriving DecidableEq, Repr

/-- The statements of a call. -/
def AuthCall.program (sec : Crypto) (cfg : AuthSettings) (now : Timestamp) :
    AuthCall → Sql AuthDb AuthException Session
  | .register salt token username password email firstName lastName =>
    AuthSql.register sec cfg now salt token username password email firstName lastName
  | .login token username password => AuthSql.login sec cfg now token username password
  | .refresh token refreshToken => AuthSql.refresh sec cfg now token refreshToken

/-- A refresh with a token that is revoked. -/
def AuthCall.PresentsRevoked (sec : Crypto) (db : AuthDb) : AuthCall → Prop
  | .refresh _ refreshToken =>
    ∃ id row, db.getRefreshToken (sec.hashRefreshToken refreshToken) = some (id, row) ∧
      row.live = false
  | _ => False

/-- A registration whose `create` commits and whose token is not stored: the statement fails, or the
token is one that is stored already. -/
def AuthCall.FailsAfterCreate (sec : Crypto) (fails : ℕ → Option AuthException) (db : AuthDb) :
    AuthCall → Prop
  | .register salt token username password _ _ _ =>
    (sec.hashpw salt password).isSome = true ∧ db.getByUsername username = none ∧
      (∀ n < 4, fails n = none) ∧
      (fails 4 ≠ none ∨ db.getRefreshToken (sec.hashRefreshToken token) ≠ none)
  | _ => False

/-- A registration that has raised can be repeated: with no statement failing, under the same
username, it returns a session. -/
def AuthCall.Repeatable (sec : Crypto) (cfg : AuthSettings) (db db' : AuthDb) : AuthCall → Prop
  | .register _ _ username _ _ _ _ =>
    db.getByUsername username = none →
      ∀ (now : Timestamp) (salt token password : String) (email : Option String)
        (firstName lastName : String), (sec.hashpw salt password).isSome = true →
        db.getRefreshToken (sec.hashRefreshToken token) = none →
        ∃ session, ((AuthSql.register sec cfg now salt token username password email firstName
          lastName).run (fun _ => none) db').1 = .ok session
  | _ => True

/-- If the call raises, the tables have the rows they had, and a registration can be repeated. -/
def AuthCall.AllOrNothing (sec : Crypto) (cfg : AuthSettings) (now : Timestamp)
    (fails : ℕ → Option AuthException) (db : AuthDb) (call : AuthCall) : Prop :=
  ∀ e db', (call.program sec cfg now).run fails db = (.error e, db') →
    db'.SameRows db ∧ call.Repeatable sec cfg db db'

lemma AuthCall.repeatable_of_sameRows (call : AuthCall) (h : db'.SameRows db) :
    call.Repeatable sec cfg db db' := by
  cases call with
  | register _ _ username _ _ _ _ =>
    intro hfree now salt token password email firstName lastName hhash hnew
    obtain ⟨passwordHash, hhash⟩ := Option.isSome_iff_exists.1 hhash
    rw [← h.getByUsername] at hfree
    rw [← h.getRefreshToken] at hnew
    rcases create_cases ⟨username, passwordHash, email, firstName, lastName⟩ (fun _ => none) db' with
      ⟨e, c', hcreate, hwhy⟩ | ⟨-, id, db₁, hcreate, hrun⟩
    · obtain ⟨db₁, hsome⟩ := AuthDb.exists_create
        ⟨username, passwordHash, email, firstName, lastName⟩ hfree
      rcases hwhy with hnone | ⟨n, -, hn⟩
      · exact absurd (hnone.symm.trans hsome) (by simp)
      · exact absurd rfl hn
    · have huser := AuthDb.isSome_getById_create hcreate
      have hnew₁ : db₁.getRefreshToken (sec.hashRefreshToken token) = none := by
        rw [AuthDb.getRefreshToken, AuthDb.refreshTokens_create hcreate]
        exact hnew
      obtain ⟨db₂, hstore⟩ := AuthDb.exists_storeRefreshToken (cfg.expiresAt now) huser hnew₁
      have hissue : issueSession sec cfg now token (toUser id
          ⟨username, passwordHash, email, firstName, lastName⟩) (fun _ => none) ⟨db₁, none, 4⟩ =
          (.ok _, ⟨db₂, none, 5⟩) := issueSession_of_stored rfl hstore
      refine ⟨newSession sec cfg now
        (toUser id ⟨username, passwordHash, email, firstName, lastName⟩) token, ?_⟩
      unfold Sql.run
      rw [register_of_created hhash hrun, hissue]
  | login _ _ _ => exact True.intro
  | refresh _ _ => exact True.intro

/-- An all-or-nothing program, run as an operation, is all or nothing. -/
lemma AuthCall.allOrNothing_of_sameRows {call : AuthCall}
    (h : ∀ e, ((call.program sec cfg now).run fails db).1 = .error e →
      ((call.program sec cfg now).run fails db).2.SameRows db) :
    call.AllOrNothing sec cfg now fails db := by
  intro e db' hrun
  have hsame : db'.SameRows db := by
    have hsame := h e (congrArg Prod.fst hrun)
    rw [hrun] at hsame
    exact hsame
  exact ⟨hsame, call.repeatable_of_sameRows hsame⟩

/-- A refresh with a token that is not revoked writes in its transaction only. -/
lemma sameRows_refresh (hlive : ∀ e ∈ db.getRefreshToken (sec.hashRefreshToken refreshToken),
    e.2.live = true) {e : AuthException}
    (h : ((refresh sec cfg now token refreshToken).run fails db).1 = .error e) :
    ((refresh sec cfg now token refreshToken).run fails db).2.SameRows db := by
  unfold Sql.run refresh at *
  cases hfirst : fails 0 with
  | some err =>
    rw [Sql.select_bind_of_some hfirst]
    exact ⟨rfl, rfl, rfl⟩
  | none =>
    rw [Sql.select_bind_of_none hfirst] at h ⊢
    exact ((atomic_refreshFound hlive) fails ⟨db, none, 1⟩ rfl).2 e h

section Register

variable {salt username password passwordHash : String} {email : Option String}
  {firstName lastName : String} {id : UserId} {db₁ : AuthDb}

lemma run_register_of_created (hhash : sec.hashpw salt password = some passwordHash)
    (hrun : create ⟨username, passwordHash, email, firstName, lastName⟩ fails ⟨db, none, 0⟩ =
      (.ok id, ⟨db₁, none, 4⟩)) {out : Except AuthException Session} {c' : Conn AuthDb}
    (hissue : issueSession sec cfg now token
      (toUser id ⟨username, passwordHash, email, firstName, lastName⟩) fails ⟨db₁, none, 4⟩ =
        (out, c')) :
    (register sec cfg now salt token username password email firstName lastName).run fails db =
      (out, c'.committed) := by
  unfold Sql.run
  rw [register_of_created hhash hrun, hissue]

lemma allOrNothing_of_raised {e : AuthException} {c' : Conn AuthDb}
    (hhash : sec.hashpw salt password = some passwordHash)
    (hcreate : create ⟨username, passwordHash, email, firstName, lastName⟩ fails ⟨db, none, 0⟩ =
      (.error e, c')) :
    (AuthCall.register salt token username password email firstName lastName).AllOrNothing sec cfg
      now fails db := by
  refine AuthCall.allOrNothing_of_sameRows fun _ _ => ?_
  show ((register sec cfg now salt token username password email firstName lastName) fails
    ⟨db, none, 0⟩).2.committed.SameRows db
  rw [register_of_raised hhash hcreate]
  have hatomic := (atomic_create ⟨username, passwordHash, email, firstName, lastName⟩ fails
    ⟨db, none, 0⟩ rfl).2
  rw [hcreate] at hatomic
  exact hatomic _ rfl

/-- A registration whose token is not stored after its `create` leaves the user. -/
lemma not_allOrNothing_of_created (hhash : sec.hashpw salt password = some passwordHash)
    (hcreate : db.create ⟨username, passwordHash, email, firstName, lastName⟩ = some (id, db₁))
    (hrun : create ⟨username, passwordHash, email, firstName, lastName⟩ fails ⟨db, none, 0⟩ =
      (.ok id, ⟨db₁, none, 4⟩))
    (hlater : fails 4 ≠ none ∨ db₁.getRefreshToken (sec.hashRefreshToken token) ≠ none) :
    ¬ (AuthCall.register salt token username password email firstName lastName).AllOrNothing sec cfg
      now fails db := by
  intro hall
  have hdiffer : ¬ db₁.SameRows db := AuthDb.not_sameRows_create hcreate
  cases hfourth : fails 4 with
  | some e =>
    have hissue : issueSession sec cfg now token
        (toUser id ⟨username, passwordHash, email, firstName, lastName⟩) fails ⟨db₁, none, 4⟩ =
          (.error e, ⟨db₁, none, 5⟩) := issueSession_of_fail hfourth
    exact hdiffer (hall _ _ (run_register_of_created hhash hrun hissue)).1
  | none =>
    have hviolation : db₁.storeRefreshToken id (sec.hashRefreshToken token) (cfg.expiresAt now) =
        none := storeRefreshToken_of_known (hlater.resolve_left (not_not_intro hfourth))
    have hregister := run_register_of_created hhash hrun
      (issueSession_of_violation hfourth hviolation)
    have hsame : db₁.nextTokenId.SameRows db := (hall _ _ hregister).1
    exact hdiffer ⟨hsame.users, hsame.watchlists, hsame.refreshTokens⟩

lemma allOrNothing_of_created (hhash : sec.hashpw salt password = some passwordHash)
    (hcreate : db.create ⟨username, passwordHash, email, firstName, lastName⟩ = some (id, db₁))
    (hrun : create ⟨username, passwordHash, email, firstName, lastName⟩ fails ⟨db, none, 0⟩ =
      (.ok id, ⟨db₁, none, 4⟩))
    (hfourth : fails 4 = none) (hnew : db₁.getRefreshToken (sec.hashRefreshToken token) = none) :
    (AuthCall.register salt token username password email firstName lastName).AllOrNothing sec cfg
      now fails db := by
  obtain ⟨db₂, hstore⟩ := AuthDb.exists_storeRefreshToken (cfg.expiresAt now)
    (AuthDb.isSome_getById_create hcreate) hnew
  have hregister := run_register_of_created hhash hrun (issueSession_of_stored hfourth hstore)
  intro e db' hraised
  exact absurd (hregister.symm.trans hraised) (by simp)

/-- A registration is all or nothing, or its token was not stored after its `create`. -/
lemma allOrNothing_register_iff :
    (AuthCall.register salt token username password email firstName lastName).AllOrNothing sec cfg
      now fails db ↔ ¬ (AuthCall.register salt token username password email firstName
        lastName).FailsAfterCreate sec fails db := by
  cases hhash : sec.hashpw salt password with
  | none =>
    -- bcrypt raises before any statement
    refine iff_of_true (AuthCall.allOrNothing_of_sameRows fun e _ => ?_) ?_
    · show ((register sec cfg now salt token username password email firstName lastName).run fails
        db).2.SameRows db
      unfold register
      rw [hhash]
      exact ⟨rfl, rfl, rfl⟩
    · rintro ⟨hsome, -⟩
      rw [hhash] at hsome
      exact absurd hsome (by simp)
  | some passwordHash =>
    let row : UserRow := ⟨username, passwordHash, email, firstName, lastName⟩
    rcases create_cases row fails db with ⟨e, c', hcreate, hwhy⟩ | ⟨hfails, id, db₁, hcreate, hrun⟩
    -- `create` raises, and its transaction leaves no row
    · refine iff_of_true (allOrNothing_of_raised hhash hcreate) ?_
      rintro ⟨-, hfree, hfails, -⟩
      rcases hwhy with htaken | ⟨n, hn, hfail⟩
      · obtain ⟨db₁, hsome⟩ := AuthDb.exists_create row hfree
        exact absurd (htaken.symm.trans hsome) (by simp)
      · exact hfail (hfails n hn)
    · have hknown : db₁.getRefreshToken (sec.hashRefreshToken token) =
          db.getRefreshToken (sec.hashRefreshToken token) := by
        rw [AuthDb.getRefreshToken, AuthDb.refreshTokens_create hcreate, AuthDb.getRefreshToken]
      -- `create` has committed, so it depends on the INSERT of the token
      by_cases hlater : fails 4 ≠ none ∨ db.getRefreshToken (sec.hashRefreshToken token) ≠ none
      · have hfree : db.getByUsername username = none := AuthDb.getByUsername_of_create hcreate
        refine iff_of_false (not_allOrNothing_of_created hhash hcreate hrun (hknown ▸ hlater))
          (not_not_intro ⟨?_, hfree, hfails, hlater⟩)
        rw [hhash]
        rfl
      · rw [not_or, not_not, not_not] at hlater
        obtain ⟨hfourth, hnew⟩ := hlater
        refine iff_of_true (allOrNothing_of_created hhash hcreate hrun hfourth
          (hknown.trans hnew)) ?_
        rintro ⟨-, -, -, hfail | hold⟩
        · exact hfail hfourth
        · exact hold hnew

end Register

/-- **A call that raises leaves the tables as they were, unless it is a registration that fails
after its `create`.**  At every state, whatever statements fail, and but for a refresh with a
revoked token. -/
theorem all_or_nothing_iff (sec : Crypto) (cfg : AuthSettings) (now : Timestamp)
    (fails : ℕ → Option AuthException) (db : AuthDb) (call : AuthCall)
    (hrevoked : ¬ call.PresentsRevoked sec db) :
    call.AllOrNothing sec cfg now fails db ↔ ¬ call.FailsAfterCreate sec fails db := by
  cases call with
  | register salt token username password email firstName lastName =>
    exact allOrNothing_register_iff
  | login token username password =>
    refine iff_of_true (AuthCall.allOrNothing_of_sameRows fun e he => ?_) id
    exact (atomic_login token username password).run he
  | refresh token refreshToken =>
    refine iff_of_true (AuthCall.allOrNothing_of_sameRows fun e he => ?_) id
    refine sameRows_refresh (fun found hfound => ?_) he
    by_contra hlive
    exact hrevoked ⟨found.1, found.2, hfound, by simpa using hlive⟩

/-- The statement that stores the token fails, and no other. -/
def tokenInsertFails (n : ℕ) : Option AuthException := if n = 4 then some .database else none

/-- **The token of a registration cannot be stored**: the user stays, and the username with it. -/
theorem registration_leaves_user : ¬ ∀ (sec : Crypto) (cfg : AuthSettings) (now : Timestamp)
    (fails : ℕ → Option AuthException) (db : AuthDb) (call : AuthCall),
    ¬ call.PresentsRevoked sec db → call.AllOrNothing sec cfg now fails db := by
  intro h
  have hall := h .plain {} 0 tokenInsertFails .empty
    (.register "salt" "token" "user1" "password" none "" "") id
  refine allOrNothing_register_iff.1 hall ⟨rfl, rfl, fun n hn => ?_, Or.inl ?_⟩
  · exact if_neg (by omega)
  · show some AuthException.database ≠ none
    simp

/-- What a registration leaves. -/
def registeredDb : AuthDb :=
  (TickerWatch.register .plain {} 0 "salt" "first" "user1" "password" none "" "" .empty).2

/-- The user is read, and the token cannot be stored. -/
def loginInsertFails (n : ℕ) : Option AuthException := if n = 1 then some .database else none

/-- A login whose password is right, but whose token cannot be stored, raises and leaves the tables as
they were. -/
theorem login_leaves_rows :
    ((login .plain {} 0 "token" "user1" "password").run loginInsertFails registeredDb).1 =
        .error .database ∧
      (AuthCall.login "token" "user1" "password").AllOrNothing .plain {} 0 loginInsertFails
        registeredDb :=
  ⟨by decide +kernel, (all_or_nothing_iff .plain {} 0 loginInsertFails registeredDb
    (.login "token" "user1" "password") id).2 id⟩

/-! ## With no statement failing -/

/-- The call as one step. -/
def AuthCall.perform (sec : Crypto) (cfg : AuthSettings) (now : Timestamp) (db : AuthDb) :
    AuthCall → Except AuthError Session × AuthDb
  | .register salt token username password email firstName lastName =>
    TickerWatch.register sec cfg now salt token username password email firstName lastName db
  | .login token username password => TickerWatch.login sec cfg now token username password db
  | .refresh token refreshToken => TickerWatch.refresh sec cfg now token refreshToken db

/-- The error of the one-step call: what breaks a constraint is its `integrity`. -/
def AuthException.toAuthError : AuthException → AuthError
  | .raised e => e
  | _ => .integrity

/-- The one-step call has the outcome of the statements, and leaves the same rows. -/
def Agrees (out : Except AuthException Session × AuthDb) (out' : Except AuthError Session × AuthDb) :
    Prop :=
  out.1.mapError AuthException.toAuthError = out'.1 ∧ out.2.SameRows out'.2

section NoFailure

variable {n : ℕ}

/-- No statement fails. -/
def noFailure (_ : ℕ) : Option AuthException := none

lemma agrees_issueSession (db : AuthDb) (n : ℕ) :
    Agrees ((issueSession sec cfg now token user noFailure ⟨db, none, n⟩).1,
      (issueSession sec cfg now token user noFailure ⟨db, none, n⟩).2.committed)
      (TickerWatch.issueSession sec cfg now token user db) := by
  unfold TickerWatch.issueSession
  cases hstore : db.storeRefreshToken user.id (sec.hashRefreshToken token) (cfg.expiresAt now) with
  | none =>
    have hissue : issueSession sec cfg now token user noFailure ⟨db, none, n⟩ =
        (.error .uniqueViolation, ⟨db.nextTokenId, none, n + 1⟩) :=
      issueSession_of_violation rfl hstore
    rw [hissue]
    exact ⟨rfl, rfl, rfl, rfl⟩
  | some db' =>
    have hissue : issueSession sec cfg now token user noFailure ⟨db, none, n⟩ =
        (.ok (newSession sec cfg now user token), ⟨db', none, n + 1⟩) :=
      issueSession_of_stored rfl hstore
    rw [hissue]
    exact ⟨rfl, rfl, rfl, rfl⟩

/-- A username that is taken leaves `create` with the unique violation. -/
lemma create_of_taken (h : db.create row = none) : ∃ c',
    create row noFailure ⟨db, none, 0⟩ = (.error .uniqueViolation, c') ∧
      c'.committed.SameRows db := by
  have hviolation : insertUser row noFailure ⟨db, some db, 1⟩ =
      (.error .uniqueViolation, ⟨db, some db.nextUserId, 2⟩) :=
    write_of_none rfl (AuthDb.insertUser_of_create_none h)
  have hbody : createBody row noFailure ⟨db, some db, 1⟩ =
      (.error .uniqueViolation, ⟨db, some db.nextUserId, 2⟩) := Sql.bind_of_error hviolation
  have htx := Sql.transaction_of_error (c := ⟨db, none, 0⟩) rfl hbody
  exact ⟨_, htx, rfl, rfl, rfl⟩

lemma revoke_eq (db : AuthDb) (id : TokenId) (n : ℕ) :
    Sql.statement (fun db : AuthDb => (Except.ok (), db.revokeRefreshToken now id)) noFailure
      ⟨db, some db, n⟩ = (.ok (), ⟨db, some (db.revokeRefreshToken now id), n + 1⟩) :=
  Sql.statement_of_none rfl

lemma rotate_of_stored {id : TokenId}
    (h : (db.revokeRefreshToken now id).storeRefreshToken user.id (sec.hashRefreshToken token)
      (cfg.expiresAt now) = some db') :
    Sql.transaction (rotate sec cfg now token id user) noFailure ⟨db, none, n⟩ =
      (.ok (newSession sec cfg now user token), ⟨db', none, n + 4⟩) := by
  have hissue : issueSession sec cfg now token user noFailure
      ⟨db, some (db.revokeRefreshToken now id), n + 2⟩ =
        (.ok (newSession sec cfg now user token), ⟨db, some db', n + 3⟩) :=
    issueSession_of_stored rfl h
  have hbody : rotate sec cfg now token id user noFailure ⟨db, some db, n + 1⟩ =
      (.ok (newSession sec cfg now user token), ⟨db, some db', n + 3⟩) := by
    rw [rotate, Sql.bind_of_ok (revoke_eq db id (n + 1)), hissue]
  have htx := Sql.transaction_of_ok (c := ⟨db, none, n⟩) rfl hbody rfl
  exact htx

lemma rotate_of_violation {id : TokenId}
    (h : (db.revokeRefreshToken now id).storeRefreshToken user.id (sec.hashRefreshToken token)
      (cfg.expiresAt now) = none) :
    ∃ c', Sql.transaction (rotate sec cfg now token id user) noFailure ⟨db, none, n⟩ =
      (.error .uniqueViolation, c') ∧ c'.committed.SameRows db := by
  have hissue : issueSession sec cfg now token user noFailure
      ⟨db, some (db.revokeRefreshToken now id), n + 2⟩ = (.error .uniqueViolation,
        ⟨db, some (db.revokeRefreshToken now id).nextTokenId, n + 3⟩) :=
    issueSession_of_violation rfl h
  have hbody : rotate sec cfg now token id user noFailure ⟨db, some db, n + 1⟩ =
      (.error .uniqueViolation,
        ⟨db, some (db.revokeRefreshToken now id).nextTokenId, n + 3⟩) := by
    rw [rotate, Sql.bind_of_ok (revoke_eq db id (n + 1)), hissue]
  have htx := Sql.transaction_of_error (c := ⟨db, none, n⟩) rfl hbody
  exact ⟨_, htx, rfl, rfl, rfl⟩

lemma agrees_register (salt token username password : String) (email : Option String)
    (firstName lastName : String) (db : AuthDb) :
    Agrees ((register sec cfg now salt token username password email firstName lastName).run
      noFailure db) (TickerWatch.register sec cfg now salt token username password email firstName
        lastName db) := by
  unfold TickerWatch.register Sql.run
  cases hhash : sec.hashpw salt password with
  | none =>
    unfold register
    rw [hhash]
    exact ⟨rfl, rfl, rfl, rfl⟩
  | some passwordHash =>
    dsimp only
    cases hcreate : db.create ⟨username, passwordHash, email, firstName, lastName⟩ with
    | none =>
      obtain ⟨c', hraised, hsame⟩ := create_of_taken hcreate
      rw [register_of_raised hhash hraised]
      exact ⟨rfl, hsame⟩
    | some created =>
      obtain ⟨id, db₁⟩ := created
      rcases create_cases ⟨username, passwordHash, email, firstName, lastName⟩ noFailure db with
        ⟨e, c', -, hnone | ⟨n, -, hn⟩⟩ | ⟨-, id', db₁', hcreate', hrun⟩
      · exact absurd (hnone.symm.trans hcreate) (by simp)
      · exact absurd rfl hn
      · obtain ⟨rfl, rfl⟩ := Prod.mk.inj (Option.some.inj (hcreate'.symm.trans hcreate))
        rw [register_of_created hhash hrun]
        exact agrees_issueSession db₁' 4

lemma agrees_login (token username password : String) (db : AuthDb) :
    Agrees ((login sec cfg now token username password).run noFailure db)
      (TickerWatch.login sec cfg now token username password db) := by
  unfold TickerWatch.login login Sql.run
  rw [Sql.select_bind_of_none rfl]
  show Agrees _ _
  cases hfind : db.getByUsername username with
  | none =>
    rw [show (Conn.visible ⟨db, none, 0⟩).getByUsername username = none from hfind]
    exact ⟨rfl, rfl, rfl, rfl⟩
  | some found =>
    obtain ⟨id, row⟩ := found
    rw [show (Conn.visible ⟨db, none, 0⟩).getByUsername username = some (id, row) from hfind]
    dsimp only
    cases sec.checkpw password row.passwordHash with
    | false => exact ⟨rfl, rfl, rfl, rfl⟩
    | true => exact agrees_issueSession db 1

lemma agrees_refresh (token refreshToken : String) (db : AuthDb) :
    Agrees ((refresh sec cfg now token refreshToken).run noFailure db)
      (TickerWatch.refresh sec cfg now token refreshToken db) := by
  unfold TickerWatch.refresh refresh Sql.run
  rw [Sql.select_bind_of_none rfl]
  cases hfind : db.getRefreshToken (sec.hashRefreshToken refreshToken) with
  -- the error cases raise before anything is written
  | none =>
    rw [show (Conn.visible ⟨db, none, 0⟩).getRefreshToken (sec.hashRefreshToken refreshToken) =
      none from hfind]
    exact ⟨rfl, rfl, rfl, rfl⟩
  | some found =>
    obtain ⟨id, row⟩ := found
    rw [show (Conn.visible ⟨db, none, 0⟩).getRefreshToken (sec.hashRefreshToken refreshToken) =
      some (id, row) from hfind]
    unfold refreshFound
    dsimp only
    split
    · split
      · exact ⟨rfl, rfl, rfl, rfl⟩
      · rw [Sql.select_bind_of_none rfl]
        cases huser : getUser db row.userId with
        | none =>
          rw [show getUser (Conn.visible (Conn.tick ⟨db, none, 0⟩)) row.userId = none from huser]
          exact ⟨rfl, rfl, rfl, rfl⟩
        | some user =>
          rw [show getUser (Conn.visible (Conn.tick ⟨db, none, 0⟩)) row.userId = some user from
            huser]
          unfold TickerWatch.issueSession
          dsimp only
          -- the two differ only in who rolls the UPDATE back when the hash is stored already
          cases hstore : (db.revokeRefreshToken now id).storeRefreshToken user.id
              (sec.hashRefreshToken token) (cfg.expiresAt now) with
          | none =>
            obtain ⟨c', hrotate, hsame⟩ := rotate_of_violation (n := 2) hstore
            show Agrees ((Sql.transaction _ noFailure ⟨db, none, 2⟩).1,
              (Sql.transaction _ noFailure ⟨db, none, 2⟩).2.committed) _
            rw [hrotate]
            exact ⟨rfl, hsame⟩
          | some db' =>
            show Agrees ((Sql.transaction _ noFailure ⟨db, none, 2⟩).1,
              (Sql.transaction _ noFailure ⟨db, none, 2⟩).2.committed) _
            rw [rotate_of_stored hstore]
            exact ⟨rfl, rfl, rfl, rfl⟩
    · exact ⟨rfl, rfl, rfl, rfl⟩

/-- **Statement by statement, a call is the one-step call**, when no statement fails. -/
theorem agrees_perform (sec : Crypto) (cfg : AuthSettings) (now : Timestamp) (db : AuthDb)
    (call : AuthCall) :
    Agrees ((call.program sec cfg now).run noFailure db) (call.perform sec cfg now db) := by
  cases call with
  | register salt token username password email firstName lastName =>
    exact agrees_register salt token username password email firstName lastName db
  | login token username password => exact agrees_login token username password db
  | refresh token refreshToken => exact agrees_refresh token refreshToken db

end NoFailure

end AuthSql
end TickerWatch
