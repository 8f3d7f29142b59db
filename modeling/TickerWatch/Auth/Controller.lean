import TickerWatch.Foundations.Table

/-!
# The auth tables

The tables of `001_initial.sql` and `002_refresh_tokens.sql` that the auth domain uses, and the
statements of `auth_controller.py`.  The `created_at` columns are left out: no query reads them.

The constraints are fields of `AuthDb`: usernames, token hashes and watchlist names are unique, and
a watchlist or a token belongs to a user.  A statement that would break one returns `none`, which is
the exception asyncpg raises.
-/

namespace TickerWatch

/-- A value of `users.id`. -/
abbrev UserId := ℤ

/-- A value of `refresh_tokens.id`. -/
abbrev TokenId := ℤ

/-- A value of `watchlists.id`. -/
abbrev WatchlistId := ℤ

/-- A `TIMESTAMPTZ`, or an aware `datetime`, in microseconds. -/
abbrev Timestamp := ℤ

/-- One row of `users`, under its id. -/
structure UserRow where
  username : String
  passwordHash : String
  email : Option String
  firstName : String
  lastName : String
  deriving DecidableEq, Repr

/-- One row of `watchlists`, under its id. -/
structure WatchlistRow where
  userId : UserId
  name : String
  deriving DecidableEq, Repr

/-- `idx_watchlists_user_name`. -/
def WatchlistRow.key (row : WatchlistRow) : UserId × String := (row.userId, row.name)

/-- One row of `refresh_tokens`, under its id.  `revokedAt` is set when the token is used or
revoked. -/
structure RefreshTokenRow where
  userId : UserId
  tokenHash : String
  expiresAt : Timestamp
  revokedAt : Option Timestamp
  deriving DecidableEq, Repr

/-- The row has not been revoked. -/
def RefreshTokenRow.live (row : RefreshTokenRow) : Bool := row.revokedAt.isNone

/-- `SET revoked_at = now()`. -/
def RefreshTokenRow.revoke (now : Timestamp) (row : RefreshTokenRow) : RefreshTokenRow :=
  { row with revokedAt := some now }

@[simp] lemma RefreshTokenRow.live_revoke (now : Timestamp) (row : RefreshTokenRow) :
    (row.revoke now).live = false := rfl

@[simp] lemma RefreshTokenRow.userId_revoke (now : Timestamp) (row : RefreshTokenRow) :
    (row.revoke now).userId = row.userId := rfl

@[simp] lemma RefreshTokenRow.expiresAt_revoke (now : Timestamp) (row : RefreshTokenRow) :
    (row.revoke now).expiresAt = row.expiresAt := rfl

@[simp] lemma RefreshTokenRow.tokenHash_revoke (now : Timestamp) (row : RefreshTokenRow) :
    (row.revoke now).tokenHash = row.tokenHash := rfl

/-- The tables of the auth domain, with their sequences and unique keys.  The foreign keys are
fields, so there is no database with a token or a watchlist of a user that it does not have. -/
structure AuthDb where
  users : Table UserRow.username
  watchlists : Table WatchlistRow.key
  refreshTokens : Table RefreshTokenRow.tokenHash
  watchlist_user : ∀ id row, watchlists.get? id = some row → (users.get? row.userId).isSome
  token_user : ∀ id row, refreshTokens.get? id = some row → (users.get? row.userId).isSome

namespace AuthDb

/-- The database after the migrations. -/
def empty : AuthDb := ⟨.empty, .empty, .empty, by simp, by simp⟩

/-! ## The statements -/

/-- `get_by_username`. -/
def getByUsername (db : AuthDb) (username : String) : Option (UserId × UserRow) :=
  db.users.find? username

/-- `get_by_id`. -/
def getById (db : AuthDb) (id : UserId) : Option UserRow := db.users.get? id

/-- The `watchlists` statement of `create`: `ON CONFLICT (user_id, name) DO NOTHING`. -/
def insertWatchlist (watchlists : Table WatchlistRow.key) (user : UserId) :
    Table WatchlistRow.key :=
  match watchlists.insert ⟨user, "default"⟩ with
  | some (_, watchlists') => watchlists'
  | none => watchlists.nextval

lemma userId_of_insertWatchlist {watchlists : Table WatchlistRow.key} {user : UserId} {id : ℤ}
    {row : WatchlistRow} (h : (insertWatchlist watchlists user).get? id = some row) :
    watchlists.get? id = some row ∨ row.userId = user := by
  unfold insertWatchlist at h
  split at h
  · rename_i heq
    obtain ⟨-, hinsert⟩ := Table.insert_eq_some_iff.1 heq
    rw [Table.get?_insertAt hinsert] at h
    split at h
    · obtain rfl := Option.some.inj h
      exact Or.inr rfl
    · exact Or.inl h
  · exact Or.inl h

/-- `create`: the user and their default watchlist, in one transaction.  `none` is the unique
violation of a username that is taken. -/
def create (db : AuthDb) (row : UserRow) : Option (UserId × AuthDb) :=
  match h : db.users.insert row with
  | none => none
  | some (id, users) => some (id, {
      users := users
      watchlists := insertWatchlist db.watchlists id
      refreshTokens := db.refreshTokens
      watchlist_user := by
        obtain ⟨rfl, hinsert⟩ := Table.insert_eq_some_iff.1 h
        intro id' row' hget
        rw [Table.get?_insertAt hinsert]
        split
        · rfl
        · rename_i hne
          rcases userId_of_insertWatchlist hget with hold | hnew
          · exact db.watchlist_user id' row' hold
          · exact absurd hnew hne
      token_user := by
        obtain ⟨rfl, hinsert⟩ := Table.insert_eq_some_iff.1 h
        intro id' row' hget
        rw [Table.get?_insertAt hinsert]
        split
        · rfl
        · exact db.token_user id' row' hget })

/-- The `users` statement of `create`. -/
def insertUser (db : AuthDb) (row : UserRow) : Option (UserId × AuthDb) :=
  match h : db.users.insert row with
  | none => none
  | some (id, users) => some (id, { db with
      users := users
      watchlist_user := by
        obtain ⟨rfl, hinsert⟩ := Table.insert_eq_some_iff.1 h
        intro id' row' hget
        rw [Table.get?_insertAt hinsert]
        split
        · rfl
        · exact db.watchlist_user id' row' hget
      token_user := by
        obtain ⟨rfl, hinsert⟩ := Table.insert_eq_some_iff.1 h
        intro id' row' hget
        rw [Table.get?_insertAt hinsert]
        split
        · rfl
        · exact db.token_user id' row' hget })

/-- The sequence behind `users.id` moves on, as it does when an insert fails. -/
def nextUserId (db : AuthDb) : AuthDb :=
  { db with users := db.users.nextval }

/-- `get_refresh_token`, with the id of the row. -/
def getRefreshToken (db : AuthDb) (tokenHash : String) : Option (TokenId × RefreshTokenRow) :=
  db.refreshTokens.find? tokenHash

/-- A table of tokens in the place of the one there is. -/
def setTokens (db : AuthDb) (tokens : Table RefreshTokenRow.tokenHash)
    (h : ∀ id row, tokens.get? id = some row → (db.users.get? row.userId).isSome) : AuthDb :=
  { db with refreshTokens := tokens, token_user := h }

/-- An update of the tokens that `p` selects: each is revoked. -/
def revokeWhere (db : AuthDb) (now : Timestamp) (p : TokenId → RefreshTokenRow → Bool) : AuthDb :=
  db.setTokens (db.refreshTokens.modify p (RefreshTokenRow.revoke now)
      (RefreshTokenRow.tokenHash_revoke now)) (by
    intro id row h
    rw [Table.get?_modify] at h
    obtain ⟨r, hr, rfl⟩ := Option.map_eq_some_iff.1 h
    have huser := db.token_user id r hr
    split
    · exact huser
    · exact huser)

/-- `revoke_refresh_token`: `WHERE id = $1 AND revoked_at IS NULL`. -/
def revokeRefreshToken (db : AuthDb) (now : Timestamp) (id : TokenId) : AuthDb :=
  db.revokeWhere now fun id' row => decide (id' = id) && row.live

/-- The rows `revoke_all_refresh_tokens` selects: `WHERE user_id = $1 AND revoked_at IS NULL`. -/
def isLiveOf (user : UserId) (_ : TokenId) (row : RefreshTokenRow) : Bool :=
  decide (row.userId = user) && row.live

/-- `revoke_all_refresh_tokens`, with the number of rows it revoked. -/
def revokeAllRefreshTokens (db : AuthDb) (now : Timestamp) (user : UserId) : AuthDb × ℕ :=
  (db.revokeWhere now (isLiveOf user), db.refreshTokens.count (isLiveOf user))

/-- The row of a token under an id taken from the sequence.  `none` is a violation of the unique
hash or of the reference to the user. -/
def insertToken (db : AuthDb) (id : TokenId) (row : RefreshTokenRow) : Option AuthDb :=
  if huser : (db.users.get? row.userId).isSome then
    match h : db.refreshTokens.insertAt id row with
    | none => none
    | some tokens => some (db.setTokens tokens (by
        intro id' row' hget
        rw [Table.get?_insertAt h] at hget
        split at hget
        · obtain rfl := Option.some.inj hget
          exact huser
        · exact db.token_user id' row' hget))
  else none

/-- `store_refresh_token`. -/
def storeRefreshToken (db : AuthDb) (user : UserId) (tokenHash : String) (expiresAt : Timestamp) :
    Option AuthDb :=
  db.insertToken db.refreshTokens.nextId ⟨user, tokenHash, expiresAt, none⟩

/-- The sequence behind `refresh_tokens.id` moves on, as it does when an insert is not committed. -/
def nextTokenId (db : AuthDb) : AuthDb := db.setTokens db.refreshTokens.nextval db.token_user

/-- `DELETE FROM users WHERE id = $1`: what refers to the user goes with them. -/
def deleteUser (db : AuthDb) (user : UserId) : AuthDb where
  users := db.users.delete fun id _ => decide (id = user)
  watchlists := db.watchlists.delete fun _ row => decide (row.userId = user)
  refreshTokens := db.refreshTokens.delete fun _ row => decide (row.userId = user)
  watchlist_user := by
    intro id row h
    obtain ⟨hrow, hne⟩ := Table.get?_delete_eq_some_iff.1 h
    obtain ⟨u, hu⟩ := Option.isSome_iff_exists.1 (db.watchlist_user id row hrow)
    exact Option.isSome_iff_exists.2 ⟨u, Table.get?_delete_eq_some_iff.2 ⟨hu, hne⟩⟩
  token_user := by
    intro id row h
    obtain ⟨hrow, hne⟩ := Table.get?_delete_eq_some_iff.1 h
    obtain ⟨u, hu⟩ := Option.isSome_iff_exists.1 (db.token_user id row hrow)
    exact Option.isSome_iff_exists.2 ⟨u, Table.get?_delete_eq_some_iff.2 ⟨hu, hne⟩⟩

/-- A table of watchlists in the place of the one there is. -/
def setWatchlists (db : AuthDb) (watchlists : Table WatchlistRow.key)
    (h : ∀ id row, watchlists.get? id = some row → (db.users.get? row.userId).isSome) : AuthDb :=
  { db with watchlists := watchlists, watchlist_user := h }

/-- The `watchlists` statement of `create`.  `none` is a violation of the reference to the user. -/
def insertDefaultWatchlist (db : AuthDb) (user : UserId) : Option AuthDb :=
  if huser : (db.users.get? user).isSome = true then
    some (db.setWatchlists (insertWatchlist db.watchlists user) (by
      intro id row hget
      rcases userId_of_insertWatchlist hget with hold | rfl
      · exact db.watchlist_user id row hold
      · exact huser))
  else none

/-- The `SELECT` of `default_watchlist_id`. -/
def selectDefaultWatchlist (db : AuthDb) (user : UserId) : Option WatchlistId :=
  (db.watchlists.find? (user, "default")).map Prod.fst

/-- The `INSERT ... ON CONFLICT (user_id, name) DO UPDATE ... RETURNING id` of
`default_watchlist_id`.  The update writes the name that is there, so on a conflict only the
sequence moves.  `none` is a violation of the reference to the user. -/
def upsertDefaultWatchlist (db : AuthDb) (user : UserId) : Option (WatchlistId × AuthDb) :=
  if huser : (db.users.get? user).isSome = true then
    match h : db.watchlists.insert ⟨user, "default"⟩ with
    | some (id, watchlists) => some (id, db.setWatchlists watchlists (by
        obtain ⟨rfl, hinsert⟩ := Table.insert_eq_some_iff.1 h
        intro id' row hget
        rw [Table.get?_insertAt hinsert] at hget
        split at hget
        · obtain rfl := Option.some.inj hget
          exact huser
        · exact db.watchlist_user id' row hget))
    | none => (db.selectDefaultWatchlist user).map fun id =>
        (id, db.setWatchlists db.watchlists.nextval db.watchlist_user)
  else none

/-! ## What they do to the tokens -/

/-- The token under an id. -/
def token (db : AuthDb) (id : TokenId) : Option RefreshTokenRow := db.refreshTokens.get? id

variable {db db' : AuthDb} {id id' : TokenId} {row row' : RefreshTokenRow} {user : UserId}
  {now : Timestamp}

lemma getRefreshToken_eq_some_iff {tokenHash : String} :
    db.getRefreshToken tokenHash = some (id, row) ↔
      db.token id = some row ∧ row.tokenHash = tokenHash := Table.find?_eq_some_iff

@[simp] lemma token_empty (id : TokenId) : empty.token id = none := rfl

@[simp] lemma token_setTokens (tokens : Table RefreshTokenRow.tokenHash) (h) (id : TokenId) :
    (db.setTokens tokens h).token id = tokens.get? id := rfl

@[simp] lemma token_nextTokenId (db : AuthDb) (id : TokenId) :
    db.nextTokenId.token id = db.token id := rfl

lemma token_revokeWhere (db : AuthDb) (now : Timestamp) (p : TokenId → RefreshTokenRow → Bool)
    (id : TokenId) : (db.revokeWhere now p).token id =
      (db.token id).map fun row => if p id row then row.revoke now else row :=
  Table.get?_modify _ _ _ (RefreshTokenRow.tokenHash_revoke now) _

lemma revokeWhere_congr {p q : TokenId → RefreshTokenRow → Bool}
    (h : ∀ id row, db.token id = some row → p id row = q id row) :
    db.revokeWhere now p = db.revokeWhere now q := by
  unfold revokeWhere setTokens
  congr 1
  exact Table.modify_congr _ h

/-- A row after a revocation is a row before it, revoked or as it was. -/
lemma exists_token_of_revokeWhere {p : TokenId → RefreshTokenRow → Bool}
    (h : (db.revokeWhere now p).token id = some row) : ∃ row', db.token id = some row' ∧
      row = if p id row' then row'.revoke now else row' := by
  rw [token_revokeWhere] at h
  obtain ⟨row', hrow', rfl⟩ := Option.map_eq_some_iff.1 h
  exact ⟨row', hrow', rfl⟩

lemma users_create {userRow : UserRow} (h : db.create userRow = some (user, db')) :
    user = db.users.nextId ∧ db.users.insertAt db.users.nextId userRow = some db'.users := by
  unfold create at h
  split at h
  · exact absurd h (by simp)
  · rename_i hinsert
    obtain ⟨rfl, rfl⟩ := Prod.mk.inj (Option.some.inj h)
    exact Table.insert_eq_some_iff.1 hinsert

lemma exists_create (userRow : UserRow) (h : db.getByUsername userRow.username = none) :
    ∃ db', db.create userRow = some (db.users.nextId, db') := by
  have hid : db.users.get? db.users.nextId = none := Table.get?_eq_none_of_nextId_le le_rfl
  obtain ⟨users, hinsert⟩ := Table.exists_insertAt hid h
  unfold create
  split
  · rename_i hnone
    rw [Table.insert, hinsert] at hnone
    exact absurd hnone (by simp)
  · rename_i hsome
    obtain ⟨rfl, -⟩ := Table.insert_eq_some_iff.1 hsome
    exact ⟨_, rfl⟩

lemma refreshTokens_create {userRow : UserRow} (h : db.create userRow = some (user, db')) :
    db'.refreshTokens = db.refreshTokens := by
  unfold create at h
  split at h
  · exact absurd h (by simp)
  · obtain ⟨-, rfl⟩ := Prod.mk.inj (Option.some.inj h)
    rfl

lemma token_create {userRow : UserRow} (h : db.create userRow = some (user, db')) (id : TokenId) :
    db'.token id = db.token id := by
  rw [token, refreshTokens_create h, token]

lemma insertToken_eq_some_iff : db.insertToken id row = some db' ↔
    (db.users.get? row.userId).isSome = true ∧
      db.refreshTokens.insertAt id row = some db'.refreshTokens ∧
      db'.users = db.users ∧ db'.watchlists = db.watchlists := by
  unfold insertToken
  split
  · rename_i huser
    split
    · rename_i h
      refine iff_of_false (by simp) ?_
      rintro ⟨-, htokens, -⟩
      exact absurd (h.symm.trans htokens) (by simp)
    · rename_i tokens h
      constructor
      · intro heq
        obtain rfl := Option.some.inj heq
        exact ⟨huser, h, rfl, rfl⟩
      · rintro ⟨-, htokens, husers, hlists⟩
        obtain rfl := Option.some.inj (h.symm.trans htokens)
        cases db'
        simp only at husers hlists
        subst husers hlists
        rfl
  · rename_i huser
    refine iff_of_false (by simp) ?_
    rintro ⟨h, -⟩
    exact huser h

/-- A token under a new id whose hash is new is stored, for a user there is. -/
lemma exists_insertToken (huser : (db.getById row.userId).isSome = true)
    (hid : db.token id = none) (hhash : db.getRefreshToken row.tokenHash = none) :
    ∃ db', db.insertToken id row = some db' := by
  obtain ⟨tokens, hinsert⟩ := Table.exists_insertAt hid hhash
  have huser' : (db.users.get? row.userId).isSome = true := huser
  unfold insertToken
  rw [dif_pos huser']
  split
  · rename_i hnone
    exact absurd (hnone.symm.trans hinsert) (by simp)
  · exact ⟨_, rfl⟩

lemma token_insertToken (h : db.insertToken id row = some db') (id' : TokenId) :
    db'.token id' = if id' = id then some row else db.token id' :=
  Table.get?_insertAt (insertToken_eq_some_iff.1 h).2.1 id'

lemma nextId_insertToken (h : db.insertToken id row = some db') :
    db'.refreshTokens.nextId = max db.refreshTokens.nextId (id + 1) := by
  obtain ⟨-, hinsert, -⟩ := insertToken_eq_some_iff.1 h
  exact (Table.insertAt_eq_some_iff.1 hinsert).2.2.2

/-- An insert under an id taken from the sequence before does what it does when it takes the id
itself. -/
lemma insertToken_nextTokenId (h : db.insertToken db.refreshTokens.nextId row = some db') :
    db.nextTokenId.insertToken db.refreshTokens.nextId row = some db' := by
  obtain ⟨huser, hinsert, husers, hlists⟩ := insertToken_eq_some_iff.1 h
  obtain ⟨hget, hfind, hrows, hnext⟩ := Table.insertAt_eq_some_iff.1 hinsert
  refine insertToken_eq_some_iff.2 ⟨huser, ?_, husers, hlists⟩
  refine Table.insertAt_eq_some_iff.2 ⟨hget, hfind, hrows, ?_⟩
  rw [hnext, max_eq_right (le_of_lt (lt_add_one _))]
  exact (max_self _).symm

lemma exists_storeRefreshToken {tokenHash : String} (expiresAt : Timestamp)
    (huser : (db.getById user).isSome = true) (hnew : db.getRefreshToken tokenHash = none) :
    ∃ db', db.storeRefreshToken user tokenHash expiresAt = some db' := by
  apply exists_insertToken
  · exact huser
  · exact Table.get?_eq_none_of_nextId_le le_rfl
  · exact hnew

lemma token_deleteUser (db : AuthDb) (user : UserId) (id : TokenId) :
    (db.deleteUser user).token id = some row ↔ db.token id = some row ∧ row.userId ≠ user := by
  refine Table.get?_delete_eq_some_iff.trans ?_
  rw [decide_eq_false_iff_not]
  rfl

/-! ## What they do to the watchlists -/

lemma selectDefaultWatchlist_eq_some_iff {id : WatchlistId} :
    db.selectDefaultWatchlist user = some id ↔
      db.watchlists.get? id = some ⟨user, "default"⟩ := by
  rw [selectDefaultWatchlist, Option.map_eq_some_iff]
  constructor
  · rintro ⟨⟨id', row⟩, hfind, rfl⟩
    obtain ⟨hrow, hkey⟩ := Table.find?_eq_some_iff.1 hfind
    obtain ⟨userId, name⟩ := row
    obtain ⟨rfl, rfl⟩ := Prod.mk.inj hkey
    exact hrow
  · intro hrow
    exact ⟨(id, ⟨user, "default"⟩), Table.find?_eq_some_iff.2 ⟨hrow, rfl⟩, rfl⟩

/-- The upsert adds at most one row: the user's default watchlist, under the id it returns. -/
theorem get?_of_upsertDefaultWatchlist {id : WatchlistId}
    (h : db.upsertDefaultWatchlist user = some (id, db')) (id' : WatchlistId)
    (row : WatchlistRow) : db'.watchlists.get? id' = some row ↔
      db.watchlists.get? id' = some row ∨ id' = id ∧ row = ⟨user, "default"⟩ := by
  unfold upsertDefaultWatchlist at h
  split at h
  · split at h
    · rename_i watchlists heq
      obtain ⟨rfl, hinsert⟩ := Table.insert_eq_some_iff.1 heq
      obtain ⟨rfl, rfl⟩ := Prod.mk.inj (Option.some.inj h)
      have hnone : db.watchlists.get? db.watchlists.nextId = none :=
        Table.get?_eq_none_of_nextId_le le_rfl
      change watchlists.get? id' = some row ↔ _
      rw [Table.get?_insertAt hinsert]
      split
      · rename_i hid
        subst hid
        simp [hnone, eq_comm]
      · rename_i hid
        simp [hid]
    · obtain ⟨id₀, hselect, heq⟩ := Option.map_eq_some_iff.1 h
      obtain ⟨rfl, rfl⟩ := Prod.mk.inj heq
      refine (or_iff_left_of_imp ?_).symm
      rintro ⟨rfl, rfl⟩
      exact selectDefaultWatchlist_eq_some_iff.1 hselect
  · exact absurd h (by simp)

lemma users_upsertDefaultWatchlist {id : WatchlistId}
    (h : db.upsertDefaultWatchlist user = some (id, db')) : db'.users = db.users := by
  unfold upsertDefaultWatchlist at h
  split at h
  · split at h
    · obtain ⟨-, rfl⟩ := Prod.mk.inj (Option.some.inj h)
      rfl
    · obtain ⟨id₀, -, heq⟩ := Option.map_eq_some_iff.1 h
      obtain ⟨-, rfl⟩ := Prod.mk.inj heq
      rfl
  · exact absurd h (by simp)

/-- For a user there is, the upsert returns an id. -/
lemma exists_upsertDefaultWatchlist (huser : (db.users.get? user).isSome = true) :
    ∃ id db', db.upsertDefaultWatchlist user = some (id, db') := by
  unfold upsertDefaultWatchlist
  rw [dif_pos huser]
  split
  · exact ⟨_, _, rfl⟩
  · rename_i hnone
    have hconflict : ∃ id, db.selectDefaultWatchlist user = some id := by
      by_contra hmiss
      have hfind : db.watchlists.find? (WatchlistRow.key ⟨user, "default"⟩) = none := by
        cases hfind : db.watchlists.find? (WatchlistRow.key ⟨user, "default"⟩) with
        | none => rfl
        | some e => exact absurd ⟨e.1, congrArg (Option.map Prod.fst) hfind⟩ hmiss
      have hid : db.watchlists.get? db.watchlists.nextId = none :=
        Table.get?_eq_none_of_nextId_le le_rfl
      obtain ⟨watchlists, hinsert⟩ := Table.exists_insertAt hid hfind
      rw [Table.insert, hinsert] at hnone
      exact absurd hnone (by simp)
    obtain ⟨id, hid⟩ := hconflict
    rw [hid]
    exact ⟨id, _, rfl⟩

/-- After the upsert the user's default watchlist is the one it returned. -/
lemma selectDefaultWatchlist_upsert_self {id : WatchlistId}
    (h : db.upsertDefaultWatchlist user = some (id, db')) :
    db'.selectDefaultWatchlist user = some id :=
  selectDefaultWatchlist_eq_some_iff.2
    ((get?_of_upsertDefaultWatchlist h id _).2 (Or.inr ⟨rfl, rfl⟩))

lemma selectDefaultWatchlist_upsert_ne {id : WatchlistId} {user' : UserId}
    (h : db.upsertDefaultWatchlist user = some (id, db')) (hne : user' ≠ user) :
    db'.selectDefaultWatchlist user' = db.selectDefaultWatchlist user' := by
  ext id'
  rw [selectDefaultWatchlist_eq_some_iff, selectDefaultWatchlist_eq_some_iff,
    get?_of_upsertDefaultWatchlist h]
  simp [hne]

lemma selectDefaultWatchlist_upsert_of_some {id id' : WatchlistId} {user' : UserId}
    (h : db.upsertDefaultWatchlist user = some (id, db'))
    (hselect : db.selectDefaultWatchlist user' = some id') :
    db'.selectDefaultWatchlist user' = some id' :=
  selectDefaultWatchlist_eq_some_iff.2 ((get?_of_upsertDefaultWatchlist h id' _).2
    (Or.inl (selectDefaultWatchlist_eq_some_iff.1 hselect)))

end AuthDb

end TickerWatch
