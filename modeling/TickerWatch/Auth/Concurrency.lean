import TickerWatch.Foundations.System
import TickerWatch.Auth.Handler

/-!
# Concurrent auth calls

The operations of `auth_handler.py` cut at their statements.  Every call has a program counter; a
step runs the next statement of one call against the committed database, so the steps of different
calls interleave freely.

The database is Postgres at READ COMMITTED.  What a transaction has written is kept in its call until
it commits, and locks the row it updated: an update of a locked row waits, and then looks at the
committed row again.  The mass revocation is two steps, the snapshot that selects its rows and the
update that waits for their locks, because rows committed in between are not among them.  Every
other statement is one step.

`lineage` and `minted` are history, which no statement reads: which token each row was exchanged
for, and the token values drawn so far.
-/

namespace TickerWatch

/-- A call of the API. -/
abbrev CallId := ℕ

/-- Where a refresh stands: which of its statements comes next, with what the ones before it have
read.  Other calls run between two statements, so what a refresh knows of a row may be out of date
when it acts on it. -/
inductive RefreshPc
  /-- About to select the row of the token. -/
  | lookup
  /-- The row is read; the checks are next. -/
  | found (id : TokenId) (row : RefreshTokenRow)
  /-- The row was revoked; the mass revocation is next. -/
  | revokeAll (user : UserId)
  /-- The mass revocation has selected its rows. -/
  | revokingAll (user : UserId) (rows : List TokenId) (since : Timestamp)
  /-- The checks are passed; the user is next. -/
  | loadUser (id : TokenId) (row : RefreshTokenRow)
  /-- The transaction is next. -/
  | revoke (id : TokenId) (user : User)
  /-- The row of the token is revoked, unless the update found none. -/
  | issue (id : TokenId) (user : User) (hit : Option Timestamp)
  /-- The new row is inserted too. -/
  | commit (id : TokenId) (user : User) (hit : Option Timestamp) (newId : TokenId)
      (newRow : RefreshTokenRow) (session : Session)
  | returned (id : TokenId) (session : Session)
  /-- Raised `InvalidRefreshTokenError`. -/
  | invalid
  /-- Raised what the database or the connection raised. -/
  | failed
  deriving DecidableEq

/-- Where a logout stands. -/
inductive LogoutPc
  | lookup
  | revoke (id : TokenId)
  | done
  | failed
  deriving DecidableEq

/-- Where a login or a registration stands. -/
inductive LoginPc
  | start
  /-- The user is known; the token is next. -/
  | issue (user : User)
  | returned (session : Session)
  | raised
  deriving DecidableEq

/-- A call of the auth API with its arguments and where it stands.  A login and a registration
differ in what they look up and share the rest. -/
inductive Call
  | refresh (token : String) (pc : RefreshPc)
  | logout (token : String) (pc : LogoutPc)
  | login (username password : String) (pc : LoginPc)
  | register (salt username password : String) (email : Option String)
      (firstName lastName : String) (pc : LoginPc)
  deriving DecidableEq

namespace Call

/-- A call that has run no statement. -/
def isStart : Call → Bool
  | .refresh _ .lookup => true
  | .logout _ .lookup => true
  | .login _ _ .start => true
  | .register _ _ _ _ _ _ .start => true
  | _ => false

/-- The call after its connection failed, unless it is over.  What its transaction wrote is gone. -/
def abort : Call → Option Call
  | .refresh _ (.returned _ _) => none
  | .refresh _ .invalid => none
  | .refresh _ .failed => none
  | .refresh token _ => some (.refresh token .failed)
  | .logout _ .done => none
  | .logout _ .failed => none
  | .logout token _ => some (.logout token .failed)
  | .login _ _ (.returned _) => none
  | .login _ _ .raised => none
  | .login username password _ => some (.login username password .raised)
  | .register _ _ _ _ _ _ (.returned _) => none
  | .register _ _ _ _ _ _ .raised => none
  | .register salt username password email firstName lastName _ =>
    some (.register salt username password email firstName lastName .raised)

/-- The token a refresh was given, the row it found for it and the user it belongs to. -/
def presents : Call → Option (String × TokenId × UserId)
  | .refresh token (.found id row) => some (token, id, row.userId)
  | .refresh token (.loadUser id row) => some (token, id, row.userId)
  | .refresh token (.revoke id user) => some (token, id, user.id)
  | .refresh token (.issue id user _) => some (token, id, user.id)
  | .refresh token (.commit id user _ _ _ _) => some (token, id, user.id)
  | .refresh token (.returned id session) => some (token, id, session.user.id)
  | _ => none

/-- The row whose exchange is in an open transaction. -/
def exchanging : Call → Option TokenId
  | .refresh _ (.issue id _ _) => some id
  | .refresh _ (.commit id _ _ _ _ _) => some id
  | _ => none

/-- The row an open transaction has updated, and locks. -/
def holds : Call → Option TokenId
  | .refresh _ (.issue id _ (some _)) => some id
  | .refresh _ (.commit id _ (some _) _ _ _) => some id
  | _ => none

/-- The row an open transaction has inserted. -/
def inserted : Call → Option (TokenId × RefreshTokenRow)
  | .refresh _ (.commit _ _ _ newId newRow _) => some (newId, newRow)
  | _ => none

/-- The row a refresh has returned a session for. -/
def redeemed : Call → Option TokenId
  | .refresh _ (.returned id _) => some id
  | _ => none

/-- The rows a mass revocation that runs has selected. -/
def revoking : Call → List TokenId
  | .refresh _ (.revokingAll _ rows _) => rows
  | _ => []

end Call

/-- Where a token row came from.  It is written when the row is committed and kept when the row is
deleted, so that exchanges can be followed from row to row whatever has become of the rows. -/
structure Lineage where
  tokenHash : String
  user : UserId
  /-- The row it was exchanged for; none for a login or a registration. -/
  parent : Option TokenId
  deriving DecidableEq

/-- The committed database, the calls by their ids, the clock, and two histories that no call reads:
where every row came from, and every token that was drawn. -/
structure AuthWorld where
  db : AuthDb
  calls : Dict CallId Call
  now : Timestamp
  lineage : Dict TokenId Lineage
  minted : List String

/-- What can happen next: a call arrives, runs a statement with a token value at hand, or loses its
connection; a user is deleted; time passes. -/
inductive AuthEvent
  | spawn (c : CallId) (call : Call)
  | run (c : CallId) (token : String)
  | abort (c : CallId)
  | deleteUser (user : UserId)
  | advance (micros : ℕ)

/-- The call an event is about. -/
def AuthEvent.subject : AuthEvent → Option CallId
  | .spawn c _ => some c
  | .run c _ => some c
  | .abort c => some c
  | .deleteUser _ => none
  | .advance _ => none

namespace AuthWorld

/-- Whether some call satisfies `p`. -/
def anyCall (w : AuthWorld) (p : Call → Bool) : Bool := w.calls.values.any p

/-- Whether an open transaction locks the row. -/
def locked (w : AuthWorld) (id : TokenId) : Bool :=
  w.anyCall fun call => decide (call.holds = some id)

/-- Whether the row is committed and not revoked. -/
def live (w : AuthWorld) (id : TokenId) : Bool := (w.db.token id).any RefreshTokenRow.live

/-- One call moves on. -/
def put (w : AuthWorld) (c : CallId) (call : Call) : AuthWorld :=
  { w with calls := w.calls.set c call }

/-- Whether an open transaction refers to the user: a row of the user is locked, or one was
inserted for them. -/
def refersTo (w : AuthWorld) (user : UserId) : Bool :=
  w.anyCall fun call =>
    (call.holds.any fun id => (w.db.token id).any fun row => decide (row.userId = user)) ||
      (call.inserted.any fun e => decide (e.2.userId = user))

/-- The database a refresh transaction commits on: its row is revoked, if the update hit it. -/
def afterHit (db : AuthDb) (id : TokenId) (hit : Option Timestamp) : AuthDb :=
  match hit with
  | none => db
  | some since => db.revokeRefreshToken since id

section Statements

variable (sec : Crypto) (cfg : AuthSettings) (w : AuthWorld) (c : CallId) (fresh : String)

/-- The next statement of a refresh.  `none` while it waits for a lock, or when it is over. -/
def runRefresh (token : String) : RefreshPc → Option AuthWorld
  | .lookup =>
    match w.db.getRefreshToken (sec.hashRefreshToken token) with
    | none => some (w.put c (.refresh token .invalid))
    | some (id, row) => some (w.put c (.refresh token (.found id row)))
  | .found id row =>
    if row.live then
      if row.expiresAt ≤ w.now then some (w.put c (.refresh token .invalid))
      else some (w.put c (.refresh token (.loadUser id row)))
    else some (w.put c (.refresh token (.revokeAll row.userId)))
  | .revokeAll user =>
    some (w.put c (.refresh token
      (.revokingAll user (w.db.refreshTokens.idsWhere (AuthDb.isLiveOf user)) w.now)))
  | .revokingAll user rows since =>
    if rows.any w.locked then none
    else some { w.put c (.refresh token .invalid) with
      db := w.db.revokeWhere since fun id row => decide (id ∈ rows) && AuthDb.isLiveOf user id row }
  | .loadUser id row =>
    match getUser w.db row.userId with
    | none => some (w.put c (.refresh token .invalid))
    | some user => some (w.put c (.refresh token (.revoke id user)))
  | .revoke id user =>
    if w.locked id then none
    else some (w.put c (.refresh token
      (.issue id user (if w.live id then some w.now else none))))
  | .issue id user hit =>
    let newRow : RefreshTokenRow :=
      ⟨user.id, sec.hashRefreshToken fresh, cfg.expiresAt w.now, none⟩
    -- the insert checks its constraints at once; the sequence moves on even if it fails
    let call : RefreshPc :=
      match w.db.insertToken w.db.refreshTokens.nextId newRow with
      | none => .failed
      | some _ => .commit id user hit w.db.refreshTokens.nextId newRow
          (newSession sec cfg w.now user fresh)
    some { w.put c (.refresh token call) with
      db := w.db.nextTokenId, minted := fresh :: w.minted }
  | .commit id _ hit newId newRow session =>
    match (afterHit w.db id hit).insertToken newId newRow with
    | none => some (w.put c (.refresh token .failed))
    | some db' => some { w.put c (.refresh token (.returned id session)) with
        db := db'
        lineage := w.lineage.set newId ⟨newRow.tokenHash, newRow.userId, some id⟩ }
  | .returned _ _ => none
  | .invalid => none
  | .failed => none

/-- The next statement of a logout. -/
def runLogout (token : String) : LogoutPc → Option AuthWorld
  | .lookup =>
    match w.db.getRefreshToken (sec.hashRefreshToken token) with
    | none => some (w.put c (.logout token .done))
    | some (id, _) => some (w.put c (.logout token (.revoke id)))
  | .revoke id =>
    if w.locked id then none
    else some { w.put c (.logout token .done) with db := w.db.revokeRefreshToken w.now id }
  | .done => none
  | .failed => none

/-- `_issue_session` of a login or a registration: one insert, committed at once. -/
def runIssue (call : LoginPc → Call) (user : User) : AuthWorld :=
  match w.db.storeRefreshToken user.id (sec.hashRefreshToken fresh) (cfg.expiresAt w.now) with
  | none => { w.put c (call .raised) with minted := fresh :: w.minted }
  | some db' =>
    { w.put c (call (.returned (newSession sec cfg w.now user fresh))) with
      db := db'
      minted := fresh :: w.minted
      lineage := w.lineage.set w.db.refreshTokens.nextId
        ⟨sec.hashRefreshToken fresh, user.id, none⟩ }

/-- The next statement of a login. -/
def runLogin (username password : String) : LoginPc → Option AuthWorld
  | .start =>
    match w.db.getByUsername username with
    | none => some (w.put c (.login username password .raised))
    | some (id, row) =>
      if sec.checkpw password row.passwordHash then
        some (w.put c (.login username password (.issue (toUser id row))))
      else some (w.put c (.login username password .raised))
  | .issue user => some (w.runIssue sec cfg c fresh (.login username password) user)
  | .returned _ => none
  | .raised => none

/-- The next statement of a registration.  `create` is one transaction of its own. -/
def runRegister (salt username password : String) (email : Option String)
    (firstName lastName : String) : LoginPc → Option AuthWorld
  | .start =>
    let call := Call.register salt username password email firstName lastName
    match sec.hashpw salt password with
    | none => some (w.put c (call .raised))
    | some passwordHash =>
      let row : UserRow := ⟨username, passwordHash, email, firstName, lastName⟩
      match w.db.create row with
      | none => some (w.put c (call .raised))
      | some (id, db') => some { w.put c (call (.issue (toUser id row))) with db := db' }
  | .issue user =>
    some (w.runIssue sec cfg c fresh (.register salt username password email firstName lastName)
      user)
  | .returned _ => none
  | .raised => none

/-- The next statement of a call. -/
def runCall : Call → Option AuthWorld
  | .refresh token pc => w.runRefresh sec cfg c fresh token pc
  | .logout token pc => w.runLogout sec c token pc
  | .login username password pc => w.runLogin sec cfg c fresh username password pc
  | .register salt username password email firstName lastName pc =>
    w.runRegister sec cfg c fresh salt username password email firstName lastName pc

end Statements

/-- One event.  A user whom an open transaction refers to cannot be deleted before it ends. -/
def step (sec : Crypto) (cfg : AuthSettings) (w : AuthWorld) : AuthEvent → Option AuthWorld
  | .spawn c call =>
    if call.isStart && !w.calls.contains c then some (w.put c call) else none
  | .run c fresh => (w.calls.get? c).bind (w.runCall sec cfg c fresh)
  | .abort c => (w.calls.get? c).bind fun call => call.abort.map (w.put c)
  | .deleteUser user =>
    if w.refersTo user then none else some { w with db := w.db.deleteUser user }
  | .advance micros => some { w with now := w.now + micros }

/-- Runs of calls from the migrated database. -/
def system (sec : Crypto) (cfg : AuthSettings) : System AuthWorld AuthEvent where
  init w := w.db = .empty ∧ w.calls = .empty ∧ w.lineage = .empty ∧ w.minted = []
  step := step sec cfg

/-- Token values are fresh. -/
def Fresh (w : AuthWorld) : AuthEvent → Prop
  | .run _ fresh => fresh ∉ w.minted
  | _ => True

instance (w : AuthWorld) (e : AuthEvent) : Decidable (Fresh w e) :=
  match e with
  | .run _ fresh => inferInstanceAs (Decidable (fresh ∉ w.minted))
  | .spawn _ _ | .abort _ | .deleteUser _ | .advance _ => inferInstanceAs (Decidable True)

end AuthWorld

end TickerWatch
