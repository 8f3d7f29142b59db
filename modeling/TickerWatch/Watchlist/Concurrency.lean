import TickerWatch.Foundations.SequentialObject
import TickerWatch.Foundations.System
import TickerWatch.Watchlist.Controller

/-!
# Concurrent watchlist calls

The operations of `watchlist_handler.py` cut at their statements: `get_watchlist`, `add_item` and
`remove_item`, with `default_watchlist_id` inside each.  A step runs the next statement of one call.
No call opens a transaction, so every statement is committed when it returns, and the statements of
different calls interleave freely.

The id in the path of a request is an integer of any size.  `add_item` passes it to the lookup of the
security and to its insert, `remove_item` to its delete, and asyncpg raises `DataError` when it cannot
encode it as a `BIGINT`: the call has then `failed`, with neither of the errors it declares.

`log` is history, which no statement reads: what each `watchlist_items` statement did, in the order
they were executed.
-/

namespace TickerWatch

universe u

/-- An integer that a `BIGINT` parameter takes. -/
def isBigint (n : ℤ) : Bool := decide (-2 ^ 63 ≤ n ∧ n < 2 ^ 63)

/-- The ids of a catalog are those of a `BIGINT` column. -/
def Catalog.IdsFit (c : Catalog) : Prop := ∀ id ∈ c.rows.keys, isBigint id = true

instance (c : Catalog) : Decidable c.IdsFit := List.decidableBAll _ _

/-- A call of the API, by the user whose token it came with. -/
structure WatchlistCallId where
  user : UserId
  number : ℕ
  deriving DecidableEq, Repr

/-- Where `default_watchlist_id` stands. -/
inductive ResolvePc
  | select
  | upsert
  deriving DecidableEq, Repr

/-- Where a `get_watchlist` stands. -/
inductive GetPc (P : Type u)
  | resolve (pc : ResolvePc)
  | loadMembers (watchlistId : WatchlistId)
  | loadPrices (watchlistId : WatchlistId) (members : List MemberRow)
  | returned (watchlistId : WatchlistId) (response : Watchlist P)
  /-- Raised what the database raised. -/
  | failed
  deriving DecidableEq

/-- Where an `add_item` stands.  It looks the security up, resolves the default watchlist, which may
make one, and inserts the item, each in a statement of its own and in no transaction. -/
inductive AddPc
  /-- About to look the security up. -/
  | lookup
  | resolve (pc : ResolvePc)
  | add (watchlistId : WatchlistId)
  | returned (watchlistId : WatchlistId)
  /-- Raised `SecurityNotFoundError`. -/
  | securityNotFound
  | failed
  deriving DecidableEq, Repr

/-- Where a `remove_item` stands. -/
inductive RemovePc
  | resolve (pc : ResolvePc)
  | remove (watchlistId : WatchlistId)
  | returned (watchlistId : WatchlistId)
  /-- Raised `NotOnWatchlistError`. -/
  | notOnWatchlist (watchlistId : WatchlistId)
  | failed
  deriving DecidableEq, Repr

/-- A call with its argument and where it stands.  Each statement of a call is executed at once, and
statements of other calls may come between two of them. -/
inductive WatchlistCall (P : Type u)
  | get (pc : GetPc P)
  | add (security : SecurityId) (pc : AddPc)
  | remove (security : SecurityId) (pc : RemovePc)
  deriving DecidableEq

/-- What a `watchlist_items` statement is for. -/
inductive SetOp
  | read
  | insert (security : SecurityId)
  | delete (security : SecurityId)
  deriving DecidableEq, Repr

/-- What a `watchlist_items` statement returned to its call; `add_item` drops whether the row was
new. -/
inductive SetResult
  | rows (members : List MemberRow)
  | inserted
  | deleted (hit : Bool)
  deriving DecidableEq, Repr

namespace WatchlistCall

variable {P : Type u}

/-- A call that has run no statement. -/
def isStart : WatchlistCall P → Bool
  | .get (.resolve .select) => true
  | .add _ .lookup => true
  | .remove _ (.resolve .select) => true
  | _ => false

/-- The row `default_watchlist_id` returned to the call. -/
def watchlistId : WatchlistCall P → Option WatchlistId
  | .get (.loadMembers id) => some id
  | .get (.loadPrices id _) => some id
  | .get (.returned id _) => some id
  | .add _ (.add id) => some id
  | .add _ (.returned id) => some id
  | .remove _ (.remove id) => some id
  | .remove _ (.returned id) => some id
  | .remove _ (.notOnWatchlist id) => some id
  | _ => none

/-- What the `watchlist_items` statement of the call did, once it is executed. -/
def record : WatchlistCall P → Option (SetOp × SetResult)
  | .get (.loadPrices _ members) => some (.read, .rows members)
  | .get (.returned _ response) => some (.read, .rows (response.items.map WatchlistItem.row))
  | .add security (.returned _) => some (.insert security, .inserted)
  | .remove security (.returned _) => some (.delete security, .deleted true)
  | .remove security (.notOnWatchlist _) => some (.delete security, .deleted false)
  | _ => none

/-- The integer of the request that the next statement passes on. -/
def argument : WatchlistCall P → Option ℤ
  | .add security .lookup => some security
  | .add security (.add _) => some security
  | .remove security (.remove _) => some security
  | _ => none

/-- The call raised what the database raised. -/
def isFailed : WatchlistCall P → Bool
  | .get .failed => true
  | .add _ .failed => true
  | .remove _ .failed => true
  | _ => false

lemma start_cases {call : WatchlistCall P} (h : call.isStart = true) :
    call = .get (.resolve .select) ∨ (∃ security, call = .add security .lookup) ∨
      ∃ security, call = .remove security (.resolve .select) := by
  unfold isStart at h
  split at h
  · exact Or.inl rfl
  · exact Or.inr (Or.inl ⟨_, rfl⟩)
  · exact Or.inr (Or.inr ⟨_, rfl⟩)
  · exact absurd h (by simp)

lemma remove_ended (security : SecurityId) (id : WatchlistId) (hit : Bool) {call : WatchlistCall P}
    (h : call = .remove security (if hit then .returned id else .notOnWatchlist id)) :
    call.watchlistId = some id ∧ call.isFailed = false ∧
      call.record = some (.delete security, .deleted hit) := by
  subst h
  cases hit with
  | true => exact ⟨rfl, rfl, rfl⟩
  | false => exact ⟨rfl, rfl, rfl⟩

end WatchlistCall

/-- How a call ended, as its caller sees it. -/
inductive WatchlistOutcome (P : Type u)
  | watchlist (response : Watchlist P)
  | added
  | removed
  | securityNotFound
  | notOnWatchlist
  | error
  deriving DecidableEq

/-- How a call that is over ended. -/
def WatchlistCall.outcome {P : Type u} : WatchlistCall P → Option (WatchlistOutcome P)
  | .get (.returned _ response) => some (.watchlist response)
  | .get .failed => some .error
  | .add _ (.returned _) => some .added
  | .add _ .securityNotFound => some .securityNotFound
  | .add _ .failed => some .error
  | .remove _ (.returned _) => some .removed
  | .remove _ (.notOnWatchlist _) => some .notOnWatchlist
  | .remove _ .failed => some .error
  | _ => none

lemma WatchlistCall.outcome_ne_error {P : Type u} {call : WatchlistCall P}
    (h : call.isFailed = false) : call.outcome ≠ some .error := by
  unfold outcome
  split <;> simp_all [isFailed]

lemma WatchlistCall.exists_of_outcome_watchlist {P : Type u} {call : WatchlistCall P}
    {response : Watchlist P} (h : call.outcome = some (.watchlist response)) :
    ∃ id, call = .get (.returned id response) := by
  unfold outcome at h
  split at h <;> simp_all

/-- The statements executed, as operations on the sets of the users. -/
def setHistory (log : List (WatchlistCallId × SetOp × SetResult)) :
    List ((UserId × SetOp) × SetResult) :=
  log.map fun e => ((e.1.user, e.2.1), e.2.2)

/-- What one statement does: the call moves on, the tables may change, and a `watchlist_items`
statement leaves a record. -/
structure StatementEffect (P : Type u) where
  call : WatchlistCall P
  db : WatchlistDb
  record : Option (SetOp × SetResult)

section Statements

variable {P : Type u} (coll : Collation) (db : WatchlistDb) (user : UserId)

/-- The next statement of `default_watchlist_id`. -/
def runResolve (resolving : ResolvePc → WatchlistCall P) (resolved : WatchlistId → WatchlistCall P)
    (failed : WatchlistCall P) : ResolvePc → StatementEffect P
  | .select =>
    match db.auth.selectDefaultWatchlist user with
    | some id => ⟨resolved id, db, none⟩
    | none => ⟨resolving .upsert, db, none⟩
  | .upsert =>
    match db.upsertDefaultWatchlist user with
    | some (id, db') => ⟨resolved id, db', none⟩
    | none => ⟨failed, db, none⟩

/-- The next statement of a `get_watchlist`; its price read finds `snapshot`. -/
def runGet (snapshot : PriceSnapshot P) (asOf : String) : GetPc P → Option (StatementEffect P)
  | .resolve pc => some (runResolve db user (fun pc => .get (.resolve pc))
      (fun id => .get (.loadMembers id)) (.get .failed) pc)
  | .loadMembers id =>
    let members := db.members coll id
    some ⟨.get (.loadPrices id members), db, some (.read, .rows members)⟩
  | .loadPrices id members =>
    some ⟨.get (.returned id (Watchlist.build members snapshot asOf)), db, none⟩
  | .returned _ _ => none
  | .failed => none

/-- The next statement of an `add_item`.  What the insert returns is dropped, and so is the row of the
lookup: that it is there is all `add_item` asks. -/
def runAdd (security : SecurityId) : AddPc → Option (StatementEffect P)
  | .lookup =>
    if isBigint security then
      match db.catalog.get security with
      | none => some ⟨.add security .securityNotFound, db, none⟩
      | some _ => some ⟨.add security (.resolve .select), db, none⟩
    else some ⟨.add security .failed, db, none⟩
  | .resolve pc => some (runResolve db user (fun pc => .add security (.resolve pc))
      (fun id => .add security (.add id)) (.add security .failed) pc)
  | .add id =>
    if isBigint security then
      match db.add id security with
      | none => some ⟨.add security .failed, db, none⟩
      | some (_, db') =>
        some ⟨.add security (.returned id), db', some (.insert security, .inserted)⟩
    else some ⟨.add security .failed, db, none⟩
  | .returned _ => none
  | .securityNotFound => none
  | .failed => none

/-- The next statement of a `remove_item`. -/
def runRemove (security : SecurityId) : RemovePc → Option (StatementEffect P)
  | .resolve pc => some (runResolve db user (fun pc => .remove security (.resolve pc))
      (fun id => .remove security (.remove id)) (.remove security .failed) pc)
  | .remove id =>
    if isBigint security then
      let (hit, db') := db.remove id security
      some ⟨.remove security (if hit then .returned id else .notOnWatchlist id), db',
        some (.delete security, .deleted hit)⟩
    else some ⟨.remove security .failed, db, none⟩
  | .returned _ => none
  | .notOnWatchlist _ => none
  | .failed => none

/-- The next statement of a call. -/
def runWatchlistCall (snapshot : PriceSnapshot P) (asOf : String) :
    WatchlistCall P → Option (StatementEffect P)
  | .get pc => runGet coll db user snapshot asOf pc
  | .add security pc => runAdd db user security pc
  | .remove security pc => runRemove db user security pc

end Statements

/-- The tables, the calls and the history. -/
structure WatchlistWorld (P : Type u) where
  db : WatchlistDb
  calls : Dict WatchlistCallId (WatchlistCall P)
  log : List (WatchlistCallId × SetOp × SetResult)

/-- What can happen next: a call arrives, or runs a statement.  `snapshot` and `asOf` are what a
price read finds and the clock shows. -/
inductive WatchlistEvent (P : Type u)
  | spawn (c : WatchlistCallId) (call : WatchlistCall P)
  | run (c : WatchlistCallId) (snapshot : PriceSnapshot P) (asOf : String)

/-- The call an event is of. -/
def WatchlistEvent.subject {P : Type u} : WatchlistEvent P → WatchlistCallId
  | .spawn c _ => c
  | .run c _ _ => c

namespace WatchlistWorld

variable {P : Type u}

/-- The world after a statement of a call. -/
def after (w : WatchlistWorld P) (c : WatchlistCallId) (e : StatementEffect P) :
    WatchlistWorld P where
  db := e.db
  calls := w.calls.set c e.call
  log := w.log ++ e.record.toList.map fun r => (c, r)

/-- One event.  A call comes from a user there is. -/
def step (coll : Collation) (w : WatchlistWorld P) : WatchlistEvent P → Option (WatchlistWorld P)
  | .spawn c call =>
    if call.isStart && (w.db.auth.users.get? c.user).isSome && !w.calls.contains c then
      some { w with calls := w.calls.set c call }
    else none
  | .run c snapshot asOf =>
    ((w.calls.get? c).bind (runWatchlistCall coll w.db c.user snapshot asOf)).map (w.after c)

/-- Runs of calls on any tables. -/
def system (coll : Collation) : System (WatchlistWorld P) (WatchlistEvent P) where
  init w := w.calls = .empty ∧ w.log = [] ∧ w.db.catalog.IdsFit
  step := step coll

/-- The id that a statement passes on has at most 64 bits. -/
def Encodable (w : WatchlistWorld P) : WatchlistEvent P → Prop
  | .spawn _ _ => True
  | .run c _ _ => ∀ call ∈ w.calls.get? c, call.argument.all isBigint = true

instance (w : WatchlistWorld P) (ev : WatchlistEvent P) : Decidable (Encodable w ev) :=
  match ev with
  | .spawn _ _ => inferInstanceAs (Decidable True)
  | .run c _ _ =>
    inferInstanceAs (Decidable (∀ call ∈ w.calls.get? c, call.argument.all isBigint = true))

/-- How a call ended, if it is over. -/
def outcome (w : WatchlistWorld P) (c : WatchlistCallId) : Option (WatchlistOutcome P) :=
  (w.calls.get? c).bind WatchlistCall.outcome

end WatchlistWorld

end TickerWatch
