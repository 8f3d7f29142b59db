import TickerWatch.Watchlist.Concurrency

/-!
# Errors a watchlist call does not declare

The router answers `SecurityNotFoundError` and `NotOnWatchlistError` with 404; whatever else a call
raises is a server error.  The statements are those of the concurrent calls, in a world in which an
access token outlives its user, other statements change the tables in between, and asyncpg refuses
an argument that is no `BIGINT`.

Three statements can raise: the upsert of `default_watchlist_id`, when the user is gone; the insert
of `add_item`, when the watchlist has gone since it was resolved; and the first statement of
`add_item` and the last of `remove_item`, when the id in the request has more than 64 bits.  Nothing
else does (`declared_iff`).  An `add_item` looks its security up first, so that one which is not
there is reported even if the user is gone.
-/

namespace TickerWatch

universe u

/-- `DELETE FROM users WHERE id = $1`: the watchlists of the user go, and the items on them. -/
def WatchlistDb.deleteUser (db : WatchlistDb) (user : UserId) : WatchlistDb where
  auth := db.auth.deleteUser user
  catalog := db.catalog
  items := db.items.filter fun e _ => ((db.auth.deleteUser user).watchlists.get? e.1).isSome
  item_watchlist e he := by
    obtain ⟨_, hget⟩ := Dict.mem_keys_iff.1 he
    rw [Dict.get?_filter] at hget
    exact (Option.filter_eq_some_iff.1 hget).2
  item_security e he := by
    obtain ⟨_, hget⟩ := Dict.mem_keys_iff.1 he
    rw [Dict.get?_filter] at hget
    exact db.item_security e (Dict.mem_keys_iff.2 ⟨_, (Option.filter_eq_some_iff.1 hget).1⟩)

/-- What another statement does to the tables.  None deletes a security. -/
structure OtherStatement where
  run : WatchlistDb → WatchlistDb
  keeps : ∀ db id, (db.catalog.get id).isSome = true → ((run db).catalog.get id).isSome = true

/-- A user is deleted. -/
def OtherStatement.deleteUser (user : UserId) : OtherStatement where
  run db := db.deleteUser user
  keeps _ _ h := h

namespace WatchlistCall

variable {P : Type u}

/-- At most how many statements are to come. -/
def remaining : WatchlistCall P → ℕ
  | .get (.resolve .select) => 4
  | .get (.resolve .upsert) => 3
  | .get (.loadMembers _) => 2
  | .get (.loadPrices _ _) => 1
  | .add _ .lookup => 4
  | .add _ (.resolve .select) => 3
  | .add _ (.resolve .upsert) => 2
  | .add _ (.add _) => 1
  | .remove _ (.resolve .select) => 3
  | .remove _ (.resolve .upsert) => 2
  | .remove _ (.remove _) => 1
  | _ => 0

/-- The call is over, completed or with a declared error, or it has a next statement and fewer to
come after it. -/
def Proceeds (coll : Collation) (db : WatchlistDb) (user : UserId) (call : WatchlistCall P) :
    Prop :=
  (∃ outcome, call.outcome = some outcome ∧ outcome ≠ .error) ∨
  call.outcome = none ∧ ∀ snapshot asOf, ∃ e,
    runWatchlistCall coll db user snapshot asOf call = some e ∧ e.call.remaining < call.remaining

/-- What the next statement of a call needs: the user whose watchlist it creates, the watchlist it
inserts into, an id of 64 bits. -/
def safe (db : WatchlistDb) (user : UserId) : WatchlistCall P → Bool
  | .get (.resolve .upsert) => (db.auth.users.get? user).isSome
  | .add security .lookup => isBigint security
  | .add _ (.resolve .upsert) => (db.auth.users.get? user).isSome
  | .add _ (.add id) => (db.auth.watchlists.get? id).isSome
  | .remove _ (.resolve .upsert) => (db.auth.users.get? user).isSome
  | .remove security (.remove _) => isBigint security
  | _ => true

/-- An `add_item` past its lookup is for a security there is. -/
def Checked (catalog : Catalog) : WatchlistCall P → Prop
  | .add security (.resolve _) => isBigint security = true ∧ (catalog.get security).isSome = true
  | .add security (.add _) => isBigint security = true ∧ (catalog.get security).isSome = true
  | _ => True

end WatchlistCall

/-! ## One statement -/

section Statement

variable {P : Type u} {coll : Collation} {db : WatchlistDb} {user : UserId}
  {snapshot : PriceSnapshot P} {asOf : String} {call : WatchlistCall P} {e : StatementEffect P}
  {security : SecurityId}

/-- A watchlist is not created for a user who is gone. -/
lemma WatchlistDb.upsertDefaultWatchlist_eq_none
    (h : ¬ (db.auth.users.get? user).isSome = true) : db.upsertDefaultWatchlist user = none := by
  cases hupsert : db.upsertDefaultWatchlist user with
  | none => rfl
  | some r =>
    obtain ⟨id, db'⟩ := r
    obtain ⟨hauth, -⟩ := upsertDefaultWatchlist_eq_some hupsert
    rw [AuthDb.upsertDefaultWatchlist, dif_neg h] at hauth
    exact absurd hauth (by simp)

/-- What a statement does that is passed arguments it can encode or not: it raises exactly if it is
not safe, and otherwise brings its call nearer to its end. -/
structure StatementRan (db : WatchlistDb) (user : UserId) (call : WatchlistCall P)
    (e : StatementEffect P) : Prop where
  catalog : e.db.catalog = db.catalog
  raised : e.call.isFailed = false ↔ call.safe db user = true
  checked : e.call.Checked db.catalog
  nearer : e.call.remaining < call.remaining

/-- `default_watchlist_id` inside a call goes on to the upsert, resolves, or raises. -/
lemma runResolve_cases (resolving : ResolvePc → WatchlistCall P)
    (resolved : WatchlistId → WatchlistCall P) (failed : WatchlistCall P) (pc : ResolvePc)
    (h : runResolve db user resolving resolved failed pc = e) :
    e.db.catalog = db.catalog ∧
    ((pc = .select ∧ e.call = resolving .upsert) ∨
      ((pc = .upsert → (db.auth.users.get? user).isSome = true) ∧ ∃ id, e.call = resolved id) ∨
      pc = .upsert ∧ (db.auth.users.get? user).isSome = false ∧ e.call = failed) := by
  subst h
  cases pc with
  | select =>
    rw [runResolve]
    split
    · exact ⟨rfl, Or.inr (Or.inl ⟨by simp, _, rfl⟩)⟩
    · exact ⟨rfl, Or.inl ⟨rfl, rfl⟩⟩
  | upsert =>
    cases huser : (db.auth.users.get? user).isSome with
    | true =>
      obtain ⟨id, db', hupsert⟩ := WatchlistDb.exists_upsertDefaultWatchlist huser
      rw [runResolve, hupsert]
      exact ⟨(WatchlistDb.upsertDefaultWatchlist_eq_some hupsert).2.1,
        Or.inr (Or.inl ⟨fun _ => rfl, id, rfl⟩)⟩
    | false =>
      rw [runResolve, WatchlistDb.upsertDefaultWatchlist_eq_none (by simp [huser])]
      exact ⟨rfl, Or.inr (Or.inr ⟨rfl, rfl, rfl⟩)⟩

lemma StatementRan.of_resolve {resolving : ResolvePc → WatchlistCall P}
    {resolved : WatchlistId → WatchlistCall P} {failed : WatchlistCall P} {pc : ResolvePc}
    (h : runResolve db user resolving resolved failed pc = e)
    (hsafe : (resolving pc).safe db user = true ↔
      (pc = .upsert → (db.auth.users.get? user).isSome = true))
    (hresolving : (resolving .upsert).isFailed = false ∧ (resolving .upsert).Checked db.catalog ∧
      (pc = .select → (resolving .upsert).remaining < (resolving pc).remaining))
    (hresolved : ∀ id, (resolved id).isFailed = false ∧ (resolved id).Checked db.catalog ∧
      (resolved id).remaining < (resolving pc).remaining)
    (hfailed : failed.isFailed = true ∧ failed.Checked db.catalog ∧
      failed.remaining < (resolving pc).remaining) :
    StatementRan db user (resolving pc) e := by
  obtain ⟨hcatalog, ⟨hpc, hcall⟩ | ⟨huser, id, hcall⟩ | ⟨hpc, hgone, hcall⟩⟩ :=
    runResolve_cases resolving resolved failed pc h
  · obtain ⟨hok, hchecked, hnearer⟩ := hresolving
    rw [← hcall] at hok hchecked hnearer
    refine ⟨hcatalog, iff_of_true hok (hsafe.2 fun hupsert => ?_), hchecked, hnearer hpc⟩
    exact absurd (hpc.symm.trans hupsert) (by simp)
  · obtain ⟨hok, hchecked, hnearer⟩ := hresolved id
    rw [← hcall] at hok hchecked hnearer
    exact ⟨hcatalog, iff_of_true hok (hsafe.2 huser), hchecked, hnearer⟩
  · obtain ⟨hraised, hchecked, hnearer⟩ := hfailed
    rw [← hcall] at hraised hchecked hnearer
    refine ⟨hcatalog, iff_of_false (by simp [hraised]) fun hsafe' => ?_, hchecked, hnearer⟩
    rw [hsafe.1 hsafe' hpc] at hgone
    exact absurd hgone (by simp)

lemma runGet_ran {pc : GetPc P} (h : runGet coll db user snapshot asOf pc = some e) :
    StatementRan db user (.get pc) e := by
  cases pc with
  | resolve pc =>
    refine .of_resolve (Option.some.inj h) ?_ ⟨rfl, trivial, ?_⟩ (fun _ => ⟨rfl, trivial, ?_⟩)
      ⟨rfl, trivial, ?_⟩
    · cases pc <;> simp [WatchlistCall.safe]
    · rintro rfl
      exact Nat.lt_succ_self _
    · cases pc <;> simp [WatchlistCall.remaining]
    · cases pc <;> simp [WatchlistCall.remaining]
  | loadMembers id =>
    obtain rfl := Option.some.inj h
    exact ⟨rfl, iff_of_true rfl rfl, trivial, Nat.one_lt_two⟩
  | loadPrices id members =>
    obtain rfl := Option.some.inj h
    exact ⟨rfl, iff_of_true rfl rfl, trivial, Nat.one_pos⟩
  | returned id response => exact absurd h (by simp [runGet])
  | failed => exact absurd h (by simp [runGet])

lemma runAdd_ran {pc : AddPc}
    (hchecked : (WatchlistCall.add security pc : WatchlistCall P).Checked db.catalog)
    (h : runAdd db user security pc = some e) : StatementRan db user (.add security pc) e := by
  cases pc with
  | lookup =>
    cases hbigint : isBigint security with
    | false =>
      rw [runAdd, if_neg (by simp [hbigint])] at h
      obtain rfl := Option.some.inj h
      exact ⟨rfl, iff_of_false (by simp [WatchlistCall.isFailed])
        (by simp [WatchlistCall.safe, hbigint]), trivial, Nat.succ_pos _⟩
    | true =>
      rw [runAdd, if_pos hbigint] at h
      split at h
      · obtain rfl := Option.some.inj h
        exact ⟨rfl, iff_of_true rfl hbigint, trivial, Nat.succ_pos _⟩
      · rename_i row hrow
        obtain rfl := Option.some.inj h
        exact ⟨rfl, iff_of_true rfl hbigint, ⟨hbigint, by rw [hrow]; rfl⟩, Nat.lt_succ_self _⟩
  -- the three calls resolve alike
  | resolve pc =>
    refine .of_resolve (Option.some.inj h) ?_ ⟨rfl, hchecked, ?_⟩ (fun _ => ⟨rfl, hchecked, ?_⟩)
      ⟨rfl, trivial, ?_⟩
    · cases pc <;> simp [WatchlistCall.safe]
    · rintro rfl
      exact Nat.lt_succ_self _
    · cases pc <;> simp [WatchlistCall.remaining]
    · cases pc <;> simp [WatchlistCall.remaining]
  | add id =>
    cases hrow : (db.auth.watchlists.get? id).isSome with
    | true =>
      obtain ⟨b, db', hadd⟩ := WatchlistDb.exists_add hrow hchecked.2
      rw [runAdd, if_pos hchecked.1, hadd] at h
      obtain rfl := Option.some.inj h
      exact ⟨(WatchlistDb.add_eq_some hadd).2.1, iff_of_true rfl hrow, trivial, Nat.one_pos⟩
    | false =>
      -- the user was deleted, and the watchlist with it: the insert breaks its reference
      have hadd : db.add id security = none := dif_neg (by simp [hrow])
      rw [runAdd, if_pos hchecked.1, hadd] at h
      obtain rfl := Option.some.inj h
      refine ⟨rfl, iff_of_false (by simp [WatchlistCall.isFailed]) ?_, trivial, Nat.one_pos⟩
      simp [WatchlistCall.safe, hrow]
  | returned id => exact absurd h (by simp [runAdd])
  | securityNotFound => exact absurd h (by simp [runAdd])
  | failed => exact absurd h (by simp [runAdd])

lemma runRemove_ran {pc : RemovePc} (h : runRemove db user security pc = some e) :
    StatementRan db user (.remove security pc) e := by
  cases pc with
  | resolve pc =>
    refine .of_resolve (Option.some.inj h) ?_ ⟨rfl, trivial, ?_⟩ (fun _ => ⟨rfl, trivial, ?_⟩)
      ⟨rfl, trivial, ?_⟩
    · cases pc <;> simp [WatchlistCall.safe]
    · rintro rfl
      exact Nat.lt_succ_self _
    · cases pc <;> simp [WatchlistCall.remaining]
    · cases pc <;> simp [WatchlistCall.remaining]
  | remove id =>
    cases hbigint : isBigint security with
    | false =>
      rw [runRemove, if_neg (by simp [hbigint])] at h
      obtain rfl := Option.some.inj h
      exact ⟨rfl, iff_of_false (by simp [WatchlistCall.isFailed])
        (by simp [WatchlistCall.safe, hbigint]), trivial, Nat.succ_pos _⟩
    | true =>
      rw [runRemove, if_pos hbigint] at h
      obtain rfl := Option.some.inj h
      obtain ⟨-, hok, -⟩ := WatchlistCall.remove_ended (P := P) security id _ rfl
      refine ⟨rfl, iff_of_true hok hbigint, trivial, ?_⟩
      show WatchlistCall.remaining (.remove security (if _ then _ else _)) < 1
      split
      · exact Nat.one_pos
      · exact Nat.one_pos
  | returned id => exact absurd h (by simp [runRemove])
  | notOnWatchlist id => exact absurd h (by simp [runRemove])
  | failed => exact absurd h (by simp [runRemove])

/-- **What one statement does.**  The call raises exactly if the statement is not safe. -/
lemma runWatchlistCall_ran (hchecked : call.Checked db.catalog)
    (h : runWatchlistCall coll db user snapshot asOf call = some e) :
    StatementRan db user call e := by
  cases call with
  | get pc => exact runGet_ran h
  | add security pc => exact runAdd_ran hchecked h
  | remove security pc => exact runRemove_ran h

/-- A call that is not over has a next statement. -/
lemma exists_runWatchlistCall (coll : Collation) (db : WatchlistDb) (user : UserId)
    (snapshot : PriceSnapshot P) (asOf : String) (h : call.outcome = none) :
    ∃ e, runWatchlistCall coll db user snapshot asOf call = some e := by
  cases call with
  | get pc =>
    cases pc with
    | returned id response => exact absurd h (by simp [WatchlistCall.outcome])
    | failed => exact absurd h (by simp [WatchlistCall.outcome])
    | _ => exact ⟨_, rfl⟩
  | add security pc =>
    cases pc with
    | lookup =>
      simp only [runWatchlistCall, runAdd]
      split
      · split <;> exact ⟨_, rfl⟩
      · exact ⟨_, rfl⟩
    | resolve pc => exact ⟨_, rfl⟩
    | add id =>
      simp only [runWatchlistCall, runAdd]
      split
      · split <;> exact ⟨_, rfl⟩
      · exact ⟨_, rfl⟩
    | _ => exact absurd h (by simp [WatchlistCall.outcome])
  | remove security pc =>
    cases pc with
    | resolve pc => exact ⟨_, rfl⟩
    | remove id =>
      simp only [runWatchlistCall, runRemove]
      split <;> exact ⟨_, rfl⟩
    | _ => exact absurd h (by simp [WatchlistCall.outcome])

lemma outcome_of_failed (h : call.isFailed = true) : call.outcome = some .error := by
  unfold WatchlistCall.isFailed at h
  split at h
  · rfl
  · rfl
  · rfl
  · exact absurd h (by simp)

lemma safe_of_over {outcome : WatchlistOutcome P} (h : call.outcome = some outcome) :
    call.safe db user = true := by
  unfold WatchlistCall.outcome at h
  split at h
  all_goals first | rfl | exact absurd h (by simp)

/-- A call proceeds unless it has raised what the database raised. -/
lemma proceeds_iff (hchecked : call.Checked db.catalog) :
    call.Proceeds coll db user ↔ call.isFailed = false := by
  constructor
  · intro hproceeds
    by_contra hraised
    have herror := outcome_of_failed (Bool.eq_true_of_not_eq_false hraised)
    rcases hproceeds with ⟨outcome, houtcome, hne⟩ | ⟨hnone, -⟩
    · exact hne (Option.some.inj (houtcome.symm.trans herror))
    · exact absurd (hnone.symm.trans herror) (by simp)
  · intro hraised
    have hne := WatchlistCall.outcome_ne_error hraised
    cases houtcome : call.outcome with
    | some outcome => exact Or.inl ⟨outcome, houtcome, fun herror => hne (herror ▸ houtcome)⟩
    | none =>
      refine Or.inr ⟨houtcome, fun snapshot asOf => ?_⟩
      obtain ⟨e, he⟩ := exists_runWatchlistCall coll db user snapshot asOf houtcome
      exact ⟨e, he, (runWatchlistCall_ran hchecked he).nearer⟩

lemma checked_mono {catalog : Catalog} (hchecked : call.Checked db.catalog)
    (hkeeps : ∀ id, (db.catalog.get id).isSome = true → (catalog.get id).isSome = true) :
    call.Checked catalog := by
  cases call with
  | get pc => trivial
  | remove security pc => trivial
  | add security pc =>
    cases pc with
    | resolve pc => exact hchecked.imp_right (hkeeps security)
    | add id => exact hchecked.imp_right (hkeeps security)
    | _ => trivial

lemma checked_of_start (catalog : Catalog) (h : call.isStart = true) :
    call.isFailed = false ∧ call.Checked catalog := by
  obtain rfl | ⟨security, rfl⟩ | ⟨security, rfl⟩ := WatchlistCall.start_cases h
  · exact ⟨rfl, trivial⟩
  · exact ⟨rfl, trivial⟩
  · exact ⟨rfl, trivial⟩

end Statement

/-! ## Runs -/

/-- What can happen next: a call arrives or runs a statement, or another statement is executed. -/
inductive OpenEvent (P : Type u)
  | spawn (c : WatchlistCallId) (call : WatchlistCall P)
  | run (c : WatchlistCallId) (snapshot : PriceSnapshot P) (asOf : String)
  | other (statement : OtherStatement)

namespace WatchlistWorld

variable {P : Type u} {coll : Collation} {w w' : WatchlistWorld P} {e : OpenEvent P}
  {c : WatchlistCallId} {call : WatchlistCall P}

/-- One event.  A call comes with the id of a user there was, who may be gone. -/
def openStep (coll : Collation) (w : WatchlistWorld P) : OpenEvent P → Option (WatchlistWorld P)
  | .spawn c call =>
    if call.isStart && isBigint c.user && !w.calls.contains c then
      some { w with calls := w.calls.set c call }
    else none
  | .run c snapshot asOf =>
    ((w.calls.get? c).bind (runWatchlistCall coll w.db c.user snapshot asOf)).map
      (w.after c)
  | .other statement => some { w with db := statement.run w.db }

/-- Runs of calls on any tables, among other statements. -/
def openSystem (coll : Collation) : System (WatchlistWorld P) (OpenEvent P) where
  init w := w.calls = .empty ∧ w.log = []
  step := openStep coll

/-- Every call is over as it declares, or on its way there. -/
def Declared (coll : Collation) (w : WatchlistWorld P) : Prop :=
  ∀ c call, w.calls.get? c = some call → call.Proceeds coll w.db c.user

/-- The statement that is executed finds what it needs. -/
def safe (w : WatchlistWorld P) : OpenEvent P → Bool
  | .run c _ _ => (w.calls.get? c).all fun call => call.safe w.db c.user
  | _ => true

/-- No call has raised what the database raised, and every `add_item` past its lookup is for a
security there is. -/
def Sound (w : WatchlistWorld P) : Prop :=
  ∀ c call, w.calls.get? c = some call → call.isFailed = false ∧ call.Checked w.db.catalog

lemma declared_of_sound (hw : w.Sound) : w.Declared coll := fun c call hcall =>
  (proceeds_iff (hw c call hcall).2).2 (hw c call hcall).1

/-- After a safe event all is sound, and after one that is not a call has raised. -/
lemma openStep_sound (hw : w.Sound) (h : w.openStep coll e = some w') :
    (w.safe e = true → w'.Sound) ∧ (w'.Declared coll → w.safe e = true) := by
  cases e with
  | spawn c call =>
    obtain ⟨hstart, h⟩ := Option.ite_none_right_eq_some.1 h
    obtain rfl := Option.some.inj h
    rw [Bool.and_eq_true, Bool.and_eq_true] at hstart
    refine ⟨fun _ c' call' hcall => ?_, fun _ => rfl⟩
    rw [Dict.get?_set] at hcall
    split at hcall
    · obtain rfl := Option.some.inj hcall
      exact checked_of_start _ hstart.1.1
    · exact hw c' call' hcall
  | run c snapshot asOf =>
    obtain ⟨effect, heffect, rfl⟩ := Option.map_eq_some_iff.1 h
    obtain ⟨call, hcall, hrun⟩ := Option.bind_eq_some_iff.1 heffect
    -- a statement raises exactly if it is not safe, and then its call has an error that is not
    -- declared
    have hran := runWatchlistCall_ran (hw c call hcall).2 hrun
    have hsafe : w.safe (.run c snapshot asOf) = call.safe w.db c.user := by
      rw [safe, hcall]
      rfl
    have hcatalog : (w.after c effect).db.catalog = w.db.catalog := hran.catalog
    have hself : (w.after c effect).calls.get? c = some effect.call := Dict.get?_set_self _ _ _
    have hchecked : effect.call.Checked (w.after c effect).db.catalog := hcatalog ▸ hran.checked
    rw [hsafe, ← hran.raised]
    refine ⟨fun hok c' call' hcall' => ?_, fun hdeclared => ?_⟩
    · by_cases hne : c' = c
      · subst hne
        obtain rfl := Option.some.inj (hself.symm.trans hcall')
        exact ⟨hok, hchecked⟩
      · rw [hcatalog]
        exact hw c' call' ((Dict.get?_set_ne _ _ hne).symm.trans hcall')
    · exact (proceeds_iff hchecked).1 (hdeclared c _ hself)
  -- other statements may delete what a call relies on, but raise in no call themselves
  | other statement =>
    obtain rfl := Option.some.inj h
    refine ⟨fun _ c call hcall => ?_, fun _ => rfl⟩
    exact (hw c call hcall).imp_right fun hchecked => checked_mono hchecked (statement.keeps w.db)

/-- An event that cannot happen needs nothing. -/
lemma safe_of_disabled (h : w.openStep coll e = none) : w.safe e = true := by
  cases e with
  | spawn c call => rfl
  | other statement => rfl
  | run c snapshot asOf =>
    cases hcall : w.calls.get? c with
    | none =>
      rw [safe, hcall]
      rfl
    | some call =>
      rw [openStep, hcall, Option.map_eq_none_iff, Option.bind_some] at h
      rw [safe, hcall]
      cases houtcome : call.outcome with
      | none =>
        obtain ⟨effect, heffect⟩ := exists_runWatchlistCall coll w.db c.user snapshot asOf houtcome
        exact absurd (h.symm.trans heffect) (by simp)
      | some outcome => exact safe_of_over houtcome

/-- **The errors that escape.**  Over any run of watchlist calls, on any tables and among any other
statements, every call completes or raises an error it declares exactly if every statement finds
what it needs: the upsert of `default_watchlist_id` its user, the insert of `add_item` its
watchlist, and the first statement of `add_item` and the last of `remove_item` an id of 64 bits. -/
theorem declared_iff (hinit : (openSystem coll).init w) (es : List (OpenEvent P)) :
    (openSystem coll).Along
        (fun w e => ∀ w', (openSystem coll).step w e = some w' → w'.Declared coll) w es ↔
      (openSystem coll).Along (fun w e => w.safe e = true) w es := by
  have hsound : w.Sound := fun c call hcall => by
    rw [hinit.1] at hcall
    exact absurd hcall (by simp)
  refine System.along_iff (I := Sound) (fun w e w' hw hsafe h => (openStep_sound hw h).1 hsafe)
    (fun w e hw => ⟨fun hdeclared => ?_, fun hsafe w' h => ?_⟩) es hsound
  · cases h : w.openStep coll e with
    | none => exact safe_of_disabled h
    | some w' => exact (openStep_sound hw h).2 (hdeclared w' h)
  · exact declared_of_sound ((openStep_sound hw h).1 hsafe)

/-! ## A token that outlives its user -/

/-- One user, and one security. -/
def oneUser : WatchlistDb where
  auth := (AuthDb.empty.create ⟨"ada", "", none, "", ""⟩).elim .empty Prod.snd
  catalog := Catalog.empty.upsert "AAPL" "Apple"
  items := .empty
  item_watchlist := by simp
  item_security := by simp

/-- The world before the first call. -/
def quiet (db : WatchlistDb) : WatchlistWorld ℕ := ⟨db, .empty, []⟩

/-- A statement of the first call of user 1. -/
def runFirst : OpenEvent ℕ := .run ⟨1, 0⟩ ⟨.empty, 0, 0, "postgres"⟩ ""

/-- An `add_item` of user 1. -/
def addRun : List (OpenEvent ℕ) := [.spawn ⟨1, 0⟩ (.add 1 .lookup), runFirst, runFirst, runFirst]

/-- A `get_watchlist` with the token of user 1, who is deleted. -/
def deletedRun : List (OpenEvent ℕ) :=
  [.other (.deleteUser 1), .spawn ⟨1, 0⟩ (.get (.resolve .select)), runFirst, runFirst]

/-- With its user there, the call completes. -/
theorem add_declared : (openSystem .codePoint).Along
    (fun w e => ∀ w', (openSystem .codePoint).step w e = some w' → w'.Declared .codePoint)
    (quiet oneUser) addRun := by
  refine (declared_iff ⟨rfl, rfl⟩ addRun).2 ?_
  have hexec : ((openSystem .codePoint).execWhere (fun w e => w.safe e = true) (quiet oneUser)
      addRun).isSome = true := by
    decide +kernel
  obtain ⟨w, hw⟩ := Option.isSome_iff_exists.1 hexec
  exact System.along_of_execWhere hw

/-- **The database's error escapes** to a user who has been deleted. -/
theorem deleted_user_raises : ¬ ∀ w : WatchlistWorld ℕ,
    (openSystem .codePoint).Reachable w → w.Declared .codePoint := by
  intro h
  have hexec : (((openSystem .codePoint).exec (quiet oneUser) deletedRun).bind fun w =>
      w.outcome ⟨1, 0⟩) = some .error := by
    decide +kernel
  obtain ⟨w, hw, houtcome⟩ := Option.bind_eq_some_iff.1 hexec
  obtain ⟨call, hcall, herror⟩ := Option.bind_eq_some_iff.1 houtcome
  have hdeclared := h w ⟨_, ⟨rfl, rfl⟩, System.run_of_exec hw⟩ _ call hcall
  rcases hdeclared with ⟨outcome, hout, hne⟩ | ⟨hnone, -⟩
  · exact hne (Option.some.inj (hout.symm.trans herror))
  · exact absurd (hnone.symm.trans herror) (by simp)

end WatchlistWorld
end TickerWatch
