import Mathlib.Data.Set.Insert
import TickerWatch.Watchlist.Concurrency

/-!
# The watchlist store is a map from users to sets

The abstract store is one set of securities a user (`securitySet`, one a key).  The tables hold such
a map (`WatchlistDb.sets`): a user's set are the items under their default watchlist, and a user
without that row has the empty set.

What one statement does is said once (`statement_spec`): it leaves every other user alone, and unless
it is a `watchlist_items` statement it leaves the set of its own user alone too.  A
`watchlist_items` statement is the operation it records, with a result the set allows.
-/

namespace TickerWatch

universe u

/-! ## The abstract store -/

/-- `members` lists a set of securities: each once, as the catalog has it, by ticker. -/
structure Enumerates (coll : Collation) (catalog : Catalog) (s : Set SecurityId)
    (members : List MemberRow) : Prop where
  nodup : (members.map MemberRow.id).Nodup
  mem_iff : ∀ security, security ∈ members.map MemberRow.id ↔ security ∈ s
  rows : ∀ row ∈ members, catalog.memberRow row.id = some row
  ordered : members.Pairwise coll.Before

/-- One user's watchlist. -/
def securitySet (coll : Collation) (catalog : Catalog) :
    SeqObject (Set SecurityId) SetOp SetResult where
  apply s
    | .read => s
    | .insert security => insert security s
    | .delete security => s \ {security}
  Allows s
    | .read, .rows members => Enumerates coll catalog s members
    | .insert _, .inserted => True
    | .delete security, .deleted hit => hit = true ↔ security ∈ s
    | _, _ => False

namespace WatchlistDb

/-- The securities on a user's default watchlist, in the order of the table. -/
def userMembers (db : WatchlistDb) (user : UserId) : List SecurityId :=
  (db.auth.selectDefaultWatchlist user).elim [] db.memberIds

/-- The map the tables hold. -/
def sets (db : WatchlistDb) (user : UserId) : Set SecurityId :=
  {security | security ∈ db.userMembers user}

variable {db db' : WatchlistDb} {coll : Collation} {user user' : UserId} {id id' : WatchlistId}
  {security : SecurityId}

lemma userMembers_of_select (h : db.auth.selectDefaultWatchlist user = some id) :
    db.userMembers user = db.memberIds id := by rw [userMembers, h, Option.elim_some]

lemma sets_of_select (h : db.auth.selectDefaultWatchlist user = some id) :
    db.sets user = {security | security ∈ db.memberIds id} := by
  rw [sets, userMembers_of_select h]

lemma ne_of_select (hne : user' ≠ user) (h : db.auth.selectDefaultWatchlist user = some id)
    (h' : db.auth.selectDefaultWatchlist user' = some id') : id' ≠ id := by
  rintro rfl
  have hrow := AuthDb.selectDefaultWatchlist_eq_some_iff.1 h
  have hrow' := AuthDb.selectDefaultWatchlist_eq_some_iff.1 h'
  exact hne (congrArg WatchlistRow.userId (Option.some.inj (hrow'.symm.trans hrow)))

/-- Items that change under one user's default watchlist are not another user's. -/
lemma userMembers_of_ne (hne : user' ≠ user) (h : db.auth.selectDefaultWatchlist user = some id)
    (hauth : db'.auth = db.auth) (hids : ∀ id' ≠ id, db'.memberIds id' = db.memberIds id') :
    db'.userMembers user' = db.userMembers user' := by
  rw [userMembers, userMembers, hauth]
  cases hselect : db.auth.selectDefaultWatchlist user' with
  | none => rfl
  | some id' => exact hids id' (ne_of_select hne h hselect)

lemma memberIds_eq_nil (h : db.auth.watchlists.get? id = none) : db.memberIds id = [] := by
  refine List.eq_nil_iff_forall_not_mem.2 fun security hmem => ?_
  have hsome := db.item_watchlist _ (mem_memberIds.1 hmem)
  rw [h] at hsome
  exact absurd hsome (by simp)

/-- The row `default_watchlist_id` creates changes nobody's securities. -/
lemma userMembers_upsert (h : db.upsertDefaultWatchlist user = some (id, db')) (user' : UserId) :
    db'.userMembers user' = db.userMembers user' := by
  obtain ⟨hauth, -, hitems⟩ := upsertDefaultWatchlist_eq_some h
  have hids : db'.memberIds = db.memberIds := funext (memberIds_congr hitems)
  have hself := select_upsert_self h
  by_cases hne : user' = user
  · subst hne
    rw [userMembers_of_select hself, hids]
    cases hselect : db.auth.selectDefaultWatchlist user' with
    | some id' =>
      have hkept := AuthDb.selectDefaultWatchlist_upsert_of_some hauth hselect
      rw [Option.some.inj (hself.symm.trans hkept), userMembers_of_select hselect]
    | none =>
      rw [userMembers, hselect, Option.elim_none]
      apply memberIds_eq_nil
      cases hrow : db.auth.watchlists.get? id with
      | none => rfl
      | some row =>
        have hnew := AuthDb.selectDefaultWatchlist_eq_some_iff.1 hself
        have hold := (AuthDb.get?_of_upsertDefaultWatchlist hauth id row).2 (Or.inl hrow)
        obtain rfl := Option.some.inj (hold.symm.trans hnew)
        exact absurd (AuthDb.selectDefaultWatchlist_eq_some_iff.2 hrow) (by simp [hselect])
  · rw [userMembers, userMembers, AuthDb.selectDefaultWatchlist_upsert_ne hauth hne, hids]

lemma enumerates_members (h : db.auth.selectDefaultWatchlist user = some id) :
    Enumerates coll db.catalog (db.sets user) (db.members coll id) := by
  have hperm := map_id_members_perm coll db id
  refine ⟨hperm.nodup_iff.2 (db.nodup_memberIds id), fun security => ?_,
    fun row => memberRow_of_mem_members, pairwise_members coll db id⟩
  rw [sets_of_select h]
  exact hperm.mem_iff

/-- Statements leave the users, the catalog and the default watchlists there are, and they leave
everything of every user but the one they are for. -/
structure LeavesOthers (user : UserId) (db db' : WatchlistDb) : Prop where
  users : db'.auth.users = db.auth.users
  catalog : db'.catalog = db.catalog
  select : ∀ user' id, db.auth.selectDefaultWatchlist user' = some id →
    db'.auth.selectDefaultWatchlist user' = some id
  select_ne : ∀ user' ≠ user,
    db'.auth.selectDefaultWatchlist user' = db.auth.selectDefaultWatchlist user'
  members_ne : ∀ user' ≠ user, db'.userMembers user' = db.userMembers user'

lemma LeavesOthers.refl (user : UserId) (db : WatchlistDb) : LeavesOthers user db db :=
  ⟨rfl, rfl, fun _ _ h => h, fun _ _ => rfl, fun _ _ => rfl⟩

lemma leavesOthers_upsert (h : db.upsertDefaultWatchlist user = some (id, db')) :
    LeavesOthers user db db' := by
  obtain ⟨hauth, hcatalog, -⟩ := upsertDefaultWatchlist_eq_some h
  exact ⟨AuthDb.users_upsertDefaultWatchlist hauth, hcatalog,
    fun _ _ => AuthDb.selectDefaultWatchlist_upsert_of_some hauth,
    fun _ => AuthDb.selectDefaultWatchlist_upsert_ne hauth, fun user' _ => userMembers_upsert h user'⟩

lemma leavesOthers_of_items (hselect : db.auth.selectDefaultWatchlist user = some id)
    (hauth : db'.auth = db.auth) (hcatalog : db'.catalog = db.catalog)
    (hids : ∀ id' ≠ id, db'.memberIds id' = db.memberIds id') : LeavesOthers user db db' := by
  refine ⟨by rw [hauth], hcatalog, fun _ _ h => by rwa [hauth], fun _ _ => by rw [hauth], ?_⟩
  exact fun user' hne => userMembers_of_ne hne hselect hauth hids

lemma leavesOthers_add {b : Bool} (hselect : db.auth.selectDefaultWatchlist user = some id)
    (h : db.add id security = some (b, db')) : LeavesOthers user db db' := by
  obtain ⟨hauth, hcatalog, -, hids⟩ := add_eq_some h
  exact leavesOthers_of_items hselect hauth hcatalog fun id' hne => by
    rw [hids, if_neg fun hid => hne hid.1]

lemma userMembers_add {b : Bool} (hselect : db.auth.selectDefaultWatchlist user = some id)
    (h : db.add id security = some (b, db')) : db'.userMembers user =
      if security ∈ db.userMembers user then db.userMembers user
      else db.userMembers user ++ [security] := by
  obtain ⟨-, -, hb, hids⟩ := add_eq_some h
  have hselect' := (leavesOthers_add hselect h).select user id hselect
  rw [userMembers_of_select hselect, userMembers_of_select hselect', hids]
  split
  · rename_i hnew
    rw [if_neg (hb.1 hnew.2)]
  · rename_i hold
    rw [if_pos]
    by_contra hmem
    exact hold ⟨rfl, hb.2 hmem⟩

lemma leavesOthers_remove (hselect : db.auth.selectDefaultWatchlist user = some id)
    (security : SecurityId) : LeavesOthers user db (db.remove id security).2 :=
  leavesOthers_of_items hselect (db.auth_remove id security) (db.catalog_remove id security)
    fun id' hne => by rw [memberIds_remove, if_neg hne]

lemma userMembers_remove (hselect : db.auth.selectDefaultWatchlist user = some id)
    (security : SecurityId) : (db.remove id security).2.userMembers user =
      (db.userMembers user).filter fun s => decide (s ≠ security) := by
  have hselect' := (leavesOthers_remove hselect security).select user id hselect
  rw [userMembers_of_select hselect', userMembers_of_select hselect, memberIds_remove, if_pos rfl]

lemma remove_fst (hselect : db.auth.selectDefaultWatchlist user = some id) (security : SecurityId) :
    (db.remove id security).1 = decide (security ∈ db.userMembers user) := by
  rw [Bool.eq_iff_iff, decide_eq_true_iff, remove_fst_iff, userMembers_of_select hselect]

end WatchlistDb

/-! ## One statement -/

/-- What holds of a call between its statements: it resolved to the default watchlist of its user, it
looked its security up with the result the catalog has, and the database has raised nothing except
over an id that it could not be passed. -/
structure CallOk {P : Type u} (db : WatchlistDb) (user : UserId) (call : WatchlistCall P) :
    Prop where
  resolved : ∀ id, call.watchlistId = some id → db.auth.selectDefaultWatchlist user = some id
  found : ∀ security pc, call = .add security pc → pc ≠ .lookup → pc ≠ .failed →
    (pc = .securityNotFound ↔ db.catalog.get security = none)
  failed : call.isFailed = true → ∃ security, isBigint security = false ∧
    (call = .add security .failed ∨ call = .remove security .failed)

/-- What a statement does: it leaves the other users alone and its call in order, raises only over
an id it cannot encode, and either is silent about the sets or is recorded as one operation on the
set of its user. -/
structure StatementSpec {P : Type u} (coll : Collation) (db : WatchlistDb) (user : UserId)
    (call : WatchlistCall P) (e : StatementEffect P) : Prop where
  others : db.LeavesOthers user e.db
  ok : CallOk e.db user e.call
  raised : e.call.isFailed = true ↔ call.argument.all isBigint = false
  silent : e.record = none → e.call.record = call.record ∧ e.db.userMembers user = db.userMembers user
  recorded : ∀ r, e.record = some r → call.record = none ∧ e.call.record = some r ∧
    (securitySet coll db.catalog).Allows (db.sets user) r.1 r.2 ∧
      e.db.sets user = (securitySet coll db.catalog).apply (db.sets user) r.1

section

variable {P : Type u} {coll : Collation} {db db' : WatchlistDb} {user user' : UserId}
  {call : WatchlistCall P} {e : StatementEffect P} {snapshot : PriceSnapshot P} {asOf : String}
  {security : SecurityId} {id : WatchlistId}

/-- What holds of a call survives the statements of all calls. -/
lemma CallOk.mono (h : CallOk db user call) (hdb : db.LeavesOthers user' db') :
    CallOk db' user call := by
  refine ⟨fun id hid => hdb.select user id (h.resolved id hid), ?_, h.failed⟩
  rw [hdb.catalog]
  exact h.found

/-- A call past its lookup that has not raised has found its security. -/
lemma CallOk.isFound {pc : AddPc} (h : CallOk db user call) (hcall : call = .add security pc)
    (hlookup : pc ≠ .lookup) (hfailed : pc ≠ .failed) (hraised : pc ≠ .securityNotFound) :
    db.catalog.get security ≠ none :=
  fun hnone => hraised ((h.found security pc hcall hlookup hfailed).2 hnone)

lemma CallOk.exists_add
    (h : CallOk db user (WatchlistCall.add security (.add id) : WatchlistCall P)) :
    ∃ b db', db.add id security = some (b, db') := by
  have hrow := AuthDb.selectDefaultWatchlist_eq_some_iff.1 (h.resolved id rfl)
  have hfound := h.isFound rfl (by simp) (by simp) (by simp)
  exact WatchlistDb.exists_add (Option.isSome_iff_exists.2 ⟨_, hrow⟩)
    (Option.isSome_iff_ne_none.2 hfound)

/-- A call that has neither resolved nor raised, and is no `add_item` past its lookup. -/
lemma callOk_of_none (hid : call.watchlistId = none) (hok : call.isFailed = false)
    (hadd : ∀ security pc, call = .add security pc → pc = .lookup) : CallOk db user call := by
  refine ⟨fun id hid' => ?_, fun security pc hcall hlookup => ?_, fun hfailed => ?_⟩
  · rw [hid] at hid'
    exact absurd hid' (by simp)
  · exact absurd (hadd security pc hcall) hlookup
  · rw [hok] at hfailed
    exact absurd hfailed (by simp)

lemma callOk_of_start (h : call.isStart = true) : CallOk db user call := by
  obtain rfl | ⟨security, rfl⟩ | ⟨security, rfl⟩ := WatchlistCall.start_cases h
  · exact callOk_of_none rfl rfl (by simp)
  · exact callOk_of_none rfl rfl (by simp)
  · exact callOk_of_none rfl rfl (by simp)

lemma StatementSpec.of_silent (hothers : db.LeavesOthers user e.db) (hok : CallOk e.db user e.call)
    (hraised : e.call.isFailed = true ↔ call.argument.all isBigint = false)
    (hnone : e.record = none) (hrecord : e.call.record = call.record)
    (hmembers : e.db.userMembers user = db.userMembers user) : StatementSpec coll db user call e :=
  ⟨hothers, hok, hraised, fun _ => ⟨hrecord, hmembers⟩,
    fun r hr => absurd (hnone.symm.trans hr) (by simp)⟩

/-- A statement that is passed an id of more than 64 bits ends its call and nothing else. -/
lemma StatementSpec.of_unencoded {failed : WatchlistCall P} (hbigint : isBigint security = false)
    (hargument : call.argument = some security) (hrecord : call.record = none)
    (hfailed : failed = .add security .failed ∨ failed = .remove security .failed) :
    StatementSpec coll db user call ⟨failed, db, none⟩ := by
  have hended : failed.watchlistId = none ∧ failed.isFailed = true ∧ failed.record = none := by
    rcases hfailed with rfl | rfl
    · exact ⟨rfl, rfl, rfl⟩
    · exact ⟨rfl, rfl, rfl⟩
  obtain ⟨hid, hisFailed, hrecord'⟩ := hended
  refine .of_silent (.refl user db) ⟨fun id hid' => ?_, fun security' pc hcall _ hpc => ?_,
    fun _ => ⟨security, hbigint, hfailed⟩⟩ ?_ rfl (hrecord'.trans hrecord.symm) rfl
  · rw [hid] at hid'
    exact absurd hid' (by simp)
  · rcases hfailed with rfl | rfl
    · obtain ⟨-, rfl⟩ := WatchlistCall.add.inj hcall
      exact absurd rfl hpc
    · exact absurd hcall (by simp)
  · rw [hargument]
    exact iff_of_true hisFailed hbigint

/-- `default_watchlist_id` inside a call: it goes on to the upsert, or it is resolved to the default
watchlist of its user. -/
lemma spec_of_resolve {resolving : ResolvePc → WatchlistCall P}
    {resolved : WatchlistId → WatchlistCall P} {failed : WatchlistCall P} {pc : ResolvePc}
    (huser : (db.auth.users.get? user).isSome = true) (hrecord : call.record = none)
    (hargument : call.argument = none)
    (hresolving : (resolving .upsert).record = none ∧ (resolving .upsert).isFailed = false ∧
      CallOk db user (resolving .upsert))
    (hresolved : ∀ id db', db.LeavesOthers user db' →
      db'.auth.selectDefaultWatchlist user = some id →
        (resolved id).record = none ∧ (resolved id).isFailed = false ∧
          CallOk db' user (resolved id)) :
    StatementSpec coll db user call (runResolve db user resolving resolved failed pc) := by
  -- resolving encodes no security id
  have hquiet : ∀ {call' : WatchlistCall P}, call'.isFailed = false →
      (call'.isFailed = true ↔ call.argument.all isBigint = false) := by
    intro call' hok
    rw [hargument]
    exact iff_of_false (by simp [hok]) (by simp)
  cases pc with
  | select =>
    rw [runResolve]
    split
    · rename_i id hselect
      have hleaves := WatchlistDb.LeavesOthers.refl user db
      obtain ⟨hnone, hok, hcall⟩ := hresolved id db hleaves hselect
      exact .of_silent hleaves hcall (hquiet hok) rfl (hnone.trans hrecord.symm) rfl
    · obtain ⟨hnone, hok, hcall⟩ := hresolving
      exact .of_silent (.refl user db) hcall (hquiet hok) rfl (hnone.trans hrecord.symm) rfl
  | upsert =>
    rw [runResolve]
    split
    · rename_i id db' hupsert
      have hleaves := WatchlistDb.leavesOthers_upsert hupsert
      obtain ⟨hnone, hok, hcall⟩ := hresolved id db' hleaves (WatchlistDb.select_upsert_self hupsert)
      exact .of_silent hleaves hcall (hquiet hok) rfl (hnone.trans hrecord.symm)
        (WatchlistDb.userMembers_upsert hupsert user)
    · rename_i hnone
      -- the user exists, so the upsert breaks no reference
      obtain ⟨id, db', hupsert⟩ := WatchlistDb.exists_upsertDefaultWatchlist huser
      exact absurd (hnone.symm.trans hupsert) (by simp)

lemma runGet_spec {pc : GetPc P} (huser : (db.auth.users.get? user).isSome = true)
    (hok : CallOk db user (.get pc)) (h : runGet coll db user snapshot asOf pc = some e) :
    StatementSpec coll db user (.get pc) e := by
  cases pc with
  | resolve pc =>
    obtain rfl := Option.some.inj h
    refine spec_of_resolve huser rfl rfl ⟨rfl, rfl, ?_⟩ fun id db' _ hselect => ⟨rfl, rfl, ?_⟩
    · exact callOk_of_none rfl rfl (by simp)
    · exact ⟨by simpa [WatchlistCall.watchlistId] using hselect, by simp,
        by simp [WatchlistCall.isFailed]⟩
  | loadMembers id =>
    obtain rfl := Option.some.inj h
    have hselect := hok.resolved id rfl
    refine ⟨.refl user db, ⟨by simpa [WatchlistCall.watchlistId] using hselect, by simp,
      by simp [WatchlistCall.isFailed]⟩, iff_of_false (by simp [WatchlistCall.isFailed])
      (by simp [WatchlistCall.argument]), by simp, fun r hr => ?_⟩
    obtain rfl := Option.some.inj hr
    exact ⟨rfl, rfl, WatchlistDb.enumerates_members hselect, rfl⟩
  | loadPrices id members =>
    obtain rfl := Option.some.inj h
    refine .of_silent (.refl user db) ⟨?_, by simp, by simp [WatchlistCall.isFailed]⟩
      (iff_of_false (by simp [WatchlistCall.isFailed]) (by simp [WatchlistCall.argument])) rfl ?_ rfl
    · simpa [WatchlistCall.watchlistId] using hok.resolved id rfl
    · simp [WatchlistCall.record]
  | returned id response => exact absurd h (by simp [runGet])
  | failed => exact absurd h (by simp [runGet])

lemma runAdd_spec {pc : AddPc} (huser : (db.auth.users.get? user).isSome = true)
    (hok : CallOk db user (WatchlistCall.add security pc : WatchlistCall P))
    (h : runAdd db user security pc = some e) :
    StatementSpec coll db user (.add security pc) e := by
  cases pc with
  | lookup =>
    cases hbigint : isBigint security with
    | false =>
      rw [runAdd, if_neg (by simp [hbigint])] at h
      obtain rfl := Option.some.inj h
      exact .of_unencoded hbigint rfl rfl (Or.inl rfl)
    | true =>
      -- the lookup goes through, so the call has not failed and will not for its argument
      have hquiet : ∀ pc : AddPc, pc ≠ .failed →
          ((WatchlistCall.add security pc : WatchlistCall P).isFailed = true ↔
            (WatchlistCall.add security .lookup : WatchlistCall P).argument.all isBigint = false) := by
        intro pc hpc
        refine iff_of_false ?_ (by simp [WatchlistCall.argument, hbigint])
        cases pc <;> simp_all [WatchlistCall.isFailed]
      rw [runAdd, if_pos hbigint] at h
      split at h
      · rename_i hnone
        obtain rfl := Option.some.inj h
        refine .of_silent (.refl user db) ⟨by simp [WatchlistCall.watchlistId], ?_,
          by simp [WatchlistCall.isFailed]⟩ (hquiet _ (by simp)) rfl rfl rfl
        simp [hnone]
      · rename_i row hrow
        obtain rfl := Option.some.inj h
        refine .of_silent (.refl user db) ⟨by simp [WatchlistCall.watchlistId], ?_,
          by simp [WatchlistCall.isFailed]⟩ (hquiet _ (by simp)) rfl rfl rfl
        simp [hrow]
  -- the watchlist is found or made; the security is still listed, as no call delists one
  | resolve pc =>
    obtain rfl := Option.some.inj h
    have hfound := hok.isFound rfl (by simp) (by simp) (by simp)
    refine spec_of_resolve huser rfl rfl ⟨rfl, rfl, ?_⟩ fun id db' hleaves hselect => ⟨rfl, rfl, ?_⟩
    · exact ⟨by simp [WatchlistCall.watchlistId], by simp [hfound],
        by simp [WatchlistCall.isFailed]⟩
    · refine ⟨by simpa [WatchlistCall.watchlistId] using hselect, ?_,
        by simp [WatchlistCall.isFailed]⟩
      rw [hleaves.catalog]
      simp [hfound]
  | add id =>
    cases hbigint : isBigint security with
    | false =>
      rw [runAdd, if_neg (by simp [hbigint])] at h
      obtain rfl := Option.some.inj h
      exact .of_unencoded hbigint rfl rfl (Or.inl rfl)
    | true =>
      have hselect := hok.resolved id rfl
      -- both references are there, so the insert is executed
      obtain ⟨b, db', hadd⟩ := hok.exists_add
      rw [runAdd, if_pos hbigint, hadd] at h
      obtain rfl := Option.some.inj h
      have hleaves := WatchlistDb.leavesOthers_add hselect hadd
      refine ⟨hleaves, ⟨?_, ?_, by simp [WatchlistCall.isFailed]⟩, iff_of_false
        (by simp [WatchlistCall.isFailed]) (by simp [WatchlistCall.argument, hbigint]), by simp,
        fun r hr => ?_⟩
      · simpa [WatchlistCall.watchlistId] using hleaves.select user id hselect
      · rw [hleaves.catalog]
        simp [hok.isFound rfl (by simp) (by simp) (by simp)]
      · obtain rfl := Option.some.inj hr
        refine ⟨rfl, rfl, trivial, ?_⟩
        -- ON CONFLICT DO NOTHING: the set is the same if the security was in it
        rw [WatchlistDb.sets, WatchlistDb.userMembers_add hselect hadd]
        ext s
        split
        · rename_i hmem
          have hkeep : s = security → s ∈ db.userMembers user := by
            rintro rfl
            exact hmem
          simpa [securitySet, WatchlistDb.sets] using hkeep
        · simp [securitySet, WatchlistDb.sets, or_comm]
  | returned id => exact absurd h (by simp [runAdd])
  | securityNotFound => exact absurd h (by simp [runAdd])
  | failed => exact absurd h (by simp [runAdd])

lemma runRemove_spec {pc : RemovePc} (huser : (db.auth.users.get? user).isSome = true)
    (hok : CallOk db user (WatchlistCall.remove security pc : WatchlistCall P))
    (h : runRemove db user security pc = some e) :
    StatementSpec coll db user (.remove security pc) e := by
  cases pc with
  | resolve pc =>
    obtain rfl := Option.some.inj h
    refine spec_of_resolve huser rfl rfl ⟨rfl, rfl, ?_⟩ fun id db' _ hselect => ⟨rfl, rfl, ?_⟩
    · exact callOk_of_none rfl rfl (by simp)
    · exact ⟨by simpa [WatchlistCall.watchlistId] using hselect, by simp,
        by simp [WatchlistCall.isFailed]⟩
  | remove id =>
    cases hbigint : isBigint security with
    | false =>
      rw [runRemove, if_neg (by simp [hbigint])] at h
      obtain rfl := Option.some.inj h
      exact .of_unencoded hbigint rfl rfl (Or.inr rfl)
    | true =>
      rw [runRemove, if_pos hbigint] at h
      obtain rfl := Option.some.inj h
      have hselect := hok.resolved id rfl
      have hleaves := WatchlistDb.leavesOthers_remove hselect security
      obtain ⟨hid, hok', hrecord⟩ :=
        WatchlistCall.remove_ended (P := P) security id (db.remove id security).1 rfl
      refine ⟨hleaves, ⟨fun id' hid' => ?_, by simp, fun hfailed => ?_⟩, iff_of_false
        (fun hfailed => absurd (hok'.symm.trans hfailed) (by simp))
        (by simp [WatchlistCall.argument, hbigint]), by simp, fun r hr => ?_⟩
      · obtain rfl := Option.some.inj (hid.symm.trans hid')
        exact hleaves.select user id hselect
      · exact absurd (hok'.symm.trans hfailed) (by simp)
      · obtain rfl := Option.some.inj hr
        refine ⟨rfl, hrecord, ?_, ?_⟩
        -- the row count of the DELETE says whether the security was in the set
        · change (db.remove id security).1 = true ↔ security ∈ db.sets user
          rw [WatchlistDb.remove_fst hselect, decide_eq_true_iff]
          rfl
        · change (db.remove id security).2.sets user = _
          rw [WatchlistDb.sets, WatchlistDb.userMembers_remove hselect]
          ext s
          simp [securitySet, WatchlistDb.sets]
  | returned id => exact absurd h (by simp [runRemove])
  | notOnWatchlist id => exact absurd h (by simp [runRemove])
  | failed => exact absurd h (by simp [runRemove])

/-- **What a statement does.** -/
theorem statement_spec (huser : (db.auth.users.get? user).isSome = true)
    (hok : CallOk db user call) (h : runWatchlistCall coll db user snapshot asOf call = some e) :
    StatementSpec coll db user call e := by
  cases call with
  | get pc => exact runGet_spec huser hok h
  | add security pc => exact runAdd_spec huser hok h
  | remove security pc => exact runRemove_spec huser hok h

end

/-! ## The world -/

namespace WatchlistWorld

variable {P : Type u} {coll : Collation} {w w' : WatchlistWorld P} {c c' : WatchlistCallId}
  {call : WatchlistCall P} {ev : WatchlistEvent P}

/-- Every call is of a user there is, and holds what a call holds between its statements. -/
structure Consistent (w : WatchlistWorld P) : Prop where
  caller : ∀ c call, w.calls.get? c = some call → (w.db.auth.users.get? c.user).isSome
  ok : ∀ c call, w.calls.get? c = some call → CallOk w.db c.user call

/-- What an event does: a call arrives, or a call there is runs a statement. -/
lemma step_cases (h : step coll w ev = some w') :
    (∃ c call, ev = .spawn c call ∧ call.isStart = true ∧
      (w.db.auth.users.get? c.user).isSome = true ∧ w.calls.get? c = none ∧
      w' = { w with calls := w.calls.set c call }) ∨
    ∃ c snapshot asOf call e, ev = .run c snapshot asOf ∧ w.calls.get? c = some call ∧
      runWatchlistCall coll w.db c.user snapshot asOf call = some e ∧ w' = w.after c e := by
  cases ev with
  | spawn c call =>
    rw [step] at h
    split at h
    · rename_i hcond
      rw [Bool.and_eq_true, Bool.and_eq_true, Bool.not_eq_true', Dict.contains_eq_false_iff]
        at hcond
      exact Or.inl ⟨c, call, rfl, hcond.1.1, hcond.1.2, hcond.2, (Option.some.inj h).symm⟩
    · exact absurd h (by simp)
  | run c snapshot asOf =>
    obtain ⟨e, he, rfl⟩ := Option.map_eq_some_iff.1 h
    obtain ⟨call, hcall, hrun⟩ := Option.bind_eq_some_iff.1 he
    exact Or.inr ⟨c, snapshot, asOf, call, e, rfl, hcall, hrun, rfl⟩

/-- What the statement of a call does in a consistent world. -/
lemma Consistent.spec (hw : w.Consistent) (hcall : w.calls.get? c = some call)
    {snapshot : PriceSnapshot P} {asOf : String} {e : StatementEffect P}
    (hrun : runWatchlistCall coll w.db c.user snapshot asOf call = some e) :
    StatementSpec coll w.db c.user call e :=
  statement_spec (hw.caller c call hcall) (hw.ok c call hcall) hrun

lemma consistent_of_init (h : (system (P := P) coll).init w) : w.Consistent := by
  obtain ⟨hcalls, -, -⟩ := h
  refine ⟨fun c call hcall => ?_, fun c call hcall => ?_⟩
  · rw [hcalls, Dict.get?_empty] at hcall
    exact absurd hcall (by simp)
  · rw [hcalls, Dict.get?_empty] at hcall
    exact absurd hcall (by simp)

theorem Consistent.step (hw : w.Consistent) (h : step coll w ev = some w') : w'.Consistent := by
  obtain ⟨c, call, -, hstart, huser, -, rfl⟩ | ⟨c, snapshot, asOf, call, e, -, hcall, hrun, rfl⟩ :=
    step_cases h
  · refine ⟨fun c' call' hcall' => ?_, fun c' call' hcall' => ?_⟩
    · rw [Dict.get?_set] at hcall'
      split at hcall'
      · rename_i hc
        exact hc ▸ huser
      · exact hw.caller c' call' hcall'
    · rw [Dict.get?_set] at hcall'
      split at hcall'
      · obtain rfl := Option.some.inj hcall'
        exact callOk_of_start hstart
      · exact hw.ok c' call' hcall'
  -- a statement of one user leaves the others' watchlists, and so what their calls rely on
  · have hspec := hw.spec hcall hrun
    refine ⟨fun c' call' hcall' => ?_, fun c' call' hcall' => ?_⟩
    · change (e.db.auth.users.get? c'.user).isSome = true
      rw [after, Dict.get?_set] at hcall'
      rw [hspec.others.users]
      split at hcall'
      · rename_i hc
        exact hc ▸ hw.caller c call hcall
      · exact hw.caller c' call' hcall'
    · change CallOk e.db c'.user call'
      rw [after, Dict.get?_set] at hcall'
      split at hcall'
      · rename_i hc
        obtain rfl := Option.some.inj hcall'
        exact hc ▸ hspec.ok
      · exact (hw.ok c' call' hcall').mono hspec.others

end WatchlistWorld

end TickerWatch
