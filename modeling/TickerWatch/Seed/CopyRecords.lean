import TickerWatch.Foundations.Copy
import TickerWatch.Watchlist.Controller

/-!
# Bulk statements

The statements of `tools/seed/seed_users.py`: `copy_records_to_table` into the three tables behind a
watchlist, and the deletion of users with what belongs to them.  A `COPY` is one statement, so `none`
is the exception of whatever row is refused.
-/

namespace TickerWatch

namespace AuthDb

/-- `copy_records_to_table("users", ...)`. -/
def copyUsers (db : AuthDb) (rows : List UserRow) : Option AuthDb :=
  match h : db.users.copy rows with
  | none => none
  | some users => some { db with
      users := users
      watchlist_user := fun id row hrow => by
        obtain ⟨user, huser⟩ := Option.isSome_iff_exists.1 (db.watchlist_user id row hrow)
        exact Option.isSome_iff_exists.2
          ⟨user, ((Table.copied_of_copy h).get?_iff _ _).2 (Or.inl huser)⟩
      token_user := fun id row hrow => by
        obtain ⟨user, huser⟩ := Option.isSome_iff_exists.1 (db.token_user id row hrow)
        exact Option.isSome_iff_exists.2
          ⟨user, ((Table.copied_of_copy h).get?_iff _ _).2 (Or.inl huser)⟩ }

/-- `copy_records_to_table("watchlists", ...)`. -/
def copyWatchlists (db : AuthDb) (rows : List WatchlistRow) : Option AuthDb :=
  if huser : ∀ row ∈ rows, (db.users.get? row.userId).isSome = true then
    match h : db.watchlists.copy rows with
    | none => none
    | some watchlists => some (db.setWatchlists watchlists (fun id row hrow => by
        rcases ((Table.copied_of_copy h).get?_iff id row).1 hrow with hold | ⟨k, -, hk⟩
        · exact db.watchlist_user id row hold
        · exact huser row (List.mem_of_getElem? hk)))
  else none

/-- `DELETE FROM users WHERE p`: what refers to the users goes with them. -/
def deleteUsers (db : AuthDb) (p : UserRow → Bool) : AuthDb where
  users := db.users.delete fun _ row => p row
  watchlists := db.watchlists.delete fun _ row => (db.users.get? row.userId).any p
  refreshTokens := db.refreshTokens.delete fun _ row => (db.users.get? row.userId).any p
  watchlist_user := by
    intro id row h
    obtain ⟨hrow, hkept⟩ := Table.get?_delete_eq_some_iff.1 h
    obtain ⟨user, huser⟩ := Option.isSome_iff_exists.1 (db.watchlist_user id row hrow)
    rw [huser] at hkept
    exact Option.isSome_iff_exists.2 ⟨user, Table.get?_delete_eq_some_iff.2 ⟨huser, hkept⟩⟩
  token_user := by
    intro id row h
    obtain ⟨hrow, hkept⟩ := Table.get?_delete_eq_some_iff.1 h
    obtain ⟨user, huser⟩ := Option.isSome_iff_exists.1 (db.token_user id row hrow)
    rw [huser] at hkept
    exact Option.isSome_iff_exists.2 ⟨user, Table.get?_delete_eq_some_iff.2 ⟨huser, hkept⟩⟩

variable {db db' : AuthDb} {users : List UserRow} {watchlists : List WatchlistRow}

lemma copyUsers_eq_some (h : db.copyUsers users = some db') :
    db.users.Copied users db'.users ∧ db'.watchlists = db.watchlists := by
  unfold copyUsers at h
  split at h
  · exact absurd h (by simp)
  · rename_i heq
    obtain rfl := Option.some.inj h
    exact ⟨Table.copied_of_copy heq, rfl⟩

lemma exists_copyUsers (hfree : ∀ row ∈ users, db.users.find? row.username = none)
    (hnodup : (users.map UserRow.username).Nodup) : ∃ db', db.copyUsers users = some db' := by
  obtain ⟨t, ht⟩ := Table.exists_copy hfree hnodup
  unfold copyUsers
  split
  · rename_i hnone
    exact absurd (hnone.symm.trans ht) (by simp)
  · exact ⟨_, rfl⟩

lemma copyWatchlists_eq_some (h : db.copyWatchlists watchlists = some db') :
    db.watchlists.Copied watchlists db'.watchlists ∧ db'.users = db.users := by
  unfold copyWatchlists at h
  split at h
  · split at h
    · exact absurd h (by simp)
    · rename_i heq
      obtain rfl := Option.some.inj h
      exact ⟨Table.copied_of_copy heq, rfl⟩
  · exact absurd h (by simp)

lemma exists_copyWatchlists
    (huser : ∀ row ∈ watchlists, (db.users.get? row.userId).isSome = true)
    (hfree : ∀ row ∈ watchlists, db.watchlists.find? row.key = none)
    (hnodup : (watchlists.map WatchlistRow.key).Nodup) :
    ∃ db', db.copyWatchlists watchlists = some db' := by
  obtain ⟨t, ht⟩ := Table.exists_copy hfree hnodup
  unfold copyWatchlists
  rw [dif_pos huser]
  split
  · rename_i hnone
    exact absurd (hnone.symm.trans ht) (by simp)
  · exact ⟨_, rfl⟩

end AuthDb

namespace WatchlistDb

/-- `copy_records_to_table("users", ...)`. -/
def copyUsers (db : WatchlistDb) (rows : List UserRow) : Option WatchlistDb :=
  match h : db.auth.copyUsers rows with
  | none => none
  | some auth => some { db with
      auth := auth
      item_watchlist := fun e he => by
        rw [(AuthDb.copyUsers_eq_some h).2]
        exact db.item_watchlist e he }

/-- `copy_records_to_table("watchlists", ...)`. -/
def copyWatchlists (db : WatchlistDb) (rows : List WatchlistRow) : Option WatchlistDb :=
  match h : db.auth.copyWatchlists rows with
  | none => none
  | some auth => some { db with
      auth := auth
      item_watchlist := fun e he => by
        obtain ⟨row, hrow⟩ := Option.isSome_iff_exists.1 (db.item_watchlist e he)
        exact Option.isSome_iff_exists.2
          ⟨row, ((AuthDb.copyWatchlists_eq_some h).1.get?_iff _ _).2 (Or.inl hrow)⟩ }

/-- One row of `watchlist_items`; `none` is a violation of a reference or of the primary key. -/
def insertItem (db : WatchlistDb) (e : WatchlistId × SecurityId) : Option WatchlistDb :=
  (db.add e.1 e.2).bind fun out => if out.1 then some out.2 else none

/-- `copy_records_to_table("watchlist_items", ...)`. -/
def copyItems (db : WatchlistDb) (rows : List (WatchlistId × SecurityId)) : Option WatchlistDb :=
  rows.foldlM insertItem db

/-- `DELETE FROM users WHERE p`, with the items that go with the watchlists. -/
def deleteUsers (db : WatchlistDb) (p : UserRow → Bool) : WatchlistDb where
  auth := db.auth.deleteUsers p
  catalog := db.catalog
  items := db.items.filter fun e _ => ((db.auth.deleteUsers p).watchlists.get? e.1).isSome
  item_watchlist := fun e he => by
    obtain ⟨v, hv⟩ := Dict.mem_keys_iff.1 he
    rw [Dict.get?_filter, Option.filter_eq_some_iff] at hv
    exact hv.2
  item_security := fun e he => by
    obtain ⟨v, hv⟩ := Dict.mem_keys_iff.1 he
    rw [Dict.get?_filter, Option.filter_eq_some_iff] at hv
    exact db.item_security e (Dict.mem_keys_iff.2 ⟨v, hv.1⟩)

variable {db db' : WatchlistDb} {users : List UserRow} {watchlists : List WatchlistRow}
  {items : List (WatchlistId × SecurityId)} {e : WatchlistId × SecurityId}

lemma copyUsers_eq_some (h : db.copyUsers users = some db') :
    db.auth.copyUsers users = some db'.auth ∧ db'.catalog = db.catalog ∧ db'.items = db.items := by
  unfold copyUsers at h
  split at h
  · exact absurd h (by simp)
  · rename_i heq
    obtain rfl := Option.some.inj h
    exact ⟨heq, rfl, rfl⟩

lemma exists_copyUsers {auth : AuthDb} (h : db.auth.copyUsers users = some auth) :
    ∃ db', db.copyUsers users = some db' := by
  unfold copyUsers
  split
  · rename_i hnone
    exact absurd (hnone.symm.trans h) (by simp)
  · exact ⟨_, rfl⟩

lemma copyWatchlists_eq_some (h : db.copyWatchlists watchlists = some db') :
    db.auth.copyWatchlists watchlists = some db'.auth ∧ db'.catalog = db.catalog ∧
      db'.items = db.items := by
  unfold copyWatchlists at h
  split at h
  · exact absurd h (by simp)
  · rename_i heq
    obtain rfl := Option.some.inj h
    exact ⟨heq, rfl, rfl⟩

lemma exists_copyWatchlists {auth : AuthDb} (h : db.auth.copyWatchlists watchlists = some auth) :
    ∃ db', db.copyWatchlists watchlists = some db' := by
  unfold copyWatchlists
  split
  · rename_i hnone
    exact absurd (hnone.symm.trans h) (by simp)
  · exact ⟨_, rfl⟩

/-- An item that is new and refers to rows that exist is appended. -/
lemma exists_insertItem (hfree : e ∉ db.items.keys)
    (hwatchlist : (db.auth.watchlists.get? e.1).isSome = true)
    (hsecurity : (db.catalog.get e.2).isSome = true) :
    ∃ db', db.insertItem e = some db' ∧ db'.auth = db.auth ∧ db'.catalog = db.catalog ∧
      db'.items.keys = db.items.keys ++ [e] := by
  unfold insertItem add
  rw [dif_pos ⟨hwatchlist, hsecurity⟩, if_neg hfree]
  exact ⟨_, rfl, rfl, rfl, Dict.keys_set_of_notMem _ hfree⟩

lemma exists_copyItems (hnodup : items.Nodup) (hfree : ∀ e ∈ items, e ∉ db.items.keys)
    (hwatchlist : ∀ e ∈ items, (db.auth.watchlists.get? e.1).isSome = true)
    (hsecurity : ∀ e ∈ items, (db.catalog.get e.2).isSome = true) :
    ∃ db', db.copyItems items = some db' ∧ db'.auth = db.auth ∧ db'.catalog = db.catalog ∧
      db'.items.keys = db.items.keys ++ items := by
  induction items generalizing db with
  | nil => exact ⟨db, rfl, rfl, rfl, (List.append_nil _).symm⟩
  | cons e items ih =>
    rw [List.nodup_cons] at hnodup
    obtain ⟨mid, hmid, hauth, hcatalog, hkeys⟩ := exists_insertItem (hfree e List.mem_cons_self)
      (hwatchlist e List.mem_cons_self) (hsecurity e List.mem_cons_self)
    obtain ⟨db', hdb', hauth', hcatalog', hkeys'⟩ := @ih mid hnodup.2
      (fun e' he' => by
        rw [hkeys, List.mem_append, List.mem_singleton, not_or]
        exact ⟨hfree e' (List.mem_cons_of_mem _ he'), fun heq => hnodup.1 (heq ▸ he')⟩)
      (fun e' he' => hauth ▸ hwatchlist e' (List.mem_cons_of_mem _ he'))
      (fun e' he' => hcatalog ▸ hsecurity e' (List.mem_cons_of_mem _ he'))
    refine ⟨db', ?_, hauth'.trans hauth, hcatalog'.trans hcatalog, ?_⟩
    · rw [copyItems, List.foldlM_cons, hmid]
      exact hdb'
    · rw [hkeys', hkeys, List.append_assoc]
      rfl

lemma memberIds_of_keys {id : WatchlistId} (h : db'.items.keys = db.items.keys ++ items) :
    db'.memberIds id =
      db.memberIds id ++ (items.filter fun e => decide (e.1 = id)).map Prod.snd := by
  rw [memberIds, h, List.filter_append, List.map_append]
  rfl

end WatchlistDb

end TickerWatch
