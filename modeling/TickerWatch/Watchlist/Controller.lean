import Mathlib.Data.List.Sort
import TickerWatch.Auth.Controller
import TickerWatch.Watchlist.Handler

/-!
# The watchlist tables

The tables behind a watchlist and the queries of `watchlist_controller.py`.  A row of
`watchlist_items` is its primary key: `created_at` is left out, as no query reads it.

What the database checks is in the fields of `WatchlistDb`: the two references of an item, and the
primary key as the keys of a dictionary.  A statement that would break a reference returns `none`,
which is the exception asyncpg raises.
-/

namespace TickerWatch

/-- The order of `ORDER BY s.ticker`, which the database's collation gives. -/
structure Collation where
  le : Ticker → Ticker → Bool
  trans : ∀ a b c, le a b = true → le b c = true → le a c = true
  total : ∀ a b, (le a b || le b a) = true

/-- The rows stand in the order of their tickers. -/
def Collation.Before (coll : Collation) (a b : MemberRow) : Prop :=
  coll.le a.ticker b.ticker = true

instance (coll : Collation) : DecidableRel coll.Before :=
  fun a b => inferInstanceAs (Decidable (coll.le a.ticker b.ticker = true))

instance (coll : Collation) : Std.Total coll.Before :=
  ⟨fun a b => Bool.or_eq_true_iff.1 (coll.total a.ticker b.ticker)⟩

instance (coll : Collation) : IsTrans MemberRow coll.Before :=
  ⟨fun a b c => coll.trans a.ticker b.ticker c.ticker⟩

/-- The collation `C`: the order of code points. -/
def Collation.codePoint : Collation where
  le a b := decide (a ≤ b)
  trans _ _ _ h h' := decide_eq_true ((of_decide_eq_true h).trans (of_decide_eq_true h'))
  total a b := by
    rw [← Bool.decide_or, decide_eq_true_iff]
    exact le_total a b

/-- The auth tables, the catalog and `watchlist_items`.  The foreign keys of an item are fields:
there is no item without its watchlist and its security. -/
structure WatchlistDb where
  auth : AuthDb
  catalog : Catalog
  items : Dict (WatchlistId × SecurityId) Unit
  item_watchlist : ∀ e ∈ items.keys, (auth.watchlists.get? e.1).isSome
  item_security : ∀ e ∈ items.keys, (catalog.get e.2).isSome

/-- What the join has for a security. -/
def Catalog.memberRow (c : Catalog) (security : SecurityId) : Option MemberRow :=
  (c.get security).map fun row => ⟨security, row.ticker, row.name, row.exchange⟩

lemma Catalog.id_of_memberRow {c : Catalog} {security : SecurityId} {row : MemberRow}
    (h : c.memberRow security = some row) : row.id = security := by
  obtain ⟨s, -, rfl⟩ := Option.map_eq_some_iff.1 h
  rfl

namespace WatchlistDb

/-- The `INSERT` of `default_watchlist_id`. -/
def upsertDefaultWatchlist (db : WatchlistDb) (user : UserId) :
    Option (WatchlistId × WatchlistDb) :=
  match h : db.auth.upsertDefaultWatchlist user with
  | none => none
  | some (id, auth) => some (id, { db with
      auth := auth
      item_watchlist := by
        intro e he
        obtain ⟨row, hrow⟩ := Option.isSome_iff_exists.1 (db.item_watchlist e he)
        exact Option.isSome_iff_exists.2
          ⟨row, (AuthDb.get?_of_upsertDefaultWatchlist h e.1 row).2 (Or.inl hrow)⟩ })

/-- The securities of a watchlist, in the order of the table. -/
def memberIds (db : WatchlistDb) (id : WatchlistId) : List SecurityId :=
  (db.items.keys.filter fun e => decide (e.1 = id)).map Prod.snd

/-- `members`. -/
def members (coll : Collation) (db : WatchlistDb) (id : WatchlistId) : List MemberRow :=
  ((db.memberIds id).filterMap db.catalog.memberRow).insertionSort coll.Before

/-- `add`, with whether a row was inserted.  `none` is a violation of a reference. -/
def add (db : WatchlistDb) (id : WatchlistId) (security : SecurityId) :
    Option (Bool × WatchlistDb) :=
  if h : (db.auth.watchlists.get? id).isSome = true ∧ (db.catalog.get security).isSome = true then
    if (id, security) ∈ db.items.keys then some (false, db)
    else some (true, { db with
      items := db.items.set (id, security) ()
      item_watchlist := by
        intro e he
        rcases Dict.mem_keys_set.1 he with rfl | hold
        · exact h.1
        · exact db.item_watchlist e hold
      item_security := by
        intro e he
        rcases Dict.mem_keys_set.1 he with rfl | hold
        · exact h.2
        · exact db.item_security e hold })
  else none

/-- `remove`, with whether a row was deleted. -/
def remove (db : WatchlistDb) (id : WatchlistId) (security : SecurityId) : Bool × WatchlistDb :=
  (db.items.contains (id, security), { db with
    items := db.items.erase (id, security)
    item_watchlist := fun e he => db.item_watchlist e (Dict.mem_keys_erase.1 he).1
    item_security := fun e he => db.item_security e (Dict.mem_keys_erase.1 he).1 })

variable {db db' : WatchlistDb} {coll : Collation} {user : UserId} {id id' : WatchlistId}
  {security : SecurityId}

/-! ## What they return and leave -/

lemma upsertDefaultWatchlist_eq_some (h : db.upsertDefaultWatchlist user = some (id, db')) :
    db.auth.upsertDefaultWatchlist user = some (id, db'.auth) ∧ db'.catalog = db.catalog ∧
      db'.items = db.items := by
  unfold upsertDefaultWatchlist at h
  split at h
  · exact absurd h (by simp)
  · rename_i heq
    obtain ⟨rfl, rfl⟩ := Prod.mk.inj (Option.some.inj h)
    exact ⟨heq, rfl, rfl⟩

lemma select_upsert_self (h : db.upsertDefaultWatchlist user = some (id, db')) :
    db'.auth.selectDefaultWatchlist user = some id :=
  AuthDb.selectDefaultWatchlist_upsert_self (upsertDefaultWatchlist_eq_some h).1

lemma exists_upsertDefaultWatchlist (huser : (db.auth.users.get? user).isSome = true) :
    ∃ id db', db.upsertDefaultWatchlist user = some (id, db') := by
  obtain ⟨id, auth, hauth⟩ := AuthDb.exists_upsertDefaultWatchlist huser
  unfold upsertDefaultWatchlist
  split
  · rename_i hnone
    exact absurd (hnone.symm.trans hauth) (by simp)
  · exact ⟨_, _, rfl⟩

lemma mem_memberIds : security ∈ db.memberIds id ↔ (id, security) ∈ db.items.keys := by
  rw [memberIds, List.mem_map]
  constructor
  · rintro ⟨⟨id', security'⟩, hmem, rfl⟩
    obtain ⟨hitem, hid⟩ := List.mem_filter.1 hmem
    obtain rfl : id' = id := of_decide_eq_true hid
    exact hitem
  · intro hmem
    exact ⟨(id, security), List.mem_filter.2 ⟨hmem, decide_eq_true rfl⟩, rfl⟩

/-- The primary key of `watchlist_items`: a security is on a watchlist once. -/
lemma nodup_memberIds (db : WatchlistDb) (id : WatchlistId) : (db.memberIds id).Nodup := by
  refine List.Nodup.map_on ?_ (db.items.nodup_keys.filter _)
  rintro ⟨id₁, security₁⟩ h₁ ⟨id₂, security₂⟩ h₂ rfl
  have hid₁ := of_decide_eq_true (List.mem_filter.1 h₁).2
  have hid₂ := of_decide_eq_true (List.mem_filter.1 h₂).2
  exact Prod.ext (hid₁.trans hid₂.symm) rfl

lemma exists_memberRow (h : security ∈ db.memberIds id) :
    ∃ row, db.catalog.memberRow security = some row ∧ row.id = security := by
  obtain ⟨s, hs⟩ := Option.isSome_iff_exists.1 (db.item_security _ (mem_memberIds.1 h))
  exact ⟨_, congrArg (Option.map _) hs, rfl⟩

/-- Every item joins with exactly one security. -/
theorem map_id_members_perm (coll : Collation) (db : WatchlistDb) (id : WatchlistId) :
    ((db.members coll id).map MemberRow.id).Perm (db.memberIds id) := by
  have hjoin : ∀ l : List SecurityId, (∀ security ∈ l, security ∈ db.memberIds id) →
      (l.filterMap db.catalog.memberRow).map MemberRow.id = l := by
    intro l hl
    induction l with
    | nil => rfl
    | cons security l ih =>
      obtain ⟨row, hrow, hid⟩ := exists_memberRow (hl security List.mem_cons_self)
      rw [List.filterMap_cons_some hrow, List.map_cons, hid,
        ih fun s hs => hl s (List.mem_cons_of_mem _ hs)]
  rw [members]
  have hperm := (List.perm_insertionSort coll.Before
    ((db.memberIds id).filterMap db.catalog.memberRow)).map MemberRow.id
  rwa [hjoin _ fun _ h => h] at hperm

lemma memberRow_of_mem_members {row : MemberRow} (h : row ∈ db.members coll id) :
    db.catalog.memberRow row.id = some row := by
  rw [members, List.mem_insertionSort] at h
  obtain ⟨security, -, hrow⟩ := List.mem_filterMap.1 h
  rwa [Catalog.id_of_memberRow hrow]

lemma pairwise_members (coll : Collation) (db : WatchlistDb) (id : WatchlistId) :
    (db.members coll id).Pairwise coll.Before := List.pairwise_insertionSort coll.Before _

lemma members_congr (hids : db'.memberIds id' = db.memberIds id)
    (hcatalog : db'.catalog = db.catalog) : db'.members coll id' = db.members coll id := by
  rw [members, members, hids, hcatalog]

lemma memberIds_congr (h : db'.items = db.items) (id : WatchlistId) :
    db'.memberIds id = db.memberIds id := by rw [memberIds, memberIds, h]

/-- What an insert does: the security is a member afterwards, at the end if it is new. -/
theorem add_eq_some {b : Bool} (h : db.add id security = some (b, db')) :
    db'.auth = db.auth ∧ db'.catalog = db.catalog ∧
      (b = true ↔ security ∉ db.memberIds id) ∧
      ∀ id', db'.memberIds id' =
        if id' = id ∧ b = true then db.memberIds id' ++ [security] else db.memberIds id' := by
  rw [mem_memberIds]
  unfold add at h
  split at h
  · split at h
    · rename_i hmem
      obtain ⟨rfl, rfl⟩ := Prod.mk.inj (Option.some.inj h)
      exact ⟨rfl, rfl, by simp [hmem], fun id' => by simp⟩
    · rename_i hmem
      obtain ⟨rfl, rfl⟩ := Prod.mk.inj (Option.some.inj h)
      refine ⟨rfl, rfl, by simp [hmem], fun id' => ?_⟩
      rw [memberIds, Dict.keys_set_of_notMem _ hmem, List.filter_append, List.map_append]
      by_cases hid : id' = id
      · subst hid
        simp [memberIds]
      · simp [hid, Ne.symm hid, memberIds]
  · exact absurd h (by simp)

lemma exists_add (hid : (db.auth.watchlists.get? id).isSome = true)
    (hsecurity : (db.catalog.get security).isSome = true) :
    ∃ b db', db.add id security = some (b, db') := by
  unfold add
  rw [dif_pos ⟨hid, hsecurity⟩]
  split
  · exact ⟨_, _, rfl⟩
  · exact ⟨_, _, rfl⟩

@[simp] lemma auth_remove (db : WatchlistDb) (id : WatchlistId) (security : SecurityId) :
    (db.remove id security).2.auth = db.auth := rfl

@[simp] lemma catalog_remove (db : WatchlistDb) (id : WatchlistId) (security : SecurityId) :
    (db.remove id security).2.catalog = db.catalog := rfl

lemma remove_fst_iff : (db.remove id security).1 = true ↔ security ∈ db.memberIds id := by
  rw [mem_memberIds]
  exact Dict.contains_iff

/-- What a delete does: the security is not a member afterwards. -/
theorem memberIds_remove (db : WatchlistDb) (id : WatchlistId) (security : SecurityId)
    (id' : WatchlistId) : (db.remove id security).2.memberIds id' =
      if id' = id then (db.memberIds id').filter fun s => decide (s ≠ security)
      else db.memberIds id' := by
  have hkeys : (db.remove id security).2.items.keys =
      db.items.keys.filter fun e => decide (e ≠ (id, security)) := Dict.keys_erase _ _
  rw [memberIds, hkeys, List.filter_filter]
  split
  · rename_i hid
    subst hid
    rw [memberIds, List.filter_map, List.filter_filter]
    refine congrArg (List.map Prod.snd) (List.filter_congr fun e _ => ?_)
    obtain ⟨id₁, security₁⟩ := e
    by_cases hid : id₁ = id'
    · simp [hid]
    · simp [hid]
  · rename_i hid
    refine congrArg (List.map Prod.snd) (List.filter_congr fun e _ => ?_)
    obtain ⟨id₁, security₁⟩ := e
    by_cases hid₁ : id₁ = id'
    · subst hid₁
      simp [hid]
    · simp [hid₁]

end WatchlistDb

end TickerWatch
