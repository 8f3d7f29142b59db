import TickerWatch.Foundations.Like
import TickerWatch.Foundations.Ranking
import TickerWatch.Seed.CopyRecords
import TickerWatch.Seed.PadCatalog

/-!
# Seeding users

`seed` of `tools/seed/seed_users.py`.  Users come in batches, one transaction each: the users, their
default watchlists, and up to ten securities on each of these.  A run can be cut off between two
batches, and the next one goes on from the number of load users it finds.

That number is the highest one in use as long as nobody else has such a name, so a run never
generates a name that is taken, and the ids it reads back are those of its batch: no batch is
refused, and whoever is no load user keeps everything (`seeding_resumes`).

What the random generator gives is an argument, as is where the run is cut off.
-/

namespace TickerWatch
namespace SeedUsers

/-- `PRESETS`. -/
inductive Preset
  | small
  | medium
  | million
  deriving DecidableEq, Repr

/-- `PRESETS[preset]`. -/
def Preset.users : Preset → ℕ
  | .small => 10000
  | .medium => 100000
  | .million => 1000000

/-- `ITEMS_PER_USER`. -/
def itemsPerUser : ℕ := 10

/-- `OVERSAMPLE`. -/
def oversample : ℕ := 6

/-- `COPY_BATCH`. -/
def copyBatch : ℕ := 50000

/-- `POPULARITY`. -/
def popularity : List Ticker :=
  ["NVDA", "TSLA", "AAPL", "AMZN", "META", "MSFT", "GOOG", "AMD", "PLTR", "COIN", "GME", "NFLX",
    "INTC", "HOOD", "SHOP", "UBER", "DIS", "SNAP", "SPOT", "NIO", "F", "BAC", "PYPL", "MRNA",
    "ABNB", "LYFT", "AFRM", "SBUX", "BYND", "PTON", "T", "KO"]

/-- What `random.Random` gives: a shuffle is a permutation, and `choices` draws `k` of a population,
with repetitions.  The draws come one for each watchlist, so the watchlist tells them apart. -/
structure Rng where
  shuffle : List SecurityId → List SecurityId
  shuffle_perm : ∀ l, (shuffle l).Perm l
  choices : List SecurityId → ℕ → WatchlistId → List SecurityId
  choices_mem : ∀ l k w, ∀ s ∈ choices l k w, s ∈ l
  length_choices : ∀ l k w, l ≠ [] → (choices l k w).length = k

/-! ## The records -/

/-- `SELECT id, ticker FROM securities ORDER BY id`. -/
def selectSecurities (c : Catalog) : List (SecurityId × Ticker) :=
  (c.rows.entries.map fun e => (e.1, e.2.ticker)).insertionSort fun a b => a.1 ≤ b.1

/-- `rank_securities`. -/
def rankSecurities (rng : Rng) (rows : List (SecurityId × Ticker)) : List SecurityId :=
  let byTicker : Dict Ticker SecurityId := .ofList (rows.map Prod.swap)
  let ranked := popularity.filterMap byTicker.get?
  let remainder := (rows.map Prod.fst).filter fun id => decide (id ∉ ranked)
  ranked ++ rng.shuffle remainder

/-- `f"load_user_{i}"`. -/
def loadUser (i : ℕ) : String := "load_user_" ++ toString i

/-- A row of `user_records`. -/
def userRecord (passwordHash : String) (i : ℕ) : UserRow where
  username := loadUser i
  passwordHash := passwordHash
  email := some (loadUser i ++ "@example.com")
  firstName := "Load"
  lastName := "User"

/-- `user_records`. -/
def userRecords (count : ℕ) (passwordHash : String) (offset : ℕ) : List UserRow :=
  (List.range count).map fun k => userRecord passwordHash (offset + 1 + k)

/-- `list(dict.fromkeys(draw(...)))[:ITEMS_PER_USER]`. -/
def picked (rng : Rng) (securityIds : List SecurityId) (watchlist : WatchlistId) :
    List SecurityId :=
  let drawn := rng.choices securityIds (itemsPerUser + oversample) watchlist
  (Dict.ofList (drawn.map fun security => (security, ()))).keys.take itemsPerUser

/-- `item_records`. -/
def itemRecords (rng : Rng) (watchlistIds : List WatchlistId) (securityIds : List SecurityId) :
    List (WatchlistId × SecurityId) :=
  watchlistIds.flatMap fun watchlist =>
    (picked rng securityIds watchlist).map fun security => (watchlist, security)

/-- `username LIKE 'load\_user\_%'`. -/
def isLoadUser (row : UserRow) : Bool :=
  (Like.parse "load\\_user\\_%".toList).any fun ps => Like.accepts ps row.username.toList

/-! ## The run -/

/-- How a run ends: it is cut off before its next batch, it finds no securities, a statement is
refused, or it is done. -/
inductive SeedStatus
  | cut
  | noSecurities
  | refused
  | done
  deriving DecidableEq, Repr

/-- `SELECT id FROM users WHERE username LIKE ... ORDER BY id DESC LIMIT batch`. -/
def newUserIds (batch : ℕ) (db : WatchlistDb) : List UserId :=
  firstN (· ≥ ·) batch (db.auth.users.idsWhere fun _ row => isLoadUser row)

/-- `SELECT id FROM watchlists WHERE user_id = ANY(users)`, in any order, here that of the table. -/
def watchlistIds (users : List UserId) (db : WatchlistDb) : List WatchlistId :=
  db.auth.watchlists.idsWhere fun _ row => decide (row.userId ∈ users)

/-- One batch, in a transaction. -/
def seedBatch (rng : Rng) (securityIds : List SecurityId) (passwordHash : String)
    (offset batch : ℕ) (db : WatchlistDb) : Option WatchlistDb :=
  (db.copyUsers (userRecords batch passwordHash offset)).bind fun db =>
    let users := newUserIds batch db
    (db.copyWatchlists (users.map fun user => ⟨user, "default"⟩)).bind fun db =>
      db.copyItems (itemRecords rng (watchlistIds users db) securityIds)

/-- `while done < remaining`, for at most `stop` batches.  A batch that is refused is rolled back; of
its effects on the sequences nothing is kept here. -/
def seedLoop (rng : Rng) (securityIds : List SecurityId) (passwordHash : String)
    (offset remaining : ℕ) : ℕ → ℕ → WatchlistDb → WatchlistDb × SeedStatus
  | 0, done, db => (db, if done < remaining then .cut else .done)
  | stop + 1, done, db =>
    if done < remaining then
      let batch := min copyBatch (remaining - done)
      match seedBatch rng securityIds passwordHash (offset + done) batch db with
      | none => (db, .refused)
      | some db => seedLoop rng securityIds passwordHash offset remaining stop (done + batch) db
    else (db, .done)

lemma get_of_padCatalog {c c' : Catalog} {target added : ℤ} {id : SecurityId}
    (h : padCatalog c target = some (added, c')) (hget : (c.get id).isSome = true) :
    (c'.get id).isSome = true := by
  by_cases hle : target ≤ c.rows.size
  · rw [padCatalog_of_le hle] at h
    obtain ⟨-, rfl⟩ := Prod.mk.inj (Option.some.inj h)
    exact hget
  · rw [padCatalog_of_lt hle] at h
    obtain ⟨c'', hcopy, heq⟩ := Option.map_eq_some_iff.1 h
    obtain ⟨-, rfl⟩ := Prod.mk.inj heq
    obtain ⟨row, hrow⟩ := Option.isSome_iff_exists.1 hget
    exact Option.isSome_iff_exists.2 ⟨row, (Catalog.Copied.of_copyRows hcopy).kept _ _ hrow⟩

/-- `if catalog_size: await pad_catalog(conn, catalog_size)`. -/
def padTo (catalogSize : Option ℤ) (db : WatchlistDb) : Option WatchlistDb :=
  match catalogSize with
  | none => some db
  | some size =>
    if size = 0 then some db
    else
      match h : padCatalog db.catalog size with
      | none => none
      | some (_, catalog) => some { db with
          catalog := catalog
          item_security := fun e he => get_of_padCatalog h (db.item_security e he) }

/-- `seed`, cut off after `stop` batches if it is not done by then. -/
def seed (rng : Rng) (passwordHash : String) (preset : Preset) (catalogSize : Option ℤ)
    (truncate : Bool) (stop : ℕ) (db : WatchlistDb) : WatchlistDb × SeedStatus :=
  let db := if truncate then db.deleteUsers isLoadUser else db
  match padTo catalogSize db with
  | none => (db, .refused)
  | some db =>
    let rows := selectSecurities db.catalog
    if rows.isEmpty then (db, .noSecurities)
    else
      let offset := db.auth.users.count fun _ row => isLoadUser row
      seedLoop rng (rankSecurities rng rows) passwordHash offset (preset.users - offset) stop 0 db

/-! ## What a run promises -/

/-- The load users are those numbered up to `n`, and each has its default watchlist with up to ten
securities. -/
structure Seeded (db : WatchlistDb) (n : ℕ) : Prop where
  numbered : ∀ id row, db.auth.users.get? id = some row → isLoadUser row = true →
    ∃ i, 1 ≤ i ∧ i ≤ n ∧ row.username = loadUser i
  watching : ∀ i, 1 ≤ i → i ≤ n → ∃ id row w, db.auth.users.get? id = some row ∧
    row.username = loadUser i ∧ db.auth.watchlists.get? w = some ⟨id, "default"⟩ ∧
    db.memberIds w ≠ [] ∧ (db.memberIds w).length ≤ itemsPerUser

/-- A watchlist of somebody who is no load user. -/
def Foreign (db : WatchlistDb) (w : WatchlistId) (row : WatchlistRow) : Prop :=
  db.auth.watchlists.get? w = some row ∧
    ∃ user, db.auth.users.get? row.userId = some user ∧ isLoadUser user = false

/-- Whoever is no load user keeps everything. -/
structure Keeps (db db' : WatchlistDb) : Prop where
  users : ∀ id row, db.auth.users.get? id = some row → isLoadUser row = false →
    db'.auth.users.get? id = some row
  watchlists : ∀ w row, Foreign db w row → Foreign db' w row ∧ db'.memberIds w = db.memberIds w

lemma Keeps.refl (db : WatchlistDb) : Keeps db db := ⟨fun _ _ h _ => h, fun _ _ h => ⟨h, rfl⟩⟩

lemma Keeps.trans {db db' db'' : WatchlistDb} (h : Keeps db db') (h' : Keeps db' db'') :
    Keeps db db'' := by
  refine ⟨fun id row hrow hnot => h'.users id row (h.users id row hrow hnot) hnot,
    fun w row hw => ?_⟩
  obtain ⟨hmid, hmembers⟩ := h.watchlists w row hw
  obtain ⟨hlast, hmembers'⟩ := h'.watchlists w row hmid
  exact ⟨hlast, hmembers'.trans hmembers⟩

/-! ## Names -/

lemma isLoadUser_iff {row : UserRow} :
    isLoadUser row = true ↔ "load_user_".toList <+: row.username.toList := by
  have hparse : Like.parse "load\\_user\\_%".toList =
      some ("load_user_".toList.map Like.Piece.char ++ [.any]) := by decide +kernel
  rw [isLoadUser, hparse, Option.any_some, Like.accepts_iff, Like.mem_language_append_any]
  simp only [Like.mem_language_map_char, exists_eq_left]

lemma isLoadUser_userRecord (passwordHash : String) (i : ℕ) :
    isLoadUser (userRecord passwordHash i) = true := by
  rw [isLoadUser_iff]
  show "load_user_".toList <+: ("load_user_" ++ toString i).toList
  rw [String.toList_append]
  exact List.prefix_append _ _

@[simp] lemma userRecord_username (passwordHash : String) (i : ℕ) :
    (userRecord passwordHash i).username = loadUser i := rfl

lemma loadUser_injective : Function.Injective loadUser := by
  intro i j h
  have hchars := congrArg String.toList h
  rw [loadUser, loadUser, String.toList_append, String.toList_append] at hchars
  have hdigits : toString i = toString j := String.toList_injective (List.append_cancel_left hchars)
  have hint : toString (i : ℤ) = toString (j : ℤ) := hdigits
  have hparse := congrArg Text.parseInt hint
  rw [Text.parseInt_toString, Text.parseInt_toString] at hparse
  exact_mod_cast Option.some.inj hparse

/-- The load users are counted by their numbers. -/
lemma Seeded.count {db : WatchlistDb} {n : ℕ} (h : Seeded db n) :
    db.auth.users.count (fun _ row => isLoadUser row) = n := by
  set found := db.auth.users.rows.entries.filter fun e => isLoadUser e.2 with hfound
  have hget : ∀ e ∈ found, db.auth.users.get? e.1 = some e.2 ∧ isLoadUser e.2 = true := by
    intro e he
    obtain ⟨hmem, hload⟩ := List.mem_filter.1 he
    exact ⟨Dict.get?_eq_some_iff.2 hmem, hload⟩
  have hnodup : (found.map fun e => e.2.username).Nodup := by
    refine List.Nodup.map_on (fun e he e' he' heq => ?_)
      ((List.Nodup.of_map _ db.auth.users.rows.nodup_keys).filter _)
    have hid := db.auth.users.key_unique _ _ _ _ (hget e he).1 (hget e' he').1 heq
    exact Prod.ext hid (Option.some.inj ((hid ▸ (hget e he).1).symm.trans (hget e' he').1))
  have hnames : ((List.range n).map fun k => loadUser (k + 1)).Nodup :=
    List.Nodup.map (fun i j hij => by simpa using loadUser_injective hij) List.nodup_range
  -- the load users have the names up to `n`, each of them one
  have hperm : (found.map fun e => e.2.username).Perm
      ((List.range n).map fun k => loadUser (k + 1)) := by
    refine (List.perm_ext_iff_of_nodup hnodup hnames).2 fun name => ?_
    simp only [List.mem_map, List.mem_range]
    constructor
    · rintro ⟨e, he, rfl⟩
      obtain ⟨hrow, hload⟩ := hget e he
      obtain ⟨i, hpos, hle, hname⟩ := h.numbered e.1 e.2 hrow hload
      exact ⟨i - 1, by omega, by rw [hname, Nat.sub_add_cancel hpos]⟩
    · rintro ⟨k, hk, rfl⟩
      obtain ⟨id, row, -, hrow, hname, -⟩ := h.watching (k + 1) (by omega) (by omega)
      refine ⟨(id, row), List.mem_filter.2 ⟨Dict.get?_eq_some_iff.1 hrow, ?_⟩, hname⟩
      rw [isLoadUser_iff, hname, ← userRecord_username "" (k + 1), ← isLoadUser_iff]
      exact isLoadUser_userRecord _ _
  have hlength := hperm.length_eq
  rw [List.length_map, List.length_map, List.length_range] at hlength
  exact hlength

/-! ## The ranking -/

variable {c : Catalog} {rng : Rng} {rows : List (SecurityId × Ticker)}

lemma perm_selectSecurities (c : Catalog) :
    (selectSecurities c).Perm (c.rows.entries.map fun e => (e.1, e.2.ticker)) :=
  List.perm_insertionSort _ _

lemma ids_selectSecurities (c : Catalog) : ((selectSecurities c).map Prod.fst).Perm c.rows.keys := by
  have hperm := (perm_selectSecurities c).map Prod.fst
  rwa [List.map_map] at hperm

lemma nodup_tickers_selectSecurities (c : Catalog) :
    ((selectSecurities c).map Prod.snd).Nodup := by
  have hperm := (perm_selectSecurities c).map Prod.snd
  rw [List.map_map] at hperm
  refine hperm.nodup_iff.2 (List.Nodup.map_on (fun e he e' he' heq => ?_)
    (List.Nodup.of_map _ c.rows.nodup_keys))
  have hrow := Dict.get?_eq_some_iff.2 he
  have hrow' := Dict.get?_eq_some_iff.2 he'
  have hid := c.ticker_unique _ _ _ _ hrow hrow' heq
  exact Prod.ext hid (Option.some.inj ((hid ▸ hrow).symm.trans hrow'))

lemma get?_byTicker (htickers : (rows.map Prod.snd).Nodup) {t : Ticker} {id : SecurityId} :
    (Dict.ofList (rows.map Prod.swap)).get? t = some id ↔ (id, t) ∈ rows := by
  constructor
  · intro h
    obtain ⟨e, he, heq⟩ := List.mem_map.1 (Dict.mem_of_get?_ofList h)
    obtain ⟨rfl, rfl⟩ := Prod.mk.inj heq
    exact he
  · intro h
    refine Dict.get?_ofList_of_unique (List.mem_map.2 ⟨_, h, rfl⟩) fun id' h' => ?_
    obtain ⟨e, he, heq⟩ := List.mem_map.1 h'
    obtain ⟨rfl, rfl⟩ := Prod.mk.inj heq
    exact congrArg Prod.fst (List.inj_on_of_nodup_map htickers he h rfl)

lemma mem_selectSecurities {id : SecurityId} {t : Ticker} :
    (id, t) ∈ selectSecurities c ↔ c.Lists id t := by
  rw [(perm_selectSecurities c).mem_iff, List.mem_map]
  constructor
  · rintro ⟨e, he, heq⟩
    obtain ⟨rfl, rfl⟩ := Prod.mk.inj heq
    exact ⟨e.2, Dict.get?_eq_some_iff.2 he, rfl⟩
  · rintro ⟨row, hrow, rfl⟩
    exact ⟨(id, row), Dict.get?_eq_some_iff.1 hrow, rfl⟩

/-- What is looked up in order stands in the order of what it was looked up for. -/
lemma forall₂_filterMap {α β : Type*} {R : β → α → Prop} {f : α → Option β} {p : α → Bool}
    (h : ∀ a, f a = none ∧ p a = false ∨ ∃ b, f a = some b ∧ p a = true ∧ R b a) (l : List α) :
    List.Forall₂ R (l.filterMap f) (l.filter p) := by
  induction l with
  | nil => exact .nil
  | cons a l ih =>
    rcases h a with ⟨hf, hp⟩ | ⟨b, hf, hp, hR⟩
    · rw [List.filterMap_cons_none hf, List.filter_cons_of_neg (by simp [hp])]
      exact ih
    · rw [List.filterMap_cons_some hf, List.filter_cons_of_pos hp]
      exact .cons hR ih

/-- **The ranking orders the catalog.**  It is a permutation of the ids, and starts with those of
the listed tickers that are popular, in their order, whatever the shuffle does behind them. -/
theorem rankSecurities_spec (rng : Rng) (c : Catalog) :
    (rankSecurities rng (selectSecurities c)).Perm c.rows.keys ∧
    ∃ ranked rest, rankSecurities rng (selectSecurities c) = ranked ++ rest ∧
      List.Forall₂ (fun id t => c.Lists id t) ranked
        (popularity.filter fun t => (c.findTicker t).isSome) := by
  have hget : ∀ t id, (Dict.ofList ((selectSecurities c).map Prod.swap)).get? t = some id ↔
      c.Lists id t := fun t id =>
    (get?_byTicker (nodup_tickers_selectSecurities c)).trans mem_selectSecurities
  have hids := ids_selectSecurities c
  have hnodup : ((selectSecurities c).map Prod.fst).Nodup := hids.nodup_iff.2 c.rows.nodup_keys
  refine ⟨?_, _, _, rfl, forall₂_filterMap (fun t => ?_) popularity⟩
  · refine List.Perm.trans ?_ hids
    have hperm := rng.shuffle_perm (((selectSecurities c).map Prod.fst).filter fun id =>
      decide (id ∉ popularity.filterMap (Dict.ofList ((selectSecurities c).map Prod.swap)).get?))
    -- the popular ones are distinct, since every ticker names one security
    have hranked : (popularity.filterMap
        (Dict.ofList ((selectSecurities c).map Prod.swap)).get?).Nodup :=
      List.Nodup.filterMap (fun t t' id ht ht' =>
        ((hget t id).1 ht).ticker_unique ((hget t' id).1 ht')) (by decide)
    refine (List.perm_ext_iff_of_nodup (List.Nodup.append hranked
      (hperm.nodup_iff.2 (hnodup.filter _)) fun id hid hrest => ?_) hnodup).2 fun id => ?_
    · exact absurd hid (by simpa using (List.mem_filter.1 (hperm.mem_iff.1 hrest)).2)
    · rw [List.mem_append, hperm.mem_iff, List.mem_filter]
      constructor
      · rintro (hid | hid)
        · obtain ⟨t, -, ht⟩ := List.mem_filterMap.1 hid
          exact List.mem_map.2 ⟨(id, t), mem_selectSecurities.2 ((hget t id).1 ht), rfl⟩
        · exact hid.1
      · intro hid
        exact or_iff_not_imp_left.2 fun hnot => ⟨hid, decide_eq_true hnot⟩
  · cases hfind : c.findTicker t with
    | none =>
      refine Or.inl ⟨Option.eq_none_iff_forall_ne_some.2 fun id hid => ?_, rfl⟩
      exact Catalog.findTicker_none hfind ((hget t id).1 hid)
    | some e =>
      obtain ⟨id, row⟩ := e
      have hlists : c.Lists id t := ⟨row, Catalog.findTicker_some hfind⟩
      exact Or.inr ⟨id, (hget t id).2 hlists, rfl, hlists⟩

/-! ## A batch -/

section Batch

variable {users users' : Table UserRow.username} {passwordHash : String} {offset batch : ℕ}

lemma getElem?_userRecords (k : ℕ) (row : UserRow) :
    (userRecords batch passwordHash offset)[k]? = some row ↔
      k < batch ∧ row = userRecord passwordHash (offset + 1 + k) := by
  rw [userRecords, List.getElem?_map]
  by_cases hk : k < batch
  · rw [List.getElem?_range hk, Option.map_some, Option.some_inj]
    exact ⟨fun h => ⟨hk, h.symm⟩, fun h => h.2.symm⟩
  · rw [List.getElem?_eq_none (by simpa using hk)]
    exact iff_of_false (by simp) fun h => hk h.1

/-- **The ids that are read back are those of the batch**: the sequence gave it the highest. -/
lemma newUserIds_eq (h : users.Copied (userRecords batch passwordHash offset) users') :
    firstN (· ≥ ·) batch (users'.idsWhere fun _ row => isLoadUser row) =
      (List.range batch).reverse.map fun k : ℕ => users.nextId + k := by
  set ids := users'.idsWhere fun _ row => isLoadUser row with hids
  have hnodup : ids.Nodup := Dict.nodup_keys _
  -- the ids of the batch are among those of the load users, and all others are lower
  have hnew : ∀ k : ℕ, k < batch → users.nextId + k ∈ ids := by
    intro k hk
    refine Table.mem_idsWhere.2 ⟨userRecord passwordHash (offset + 1 + k), ?_,
      isLoadUser_userRecord _ _⟩
    exact (h.get?_iff _ _).2 (Or.inr ⟨k, rfl, (getElem?_userRecords _ _).2 ⟨hk, rfl⟩⟩)
  have hold : ∀ id ∈ ids, id < users.nextId ∨ ∃ k : ℕ, k < batch ∧ id = users.nextId + k := by
    intro id hid
    obtain ⟨row, hrow, -⟩ := Table.mem_idsWhere.1 hid
    rcases (h.get?_iff _ _).1 hrow with hget | ⟨k, hk, hrec⟩
    · exact Or.inl (users.id_lt id row hget)
    · exact Or.inr ⟨k, ((getElem?_userRecords _ _).1 hrec).1, hk⟩
  have hdescend : ((List.range batch).reverse.map fun k : ℕ => users.nextId + k).Pairwise
      (· ≥ ·) := by
    rw [List.pairwise_map, List.pairwise_reverse]
    exact List.pairwise_lt_range.imp fun hlt => by omega
  have hmem : ∀ id, id ∈ ((List.range batch).reverse.map fun k : ℕ => users.nextId + (k : ℤ)) ↔
      ∃ k : ℕ, k < batch ∧ id = users.nextId + k := by
    intro id
    simp only [List.mem_map, List.mem_reverse, List.mem_range]
    exact exists_congr fun k => and_congr_right fun _ => eq_comm
  have hsub : ((List.range batch).reverse.map fun k : ℕ => users.nextId + (k : ℤ)).Subperm ids := by
    refine List.subperm_of_subset (List.Nodup.map (fun i j hij => by omega)
      (List.nodup_reverse.2 List.nodup_range)) fun id hid => ?_
    obtain ⟨k, hk, rfl⟩ := (hmem id).1 hid
    exact hnew k hk
  -- so they are the first of them in descending order
  refine IsFirst.unique hnodup (fun a _ b _ hab hba => le_antisymm hba hab) (isFirst_firstN _ _)
    ⟨hdescend, hsub, ?_, fun a ha b hb hnot => ?_⟩
  · have hle := hsub.length_le
    simp only [List.length_map, List.length_reverse, List.length_range] at hle ⊢
    omega
  · obtain ⟨k, -, rfl⟩ := (hmem a).1 ha
    rcases hold b hb with hlt | hk
    · exact (hlt.le.trans (le_add_of_nonneg_right (Int.natCast_nonneg k)))
    · exact absurd ((hmem b).2 hk) hnot

end Batch

/-- A watchlist gets up to ten securities, each once. -/
lemma picked_spec (rng : Rng) {securityIds : List SecurityId} (hne : securityIds ≠ [])
    (w : WatchlistId) : (picked rng securityIds w).Nodup ∧ picked rng securityIds w ≠ [] ∧
      (picked rng securityIds w).length ≤ itemsPerUser ∧
      ∀ s ∈ picked rng securityIds w, s ∈ securityIds := by
  unfold picked
  dsimp only
  set drawn := rng.choices securityIds (itemsPerUser + oversample) w with hdrawn
  have hkeys : ∀ s, s ∈ (Dict.ofList (drawn.map fun s => (s, ()))).keys ↔ s ∈ drawn := by
    intro s
    rw [← Dict.contains_iff, Dict.contains_ofList_iff, List.map_map]
    exact List.mem_map.trans (by simp)
  have hdrawn_ne : drawn ≠ [] := by
    intro hnil
    have hlength := rng.length_choices securityIds (itemsPerUser + oversample) w hne
    rw [← hdrawn, hnil] at hlength
    exact absurd hlength (by decide)
  refine ⟨(Dict.nodup_keys _).sublist (List.take_sublist _ _), ?_, ?_, fun s hs => ?_⟩
  · obtain ⟨s, hs⟩ := List.exists_mem_of_ne_nil _ hdrawn_ne
    have hne' := List.ne_nil_of_mem ((hkeys s).2 hs)
    rw [Ne, List.take_eq_nil_iff, not_or]
    exact ⟨by decide, hne'⟩
  · rw [List.length_take]
    exact min_le_left _ _
  · exact rng.choices_mem _ _ _ _ ((hkeys s).1 (List.mem_of_mem_take hs))

lemma mem_itemRecords {rng : Rng} {ws : List WatchlistId} {securityIds : List SecurityId}
    {e : WatchlistId × SecurityId} :
    e ∈ itemRecords rng ws securityIds ↔ e.1 ∈ ws ∧ e.2 ∈ picked rng securityIds e.1 := by
  rw [itemRecords, List.mem_flatMap]
  constructor
  · rintro ⟨w, hw, he⟩
    obtain ⟨s, hs, rfl⟩ := List.mem_map.1 he
    exact ⟨hw, hs⟩
  · rintro ⟨hw, hs⟩
    exact ⟨e.1, hw, List.mem_map.2 ⟨e.2, hs, rfl⟩⟩

lemma nodup_itemRecords {rng : Rng} {ws : List WatchlistId} {securityIds : List SecurityId}
    (hne : securityIds ≠ []) (hws : ws.Nodup) : (itemRecords rng ws securityIds).Nodup := by
  refine List.nodup_flatMap.2 ⟨fun w _ => ?_, hws.imp fun hne' => ?_⟩
  · exact (picked_spec rng hne w).1.map fun a b hab => (Prod.mk.inj hab).2
  · intro e he he'
    obtain ⟨s, -, rfl⟩ := List.mem_map.1 he
    obtain ⟨s', -, heq⟩ := List.mem_map.1 he'
    exact hne' (congrArg Prod.fst heq).symm

/-- What the records put on one of the watchlists. -/
lemma filter_itemRecords {rng : Rng} {ws : List WatchlistId} {securityIds : List SecurityId}
    {w : WatchlistId} (hws : ws.Nodup) :
    ((itemRecords rng ws securityIds).filter fun e => decide (e.1 = w)).map Prod.snd =
      if w ∈ ws then picked rng securityIds w else [] := by
  induction ws with
  | nil => rfl
  | cons w' ws ih =>
    rw [List.nodup_cons] at hws
    rw [itemRecords, List.flatMap_cons, List.filter_append, List.map_append, ← itemRecords,
      ih hws.2]
    by_cases hw : w = w'
    · subst hw
      have hall : ((picked rng securityIds w).map fun s => (w, s)).filter
          (fun e => decide (e.1 = w)) = (picked rng securityIds w).map fun s => (w, s) :=
        List.filter_eq_self.2 fun e he => by
          obtain ⟨s, -, rfl⟩ := List.mem_map.1 he
          exact decide_eq_true rfl
      rw [hall, if_neg hws.1, if_pos List.mem_cons_self, List.map_map, List.append_nil]
      exact List.map_id _
    · have hnone : ((picked rng securityIds w').map fun s => (w', s)).filter
          (fun e => decide (e.1 = w)) = [] :=
        List.filter_eq_nil_iff.2 fun e he => by
          obtain ⟨s, -, rfl⟩ := List.mem_map.1 he
          simpa using Ne.symm hw
      rw [hnone, List.map_nil, List.nil_append]
      refine ite_congr (propext ?_) (fun _ => rfl) fun _ => rfl
      rw [List.mem_cons]
      exact ⟨Or.inr, fun h => h.resolve_left hw⟩

/-- What a batch does: its users under the next ids, a watchlist with securities for each, and
nothing else.  A COPY returns no ids, so they are read back as the last ones of the load users. -/
structure Batched (rng : Rng) (securityIds : List SecurityId) (passwordHash : String)
    (offset batch : ℕ) (db db' : WatchlistDb) : Prop where
  catalog : db'.catalog = db.catalog
  users : db.auth.users.Copied (userRecords batch passwordHash offset) db'.auth.users
  kept : ∀ w row, db.auth.watchlists.get? w = some row →
    db'.auth.watchlists.get? w = some row ∧ db'.memberIds w = db.memberIds w
  watching : ∀ k : ℕ, k < batch → ∃ w,
    db'.auth.watchlists.get? w = some ⟨db.auth.users.nextId + k, "default"⟩ ∧
      db'.memberIds w = picked rng securityIds w

section Batch

variable {db db₁ db₂ : WatchlistDb} {securityIds : List SecurityId} {n batch : ℕ}
  {passwordHash : String}

/-- Names that are numbered past those in use can be copied. -/
lemma exists_copyUsers (hs : Seeded db n) (passwordHash : String) (batch : ℕ) :
    ∃ db₁, db.copyUsers (userRecords batch passwordHash n) = some db₁ := by
  have hfree : ∀ row ∈ userRecords batch passwordHash n,
      db.auth.users.find? row.username = none := by
    intro row hrow
    obtain ⟨k, -, rfl⟩ := List.mem_map.1 hrow
    refine Table.find?_eq_none_iff.2 fun id row' hrow' hname => ?_
    have hload : isLoadUser row' = true := by
      rw [isLoadUser_iff, hname, ← isLoadUser_iff]
      exact isLoadUser_userRecord _ _
    obtain ⟨i, -, hle, hi⟩ := hs.numbered id row' hrow' hload
    have heq := loadUser_injective (hi.symm.trans hname)
    omega
  have hnodup : ((userRecords batch passwordHash n).map UserRow.username).Nodup := by
    rw [userRecords, List.map_map]
    exact List.Nodup.map (fun i j hij => by simpa using loadUser_injective hij) List.nodup_range
  obtain ⟨auth, hauth⟩ := AuthDb.exists_copyUsers hfree hnodup
  exact WatchlistDb.exists_copyUsers hauth

/-- The users of a batch are those under the next ids. -/
lemma mem_newUserIds (h : db.copyUsers (userRecords batch passwordHash n) = some db₁) :
    (newUserIds batch db₁).Nodup ∧
    ∀ u, u ∈ newUserIds batch db₁ ↔ ∃ k : ℕ, k < batch ∧ u = db.auth.users.nextId + k := by
  obtain ⟨husers, -⟩ := AuthDb.copyUsers_eq_some (WatchlistDb.copyUsers_eq_some h).1
  rw [newUserIds, newUserIds_eq husers]
  refine ⟨List.Nodup.map (fun i j hij => by simpa using hij)
    (List.nodup_reverse.2 List.nodup_range), fun u => ?_⟩
  simp only [List.mem_map, List.mem_reverse, List.mem_range]
  exact exists_congr fun k => and_congr_right fun _ => eq_comm

lemma userId_notMem (h : db.copyUsers (userRecords batch passwordHash n) = some db₁)
    {w : WatchlistId} {row : WatchlistRow} (hrow : db.auth.watchlists.get? w = some row) :
    row.userId ∉ newUserIds batch db₁ := by
  intro hnew
  obtain ⟨user, huser⟩ := Option.isSome_iff_exists.1 (db.auth.watchlist_user w row hrow)
  obtain ⟨k, -, hk⟩ := ((mem_newUserIds h).2 _).1 hnew
  have hlt := db.auth.users.id_lt _ _ huser
  rw [hk] at hlt
  exact absurd hlt (not_lt.2 (le_add_of_nonneg_right (Int.natCast_nonneg k)))

lemma exists_copyWatchlists (h : db.copyUsers (userRecords batch passwordHash n) = some db₁) :
    ∃ db₂, db₁.copyWatchlists ((newUserIds batch db₁).map fun user => ⟨user, "default"⟩) =
      some db₂ := by
  obtain ⟨hcopy, -, -⟩ := WatchlistDb.copyUsers_eq_some h
  obtain ⟨husers, hwatchlists⟩ := AuthDb.copyUsers_eq_some hcopy
  obtain ⟨hnodup, hmem⟩ := mem_newUserIds h
  have huser : ∀ row ∈ (newUserIds batch db₁).map fun user => (⟨user, "default"⟩ : WatchlistRow),
      (db₁.auth.users.get? row.userId).isSome = true := by
    intro row hrow
    obtain ⟨u, hu, rfl⟩ := List.mem_map.1 hrow
    obtain ⟨k, hk, rfl⟩ := (hmem u).1 hu
    exact Option.isSome_iff_exists.2 ⟨_, (husers.get?_iff _ _).2
      (Or.inr ⟨k, rfl, (getElem?_userRecords _ _).2 ⟨hk, rfl⟩⟩)⟩
  have hfree : ∀ row ∈ (newUserIds batch db₁).map fun user => (⟨user, "default"⟩ : WatchlistRow),
      db₁.auth.watchlists.find? row.key = none := by
    intro row hrow
    obtain ⟨u, hu, rfl⟩ := List.mem_map.1 hrow
    rw [hwatchlists]
    refine Table.find?_eq_none_iff.2 fun w row' hrow' hkey => userId_notMem h hrow' ?_
    rwa [show row'.userId = u from congrArg Prod.fst hkey]
  have hkeys : (((newUserIds batch db₁).map fun user =>
      (⟨user, "default"⟩ : WatchlistRow)).map WatchlistRow.key).Nodup := by
    rw [List.map_map]
    exact hnodup.map fun u v huv => (Prod.mk.inj huv).1
  obtain ⟨auth, hauth⟩ := AuthDb.exists_copyWatchlists huser hfree hkeys
  exact WatchlistDb.exists_copyWatchlists hauth

/-- The watchlists that are read back are the new ones. -/
lemma mem_watchlistIds (h : db.copyUsers (userRecords batch passwordHash n) = some db₁)
    (h' : db₁.copyWatchlists ((newUserIds batch db₁).map fun user => ⟨user, "default"⟩) =
      some db₂) {w : WatchlistId} : w ∈ watchlistIds (newUserIds batch db₁) db₂ ↔
    ∃ user ∈ newUserIds batch db₁, db₂.auth.watchlists.get? w = some ⟨user, "default"⟩ := by
  have hwatchlists := (AuthDb.copyUsers_eq_some (WatchlistDb.copyUsers_eq_some h).1).2
  have hcopied := (AuthDb.copyWatchlists_eq_some (WatchlistDb.copyWatchlists_eq_some h').1).1
  rw [watchlistIds, Table.mem_idsWhere]
  constructor
  · rintro ⟨row, hrow, hmem⟩
    rcases (hcopied.get?_iff w row).1 hrow with hold | ⟨k, -, hk⟩
    · rw [hwatchlists] at hold
      exact absurd (of_decide_eq_true hmem) (userId_notMem h hold)
    · obtain ⟨user, huser, rfl⟩ := List.mem_map.1 (List.mem_of_getElem? hk)
      exact ⟨user, huser, hrow⟩
  · rintro ⟨user, huser, hrow⟩
    exact ⟨_, hrow, decide_eq_true huser⟩

/-- A batch that is numbered from where the load users end is not refused. -/
lemma batched_of_seeded (hs : Seeded db n) (rng : Rng) (passwordHash : String) (batch : ℕ)
    (hne : securityIds ≠ []) (hlisted : ∀ s ∈ securityIds, (db.catalog.get s).isSome = true) :
    ∃ db', seedBatch rng securityIds passwordHash n batch db = some db' ∧
      Batched rng securityIds passwordHash n batch db db' := by
  obtain ⟨db₁, h₁⟩ := exists_copyUsers hs passwordHash batch
  obtain ⟨db₂, h₂⟩ := exists_copyWatchlists h₁
  obtain ⟨hcopy₁, hcatalog₁, hitems₁⟩ := WatchlistDb.copyUsers_eq_some h₁
  obtain ⟨hcopy₂, hcatalog₂, hitems₂⟩ := WatchlistDb.copyWatchlists_eq_some h₂
  obtain ⟨husers, hwatchlists⟩ := AuthDb.copyUsers_eq_some hcopy₁
  obtain ⟨hcopied, husers₂⟩ := AuthDb.copyWatchlists_eq_some hcopy₂
  rw [hwatchlists] at hcopied
  have hws : (watchlistIds (newUserIds batch db₁) db₂).Nodup := Dict.nodup_keys _
  -- a watchlist under one of the new ids is a new row, since nobody had one
  have hnew : ∀ w ∈ watchlistIds (newUserIds batch db₁) db₂,
      db.auth.watchlists.get? w = none := by
    intro w hw
    obtain ⟨user, huser, hrow⟩ := (mem_watchlistIds h₁ h₂).1 hw
    cases hold : db.auth.watchlists.get? w with
    | none => rfl
    | some row =>
      have hkept := (hcopied.get?_iff w row).2 (Or.inl hold)
      obtain rfl := Option.some.inj (hkept.symm.trans hrow)
      exact absurd huser (userId_notMem h₁ hold)
  -- so the copied items break no constraint: they differ, and their references are there
  obtain ⟨db', hdb', hauth, hcatalog, hkeys⟩ := WatchlistDb.exists_copyItems
    (@nodup_itemRecords rng _ _ hne hws)
    (fun e he (hmem : e ∈ db₂.items.keys) => by
      rw [hitems₂, hitems₁] at hmem
      have hsome := db.item_watchlist e hmem
      rw [hnew e.1 (mem_itemRecords.1 he).1] at hsome
      exact absurd hsome (by simp))
    (fun e he => by
      obtain ⟨user, -, hrow⟩ := (mem_watchlistIds h₁ h₂).1 (mem_itemRecords.1 he).1
      exact Option.isSome_iff_exists.2 ⟨_, hrow⟩)
    (fun e he => by
      rw [hcatalog₂, hcatalog₁]
      exact hlisted _ ((picked_spec rng hne e.1).2.2.2 _ (mem_itemRecords.1 he).2))
  -- and they are all there is on the new watchlists
  have hmembers : ∀ w, db'.memberIds w = db.memberIds w ++
      if w ∈ watchlistIds (newUserIds batch db₁) db₂ then picked rng securityIds w else [] := by
    intro w
    rw [← filter_itemRecords hws]
    rw [hitems₂, hitems₁] at hkeys
    exact WatchlistDb.memberIds_of_keys hkeys
  refine ⟨db', ?_, ?_, ?_, fun w row hrow => ⟨?_, ?_⟩, fun k hk => ?_⟩
  · rw [seedBatch, h₁, Option.bind_some]
    dsimp only
    rw [h₂]
    exact hdb'
  · rw [hcatalog, hcatalog₂, hcatalog₁]
  · rw [hauth, husers₂]
    exact husers
  · rw [hauth]
    exact (hcopied.get?_iff w row).2 (Or.inl hrow)
  · rw [hmembers, if_neg, List.append_nil]
    intro hw
    rw [hnew w hw] at hrow
    exact absurd hrow (by simp)
  · have huser := ((mem_newUserIds h₁).2 _).2 ⟨k, hk, rfl⟩
    obtain ⟨j, hj⟩ := List.mem_iff_getElem?.1 (List.mem_map_of_mem
      (f := fun user => (⟨user, "default"⟩ : WatchlistRow)) huser)
    have hrow := (hcopied.get?_iff _ _).2 (Or.inr ⟨j, rfl, hj⟩)
    have hmem := (mem_watchlistIds h₁ h₂).2 ⟨_, huser, hrow⟩
    refine ⟨db.auth.watchlists.nextId + j, by rw [hauth]; exact hrow, ?_⟩
    have hnone : db.memberIds (db.auth.watchlists.nextId + j) = [] := by
      refine List.eq_nil_iff_forall_not_mem.2 fun s hs => ?_
      have hsome := db.item_watchlist _ (WatchlistDb.mem_memberIds.1 hs)
      rw [hnew _ hmem] at hsome
      exact absurd hsome (by simp)
    rw [hmembers, hnone, if_pos hmem, List.nil_append]

/-- It makes the load users up to the next number, and keeps everybody else. -/
lemma Batched.seeded {db' : WatchlistDb} {rng : Rng} (hs : Seeded db n) (hne : securityIds ≠ [])
    (h : Batched rng securityIds passwordHash n batch db db') :
    Seeded db' (n + batch) ∧ Keeps db db' := by
  refine ⟨⟨fun id row hrow hload => ?_, fun i hpos hle => ?_⟩, fun id row hrow _ => ?_,
    fun w row hw => ?_⟩
  · rcases (h.users.get?_iff id row).1 hrow with hold | ⟨k, -, hk⟩
    · obtain ⟨i, hpos, hle, hname⟩ := hs.numbered id row hold hload
      exact ⟨i, hpos, by omega, hname⟩
    · obtain ⟨hlt, rfl⟩ := (getElem?_userRecords _ _).1 hk
      exact ⟨n + 1 + k, by omega, by omega, rfl⟩
  · by_cases hold : i ≤ n
    · obtain ⟨id, row, w, hrow, hname, hw, hmembers, hsize⟩ := hs.watching i hpos hold
      obtain ⟨hw', heq⟩ := h.kept w _ hw
      exact ⟨id, row, w, (h.users.get?_iff id row).2 (Or.inl hrow), hname, hw', by rwa [heq],
        by rwa [heq]⟩
    · obtain ⟨k, rfl⟩ : ∃ k, i = n + 1 + k := ⟨i - (n + 1), by omega⟩
      have hk : k < batch := by omega
      obtain ⟨w, hw, hmembers⟩ := h.watching k hk
      obtain ⟨-, hpicked, hsize, -⟩ := picked_spec rng hne w
      exact ⟨_, _, w, (h.users.get?_iff _ _).2
        (Or.inr ⟨k, rfl, (getElem?_userRecords _ _).2 ⟨hk, rfl⟩⟩), rfl, hw, by rwa [hmembers],
        by rwa [hmembers]⟩
  · exact (h.users.get?_iff id row).2 (Or.inl hrow)
  · obtain ⟨hrow, user, huser, hnot⟩ := hw
    obtain ⟨hrow', hmembers⟩ := h.kept w row hrow
    exact ⟨⟨hrow', user, (h.users.get?_iff _ _).2 (Or.inl huser), hnot⟩, hmembers⟩

/-- The loop stops between two batches, and is done when it has seeded what remained. -/
lemma seedLoop_spec {offset remaining done : ℕ} (hs : Seeded db (offset + done)) (rng : Rng)
    (passwordHash : String) (stop : ℕ) (hne : securityIds ≠ [])
    (hlisted : ∀ s ∈ securityIds, (db.catalog.get s).isSome = true) (hdone : done ≤ remaining) :
    ∃ m ≤ remaining, ∃ db' status,
      seedLoop rng securityIds passwordHash offset remaining stop done db = (db', status) ∧
      Seeded db' (offset + m) ∧ Keeps db db' ∧ status ≠ .refused ∧ status ≠ .noSecurities ∧
      (status = .done → m = remaining) ∧
      (remaining ≤ done + stop * copyBatch → status = .done) := by
  induction stop generalizing db done with
  -- cut off here: it is done only if nothing remained
  | zero =>
    refine ⟨done, hdone, db, _, rfl, hs, .refl db, ?_, ?_, fun hstatus => ?_, fun hle => ?_⟩
    · split <;> simp
    · split <;> simp
    · split at hstatus
      · exact absurd hstatus (by simp)
      · omega
    · rw [if_neg (by omega)]
  | succ stop ih =>
    rw [seedLoop]
    split
    case isTrue hlt =>
      obtain ⟨mid, hmid, hbatched⟩ := batched_of_seeded hs rng passwordHash
        (min copyBatch (remaining - done)) hne hlisted
      obtain ⟨hseeded, hkeeps⟩ := hbatched.seeded hs hne
      rw [Nat.add_assoc] at hseeded
      -- one more batch, and then the rest of the loop
      obtain ⟨m, hm, db', status, hrun, hs', hkeeps', hrest⟩ := ih hseeded
        (by rw [hbatched.catalog]; exact hlisted) (by omega)
      obtain ⟨hrefused, hnone, hall, henough⟩ := hrest
      dsimp only
      rw [hmid]
      refine ⟨m, hm, db', status, hrun, hs', hkeeps.trans hkeeps', hrefused, hnone, hall,
        fun hle => henough ?_⟩
      rw [Nat.succ_mul] at hle
      omega
    case isFalse hge =>
      exact ⟨done, hdone, db, .done, rfl, hs, .refl db, by simp, by simp, fun _ => by omega,
        fun _ => rfl⟩

end Batch

/-! ## Truncating and padding -/

variable {db : WatchlistDb} {n : ℕ}

/-- Without the load users there are none, and everybody else is still there. -/
lemma seeded_deleteUsers (db : WatchlistDb) :
    Seeded (db.deleteUsers isLoadUser) 0 ∧ Keeps db (db.deleteUsers isLoadUser) := by
  have hnone : ∀ id row, (db.deleteUsers isLoadUser).auth.users.get? id = some row →
      isLoadUser row = false := fun id row hrow => (Table.get?_delete_eq_some_iff.1 hrow).2
  refine ⟨⟨fun id row hrow hload => ?_, fun i hpos hle => ?_⟩, fun id row hrow hnot => ?_,
    fun w row hw => ?_⟩
  · rw [hnone id row hrow] at hload
    exact absurd hload (by simp)
  · exact absurd (hpos.trans hle) (by simp)
  · exact Table.get?_delete_eq_some_iff.2 ⟨hrow, hnot⟩
  · obtain ⟨hrow, user, huser, hnot⟩ := hw
    have hkept : (db.auth.deleteUsers isLoadUser).watchlists.get? w = some row := by
      refine Table.get?_delete_eq_some_iff.2 ⟨hrow, ?_⟩
      rw [huser, Option.any_some]
      exact hnot
    refine ⟨⟨hkept, user, ?_, hnot⟩, ?_⟩
    · exact Table.get?_delete_eq_some_iff.2 ⟨huser, hnot⟩
    have hkeys : (db.deleteUsers isLoadUser).items.keys = db.items.keys.filter fun e =>
        ((db.auth.deleteUsers isLoadUser).watchlists.get? e.1).isSome := by
      rw [Dict.keys, Dict.keys, List.filter_map]
      rfl
    rw [WatchlistDb.memberIds, WatchlistDb.memberIds, hkeys, List.filter_filter]
    refine congrArg (List.map Prod.snd) (List.filter_congr fun e _ => ?_)
    by_cases he : e.1 = w
    · rw [he, hkept, Option.isSome_some, Bool.and_true]
    · rw [decide_eq_false he, Bool.false_and]

lemma padTo_eq_some {catalogSize : Option ℤ} {db' : WatchlistDb}
    (h : padTo catalogSize db = some db') : db'.auth = db.auth ∧ db'.items = db.items := by
  unfold padTo at h
  split at h
  · obtain rfl := Option.some.inj h
    exact ⟨rfl, rfl⟩
  · split at h
    · obtain rfl := Option.some.inj h
      exact ⟨rfl, rfl⟩
    · split at h
      · exact absurd h (by simp)
      · obtain rfl := Option.some.inj h
        exact ⟨rfl, rfl⟩

lemma seeded_congr {db' : WatchlistDb} (hauth : db'.auth = db.auth) (hitems : db'.items = db.items)
    (hs : Seeded db n) : Seeded db' n ∧ Keeps db db' := by
  have hmembers := WatchlistDb.memberIds_congr hitems
  refine ⟨⟨fun id row hrow => hs.numbered id row (hauth ▸ hrow), fun i hpos hle => ?_⟩,
    fun id row hrow _ => hauth ▸ hrow, fun w row hw => ⟨?_, hmembers w⟩⟩
  · obtain ⟨id, row, w, hrow, hname, hw, hne, hsize⟩ := hs.watching i hpos hle
    exact ⟨id, row, w, hauth ▸ hrow, hname, hauth ▸ hw, by rwa [hmembers], by rwa [hmembers]⟩
  · rw [Foreign, hauth]
    exact hw

/-! ## Runs -/

/-- How many load users a run starts from. -/
def startCount (truncate : Bool) (db : WatchlistDb) : ℕ :=
  if truncate then 0 else db.auth.users.count fun _ row => isLoadUser row

/-- **What a run of `seed` leaves**, wherever it is cut off. -/
lemma seed_spec (hs : Seeded db n) (rng : Rng) (passwordHash : String) (preset : Preset)
    (catalogSize : Option ℤ) (truncate : Bool) (stop : ℕ) :
    ∃ m db' status, seed rng passwordHash preset catalogSize truncate stop db = (db', status) ∧
      Seeded db' m ∧ Keeps db db' ∧
      (status = .done → m = max (startCount truncate db) preset.users) ∧
      (catalogSize = none → status ≠ .refused ∧ (db.catalog.rows.entries ≠ [] →
        preset.users ≤ startCount truncate db + stop * copyBatch → status = .done)) := by
  unfold seed
  dsimp only
  set start := if truncate then db.deleteUsers isLoadUser else db with hstart
  -- what the truncation leaves, if it was asked for
  have hstarted : Seeded start (startCount truncate db) ∧ Keeps db start := by
    rw [hstart, startCount]
    cases truncate with
    | true => exact seeded_deleteUsers db
    | false => exact ⟨by rwa [if_neg (by simp), if_neg (by simp), hs.count], .refl db⟩
  have hcatalog : start.catalog = db.catalog := by
    rw [hstart]
    split <;> rfl
  cases hpad : padTo catalogSize start with
  -- a padding that is refused has changed nothing
  | none =>
    refine ⟨_, start, .refused, rfl, hstarted.1, hstarted.2, by simp, fun hnone => ?_⟩
    rw [hnone] at hpad
    exact absurd hpad (by simp [padTo])
  | some padded =>
    -- a padding touches the catalog only
    obtain ⟨hauth, hitems⟩ := padTo_eq_some hpad
    obtain ⟨hseeded, hkeeps⟩ := seeded_congr hauth hitems hstarted.1
    have hkept := hstarted.2.trans hkeeps
    have hids := (rankSecurities_spec rng padded.catalog).1
    have hrows := ids_selectSecurities padded.catalog
    have hlisted : ∀ s ∈ rankSecurities rng (selectSecurities padded.catalog),
        (padded.catalog.get s).isSome = true := fun s hs => by
      obtain ⟨row, hrow⟩ := Dict.mem_keys_iff.1 (hids.mem_iff.1 hs)
      exact Option.isSome_iff_exists.2 ⟨row, hrow⟩
    dsimp only
    split
    case isTrue hempty =>
      refine ⟨_, padded, .noSecurities, rfl, hseeded, hkept, by simp, fun hnone => ⟨by simp, ?_⟩⟩
      subst hnone
      obtain rfl := Option.some.inj hpad
      rw [List.isEmpty_iff.1 hempty, hcatalog] at hrows
      intro hne
      exact absurd (List.map_eq_nil_iff.1 hrows.symm.eq_nil) hne
    case isFalse hne =>
      rw [hseeded.count]
      have hnone : Seeded padded (startCount truncate db + 0) := hseeded
      -- the ranking has all securities, and there are some
      have hranked : rankSecurities rng (selectSecurities padded.catalog) ≠ [] := by
        intro hnil
        rw [hnil] at hids
        have hempty := hrows.trans hids.symm
        exact hne (List.isEmpty_iff.2 (List.map_eq_nil_iff.1 hempty.eq_nil))
      obtain ⟨m, hm, db', status, hrun, hs', hkeeps', hrefused, -, hall, henough⟩ :=
        seedLoop_spec hnone rng passwordHash stop hranked hlisted
          (Nat.zero_le (preset.users - startCount truncate db))
      refine ⟨_, db', status, hrun, hs', hkept.trans hkeeps', fun hstatus => ?_,
        fun _ => ⟨hrefused, fun _ hle => henough ?_⟩⟩
      · rw [hall hstatus]
        omega
      · omega

/-- What the database goes through: runs of `seed`, and anything else, which says what it leaves. -/
inductive SeedEvent
  | seed (rng : Rng) (passwordHash : String) (preset : Preset) (catalogSize : Option ℤ)
      (truncate : Bool) (stop : ℕ)
  | other (after : WatchlistDb)

/-- The databases that start without load users. -/
def runs : System WatchlistDb SeedEvent where
  init db := ∀ id row, db.auth.users.get? id = some row → isLoadUser row = false
  step db
    | .seed rng passwordHash preset catalogSize truncate stop =>
      some (seed rng passwordHash preset catalogSize truncate stop db).1
    | .other after => some after

/-- Nobody else takes the name of a load user, and the load users do nothing. -/
def Apart (db : WatchlistDb) : SeedEvent → Prop
  | .seed .. => True
  | .other after =>
    (∀ id row, isLoadUser row = true →
      (after.auth.users.get? id = some row ↔ db.auth.users.get? id = some row)) ∧
    ∀ w id row, db.auth.users.get? id = some row → isLoadUser row = true →
      db.auth.watchlists.get? w = some ⟨id, "default"⟩ →
        after.auth.watchlists.get? w = some ⟨id, "default"⟩ ∧ after.memberIds w = db.memberIds w

lemma seeded_other {after : WatchlistDb} (hs : Seeded db n) (h : Apart db (.other after)) :
    Seeded after n := by
  obtain ⟨husers, hwatching⟩ := h
  refine ⟨fun id row hrow hload => hs.numbered id row ((husers id row hload).1 hrow) hload,
    fun i hpos hle => ?_⟩
  obtain ⟨id, row, w, hrow, hname, hw, hne, hsize⟩ := hs.watching i hpos hle
  have hload : isLoadUser row = true := by
    rw [isLoadUser_iff, hname, ← userRecord_username "" i, ← isLoadUser_iff]
    exact isLoadUser_userRecord _ _
  obtain ⟨hw', hmembers⟩ := hwatching w id row hrow hload hw
  exact ⟨id, row, w, (husers id row hload).2 hrow, hname, hw', by rwa [hmembers],
    by rwa [hmembers]⟩

/-- The load users are always numbered without gaps. -/
lemma exists_seeded (h : runs.ReachableWhere Apart db) : ∃ n, Seeded db n := by
  refine h.invariant (I := fun db => ∃ n, Seeded db n) (fun db hinit => ⟨0, ?_⟩)
    fun db e db' hapart hs hstep => ?_
  · refine ⟨fun id row hrow hload => ?_, fun i hpos hle => absurd (hpos.trans hle) (by simp)⟩
    rw [hinit id row hrow] at hload
    exact absurd hload (by simp)
  · obtain ⟨n, hs⟩ := hs
    cases e with
    | seed rng passwordHash preset catalogSize truncate stop =>
      obtain ⟨m, db'', status, hrun, hseeded, -⟩ :=
        seed_spec hs rng passwordHash preset catalogSize truncate stop
      obtain rfl := Option.some.inj hstep
      exact ⟨m, by rwa [hrun]⟩
    | other after =>
      obtain rfl := Option.some.inj hstep
      exact ⟨n, seeded_other hs hapart⟩

/-- **Seeding can be cut off and taken up again.**  Whatever runs came before, cut off or not: a run
leaves the load users numbered from 1 without gaps, each with a watchlist of one to ten securities,
and everybody else as they were.  Only a padding can be refused.  A run that is done has brought
them to the preset, or has left more as they were, and with securities to choose from it is done
after as many batches as that takes. -/
theorem seeding_resumes (h : runs.ReachableWhere Apart db) (rng : Rng) (passwordHash : String)
    (preset : Preset) (catalogSize : Option ℤ) (truncate : Bool) (stop : ℕ) :
    ∃ m db' status, seed rng passwordHash preset catalogSize truncate stop db = (db', status) ∧
      Seeded db' m ∧ Keeps db db' ∧
      (status = .done → m = max (startCount truncate db) preset.users) ∧
      (catalogSize = none → status ≠ .refused ∧ (db.catalog.rows.entries ≠ [] →
        preset.users ≤ startCount truncate db + stop * copyBatch → status = .done)) := by
  obtain ⟨n, hs⟩ := exists_seeded h
  exact seed_spec hs rng passwordHash preset catalogSize truncate stop

/-- A generator that always takes the first. -/
def firstRng : Rng where
  shuffle l := l
  shuffle_perm _ := .refl _
  choices l k _ := (l.head?.map (List.replicate k)).getD []
  choices_mem l k w s hs := by
    cases l with
    | nil => exact absurd hs List.not_mem_nil
    | cons a l => exact List.eq_of_mem_replicate hs ▸ List.mem_cons_self
  length_choices l k w hne := by
    cases l with
    | nil => exact absurd rfl hne
    | cons a l => exact List.length_replicate

/-- A database of one security. -/
def oneSecurity : WatchlistDb where
  auth := .empty
  catalog := Catalog.empty.upsert "AAPL" "Apple Inc."
  items := .empty
  item_watchlist := by simp
  item_security := by simp

/-- The small preset takes one batch. -/
theorem small_preset_done : ∃ db',
    seed firstRng "hash" .small none false 1 oneSecurity = (db', .done) ∧ Seeded db' 10000 := by
  have hreach : runs.ReachableWhere Apart oneSecurity := by
    refine ⟨_, fun id row hrow => ?_, .refl _⟩
    exact absurd hrow (by simp [oneSecurity, AuthDb.empty])
  obtain ⟨m, db', status, hrun, hseeded, -, hall, hnone⟩ :=
    seeding_resumes hreach firstRng "hash" .small none false 1
  obtain rfl := (hnone rfl).2 (by decide +kernel) (by decide +kernel)
  have hcount : m = 10000 := (hall rfl).trans (by decide +kernel)
  subst hcount
  exact ⟨db', hrun, hseeded⟩

end SeedUsers
end TickerWatch
