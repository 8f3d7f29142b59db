import TickerWatch.Prices.Handler

/-!
# The watchlist response

The items of `GET /watchlist`, as `watchlist_handler.py` makes them of a membership row and the
price the snapshot has for it.
-/

namespace TickerWatch

universe u

/-- One row of `watchlist_controller.members`. -/
structure MemberRow where
  id : SecurityId
  ticker : Ticker
  name : String
  exchange : Option String
  deriving DecidableEq, Repr

/-- One item of the watchlist response. -/
structure WatchlistItem (P : Type u) where
  id : SecurityId
  ticker : Ticker
  name : String
  exchange : Option String
  price : Option P
  effectiveAt : Option String
  source : Option String
  deriving DecidableEq

/-- `WatchlistView._to_item`; a security without a price has no stamp and no source either. -/
def MemberRow.toItem {P : Type u} (row : MemberRow) (price : Option (Price P)) :
    WatchlistItem P where
  id := row.id
  ticker := row.ticker
  name := row.name
  exchange := row.exchange
  price := price.map Price.price
  effectiveAt := price.map Price.effectiveAt
  source := price.map Price.source

/-- The row an item was made of. -/
def WatchlistItem.row {P : Type u} (item : WatchlistItem P) : MemberRow :=
  ⟨item.id, item.ticker, item.name, item.exchange⟩

@[simp] lemma MemberRow.row_toItem {P : Type u} (row : MemberRow) (price : Option (Price P)) :
    (row.toItem price).row = row := rfl

/-- The watchlist response. -/
structure Watchlist (P : Type u) where
  items : List (WatchlistItem P)
  readPath : String
  cacheHits : ℕ
  cacheMisses : ℕ
  asOf : String
  deriving DecidableEq

/-- `WatchlistView.build`, from the members and the snapshot that was read for them. -/
def Watchlist.build {P : Type u} (members : List MemberRow) (snapshot : PriceSnapshot P)
    (asOf : String) : Watchlist P where
  items := members.map fun row => row.toItem (snapshot.prices.get? row.id)
  readPath := snapshot.readPath
  cacheHits := snapshot.cacheHits
  cacheMisses := snapshot.cacheMisses
  asOf := asOf

@[simp] lemma Watchlist.map_row_build {P : Type u} (members : List MemberRow)
    (snapshot : PriceSnapshot P) (asOf : String) :
    (build members snapshot asOf).items.map WatchlistItem.row = members := by
  rw [build, List.map_map]
  exact List.map_id members

end TickerWatch
