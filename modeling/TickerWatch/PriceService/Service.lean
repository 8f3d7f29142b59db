import Mathlib.Algebra.Order.Ring.Rat
import TickerWatch.Prices.Handler

/-!
# The price service

`price_service/service.py`: the only writer of prices.  A tick reads the source, detects what
changed, stamps it, and makes three writes of different scope: every price to the cache, the
changed ones to `latest_prices` and to Centrifugo.

A tick is one step here.  What its environment chooses is the tick's input: the clock readings,
what the source answered, and for each of the three writes whether it went through.  A write that
failed may still have reached its store, in whole or in part, so a failure says what was applied.
The three writes run concurrently but touch different stores, so their order does not matter.
-/

namespace TickerWatch

universe u

/-- `settings.transport`. -/
inductive Transport
  | poll
  | push
  deriving DecidableEq, Repr

/-- The settings the service reads.  Seconds of `time.monotonic()` are rationals. -/
structure Settings where
  priceSource : PriceSource
  upstreamPollIntervalSeconds : ℚ
  priceCacheTtlSeconds : ℤ
  transport : Transport

/-- The counters exported to Prometheus. -/
structure Stats where
  ticks : ℕ := 0
  updatesReceived : ℕ := 0
  updatesChanged : ℕ := 0
  cacheWrites : ℕ := 0
  cacheWritesRejected : ℕ := 0
  cacheErrors : ℕ := 0
  postgresUpserts : ℕ := 0
  postgresErrors : ℕ := 0
  upstreamCalls : ℕ := 0
  upstreamErrors : ℕ := 0
  published : ℕ := 0
  publishBatches : ℕ := 0
  publishErrors : ℕ := 0
  sourceReconciliation : Option ReconcileAction := none

/-- The stores the service writes. -/
structure Stores (P : Type u) where
  securities : Catalog
  latestPrices : LatestPrices P
  redis : Redis P

/-- The stores after the migration. -/
def Stores.fresh {P : Type u} : Stores P := ⟨.empty, .empty, .empty⟩

/-- The state of one `PriceService`, under the names of its attributes.  `lastPublished` is what a
tick compares its reading with and `effectiveAt` what it stamps an unchanged price with; nothing of
it survives the process. -/
structure PriceService (P : Type u) where
  settings : Settings
  tickerToId : Dict Ticker SecurityId
  lastPublished : Dict Ticker P
  effectiveAt : Dict Ticker Instant
  lastUpstreamFetch : ℚ
  upstreamPrices : Dict Ticker P
  stats : Stats

/-- The `data` of one publish command; its channel is `ticker:` and the ticker. -/
structure Publication (P : Type u) where
  securityId : SecurityId
  ticker : Ticker
  price : P
  effectiveAt : String
  source : String
  deriving DecidableEq

/-! ## What the environment of a tick chooses -/

/-- What `source.fetch` did.  `caught` says whether the exception is one the service catches. -/
inductive FetchOutcome (P : Type u)
  | returned (prices : Dict Ticker P)
  | raised (caught : Bool)

/-- What became of the cache pipeline; after an error, the commands that were executed. -/
inductive CacheOutcome
  | ok
  | error (applied : Ticker → Bool)

/-- What became of the upsert statement; an error can come after the commit. -/
inductive PostgresOutcome
  | ok
  | error (committed : Bool)

/-- What became of the batch POST: replies, some of which carry an error, or a failed request of
which Centrifugo may have handled some commands. -/
inductive PublishOutcome
  | replied (rejected : Ticker → Bool)
  | failed (accepted : Ticker → Bool)

/-- Everything a tick depends on besides the state: the two clocks, what the source returned and
what each of the three writes came to.  The outcomes are free, so a run is one over every pattern of
failures. -/
structure TickInput (P : Type u) where
  monotonic : ℚ
  fetch : FetchOutcome P
  now : Instant
  cache : CacheOutcome
  postgres : PostgresOutcome
  publish : PublishOutcome

/-- The pipeline completed without error. -/
def CacheOutcome.isOk : CacheOutcome → Bool
  | .ok => true
  | .error _ => false

/-- The upsert completed without error. -/
def PostgresOutcome.isOk : PostgresOutcome → Bool
  | .ok => true
  | .error _ => false

/-- The commands of the pipeline that were executed. -/
def CacheOutcome.applies : CacheOutcome → Ticker → Bool
  | .ok, _ => true
  | .error applied, t => applied t

/-- Whether the statement took effect. -/
def PostgresOutcome.applies : PostgresOutcome → Bool
  | .ok => true
  | .error committed => committed

lemma CacheOutcome.applies_of_isOk {outcome : CacheOutcome} (h : outcome.isOk = true)
    (t : Ticker) : outcome.applies t = true := by
  cases outcome with
  | ok => rfl
  | error applied => exact absurd h (by simp [isOk])

lemma PostgresOutcome.applies_of_isOk {outcome : PostgresOutcome} (h : outcome.isOk = true) :
    outcome.applies = true := by
  cases outcome with
  | ok => rfl
  | error committed => exact absurd h (by simp [isOk])

/-- The publications Centrifugo delivers. -/
def PublishOutcome.delivers : PublishOutcome → Ticker → Bool
  | .replied rejected, t => !rejected t
  | .failed accepted, t => accepted t

/-- What a writer coroutine leaves: its store, its counters, and whether it raised. -/
structure Written (α : Type u) where
  store : α
  count : Stats → Stats
  raised : Bool

/-- How a tick ended. -/
inductive TickStatus
  | raised
  | idle
  | completed
  deriving DecidableEq, Repr

/-- The state after a tick, what it delivered to subscribers, and how it ended. -/
structure TickResult (P : Type u) where
  service : PriceService P
  stores : Stores P
  delivered : List (Publication P)
  status : TickStatus

namespace PriceService

variable {P : Type u} [DecidableEq P]

/-- `self._source.name`. -/
def sourceName (svc : PriceService P) : String := svc.settings.priceSource.name

/-! ## One tick -/

/-- `_current_prices`: the read of this tick, or `none` when an exception leaves the tick. -/
def currentPrices (svc : PriceService P) (now : ℚ) (fetch : FetchOutcome P) :
    PriceService P × Option (Dict Ticker P) :=
  let due := decide (svc.settings.upstreamPollIntervalSeconds ≤ now - svc.lastUpstreamFetch)
  if !due && !svc.upstreamPrices.entries.isEmpty then (svc, some svc.upstreamPrices)
  else
    match fetch with
    | .returned prices =>
      ({ svc with
          upstreamPrices := prices
          lastUpstreamFetch := now
          stats.upstreamCalls := svc.stats.upstreamCalls + 1 }, some prices)
    | .raised true =>
      ({ svc with stats.upstreamErrors := svc.stats.upstreamErrors + 1 }, some svc.upstreamPrices)
    | .raised false => (svc, none)

/-- The prices that differ from what was last published. -/
def changedPrices (svc : PriceService P) (prices : Dict Ticker P) : Dict Ticker P :=
  prices.filter fun t p => decide (svc.lastPublished.get? t ≠ some p)

/-- Stamp the changed prices, and every price that has no stamp yet. -/
def stamped (svc : PriceService P) (prices : Dict Ticker P) (now : Instant) : Dict Ticker Instant :=
  let marked := (svc.changedPrices prices).keys.foldl (fun d t => d.set t now) svc.effectiveAt
  prices.keys.foldl (fun d t => d.setDefault t now) marked

/-- The service once a tick has stamped the prices it read. -/
def restamp (svc : PriceService P) (prices : Dict Ticker P) (now : Instant) : PriceService P :=
  { svc with
    effectiveAt := svc.stamped prices now
    stats.updatesReceived := svc.stats.updatesReceived + prices.size
    stats.updatesChanged := svc.stats.updatesChanged + (svc.changedPrices prices).size }

/-- The entries of the cache pipeline; `none` on a ticker without stamp or id (`KeyError`). -/
def cacheEntries (svc : PriceService P) (prices : Dict Ticker P) :
    Option (List (Ticker × CachedPrice P × String)) :=
  prices.entries.mapM fun e =>
    (svc.effectiveAt.get? e.1).bind fun since => (svc.tickerToId.get? e.1).map fun id =>
      (e.1, ⟨id, e.2, toIso since, some svc.sourceName⟩, toIso since)

/-- `_write_cache`. -/
def writeCache (svc : PriceService P) (prices : Dict Ticker P) (outcome : CacheOutcome)
    (r : Redis P) : Written (Redis P) :=
  match svc.cacheEntries prices with
  | none => ⟨r, id, true⟩
  | some entries =>
    match outcome with
    | .ok =>
      let out := r.setPricesIfNewer entries svc.settings.priceCacheTtlSeconds
      ⟨out.1, fun s => { s with
        cacheWrites := s.cacheWrites + out.2.1
        cacheWritesRejected := s.cacheWritesRejected + out.2.2 }, false⟩
    | .error applied =>
      let out := r.setPricesIfNewer (entries.filter fun e => applied e.1)
        svc.settings.priceCacheTtlSeconds
      ⟨out.1, fun s => { s with cacheErrors := s.cacheErrors + 1 }, false⟩

/-- The rows of the upsert; `none` on a ticker without id or stamp (`KeyError`). -/
def priceRows (svc : PriceService P) (changed : Dict Ticker P) :
    Option (List (SecurityId × LatestPrice P)) :=
  changed.entries.mapM fun e =>
    (svc.tickerToId.get? e.1).bind fun id => (svc.effectiveAt.get? e.1).map fun since =>
      (id, ⟨e.2, since, svc.sourceName⟩)

/-- `_write_postgres`.  A statement Postgres refuses is one of the errors it catches. -/
def writePostgres (svc : PriceService P) (changed : Dict Ticker P) (outcome : PostgresOutcome)
    (tbl : LatestPrices P) : Written (LatestPrices P) :=
  if changed.entries.isEmpty then ⟨tbl, id, false⟩
  else
    match svc.priceRows changed with
    | none => ⟨tbl, id, true⟩
    | some rows =>
      match outcome, tbl.upsertMany rows with
      | .ok, some tbl' =>
        ⟨tbl', fun s => { s with postgresUpserts := s.postgresUpserts + rows.length }, false⟩
      | .error true, some tbl' =>
        ⟨tbl', fun s => { s with postgresErrors := s.postgresErrors + 1 }, false⟩
      | _, _ => ⟨tbl, fun s => { s with postgresErrors := s.postgresErrors + 1 }, false⟩

/-- The commands of the publish batch; `none` on a ticker without id or stamp (`KeyError`). -/
def publications (svc : PriceService P) (changed : Dict Ticker P) :
    Option (List (Publication P)) :=
  changed.entries.mapM fun e =>
    (svc.tickerToId.get? e.1).bind fun id => (svc.effectiveAt.get? e.1).map fun since =>
      ⟨id, e.1, e.2, toIso since, svc.sourceName⟩

/-- `_publish`, with what Centrifugo delivers. -/
def publish (svc : PriceService P) (changed : Dict Ticker P) (outcome : PublishOutcome) :
    Written (List (Publication P)) :=
  if svc.settings.transport = .poll || changed.entries.isEmpty then ⟨[], id, false⟩
  else
    match svc.publications changed with
    | none => ⟨[], id, true⟩
    | some commands =>
      let delivered := commands.filter fun m => outcome.delivers m.ticker
      match outcome with
      | .replied rejected =>
        let failed := (commands.filter fun m => rejected m.ticker).length
        ⟨delivered, fun s => { s with
          published := s.published + (commands.length - failed)
          publishErrors := s.publishErrors + failed
          publishBatches := s.publishBatches + 1 }, false⟩
      | .failed _ =>
        ⟨delivered, fun s => { s with publishErrors := s.publishErrors + commands.length }, false⟩

/-- The part of `tick` after a read that returned prices. -/
def applyPrices (svc : PriceService P) (stores : Stores P) (i : TickInput P)
    (prices : Dict Ticker P) : TickResult P :=
  let changed := svc.changedPrices prices
  let svc := svc.restamp prices i.now
  let cache := svc.writeCache prices i.cache stores.redis
  let postgres := svc.writePostgres changed i.postgres stores.latestPrices
  let published := svc.publish changed i.publish
  let svc := { svc with stats := published.count (postgres.count (cache.count svc.stats)) }
  let stores := { stores with redis := cache.store, latestPrices := postgres.store }
  -- gather re-raises the first exception, after which nothing counts as published
  if cache.raised || postgres.raised || published.raised then
    ⟨svc, stores, published.store, .raised⟩
  else
    ⟨{ svc with lastPublished := svc.lastPublished.update prices }, stores, published.store,
      .completed⟩

/-- `tick`. -/
def tick (svc : PriceService P) (stores : Stores P) (i : TickInput P) : TickResult P :=
  match { svc with stats.ticks := svc.stats.ticks + 1 }.currentPrices i.monotonic i.fetch with
  | (svc, none) => ⟨svc, stores, [], .raised⟩
  | (svc, some prices) =>
    if prices.entries.isEmpty then ⟨svc, stores, [], .idle⟩
    else svc.applyPrices stores i prices

/-! ## Startup -/

/-- What `_sync_catalog` can read: the vendor's listings, unless the call fails, and the seed
file. -/
structure CatalogRead where
  vendor : Option (List (Ticker × String))
  seed : List (Ticker × String)

/-- `PriceService()`. -/
def new (settings : Settings) : PriceService P where
  settings := settings
  tickerToId := .empty
  lastPublished := .empty
  effectiveAt := .empty
  lastUpstreamFetch := 0
  upstreamPrices := .empty
  stats := {}

/-- The rows `_sync_catalog` upserts. -/
def catalogRows (source : PriceSource) (read : CatalogRead) : List (Ticker × String) :=
  match source, read.vendor with
  | .api, some listings =>
    if listings = [] then read.seed else listings.mergeSort fun a b => decide (a.1 ≤ b.1)
  | _, _ => read.seed

/-- `_reconcile_source`: the rows first, then the flush that a wipe needs. -/
def reconcile (svc : PriceService P) (stores : Stores P) : PriceService P × Stores P :=
  let out := reconcileSource stores.latestPrices svc.settings.priceSource
  let redis := if out.2.action = .wipedSimulated then stores.redis.flushPrices.1 else stores.redis
  ({ svc with stats.sourceReconciliation := some out.2.action },
    { stores with latestPrices := out.1, redis := redis })

/-- The upsert of `_sync_catalog`. -/
def syncStores (source : PriceSource) (stores : Stores P) (read : CatalogRead) : Stores P :=
  { stores with securities := stores.securities.upsertMany (catalogRows source read) }

/-- `_sync_catalog`: the upsert, and the tickers this source prices. -/
def syncCatalog (svc : PriceService P) (stores : Stores P) (read : CatalogRead) :
    PriceService P × Stores P :=
  let source := svc.settings.priceSource
  let stores := syncStores source stores read
  let vendorOnly := decide (source = .api)
  let priced := stores.securities.allTickers !vendorOnly
  let calls := if source = .api && read.vendor.isSome then 1 else 0
  ({ svc with
      tickerToId := .ofList (priced.map Prod.swap)
      stats.upstreamCalls := svc.stats.upstreamCalls + calls }, stores)

/-- The payload the warm-up writes for a row. -/
def warmPayload (row : TickerPrice P) : CachedPrice P :=
  ⟨row.securityId, row.row.price, toIso row.row.effectiveAt, some row.row.source⟩

/-- One row of `_warm_cache_from_postgres`. -/
def warmRow (ttlSeconds : ℤ) (acc : PriceService P × Redis P) (row : TickerPrice P) :
    PriceService P × Redis P :=
  let payload := warmPayload row
  ({ acc.1 with
      lastPublished := acc.1.lastPublished.set row.ticker row.row.price
      effectiveAt := acc.1.effectiveAt.set row.ticker row.row.effectiveAt },
    (acc.2.setPriceIfNewer row.ticker payload payload.effectiveAt ttlSeconds).1)

/-- `_warm_cache_from_postgres` over the rows it read. -/
def warm (svc : PriceService P) (r : Redis P) (rows : List (TickerPrice P)) :
    PriceService P × Redis P :=
  rows.foldl (warmRow svc.settings.priceCacheTtlSeconds) (svc, r)

/-- `start` on a fresh service; no service when the catalog is empty (`RuntimeError`). -/
def start (settings : Settings) (stores : Stores P) (read : CatalogRead) :
    Stores P × Option (PriceService P) :=
  let (svc, stores) := (new settings).reconcile stores
  let (svc, stores) := svc.syncCatalog stores read
  if svc.tickerToId.entries.isEmpty then (stores, none)
  else
    let (svc, redis) := svc.warm stores.redis (stores.latestPrices.allWithTickers stores.securities)
    ({ stores with redis := redis }, some svc)

/-- Where a start that does not complete is cut off: while it flushes, some keys gone, or while it
warms the cache, some rows done. -/
inductive StartCut
  | flushing (flushed : String → Bool)
  | warming (rows : ℕ)

/-- The stores a start leaves when it is cut off. -/
def cutStart (settings : Settings) (stores : Stores P) (read : CatalogRead) : StartCut → Stores P
  | .flushing flushed =>
    let out := reconcileSource stores.latestPrices settings.priceSource
    let redis := if out.2.action = .wipedSimulated then
        Dict.filter (fun k _ => !(isPriceKey k && flushed k)) stores.redis
      else stores.redis
    { stores with latestPrices := out.1, redis := redis }
  | .warming rows =>
    let stores := syncStores settings.priceSource ((new settings).reconcile stores).2 read
    let todo := (stores.latestPrices.allWithTickers stores.securities).take rows
    { stores with redis := ((new settings : PriceService P).warm stores.redis todo).2 }

end PriceService
end TickerWatch
