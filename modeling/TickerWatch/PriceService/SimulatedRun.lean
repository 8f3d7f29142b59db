import TickerWatch.PriceService.Sourced
import TickerWatch.Seed.CapturePrices

/-!
# A simulated run

A lifetime whose source is `SimulatedSource`, built from what `_starting_prices` finds.

The stream it draws from is seeded "so a benchmark's two halves see identical price movement".
They do when both start over reset prices and the same catalog (`halves_agree`), and no price falls
below a cent on the way (`floor_kept`).
-/

namespace TickerWatch

universe u v

variable {F : Type u} {R : Type v}

/-- `SimulatedSource` as the service calls it. -/
def SimulatedSource.feed (walk : Walk F R) : Source (SimulatedSource F R) F where
  fetch src tickers := ((src.fetch walk tickers).1, .returned (src.fetch walk tickers).2)

namespace SimulatedSource

variable {walk : Walk F R} {src : SimulatedSource F R}

/-- Every price of the book is at least a cent. -/
def Floored (walk : Walk F R) (src : SimulatedSource F R) : Prop :=
  ∀ t p, src.last.get? t = some p → walk.lt p walk.cent = false

lemma floored_max (hcent : walk.lt walk.cent walk.cent = false) (moved : F) :
    walk.lt (walk.max moved walk.cent) walk.cent = false := by
  unfold Walk.max
  split
  · exact hcent
  · simp_all

lemma Floored.visit (hcent : walk.lt walk.cent walk.cent = false) (h : src.Floored walk)
    (ticker : Ticker) : (src.visit walk ticker).1.Floored walk := by
  unfold SimulatedSource.visit
  split
  case h_1 => exact h
  case h_2 last _ =>
    dsimp only
    split
    · intro t p hp
      rw [Dict.get?_set] at hp
      split at hp
      · rw [← Option.some.inj hp]
        exact floored_max hcent _
      · exact h t p hp
    · exact h

/-- A call keeps every price of the book at least a cent. -/
lemma Floored.fetch (hcent : walk.lt walk.cent walk.cent = false) (h : src.Floored walk)
    (tickers : List Ticker) : (src.fetch walk tickers).1.Floored walk := by
  unfold SimulatedSource.fetch
  generalize (Dict.empty : Dict Ticker F) = out
  induction tickers generalizing src out with
  | nil => exact h
  | cons ticker tickers ih => exact ih (h.visit hcent ticker) _

end SimulatedSource

/-- `settings.sim_volatility`, `sim_change_ratio` and the stream of `sim_seed`. -/
structure SimSettings (F : Type u) (R : Type v) where
  volatility : F
  changeRatio : F
  rng : R

/-- `{r["ticker"]: float(r["price"]) for r in rows}` of `all_with_tickers`, as a list. -/
def Stores.startingRows (stores : Stores F) : List (Ticker × F) :=
  (stores.latestPrices.allWithTickers stores.securities).map fun row => (row.ticker, row.row.price)

namespace PriceService

/-- `start` with `PRICE_SOURCE=simulated`; nothing starts when the catalog is empty or a seed file is
malformed. -/
def startSimulated (py : Floats F) (hundred : F) (seed : SeedFiles) (sim : SimSettings F R)
    (settings : Settings) (stores : Stores F) : Option (Sourced (SimulatedSource F R) F) :=
  if settings.priceSource = .simulated then
    seed.catalogFromSeed.bind fun rows =>
      let out := start settings stores ⟨none, rows⟩
      out.2.bind fun svc =>
        (seed.startingPrices py hundred out.1.startingRows svc.tickerToId.keys).map fun starting =>
          ⟨svc, out.1, ⟨starting, sim.volatility, sim.changeRatio, sim.rng⟩⟩
  else none

variable {py : Floats F} {hundred : F} {seed : SeedFiles} {sim : SimSettings F R}
  {settings settings' : Settings} {stores stores' : Stores F} {x y : Sourced (SimulatedSource F R) F}
  {walk : Walk F R} {is is' : List (TickInput F)}

lemma startSimulated_eq_some (h : startSimulated py hundred seed sim settings stores = some x) :
    settings.priceSource = .simulated ∧ ∃ rows starting, seed.catalogFromSeed = some rows ∧
      start settings stores ⟨none, rows⟩ = (x.stores, some x.service) ∧
      seed.startingPrices py hundred x.stores.startingRows x.tickers = some starting ∧
      x.source = ⟨starting, sim.volatility, sim.changeRatio, sim.rng⟩ := by
  unfold startSimulated at h
  split at h
  case isFalse => exact absurd h (by simp)
  case isTrue hsim =>
  obtain ⟨rows, hrows, h⟩ := Option.bind_eq_some_iff.1 h
  obtain ⟨svc, hsvc, h⟩ := Option.bind_eq_some_iff.1 h
  obtain ⟨starting, hstarting, rfl⟩ := Option.map_eq_some_iff.1 h
  exact ⟨hsim, rows, starting, hrows, Prod.ext rfl hsvc, hstarting, rfl⟩

variable [DecidableEq F]

omit [DecidableEq F] in
lemma requests_feed (walk : Walk F R) (tickers : List Ticker) :
    (SimulatedSource.feed walk).Requests tickers := by
  intro src prices h t ht
  obtain rfl := FetchOutcome.returned.inj h
  obtain ⟨p, hp⟩ := Dict.mem_keys_iff.1 ht
  rw [(SimulatedSource.fetch_spec walk src tickers).out] at hp
  by_contra hnot
  rw [if_neg hnot] at hp
  exact absurd hp (by simp)

omit [DecidableEq F] in
lemma held_start {read : CatalogRead} {svc : PriceService F}
    (h : start settings stores read = (stores', some svc)) : svc.Held := by
  intro t p hp
  rw [start_upstream h] at hp
  exact absurd hp (by simp)

omit [DecidableEq F] in
/-- What a simulated start over reset prices depends on. -/
lemma startSimulated_reset
    (h : startSimulated py hundred seed sim settings stores.resetPrices = some x) :
    ∃ rows starting, seed.catalogFromSeed = some rows ∧
      x.tickers = (Dict.ofList (((stores.securities.upsertMany rows).allTickers true).map
        Prod.swap)).keys ∧
      seed.startingPrices py hundred [] x.tickers = some starting ∧
      x.source = ⟨starting, sim.volatility, sim.changeRatio, sim.rng⟩ ∧
      x.service.lastPublished.get? = fun _ => none := by
  obtain ⟨hsim, rows, starting, hrows, hstart, hstarting, hsource⟩ := startSimulated_eq_some h
  have htable : x.stores.latestPrices = .empty :=
    (start_service hstart).2.2.2.1.trans (reconciled_resetPrices settings stores)
  have hnone : x.stores.startingRows = [] := by
    rw [Stores.startingRows, htable]
    rfl
  rw [hnone] at hstarting
  refine ⟨rows, starting, hrows, ?_, hstarting, hsource, funext fun t => ?_⟩
  · obtain ⟨ids, stats, hids, hsvc, -⟩ := start_eq_some hstart
    rw [Sourced.tickers, hsvc, (warm_service _ _ _).2.1, hids, hsim]
    simp [synced, catalogRows, hsim, Stores.resetPrices]
  · rcases start_memory hstart t with ⟨hlast, -⟩ | ⟨id, row, hrow, -⟩
    · exact hlast
    · rw [reconciled_resetPrices] at hrow
      exact absurd hrow (by simp)

omit [DecidableEq F] in
lemma startSimulated_alike (hcatalog : stores.securities = stores'.securities)
    (h : startSimulated py hundred seed sim settings stores.resetPrices = some x)
    (h' : startSimulated py hundred seed sim settings' stores'.resetPrices = some y) :
    x.tickers = y.tickers ∧ x.source = y.source ∧
      x.service.lastPublished.get? = y.service.lastPublished.get? := by
  obtain ⟨rows, starting, hrows, htickers, hstarting, hsource, hlast⟩ :=
    startSimulated_reset h
  obtain ⟨rows', starting', hrows', htickers', hstarting', hsource', hlast'⟩ :=
    startSimulated_reset h'
  obtain rfl := Option.some.inj (hrows.symm.trans hrows')
  have hsame : x.tickers = y.tickers := by rw [htickers, htickers', hcatalog]
  rw [hsame] at hstarting
  obtain rfl := Option.some.inj (hstarting.symm.trans hstarting')
  exact ⟨hsame, hsource.trans hsource'.symm, hlast.trans hlast'.symm⟩

/-- What a simulated lifetime hands to its writers, counts and sends. -/
lemma simulated_seen (h : startSimulated py hundred seed sim settings stores = some x)
    (walk : Walk F R) (is : List (TickInput F)) :
    let feed := SimulatedSource.feed walk
    x.movement feed is =
      feed.moves x.tickers x.source x.service.lastPublished.get? (x.calls feed is) ∧
    (x.run feed is).service.stats.updatesChanged = (x.movement feed is).length ∧
    (settings.transport = .push → PublishesAll is → x.sent feed is = x.movement feed is) := by
  intro feed
  obtain ⟨-, rows, starting, -, hstart, -, -⟩ := startSimulated_eq_some h
  obtain ⟨hsettings, hsound, -⟩ := start_service hstart
  obtain ⟨calls, action, hstats⟩ := start_stats hstart
  have hfeed : feed.Requests x.tickers := requests_feed walk _
  have hreq : ∀ j ∈ x.inputs feed is, x.service.Requested j :=
    Sourced.inputs_requested hfeed hsound
  obtain ⟨hcount, hsent⟩ := movement_seen hsound x.stores hreq
  refine ⟨(Sourced.movement_eq hfeed hsound (held_start hstart) is).1, ?_, fun hpush hall => ?_⟩
  · rw [← Sourced.run_eq, hstats, Nat.zero_add] at hcount
    exact hcount
  · exact hsent (by rw [hsettings, hpush]) (Sourced.publishesAll_inputs hall)

/-- **The two halves of a benchmark see the same price movement.**  Take two simulated lifetimes over
reset prices, the same catalog and the same seed files, with any transports, clocks and failures of
the writes, in which no exception leaves a tick.  The changes of the one that calls its source less
often are the first of the other's; if they call it equally often they count equally many; and in
push mode, unless a publish fails, these changes are what is sent. -/
theorem halves_agree (walk : Walk F R) (hcatalog : stores.securities = stores'.securities)
    (h : startSimulated py hundred seed sim settings stores.resetPrices = some x)
    (h' : startSimulated py hundred seed sim settings' stores'.resetPrices = some y)
    (is is' : List (TickInput F)) :
    let feed := SimulatedSource.feed walk
    (x.calls feed is ≤ y.calls feed is' → x.movement feed is <+: y.movement feed is') ∧
    (x.calls feed is = y.calls feed is' →
      (x.run feed is).service.stats.updatesChanged =
        (y.run feed is').service.stats.updatesChanged) ∧
    (settings.transport = .push → PublishesAll is → x.sent feed is = x.movement feed is) := by
  intro feed
  obtain ⟨htickers, hsource, hlast⟩ := startSimulated_alike hcatalog h h'
  obtain ⟨hmoves, hcount, hsent⟩ := simulated_seen h walk is
  obtain ⟨hmoves', hcount', -⟩ := simulated_seen h' walk is'
  rw [htickers, hsource, hlast] at hmoves
  refine ⟨fun hle => ?_, fun heq => ?_, hsent⟩
  · rw [hmoves, hmoves']
    exact Source.moves_prefix _ _ hle
  · rw [hcount, hcount', hmoves, hmoves']
    exact congrArg (fun n => (feed.moves y.tickers y.source y.service.lastPublished.get? n).length)
      heq

/-! ## Two halves of a benchmark over one ticker -/

/-- A seed of one ticker. -/
def appleSeed : SeedFiles := ⟨some "ticker,name\nAAPL,Apple Inc.\n", some "ticker,price\nAAPL,7\n"⟩

/-- A half of the benchmark. -/
def soloHalf (transport : Transport) : Option (Sourced (SimulatedSource ℕ ℕ) ℕ) :=
  startSimulated VendorTick.wholeFloats 100 appleSeed ⟨4, 5, 1⟩
    { soloSettings with transport := transport } soloStores.resetPrices

/-- The half in push mode. -/
def pushHalf : Sourced (SimulatedSource ℕ ℕ) ℕ := (soloHalf .push).get (by decide +kernel)

/-- The half in poll mode. -/
def pollHalf : Sourced (SimulatedSource ℕ ℕ) ℕ := (soloHalf .poll).get (by decide +kernel)

lemma soloHalf_push : soloHalf .push = some pushHalf := (Option.some_get _).symm

lemma soloHalf_poll : soloHalf .poll = some pollHalf := (Option.some_get _).symm

/-- Two ticks whose writes go through. -/
def pushTicks : List (TickInput ℕ) :=
  [soloTick firstReading 0 .ok .ok (.replied fun _ => false),
    soloTick secondReading 0 .ok .ok (.replied fun _ => false)]

/-- Three ticks, the first of them lost to both stores. -/
def pollTicks : List (TickInput ℕ) :=
  [soloTick firstReading 0 (.error fun _ => false) (.error false) (.replied fun _ => false),
    soloTick secondReading 0 .ok .ok (.replied fun _ => false),
    soloTick thirdReading 0 .ok .ok (.replied fun _ => false)]

/-- What one half sends the other writes. -/
theorem halves_two_ticks :
    pushHalf.movement (SimulatedSource.feed VendorSource.countingWalk) pushTicks <+:
      pollHalf.movement (SimulatedSource.feed VendorSource.countingWalk) pollTicks :=
  (halves_agree VendorSource.countingWalk rfl soloHalf_push soloHalf_poll pushTicks
    pollTicks).1 (by decide +kernel)

/-- **No price falls below a cent.**  From starting prices of at least a cent, whatever becomes of the
reads and writes of a lifetime, every row and every cache entry was there at its start or is at least
a cent, like all that was sent; and only tickers with a starting price are priced. -/
theorem floor_kept (hcent : walk.lt walk.cent walk.cent = false)
    (h : startSimulated py hundred seed sim settings stores = some x)
    (hfloored : x.source.Floored walk) (is : List (TickInput F)) :
    let after := x.run (SimulatedSource.feed walk) is
    (∀ id row, Dict.get? after.stores.latestPrices id = some row →
      Dict.get? x.stores.latestPrices id = some row ∨ walk.lt row.price walk.cent = false) ∧
    (∀ t c, after.stores.redis.cached t = some c → x.stores.redis.cached t = some c ∨
      t ∈ x.source.last.keys ∧ walk.lt c.price walk.cent = false) ∧
    ∀ e ∈ x.sent (SimulatedSource.feed walk) is,
      e.1 ∈ x.source.last.keys ∧ walk.lt e.2 walk.cent = false := by
  intro after
  obtain ⟨-, rows, starting, -, hstart, -, -⟩ := startSimulated_eq_some h
  obtain ⟨-, hsound, -⟩ := start_service hstart
  obtain ⟨hrow, hcached, hsent⟩ := Sourced.stored_or_read (requests_feed walk _) hsound is
  -- what is read is of a ticker the walk knows, and at the floor or above
  let good (t : Ticker) (p : F) : Prop := t ∈ x.source.last.keys ∧ walk.lt p walk.cent = false
  let inv (src : SimulatedSource F R) : Prop := src.last.keys = x.source.last.keys ∧ src.Floored walk
  have hanswers : ∀ src, inv src → inv ((SimulatedSource.feed walk).fetch src x.tickers).1 ∧
      ∀ prices, ((SimulatedSource.feed walk).fetch src x.tickers).2 = .returned prices →
        ∀ t p, prices.get? t = some p → good t p := by
    rintro src ⟨hkeys, hprices⟩
    have hquoted := SimulatedSource.fetch_spec walk src x.tickers
    have hkept := hprices.fetch hcent x.tickers
    refine ⟨⟨hquoted.keys.trans hkeys, hkept⟩, fun prices hprices t p hp => ?_⟩
    obtain rfl := FetchOutcome.returned.inj hprices
    rw [hquoted.out] at hp
    split at hp
    · refine ⟨?_, hkept t p hp⟩
      rw [← hkeys, ← hquoted.keys]
      exact Dict.mem_keys_iff.2 ⟨p, hp⟩
    · exact absurd hp (by simp)
  have hheld : ∀ t p, x.service.upstreamPrices.get? t = some p → good t p := by
    intro t p hp
    rw [start_upstream hstart] at hp
    exact absurd hp (by simp)
  -- so is what any tick reads, and with it what it stores and publishes
  have hread {t : Ticker} {p : F} (hp : x.Reads (SimulatedSource.feed walk) is t p) : good t p :=
    Sourced.reads_of_answers (requests_feed walk _) hsound hanswers ⟨rfl, hfloored⟩ hheld hp
  exact ⟨fun id row hget => (hrow id row hget).imp_right fun ⟨t, hp⟩ => (hread hp).2,
    fun t c hget => (hcached t c hget).imp_right hread, fun e he => hread (hsent e he)⟩

/-- The table holds no price below a cent after these ticks. -/
theorem floor_two_ticks : pushHalf.source.Floored VendorSource.countingWalk ∧ ∀ id row,
    Dict.get? (pushHalf.run (SimulatedSource.feed VendorSource.countingWalk)
      pushTicks).stores.latestPrices id = some row →
    Dict.get? pushHalf.stores.latestPrices id = some row ∨ decide (row.price < 1) = false := by
  have hfloored : pushHalf.source.Floored VendorSource.countingWalk := by
    intro t p hp
    have hentries : pushHalf.source.last.entries = [("AAPL", 7)] := by decide +kernel
    have hmem := Dict.get?_eq_some_iff.1 hp
    rw [hentries, List.mem_singleton] at hmem
    rw [(Prod.mk.inj hmem).2]
    rfl
  exact ⟨hfloored, (floor_kept (by decide) soloHalf_push hfloored pushTicks).1⟩

end PriceService
end TickerWatch
