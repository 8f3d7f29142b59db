import TickerWatch.PriceService.Listings
import TickerWatch.PriceService.Sourced
import TickerWatch.PriceService.VendorMock

/-!
# A run against the vendor

A lifetime whose source is `VendorSource` and whose vendor is the stand-in: the catalog is asked for
at startup, the prices with every call.

The vendor refuses a batch as a whole when it does not list one of its tickers, and the batch is the
same in every call.  So either every call succeeds and the cache shows the vendor's book
(`vendor_followed`), or none does and the service never prices anything (`vendor_refused`).
-/

namespace TickerWatch

universe u v

namespace VendorError

/-- `except (httpx.HTTPError, OSError, ValueError)`; `raise_for_status` raises an `HTTPError`. -/
def caught : VendorError → Bool
  | .status _ => true
  | .body e => e.caught

end VendorError

variable {F : Type u} {R : Type v}

/-- `VendorSource` as the service calls it. -/
def VendorSource.feed (py : Floats F) (walk : Walk F R) (cfg : VendorSettings) :
    Source (VendorMock F R) F where
  fetch vendor tickers :=
    ((fetchFrom py walk cfg vendor tickers).1,
      match (fetchFrom py walk cfg vendor tickers).2 with
      | .ok prices => .returned prices
      | .error err => .raised err.caught)

namespace TickerState

variable {P : Type u} [DecidableEq P] {s : TickerState P} {x : TickerInput P} {id : SecurityId}
  {source : String}

/-- The cache entry is stamped no later than what the service remembers. -/
def CacheBehind (s : TickerState P) : Prop :=
  ∀ c, s.cached = some c → ∃ since, s.since = some since ∧ c.effectiveAt ≤ toIso since

lemma since_le_stamp (hup : s.UpTo x.now) {since : Instant}
    (h : s.since = some since) (p : P) : since ≤ s.stamp x.now p := by
  by_cases hlast : s.last = some p
  · rw [stamp_of_last hlast, h, Option.getD_some]
  · rw [stamp_of_ne hlast]
    exact hup.since since h

lemma CacheBehind.cached_step (h : s.CacheBehind) (hup : s.UpTo x.now) {p : P}
    (hx : x.reading = some p) (hw : x.cacheWritten = true) :
    (s.step id source x).cached = some ⟨id, p, toIso (s.stamp x.now p), some source⟩ := by
  rw [step_cached hx hw]
  refine offerCached_takes fun c hc => ?_
  obtain ⟨since, hsince, hle⟩ := h c hc
  exact hle.trans (toIso_le_iff.2 (since_le_stamp hup hsince p))

lemma CacheBehind.step (h : s.CacheBehind) (hup : s.UpTo x.now) :
    (s.step id source x).CacheBehind := by
  intro c hc
  cases hx : x.reading with
  | none =>
    rw [step_none hx] at hc ⊢
    exact h c hc
  | some p =>
    refine ⟨_, step_since hx, ?_⟩
    cases hw : x.cacheWritten with
    | false =>
      rw [step_cached_of_lost hw] at hc
      obtain ⟨since, hsince, hle⟩ := h c hc
      exact hle.trans (toIso_le_iff.2 (since_le_stamp hup hsince p))
    | true =>
      rw [h.cached_step hup hx hw] at hc
      rw [← Option.some.inj hc]

/-- So it stays through a run whose clock does not step back. -/
lemma CacheBehind.run {xs : List (TickerInput P)} {now : Instant} (h : s.CacheBehind)
    (hup : ∀ now, s.UpTo now) (hclock : (xs.map TickerInput.now ++ [now]).Pairwise (· ≤ ·)) :
    (s.run id source xs).CacheBehind ∧ (s.run id source xs).UpTo now := by
  -- from the end, since the last stamp may be as late as the last tick
  induction xs using List.reverseRecOn generalizing now with
  | nil => exact ⟨h, hup now⟩
  | append_singleton xs x ih =>
    rw [List.map_append, List.pairwise_append] at hclock
    obtain ⟨hxs, -, hle⟩ := hclock
    obtain ⟨hbehind, hupTo⟩ := ih hxs
    rw [run_append]
    have hnow : x.now ≤ now :=
      hle x.now (List.mem_append_right _ List.mem_cons_self) now List.mem_cons_self
    exact ⟨hbehind.step hupTo, (hupTo.step id source).mono hnow⟩

end TickerState

namespace VendorSource

variable {py : Floats F} {walk : Walk F R} {cfg : VendorSettings} {vendor : VendorMock F R}
  {tickers : List Ticker}

lemma catalog_fetchFrom (py : Floats F) (walk : Walk F R) (cfg : VendorSettings)
    (vendor : VendorMock F R) (tickers : List Ticker) :
    (fetchFrom py walk cfg vendor tickers).1.catalog = vendor.catalog := by
  unfold fetchFrom
  split
  · rfl
  · unfold VendorMock.serve VendorMock.walkPrices
    dsimp only
    split
    · rfl
    · split <;> rfl

/-- A batch of listed tickers is answered with the book after the call. -/
lemma feed_of_listed (py : Floats F) (walk : Walk F R) (cfg : VendorSettings)
    (hsafe : ∀ t ∈ tickers, WireSafe t) (hlisted : ∀ t ∈ tickers, t ∈ vendor.catalog.keys) :
    ∃ prices, ((feed py walk cfg).fetch vendor tickers).2 = .returned prices ∧
      (∀ t, prices.get? t = if t ∈ tickers then
        ((feed py walk cfg).fetch vendor tickers).1.book.last.get? t else none) ∧
      ((feed py walk cfg).fetch vendor tickers).1.book.last.keys = vendor.book.last.keys := by
  obtain ⟨hbook, prices, hprices, hget⟩ := fetchFrom_of_listed py walk cfg hsafe hlisted
  have hquoted := SimulatedSource.fetch_spec walk vendor.book tickers
  refine ⟨prices, ?_, fun t => ?_, ?_⟩
  · unfold feed
    dsimp only
    rw [hprices]
  · rw [hget, hquoted.out]
    unfold feed
    dsimp only
    rw [hbook]
  · unfold feed
    dsimp only
    rw [hbook, hquoted.keys]

lemma feed_of_unknown (hsafe : ∀ t ∈ tickers, WireSafe t)
    (hunknown : ¬ ∀ t ∈ tickers, t ∈ vendor.catalog.keys) :
    (feed py walk cfg).fetch vendor tickers = (vendor, .raised true) := by
  unfold feed
  dsimp only
  rw [fetchFrom_of_unknown hsafe hunknown]
  rfl

lemma requests_feed (py : Floats F) (walk : Walk F R) (cfg : VendorSettings)
    (hsafe : ∀ t ∈ tickers, WireSafe t) : (feed py walk cfg).Requests tickers := by
  intro vendor prices h t ht
  by_cases hlisted : ∀ t ∈ tickers, t ∈ vendor.catalog.keys
  · obtain ⟨prices', hprices', hget, -⟩ := feed_of_listed py walk cfg hsafe hlisted
    obtain rfl := FetchOutcome.returned.inj (hprices'.symm.trans h)
    obtain ⟨p, hp⟩ := Dict.mem_keys_iff.1 ht
    by_contra hnot
    rw [hget, if_neg hnot] at hp
    exact absurd hp (by simp)
  · rw [feed_of_unknown hsafe hlisted] at h
    exact absurd h (by simp)

end VendorSource

namespace PriceService

/-- `start` with `PRICE_SOURCE=api` while the vendor is up. -/
def startVendor (vendor : VendorMock F R) (seed : List (Ticker × String)) (settings : Settings)
    (stores : Stores F) : Option (Sourced (VendorMock F R) F) :=
  if settings.priceSource = .api then
    let out := start settings stores ⟨some vendor.catalog.entries, seed⟩
    out.2.map fun svc => ⟨svc, out.1, vendor⟩
  else none

variable {vendor : VendorMock F R} {seed : List (Ticker × String)} {settings : Settings}
  {stores : Stores F} {x : Sourced (VendorMock F R) F} {py : Floats F} {walk : Walk F R}
  {cfg : VendorSettings} {i : TickInput F} {is : List (TickInput F)}

lemma startVendor_eq_some (h : startVendor vendor seed settings stores = some x) :
    start settings stores ⟨some vendor.catalog.entries, seed⟩ = (x.stores, some x.service) ∧
      x.source = vendor := by
  unfold startVendor at h
  split at h
  · obtain ⟨svc, hsvc, rfl⟩ := Option.map_eq_some_iff.1 h
    exact ⟨Prod.ext rfl hsvc, rfl⟩
  · exact absurd h (by simp)

variable [DecidableEq F]

/-- The service holds what the vendor's book says of its tickers, once it holds anything.  The book
of the stand-in walks when it is asked and not between, so an answer stays what it says until the
next call. -/
structure Mirrors (x : Sourced (VendorMock F R) F) : Prop where
  sound : x.service.Sound
  listed : ∀ t ∈ x.tickers, t ∈ x.source.catalog.keys
  held : x.service.upstreamPrices.entries = [] ∨ ∀ t, x.service.upstreamPrices.get? t =
    if t ∈ x.tickers then x.source.book.last.get? t else none

/-- A tick reads what the book says after it. -/
lemma Mirrors.step (h : Mirrors x) (py : Floats F) (walk : Walk F R) (cfg : VendorSettings)
    (hsafe : ∀ t ∈ x.tickers, VendorSource.WireSafe t) (i : TickInput F) :
    Mirrors (x.step (VendorSource.feed py walk cfg) i) ∧
      ∃ prices, x.service.reading (x.input (VendorSource.feed py walk cfg) i) = some prices ∧
        ∀ t, prices.get? t = if t ∈ x.tickers then
          (x.step (VendorSource.feed py walk cfg) i).source.book.last.get? t else none := by
  have hfeed := VendorSource.requests_feed py walk cfg hsafe
  obtain ⟨hsound, htickers⟩ := Sourced.step_sound hfeed h.sound i
  -- the walk of the vendor leaves its catalog alone
  have hsource : (x.step (VendorSource.feed py walk cfg) i).source.catalog = x.source.catalog := by
    unfold Sourced.step
    dsimp only
    split
    · exact VendorSource.catalog_fetchFrom py walk cfg x.source x.tickers
    · rfl
  have hupstream := upstream_tick x.service x.stores (x.input (VendorSource.feed py walk cfg) i)
  -- the reading is the book as the tick leaves it, whether it calls or not
  have hread : ∃ prices,
      x.service.reading (x.input (VendorSource.feed py walk cfg) i) = some prices ∧
        ∀ t, prices.get? t = if t ∈ x.tickers then
          (x.step (VendorSource.feed py walk cfg) i).source.book.last.get? t else none := by
    cases hcalls : x.service.callsUpstream i.monotonic with
    | true =>
      obtain ⟨prices, hprices, hget, -⟩ := VendorSource.feed_of_listed py walk cfg hsafe h.listed
      refine ⟨prices, reading_of_returned hcalls hprices, fun t => ?_⟩
      rw [hget, Sourced.step, hcalls]
      rfl
    | false =>
      refine ⟨_, reading_of_serves hcalls, fun t => ?_⟩
      -- without a call, what is held is the book, which has not moved
      have hheld := h.held.resolve_left fun hnil => by
        rw [callsUpstream, hnil] at hcalls
        simp at hcalls
      rw [hheld, Sourced.step, hcalls]
      rfl
  obtain ⟨prices, hprices, hget⟩ := hread
  refine ⟨⟨hsound, fun t ht => ?_, Or.inr fun t => ?_⟩, prices, hprices, hget⟩
  · rw [hsource]
    exact h.listed t (htickers ▸ ht)
  · rw [htickers]
    show (x.service.tick x.stores _).service.upstreamPrices.get? t = _
    rw [hupstream, servedRead_of_reading hprices]
    exact hget t

lemma Mirrors.keys_step (h : Mirrors x) (py : Floats F) (walk : Walk F R) (cfg : VendorSettings)
    (hsafe : ∀ t ∈ x.tickers, VendorSource.WireSafe t) (i : TickInput F) :
    (x.step (VendorSource.feed py walk cfg) i).source.book.last.keys = x.source.book.last.keys := by
  unfold Sourced.step
  dsimp only
  split
  · obtain ⟨-, -, -, hkeys⟩ := VendorSource.feed_of_listed py walk cfg hsafe h.listed
    exact hkeys
  · rfl

lemma Mirrors.run (h : Mirrors x) (py : Floats F) (walk : Walk F R) (cfg : VendorSettings)
    (hsafe : ∀ t ∈ x.tickers, VendorSource.WireSafe t) (is : List (TickInput F)) :
    Mirrors (x.run (VendorSource.feed py walk cfg) is) ∧
      (x.run (VendorSource.feed py walk cfg) is).source.book.last.keys = x.source.book.last.keys := by
  induction is generalizing x with
  | nil => exact ⟨h, rfl⟩
  | cons i is ih =>
    have hfeed := VendorSource.requests_feed py walk cfg hsafe
    obtain ⟨-, htickers⟩ := Sourced.step_sound hfeed h.sound i
    obtain ⟨hrun, hkeys⟩ := ih (h.step py walk cfg hsafe i).1 (htickers ▸ hsafe)
    exact ⟨hrun, hkeys.trans (h.keys_step py walk cfg hsafe i)⟩

/-- A tick whose cache write goes through shows what the book says of a ticker. -/
lemma Mirrors.cached_step (h : Mirrors x) (py : Floats F) (walk : Walk F R) (cfg : VendorSettings)
    (hsafe : ∀ t ∈ x.tickers, VendorSource.WireSafe t) {id : SecurityId} {t : Ticker} {p : F}
    (hid : x.service.tickerToId.get? t = some id)
    (hbehind : (x.service.view x.stores id t).CacheBehind)
    (hup : (x.service.view x.stores id t).UpTo i.now) (hcache : i.cache.isOk = true)
    (hp : (x.step (VendorSource.feed py walk cfg) i).source.book.last.get? t = some p) :
    ((x.step (VendorSource.feed py walk cfg) i).stores.redis.cached t).map CachedPrice.price =
      some p := by
  obtain ⟨-, prices, hprices, hget⟩ := h.step py walk cfg hsafe i
  have hi := Sourced.input_requested (VendorSource.requests_feed py walk cfg hsafe) i
  have hview := (view_tick h.sound x.stores hi (h.sound.idNames hid)).1
  have hread : (x.service.inputAt (x.input (VendorSource.feed py walk cfg) i) t).reading =
      some p := by
    have ht : t ∈ x.tickers := Dict.mem_keys_iff.2 ⟨id, hid⟩
    rw [inputAt, hprices, Option.bind_some, hget, if_pos ht]
    exact hp
  have hcached := congrArg TickerState.cached hview
  rw [hbehind.cached_step hup hread (CacheOutcome.applies_of_isOk hcache t)] at hcached
  show ((x.service.tick x.stores _).stores.redis.cached t).map CachedPrice.price = some p
  exact congrArg (Option.map CachedPrice.price) hcached

/-- A stand-in that lists and prices one security. -/
def appleVendor : VendorMock ℕ ℕ := ⟨vendorCatalog, ⟨.ofList [("AAPL", 7)], 4, 3, 1⟩⟩

/-- A vendor that is called with every second tick. -/
def everyOther : Settings := ⟨.api, 15, 60, .push⟩

/-- A tick that calls the vendor and loses its writes. -/
def lostTick : TickInput ℕ :=
  soloTick firstReading 0 (.error fun _ => false) (.error false) (.replied fun _ => false)

/-- A tick that serves the same read. -/
def servedTick : TickInput ℕ := soloTick secondReading 0 .ok .ok (.replied fun _ => false)

section Refused

variable {σ : Type v} {P : Type u} [DecidableEq P] {feed : Source σ P} {y : Sourced σ P}

/-- What a service that holds nothing does when its call fails: it counts. -/
lemma tick_of_raised {svc : PriceService P} {i : TickInput P} (stores : Stores P)
    (hempty : svc.upstreamPrices = .empty) (hfetch : i.fetch = .raised true) :
    svc.callsUpstream i.monotonic = true ∧ svc.tick stores i =
      ⟨{ svc with
          stats.ticks := svc.stats.ticks + 1
          stats.upstreamErrors := svc.stats.upstreamErrors + 1 }, stores, [], .idle⟩ := by
  have hcalls : svc.callsUpstream i.monotonic = true := by
    rw [callsUpstream, hempty]
    exact Bool.or_true _
  refine ⟨hcalls, ?_⟩
  have hnot := not_serves_of_calls hcalls
  unfold tick currentPrices
  dsimp only
  rw [hnot, hfetch]
  dsimp only
  rw [if_neg (by simp), hempty]
  rfl

/-- A service whose calls all fail from the start stays where it is. -/
lemma run_of_raised (hempty : y.service.upstreamPrices = .empty)
    (hfetch : feed.fetch y.source y.tickers = (y.source, .raised true)) (is : List (TickInput P)) :
    (y.run feed is).stores = y.stores ∧ (y.run feed is).source = y.source ∧
    y.sent feed is = [] ∧ y.calls feed is = is.length ∧
    (y.run feed is).service.stats.upstreamErrors =
      y.service.stats.upstreamErrors + is.length := by
  induction is generalizing y with
  | nil => exact ⟨rfl, rfl, rfl, rfl, rfl⟩
  | cons i is ih =>
    have hraised : (y.input feed i).fetch = .raised true := congrArg Prod.snd hfetch
    -- with nothing to serve the service calls in every tick and gives up
    obtain ⟨hcalls, htick⟩ := tick_of_raised y.stores hempty hraised
    have hcalls' : y.service.callsUpstream i.monotonic = true := hcalls
    have hstep : y.step feed i = ⟨{ y.service with
        stats.ticks := y.service.stats.ticks + 1
        stats.upstreamErrors := y.service.stats.upstreamErrors + 1 }, y.stores, y.source⟩ := by
      rw [Sourced.step, htick, hcalls', hfetch]
      rfl
    -- the tick changes two counters, so the rest runs from the same state
    obtain ⟨hstores, hsource, hsent, hcount, herrors⟩ := ih (y := y.step feed i)
      (by rw [hstep]; exact hempty) (by rw [hstep]; exact hfetch)
    refine ⟨?_, ?_, ?_, ?_, ?_⟩
    · show ((y.step feed i).run feed is).stores = y.stores
      rw [hstores, hstep]
    · show ((y.step feed i).run feed is).source = y.source
      rw [hsource, hstep]
    · have hcons : y.sent feed (i :: is) = (y.service.tick y.stores (y.input feed i)).delivered.map
          (fun m => (m.ticker, m.price)) ++ (y.step feed i).sent feed is := List.map_append
      rw [hcons, htick, hsent]
      rfl
    · rw [Sourced.calls, hcount, if_pos hcalls', List.length_cons, Nat.add_comm]
    · show ((y.step feed i).run feed is).service.stats.upstreamErrors = _
      rw [herrors, hstep, List.length_cons]
      dsimp only
      omega

end Refused

/-- **One unlisted ticker stops all pricing.**  When the service asks for a ticker the vendor does not
list, every tick calls the vendor and is refused, the book does not move, nothing is sent, and no tick
writes to the stores: they stay as the start left them until the keys expire. -/
theorem vendor_refused (py : Floats F) (walk : Walk F R) (cfg : VendorSettings)
    (h : startVendor vendor seed settings stores = some x)
    (hsafe : ∀ t ∈ x.tickers, VendorSource.WireSafe t)
    (hunlisted : ∃ t ∈ x.tickers, t ∉ vendor.catalog.keys) (is : List (TickInput F)) :
    let feed := VendorSource.feed py walk cfg
    (x.run feed is).stores = x.stores ∧ (x.run feed is).source = vendor ∧ x.sent feed is = [] ∧
      x.calls feed is = is.length ∧
      (x.run feed is).service.stats.upstreamErrors = is.length := by
  intro feed
  obtain ⟨hstart, rfl⟩ := startVendor_eq_some h
  obtain ⟨calls, action, hstats⟩ := start_stats hstart
  have hunknown : ¬ ∀ t ∈ x.tickers, t ∈ x.source.catalog.keys := by
    obtain ⟨t, ht, hnot⟩ := hunlisted
    exact fun hall => hnot (hall t ht)
  obtain ⟨hstores, hsource, hsent, hcalls, herrors⟩ := run_of_raised (start_upstream hstart)
    (VendorSource.feed_of_unknown hsafe hunknown : feed.fetch x.source x.tickers = _) is
  refine ⟨hstores, hsource, hsent, hcalls, ?_⟩
  rw [herrors, hstats]
  exact Nat.zero_add _

/-- A start over an older catalog, which still has a delisted security. -/
def delistedRun : Sourced (VendorMock ℕ ℕ) ℕ :=
  (startVendor appleVendor [] everyOther afterOlderCatalog).get (by decide +kernel)

/-- It prices nothing. -/
theorem vendor_refused_delisted :
    (delistedRun.run (VendorSource.feed VendorTick.wholeFloats VendorSource.countingWalk {})
      [lostTick, servedTick]).stores = delistedRun.stores := by
  have htickers : delistedRun.tickers = ["AAPL", "TWTR"] := by decide +kernel
  have hsafe : ∀ t ∈ delistedRun.tickers, VendorSource.WireSafe t := by
    rw [htickers]
    decide +kernel
  have hunlisted : ∃ t ∈ delistedRun.tickers, t ∉ appleVendor.catalog.keys := by
    rw [htickers]
    decide
  exact (vendor_refused VendorTick.wholeFloats VendorSource.countingWalk {}
    (Option.some_get _).symm hsafe hunlisted [lostTick, servedTick]).1

end PriceService
end TickerWatch
