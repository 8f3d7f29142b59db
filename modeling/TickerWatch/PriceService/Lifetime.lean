import Mathlib.Data.Fintype.EquivFin
import TickerWatch.PriceService.Startup
import TickerWatch.Prices.Reconciliation

/-!
# One lifetime of the price service

A lifetime is a completed start followed by ticks.  Seen from one ticker it is the state a start
leaves followed by steps of the one-ticker machine, and what a subscriber of the ticker's channel
receives are the publications of those steps (`view_runTicks`).
-/

namespace TickerWatch

universe u

variable {P : Type u} [DecidableEq P]

namespace TickerState

/-- A ticker through a sequence of ticks. -/
def run (id : SecurityId) (source : String) (s : TickerState P) (xs : List (TickerInput P)) :
    TickerState P := xs.foldl (step id source) s

/-- What a sequence of ticks delivers for a ticker. -/
def publications (id : SecurityId) (t : Ticker) (source : String) (s : TickerState P) :
    List (TickerInput P) → List (Publication P)
  | [] => []
  | x :: xs => (s.publication id t source x).toList ++
      publications id t source (s.step id source x) xs

lemma run_append (id : SecurityId) (source : String) (s : TickerState P)
    (xs ys : List (TickerInput P)) :
    s.run id source (xs ++ ys) = (s.run id source xs).run id source ys := List.foldl_append

/-- Every stamp the ticker carries lies before `now`. -/
structure Before (s : TickerState P) (now : Instant) : Prop where
  since : ∀ since, s.since = some since → since < now
  row : ∀ row, s.row = some row → row.effectiveAt < now

/-- No stamp the ticker carries is later than `clock`. -/
structure UpTo (s : TickerState P) (clock : Instant) : Prop where
  since : ∀ since, s.since = some since → since ≤ clock
  row : ∀ row, s.row = some row → row.effectiveAt ≤ clock

variable {s : TickerState P} {x : TickerInput P} {id : SecurityId} {source : String}

omit [DecidableEq P] in
lemma UpTo.before {clock now : Instant} (h : s.UpTo clock) (hlt : clock < now) : s.Before now :=
  ⟨fun since hs => (h.since since hs).trans_lt hlt, fun row hr => (h.row row hr).trans_lt hlt⟩

omit [DecidableEq P] in
lemma Before.upTo {now : Instant} (h : s.Before now) : s.UpTo now :=
  ⟨fun since hs => (h.since since hs).le, fun row hr => (h.row row hr).le⟩

omit [DecidableEq P] in
lemma UpTo.mono {clock now : Instant} (h : s.UpTo clock) (hle : clock ≤ now) : s.UpTo now :=
  ⟨fun since hs => (h.since since hs).trans hle, fun row hr => (h.row row hr).trans hle⟩

lemma stamp_le (h : s.UpTo x.now) (p : P) : s.stamp x.now p ≤ x.now := by
  by_cases hlast : s.last = some p
  · rw [stamp_of_last hlast]
    cases hsince : s.since with
    | none => exact le_rfl
    | some since => exact h.since since hsince
  · rw [stamp_of_ne hlast]

lemma step_since_isSome (id : SecurityId) (source : String) (x : TickerInput P) {since : Instant}
    (h : s.since = some since) : ∃ since', (s.step id source x).since = some since' := by
  cases hx : x.reading with
  | none =>
    rw [step_none hx]
    exact ⟨since, h⟩
  | some p => exact ⟨_, step_since hx⟩

/-- A row after a step is the one before, or the price read, stamped with the clock. -/
lemma step_row_cases {row : LatestPrice P} (hrow : (s.step id source x).row = some row) :
    s.row = some row ∨ ∃ p, x.reading = some p ∧ s.last ≠ some p ∧ row = ⟨p, x.now, source⟩ := by
  cases hx : x.reading with
  | none =>
    rw [step_none hx] at hrow
    exact Or.inl hrow
  | some p =>
    by_cases hlast : s.last = some p
    · rw [step_row_of_last hx hlast] at hrow
      exact Or.inl hrow
    · cases hw : x.rowWritten with
      | false =>
        rw [step_row_of_lost hw] at hrow
        exact Or.inl hrow
      | true =>
        rw [step_row_of_ne hx hlast hw] at hrow
        rcases offerRow_cases s.row ⟨p, x.now, source⟩ with h | h
        · exact Or.inr ⟨p, rfl, hlast, Option.some.inj (hrow.symm.trans h)⟩
        · exact Or.inl (h ▸ hrow)

/-- An entry after a step is the one before, or the price read under its stamp. -/
lemma step_cached_cases {c : CachedPrice P} (hc : (s.step id source x).cached = some c) :
    s.cached = some c ∨ ∃ p, x.reading = some p ∧
      c = ⟨id, p, toIso (s.stamp x.now p), some source⟩ := by
  cases hx : x.reading with
  | none =>
    rw [step_none hx] at hc
    exact Or.inl hc
  | some p =>
    cases hw : x.cacheWritten with
    | false =>
      rw [step_cached_of_lost hw] at hc
      exact Or.inl hc
    | true =>
      rw [step_cached hx hw] at hc
      rcases offerCached_cases s.cached ⟨id, p, toIso (s.stamp x.now p), some source⟩ with h | h
      · rw [h] at hc
        exact Or.inr ⟨p, rfl, (Option.some.inj hc).symm⟩
      · rw [h] at hc
        exact Or.inl hc

/-- A step stamps with the clock of its tick at most. -/
lemma UpTo.step (h : s.UpTo x.now) (id : SecurityId) (source : String) :
    (s.step id source x).UpTo x.now := by
  refine ⟨fun since hsince => ?_, fun row hrow => ?_⟩
  · cases hx : x.reading with
    | none =>
      rw [step_none hx] at hsince
      exact h.since since hsince
    | some p =>
      rw [step_since hx] at hsince
      rw [← Option.some.inj hsince]
      exact stamp_le h p
  · rcases step_row_cases hrow with hold | ⟨p, -, -, rfl⟩
    · exact h.row row hold
    · exact le_rfl

lemma Before.step {now : Instant} (h : s.Before x.now) (hnow : x.now < now) :
    (s.step id source x).Before now := (h.upTo.step id source).before hnow

lemma Before.run {xs : List (TickerInput P)} {now : Instant} (h : ∀ x ∈ xs, s.Before x.now)
    (hnow : s.Before now) (hclock : (xs.map TickerInput.now).Pairwise (· < ·))
    (hlt : ∀ x ∈ xs, x.now < now) : (s.run id source xs).Before now := by
  induction xs generalizing s with
  | nil => exact hnow
  | cons x xs ih =>
    rw [List.map_cons, List.pairwise_cons] at hclock
    have hx := h x List.mem_cons_self
    apply ih ?_ (hx.step (hlt x List.mem_cons_self)) hclock.2 fun y hy =>
      hlt y (List.mem_cons_of_mem _ hy)
    intro y hy
    exact hx.step (hclock.1 _ (List.mem_map_of_mem hy))

end TickerState

namespace PriceService

/-- The service and its stores after a sequence of ticks. -/
def runTicks (svc : PriceService P) (stores : Stores P) :
    List (TickInput P) → PriceService P × Stores P
  | [] => (svc, stores)
  | i :: is => (svc.tick stores i).service.runTicks (svc.tick stores i).stores is

/-- What each of a sequence of ticks delivers. -/
def deliveries (svc : PriceService P) (stores : Stores P) :
    List (TickInput P) → List (List (Publication P))
  | [] => []
  | i :: is => (svc.tick stores i).delivered ::
      (svc.tick stores i).service.deliveries (svc.tick stores i).stores is

/-- What each of a sequence of ticks brings for one ticker. -/
def inputsAt (svc : PriceService P) (stores : Stores P) (t : Ticker) :
    List (TickInput P) → List (TickerInput P)
  | [] => []
  | i :: is => svc.inputAt i t ::
      (svc.tick stores i).service.inputsAt (svc.tick stores i).stores t is

variable {svc : PriceService P} {stores : Stores P} {i : TickInput P} {is is' : List (TickInput P)}
  {id : SecurityId} {t : Ticker}

lemma runTicks_append (svc : PriceService P) (stores : Stores P) (is is' : List (TickInput P)) :
    svc.runTicks stores (is ++ is') =
      (svc.runTicks stores is).1.runTicks (svc.runTicks stores is).2 is' := by
  induction is generalizing svc stores with
  | nil => rfl
  | cons i is ih => exact ih _ _

lemma inputsAt_append (svc : PriceService P) (stores : Stores P) (t : Ticker)
    (is is' : List (TickInput P)) :
    svc.inputsAt stores t (is ++ is') = svc.inputsAt stores t is ++
      (svc.runTicks stores is).1.inputsAt (svc.runTicks stores is).2 t is' := by
  induction is generalizing svc stores with
  | nil => rfl
  | cons i is ih => exact congrArg _ (ih _ _)

lemma map_now_inputsAt (svc : PriceService P) (stores : Stores P) (t : Ticker)
    (is : List (TickInput P)) :
    (svc.inputsAt stores t is).map TickerInput.now = is.map TickInput.now := by
  induction is generalizing svc stores with
  | nil => rfl
  | cons i is ih => exact congrArg _ (ih _ _)

lemma runTicks_service (hs : svc.Sound) (stores : Stores P) (hreq : ∀ i ∈ is, svc.Requested i) :
    (svc.runTicks stores is).1.settings = svc.settings ∧
    (svc.runTicks stores is).1.tickerToId = svc.tickerToId ∧
    (svc.runTicks stores is).1.Sound := by
  induction is generalizing svc stores with
  | nil => exact ⟨rfl, rfl, hs⟩
  | cons i is ih =>
    obtain ⟨hsettings, hids, -, hsound⟩ := tick_service hs stores (hreq i List.mem_cons_self)
    have hreq' : ∀ j ∈ is, (svc.tick stores i).service.Requested j := fun j hj =>
      (hreq j (List.mem_cons_of_mem _ hj)).congr hids
    obtain ⟨hsettings', hids', hsound'⟩ := ih hsound (svc.tick stores i).stores hreq'
    exact ⟨hsettings'.trans hsettings, hids'.trans hids, hsound'⟩

/-- **A lifetime is a run of the one-ticker machine at every ticker**, and delivers on the
ticker's channel what that run publishes. -/
theorem view_runTicks (hs : svc.Sound) (stores : Stores P) (hreq : ∀ i ∈ is, svc.Requested i)
    (hkey : svc.IdNames id t) :
    (svc.runTicks stores is).1.view (svc.runTicks stores is).2 id t =
      (svc.view stores id t).run id svc.sourceName (svc.inputsAt stores t is) ∧
    (svc.deliveries stores is).flatten.filter (fun m => decide (m.ticker = t)) =
      (svc.view stores id t).publications id t svc.sourceName (svc.inputsAt stores t is) := by
  induction is generalizing svc stores with
  | nil => exact ⟨rfl, rfl⟩
  | cons i is ih =>
    have hreq₀ := hreq i List.mem_cons_self
    obtain ⟨hsettings, hids, -, hsound⟩ := tick_service hs stores hreq₀
    obtain ⟨hview, hdelivered⟩ := view_tick hs stores hreq₀ hkey
    have hreq' : ∀ j ∈ is, (svc.tick stores i).service.Requested j := fun j hj =>
      (hreq j (List.mem_cons_of_mem _ hj)).congr hids
    have hkey' : (svc.tick stores i).service.IdNames id t := by
      rw [IdNames, hids]
      exact hkey
    have hsource : (svc.tick stores i).service.sourceName = svc.sourceName := by
      rw [sourceName, hsettings, sourceName]
    obtain ⟨hrun, hrest⟩ := ih hsound (svc.tick stores i).stores hreq' hkey'
    rw [hview, hsource] at hrun hrest
    refine ⟨hrun, ?_⟩
    rw [deliveries, List.flatten_cons, List.filter_append, hdelivered, hrest]
    rfl

omit [DecidableEq P] in
lemma Sound.idNames (hs : svc.Sound) (hid : svc.tickerToId.get? t = some id) :
    svc.IdNames id t := by
  intro t' id' hget'
  constructor
  · rintro rfl
    exact hs.ids_injective t' t id' hget' hid
  · rintro rfl
    exact Option.some.inj (hget'.symm.trans hid)

omit [DecidableEq P] in
lemma Sound.exists_idNames (hs : svc.Sound) (t : Ticker) : ∃ id, svc.IdNames id t := by
  cases hget : svc.tickerToId.get? t with
  | some id => exact ⟨id, hs.idNames hget⟩
  | none =>
    obtain ⟨id, hid⟩ := Infinite.exists_notMem_finset svc.tickerToId.values.toFinset
    refine ⟨id, fun t' id' hget' => ⟨?_, ?_⟩⟩
    · rintro rfl
      have hmem := Dict.get?_eq_some_iff.1 hget'
      exact absurd (List.mem_toFinset.2 (List.mem_map.2 ⟨(t', id'), hmem, rfl⟩)) hid
    · rintro rfl
      rw [hget] at hget'
      exact absurd hget' (by simp)

omit [DecidableEq P] in
lemma Sound.exists_ticker (hs : svc.Sound) (id : SecurityId) : ∃ t, svc.IdNames id t := by
  by_cases hex : ∃ t, svc.tickerToId.get? t = some id
  · obtain ⟨t, ht⟩ := hex
    exact ⟨t, hs.idNames ht⟩
  · obtain ⟨t, ht⟩ := Infinite.exists_notMem_finset svc.tickerToId.keys.toFinset
    refine ⟨t, fun t' id' hget => ⟨?_, ?_⟩⟩
    · rintro rfl
      exact absurd ⟨t', hget⟩ hex
    · rintro rfl
      exact absurd (List.mem_toFinset.2 (Dict.mem_keys_iff.2 ⟨id', hget⟩)) ht

/-! ## After a start -/

variable {settings : Settings} {read : CatalogRead} {stores₀ : Stores P} {svc₀ : PriceService P}

omit [DecidableEq P] in
/-- A reconciled row has the price and the stamp of a stored one. -/
lemma exists_of_reconciled {row : LatestPrice P}
    (h : Dict.get? (reconciled settings stores) id = some row) :
    ∃ row', Dict.get? stores.latestPrices id = some row' ∧ row'.price = row.price ∧
      row'.effectiveAt = row.effectiveAt :=
  exists_of_get?_reconcileSource h

omit [DecidableEq P] in
/-- The ticker's state after a start: memory agrees with the row, and both lie before the clock. -/
lemma view_start_of_get? (h : start settings stores read = (stores₀, some svc₀))
    (hid : svc₀.tickerToId.get? t = some id) :
    (svc₀.view stores₀ id t).last = (svc₀.view stores₀ id t).row.map LatestPrice.price ∧
    (svc₀.view stores₀ id t).since = (svc₀.view stores₀ id t).row.map LatestPrice.effectiveAt ∧
    ∀ row, (svc₀.view stores₀ id t).row = some row →
      ∃ row', Dict.get? stores.latestPrices id = some row' ∧
        row'.effectiveAt = row.effectiveAt := by
  have hlists := (start_service h).2.2.2.2 t id hid
  rw [view_start h hlists]
  refine ⟨rfl, rfl, fun row hrow => ?_⟩
  obtain ⟨row', hrow', -, hstamp⟩ := exists_of_reconciled hrow
  exact ⟨row', hrow', hstamp⟩

/-! ## A service of one ticker

The concrete service the witnesses and counterexamples of this development run. -/

/-- A simulated source that publishes. -/
def soloSettings : Settings := ⟨.simulated, 5, 60, .push⟩

/-- A catalog of one security. -/
def soloRead : CatalogRead := ⟨none, [("AAPL", "Apple Inc.")]⟩

/-- One price of that security. -/
def soloPrices (price : ℕ) : Dict Ticker ℕ := ⟨[("AAPL", price)], by simp⟩

/-- A tick at the `n`-th clock reading that reads `price`. -/
def soloTick (n : Fin 1000) (price : ℕ) (cache : CacheOutcome) (postgres : PostgresOutcome)
    (publish : PublishOutcome) : TickInput ℕ where
  monotonic := 10 * (n.val + 1)
  fetch := .returned (soloPrices price)
  now := ⟨n.val, by omega⟩
  cache := cache
  postgres := postgres
  publish := publish

/-- The first clock reading. -/
def firstReading : Fin 1000 := ⟨1, by decide⟩

/-- The second clock reading. -/
def secondReading : Fin 1000 := ⟨2, by decide⟩

/-- The third clock reading. -/
def thirdReading : Fin 1000 := ⟨3, by decide⟩

/-- The stores after the first start. -/
def soloStores : Stores ℕ := (start soloSettings .fresh soloRead).1

/-- The service the first start builds. -/
def soloService : PriceService ℕ := (start soloSettings .fresh soloRead).2.get (by decide)

lemma start_solo : start soloSettings .fresh soloRead = (soloStores, some soloService) :=
  Prod.ext rfl (Option.some_get _).symm

lemma requested_soloTick (n : Fin 1000) (price : ℕ) (cache : CacheOutcome)
    (postgres : PostgresOutcome) (publish : PublishOutcome) :
    soloService.Requested (soloTick n price cache postgres publish) := by
  intro t ht
  obtain rfl : t = "AAPL" := by simpa [soloPrices, Dict.keys] using ht
  decide

end PriceService
end TickerWatch
