import TickerWatch.PriceService.Service

/-!
# One ticker of the price service

A tick treats every ticker by itself: what the service remembers of a ticker and what the stores
hold for it afterwards depends on the same four things before, the reading of that ticker, and
which of the writes went through.  `TickerState.step` is that machine, and `view_tick` says a tick
of the whole service is a step of it at every ticker, as long as the source only returns tickers
it was asked for.

Claims about the service are proved about this machine and carried over.
-/

namespace TickerWatch

universe u

/-- What the service remembers of one ticker and what the stores hold for it.  A tick treats the
tickers apart from one another, so most invariants are stated of this view. -/
@[ext] structure TickerState (P : Type u) where
  last : Option P
  since : Option Instant
  row : Option (LatestPrice P)
  cached : Option (CachedPrice P)

/-- What one tick brings for one ticker: its reading, if there is one, the time of the tick, and
which of the three writes took effect for it. -/
structure TickerInput (P : Type u) where
  reading : Option P
  now : Instant
  cacheWritten : Bool
  rowWritten : Bool
  delivered : Bool

namespace TickerState

variable {P : Type u}

/-- The guard of `latest_prices` at one row. -/
def offerRow (stored : Option (LatestPrice P)) (new : LatestPrice P) : Option (LatestPrice P) :=
  (Register.offer .reject (stored.map fun r => (r.effectiveAt, r)) (new.effectiveAt, new)).map
    Prod.snd

/-- The guard of the cache at one key. -/
def offerCached (stored : Option (CachedPrice P)) (new : CachedPrice P) : Option (CachedPrice P) :=
  (Register.offer .accept (stored.map fun c => (c.effectiveAt, c)) (new.effectiveAt, new)).map
    Prod.snd

lemma offerRow_none (new : LatestPrice P) : offerRow none new = some new := rfl

lemma offerRow_of_lt {cur new : LatestPrice P} (h : cur.effectiveAt < new.effectiveAt) :
    offerRow (some cur) new = some new := by
  have hadm : Register.Admits .reject cur.effectiveAt new.effectiveAt := h
  unfold offerRow
  rw [Option.map_some, Register.offer_some_of_admits hadm, Option.map_some]

/-- The table takes what is later than its row, if it has one. -/
lemma offerRow_takes {stored : Option (LatestPrice P)} {new : LatestPrice P}
    (h : ∀ r, stored = some r → r.effectiveAt < new.effectiveAt) :
    offerRow stored new = some new := by
  cases hstored : stored with
  | none => exact offerRow_none new
  | some r => exact offerRow_of_lt (h r hstored)

lemma offerRow_cases (stored : Option (LatestPrice P)) (new : LatestPrice P) :
    offerRow stored new = some new ∨ offerRow stored new = stored := by
  unfold offerRow
  rcases Register.offer_cases .reject (stored.map fun r => (r.effectiveAt, r))
    (new.effectiveAt, new) with h | ⟨h, -⟩
  · exact Or.inl (by rw [h, Option.map_some])
  · refine Or.inr ?_
    rw [h]
    cases stored <;> rfl

lemma offerCached_none (new : CachedPrice P) : offerCached none new = some new := rfl

lemma offerCached_cases (stored : Option (CachedPrice P)) (new : CachedPrice P) :
    offerCached stored new = some new ∨ offerCached stored new = stored := by
  unfold offerCached
  rcases Register.offer_cases .accept (stored.map fun c => (c.effectiveAt, c))
    (new.effectiveAt, new) with h | ⟨h, -⟩
  · exact Or.inl (by rw [h, Option.map_some])
  · refine Or.inr ?_
    rw [h]
    cases stored <;> rfl

lemma offerCached_of_le {cur new : CachedPrice P} (h : cur.effectiveAt ≤ new.effectiveAt) :
    offerCached (some cur) new = some new := by
  have hadm : Register.Admits .accept cur.effectiveAt new.effectiveAt := h
  unfold offerCached
  rw [Option.map_some, Register.offer_some_of_admits hadm, Option.map_some]

/-- The cache takes what is not older than its entry, if it has one. -/
lemma offerCached_takes {stored : Option (CachedPrice P)} {id : SecurityId} {p : P} {since : String}
    {source : Option String} (h : ∀ c, stored = some c → c.effectiveAt ≤ since) :
    offerCached stored ⟨id, p, since, source⟩ = some ⟨id, p, since, source⟩ := by
  cases hstored : stored with
  | none => exact offerCached_none _
  | some c => exact offerCached_of_le (h c hstored)

lemma offerCached_of_lt {cur new : CachedPrice P} (h : new.effectiveAt < cur.effectiveAt) :
    offerCached (some cur) new = some cur := by
  have hnot : ¬ Register.Admits .accept cur.effectiveAt new.effectiveAt := not_le.2 h
  unfold offerCached
  rw [Option.map_some, Register.offer_some_of_not_admits hnot, Option.map_some]

/-- What the cache holds after an offer is stamped no earlier than the offer. -/
lemma le_offerCached (stored : Option (CachedPrice P)) (new : CachedPrice P) :
    ∃ c, offerCached stored new = some c ∧ new.effectiveAt ≤ c.effectiveAt := by
  cases stored with
  | none => exact ⟨new, offerCached_none new, le_rfl⟩
  | some cur =>
    rcases le_or_gt cur.effectiveAt new.effectiveAt with hle | hlt
    · exact ⟨new, offerCached_of_le hle, le_rfl⟩
    · exact ⟨cur, offerCached_of_lt hlt, hlt.le⟩

variable [DecidableEq P]

/-- The stamp of a price that was just read. -/
def stamp (s : TickerState P) (now : Instant) (p : P) : Instant :=
  if s.last = some p then s.since.getD now else now

/-- One tick at one ticker. -/
def step (id : SecurityId) (source : String) (s : TickerState P) (i : TickerInput P) :
    TickerState P :=
  match i.reading with
  | none => s
  | some p =>
    let since := s.stamp i.now p
    { last := some p
      since := some since
      row := if s.last ≠ some p ∧ i.rowWritten = true then offerRow s.row ⟨p, since, source⟩
        else s.row
      cached := if i.cacheWritten then offerCached s.cached ⟨id, p, toIso since, some source⟩
        else s.cached }

/-- What one tick delivers for one ticker. -/
def publication (id : SecurityId) (t : Ticker) (source : String) (s : TickerState P)
    (i : TickerInput P) : Option (Publication P) :=
  match i.reading with
  | none => none
  | some p =>
    if s.last ≠ some p ∧ i.delivered = true then
      some ⟨id, t, p, toIso (s.stamp i.now p), source⟩
    else none

variable {s : TickerState P} {i : TickerInput P} {id : SecurityId} {source : String} {p : P}

lemma step_none (h : i.reading = none) : s.step id source i = s := by
  unfold step
  rw [h]

lemma stamp_of_last (h : s.last = some p) (now : Instant) : s.stamp now p = s.since.getD now :=
  if_pos h

lemma stamp_of_ne (h : s.last ≠ some p) (now : Instant) : s.stamp now p = now := if_neg h

lemma step_last (h : i.reading = some p) : (s.step id source i).last = some p := by
  unfold step
  rw [h]

lemma step_since (h : i.reading = some p) :
    (s.step id source i).since = some (s.stamp i.now p) := by
  unfold step
  rw [h]

lemma step_row_of_ne (h : i.reading = some p) (hne : s.last ≠ some p) (hw : i.rowWritten = true) :
    (s.step id source i).row = offerRow s.row ⟨p, i.now, source⟩ := by
  unfold step
  rw [h]
  simp only [stamp_of_ne hne, hne, hw, ne_eq, not_false_eq_true, and_self, if_true]

lemma step_row_of_last (h : i.reading = some p) (hlast : s.last = some p) :
    (s.step id source i).row = s.row := by
  unfold step
  rw [h]
  simp [hlast]

lemma step_row_of_lost (h : i.rowWritten = false) : (s.step id source i).row = s.row := by
  unfold step
  split <;> simp [h]

lemma step_cached_of_lost (h : i.cacheWritten = false) :
    (s.step id source i).cached = s.cached := by
  unfold step
  split <;> simp [h]

lemma step_cached (h : i.reading = some p) (hw : i.cacheWritten = true) :
    (s.step id source i).cached =
      offerCached s.cached ⟨id, p, toIso (s.stamp i.now p), some source⟩ := by
  unfold step
  rw [h]
  simp only [hw, if_true]

end TickerState

namespace PriceService

variable {P : Type u}

/-- What the service and its stores say about the ticker `t` of security `id`. -/
def view (svc : PriceService P) (stores : Stores P) (id : SecurityId) (t : Ticker) :
    TickerState P where
  last := svc.lastPublished.get? t
  since := svc.effectiveAt.get? t
  row := Dict.get? stores.latestPrices id
  cached := stores.redis.cached t

/-- The prices a tick reads; `none` when an exception leaves the tick. -/
def reading (svc : PriceService P) (i : TickInput P) : Option (Dict Ticker P) :=
  (svc.currentPrices i.monotonic i.fetch).2

/-- What a tick brings for one ticker. -/
def inputAt (svc : PriceService P) (i : TickInput P) (t : Ticker) : TickerInput P where
  reading := (svc.reading i).bind fun prices => prices.get? t
  now := i.now
  cacheWritten := i.cache.applies t
  rowWritten := i.postgres.applies
  delivered := decide (svc.settings.transport = .push) && i.publish.delivers t

/-- The source returns only tickers it was asked for. -/
def Requested (svc : PriceService P) (i : TickInput P) : Prop :=
  match i.fetch with
  | .returned prices => ∀ t ∈ prices.keys, t ∈ svc.tickerToId.keys
  | .raised _ => True

instance (svc : PriceService P) (i : TickInput P) : Decidable (svc.Requested i) := by
  unfold Requested
  split <;> infer_instance

lemma Requested.of_returned {svc : PriceService P} {i : TickInput P} {prices : Dict Ticker P}
    (h : svc.Requested i) (hfetch : i.fetch = .returned prices) :
    ∀ t ∈ prices.keys, t ∈ svc.tickerToId.keys := by
  rw [Requested, hfetch] at h
  exact h

/-- What the source may return depends on the tickers the service asks for only. -/
lemma Requested.congr {svc svc' : PriceService P} {i : TickInput P} (h : svc.Requested i)
    (hids : svc'.tickerToId = svc.tickerToId) : svc'.Requested i := by
  rw [Requested, hids]
  exact h

/-- What holds of every service that was started and only read tickers it asked for: no two tickers
share a row, and what is remembered of a price is remembered with its stamp. -/
structure Sound (svc : PriceService P) : Prop where
  ids_injective : ∀ t t' id, svc.tickerToId.get? t = some id → svc.tickerToId.get? t' = some id →
    t = t'
  upstream_requested : ∀ t ∈ svc.upstreamPrices.keys, t ∈ svc.tickerToId.keys
  last_stamped : ∀ t p, svc.lastPublished.get? t = some p → ∃ since,
    svc.effectiveAt.get? t = some since

variable {svc : PriceService P} {stores : Stores P} {i : TickInput P} {t : Ticker}
  {prices : Dict Ticker P}

/-! ## The read -/

/-- What a read can leave in the service, and the prices it returns. -/
lemma currentPrices_cases (svc : PriceService P) (i : TickInput P) :
    ∃ upstream fetchedAt stats, (svc.currentPrices i.monotonic i.fetch).1 =
        { svc with upstreamPrices := upstream, lastUpstreamFetch := fetchedAt, stats := stats } ∧
      (upstream = svc.upstreamPrices ∨ i.fetch = .returned upstream) ∧
      (svc.reading i = none ∨ svc.reading i = some upstream) := by
  unfold reading currentPrices
  dsimp only
  split
  · exact ⟨_, _, _, rfl, Or.inl rfl, Or.inr rfl⟩
  · cases i.fetch with
    | returned prices => exact ⟨_, _, _, rfl, Or.inr rfl, Or.inr rfl⟩
    | raised caught =>
      cases caught with
      | true => exact ⟨_, _, _, rfl, Or.inl rfl, Or.inr rfl⟩
      | false => exact ⟨_, _, _, rfl, Or.inl rfl, Or.inl rfl⟩

lemma reading_stats (svc : PriceService P) (i : TickInput P) (stats : Stats) :
    { svc with stats := stats }.reading i = svc.reading i := by
  unfold reading currentPrices
  dsimp only
  split
  · rfl
  · cases i.fetch with
    | returned prices => rfl
    | raised caught => cases caught <;> rfl

lemma reading_requested (hs : svc.Sound) (hi : svc.Requested i)
    (h : svc.reading i = some prices) : ∀ t ∈ prices.keys, t ∈ svc.tickerToId.keys := by
  obtain ⟨upstream, fetchedAt, stats, -, hup, hread⟩ := currentPrices_cases svc i
  rw [h] at hread
  obtain rfl : prices = upstream := by simpa using hread
  rcases hup with rfl | hfetch
  · exact hs.upstream_requested
  · exact hi.of_returned hfetch

/-! ## Stamps and changes -/

variable [DecidableEq P]

lemma get?_changedPrices (svc : PriceService P) (prices : Dict Ticker P) (t : Ticker) :
    (svc.changedPrices prices).get? t =
      (prices.get? t).filter fun p => decide (svc.lastPublished.get? t ≠ some p) :=
  Dict.get?_filter _ _ _

lemma get?_changedPrices_none (svc : PriceService P) (h : prices.get? t = none) :
    (svc.changedPrices prices).get? t = none := by
  rw [get?_changedPrices, h, Option.filter_none]

lemma get?_changedPrices_of_last {p : P} (h : prices.get? t = some p)
    (hlast : svc.lastPublished.get? t = some p) : (svc.changedPrices prices).get? t = none := by
  rw [get?_changedPrices, h, Option.filter_some_neg (by simpa using hlast)]

lemma get?_changedPrices_of_ne {p : P} (h : prices.get? t = some p)
    (hne : svc.lastPublished.get? t ≠ some p) : (svc.changedPrices prices).get? t = some p := by
  rw [get?_changedPrices, h, Option.filter_some_pos (by simpa using hne)]

lemma mem_keys_changedPrices :
    t ∈ (svc.changedPrices prices).keys ↔
      ∃ p, prices.get? t = some p ∧ svc.lastPublished.get? t ≠ some p := by
  simp only [Dict.mem_keys_iff, get?_changedPrices, Option.filter_eq_some_iff, decide_eq_true_eq]

lemma get?_stamped (svc : PriceService P) (stores : Stores P) (prices : Dict Ticker P)
    (now : Instant) (id : SecurityId) (t : Ticker) :
    (svc.stamped prices now).get? t =
      match prices.get? t with
      | none => svc.effectiveAt.get? t
      | some p => some ((svc.view stores id t).stamp now p) := by
  unfold stamped
  dsimp only
  rw [Dict.get?_foldl_setDefault, Dict.get?_foldl_set]
  cases hp : prices.get? t with
  | none =>
    have hnot : t ∉ prices.keys := Dict.get?_eq_none_iff.1 hp
    have hunchanged : t ∉ (svc.changedPrices prices).keys := by simp [mem_keys_changedPrices, hp]
    simp [hnot, hunchanged]
  | some p =>
    have hin : t ∈ prices.keys := Dict.mem_keys_iff.2 ⟨p, hp⟩
    by_cases hlast : svc.lastPublished.get? t = some p
    · have hunchanged : t ∉ (svc.changedPrices prices).keys := by
        simp [mem_keys_changedPrices, hp, hlast]
      have hview : (svc.view stores id t).last = some p := hlast
      simp only [hin, hunchanged, if_true, if_false, TickerState.stamp_of_last hview]
      rfl
    · have hchanged : t ∈ (svc.changedPrices prices).keys :=
        mem_keys_changedPrices.2 ⟨p, hp, hlast⟩
      have hview : (svc.view stores id t).last ≠ some p := hlast
      simp [hin, hchanged, TickerState.stamp_of_ne hview]

/-! ## The three writes -/

/-- Every price has an id and a stamp, so no writer raises on it. -/
structure Ready (svc : PriceService P) (prices : Dict Ticker P) : Prop where
  ids : ∀ t ∈ prices.keys, t ∈ svc.tickerToId.keys
  stamps : ∀ t ∈ prices.keys, t ∈ svc.effectiveAt.keys

/-- The id a writer finds for a ticker. -/
def idOf (svc : PriceService P) (t : Ticker) : SecurityId := (svc.tickerToId.get? t).getD 0

/-- The stamp a writer finds for a ticker. -/
def sinceOf (svc : PriceService P) (now : Instant) (t : Ticker) : Instant :=
  (svc.effectiveAt.get? t).getD now

/-- The payload a writer builds for a ticker. -/
def payloadOf (svc : PriceService P) (now : Instant) (e : Ticker × P) : CachedPrice P :=
  ⟨svc.idOf e.1, e.2, toIso (svc.sinceOf now e.1), some svc.sourceName⟩

omit [DecidableEq P] in
/-- A writer that looks up the id and the stamp of every price it is given finds them. -/
lemma Ready.mapM_lookups {β : Type*} (h : svc.Ready prices) (now : Instant)
    {f : Ticker × P → Option β} {g : Ticker × P → β}
    (hf : ∀ e, svc.tickerToId.get? e.1 = some (svc.idOf e.1) →
      svc.effectiveAt.get? e.1 = some (svc.sinceOf now e.1) → f e = some (g e)) :
    prices.entries.mapM f = some (prices.entries.map g) := by
  apply Dict.mapM_eq_some_map
  rintro ⟨t, p⟩ hmem
  have hin : t ∈ prices.keys := Dict.mem_keys.2 ⟨p, hmem⟩
  obtain ⟨id, hid⟩ := Dict.mem_keys_iff.1 (h.ids t hin)
  obtain ⟨since, hsince⟩ := Dict.mem_keys_iff.1 (h.stamps t hin)
  apply hf
  · simp [idOf, hid]
  · simp [sinceOf, hsince]

lemma Ready.changedPrices (h : svc.Ready prices) (old : PriceService P) :
    svc.Ready (old.changedPrices prices) := by
  have hsub : ∀ t ∈ (old.changedPrices prices).keys, t ∈ prices.keys := by
    intro t ht
    obtain ⟨p, hp, -⟩ := mem_keys_changedPrices.1 ht
    exact Dict.mem_keys_iff.2 ⟨p, hp⟩
  exact ⟨fun t ht => h.ids t (hsub t ht), fun t ht => h.stamps t (hsub t ht)⟩

omit [DecidableEq P] in
/-- The entries of the cache pipeline: the payload of every price, under its own stamp. -/
lemma Ready.cacheEntries_eq (h : svc.Ready prices) (now : Instant) :
    svc.cacheEntries prices = some ((prices.entries.map fun e =>
      (e.1, svc.payloadOf now e)).map fun w => (w.1, w.2, w.2.effectiveAt)) := by
  rw [List.map_map]
  apply h.mapM_lookups now
  intro e hid hsince
  rw [hid, hsince]
  rfl

omit [DecidableEq P] in
/-- The cache write offers each price to its key, where the pipeline got to it. -/
lemma writeCache_spec (h : svc.Ready prices) (outcome : CacheOutcome) (r : Redis P)
    (now : Instant) :
    (svc.writeCache prices outcome r).raised = false ∧ ∀ t,
      (svc.writeCache prices outcome r).store.cached t =
        match prices.get? t with
        | none => r.cached t
        | some p =>
          if outcome.applies t then TickerState.offerCached (r.cached t) (svc.payloadOf now (t, p))
          else r.cached t := by
  have hentries := h.cacheEntries_eq now
  -- both branches run the commands that the outcome lets through
  have hstore : ∃ count, svc.writeCache prices outcome r =
      ⟨(r.setPricesIfNewer (((prices.entries.map fun e => (e.1, svc.payloadOf now e)).filter
        fun w => outcome.applies w.1).map fun w => (w.1, w.2, w.2.effectiveAt))
          svc.settings.priceCacheTtlSeconds).1, count, false⟩ := by
    unfold writeCache
    rw [hentries]
    cases outcome with
    | ok =>
      have hall : ∀ l : List (Ticker × CachedPrice P),
          l.filter (fun w => CacheOutcome.ok.applies w.1) = l := fun l => List.filter_true l
      rw [hall]
      exact ⟨_, rfl⟩
    | error applied =>
      have hfilter : ∀ l : List (Ticker × CachedPrice P),
          (l.map fun w => (w.1, w.2, w.2.effectiveAt)).filter (fun e => applied e.1) =
            (l.filter fun w => (CacheOutcome.error applied).applies w.1).map
              fun w => (w.1, w.2, w.2.effectiveAt) := fun l => List.filter_map
      dsimp only
      rw [hfilter]
      exact ⟨_, rfl⟩
  obtain ⟨count, hstore⟩ := hstore
  refine ⟨by rw [hstore], fun t => ?_⟩
  rw [hstore, Redis.cached_eq_map_register, Redis.register_setPricesIfNewer, List.filter_comm,
    Dict.filter_map_entries prices (fun e => (e.1, svc.payloadOf now e)) Prod.fst t t
      fun _ _ => Iff.rfl]
  cases hp : prices.get? t with
  | none => simp [Redis.register, Function.comp_def]
  | some p =>
    by_cases hw : outcome.applies t = true
    · have hkeep : [(t, svc.payloadOf now (t, p))].filter (fun w => outcome.applies w.1) =
          [(t, svc.payloadOf now (t, p))] := by simp [hw]
      simp only [Option.toList_some, List.map_cons, List.map_nil, hkeep, hw, if_true]
      rfl
    · simp [hw, Redis.register, Function.comp_def]

omit [DecidableEq P] in
/-- The upsert offers each changed price to its row, where the statement took effect. -/
lemma writePostgres_spec (h : svc.Ready prices)
    (hinj : ∀ t t' id, svc.tickerToId.get? t = some id → svc.tickerToId.get? t' = some id → t = t')
    (outcome : PostgresOutcome) (tbl : LatestPrices P) (now : Instant) :
    (svc.writePostgres prices outcome tbl).raised = false ∧ ∀ t id,
      (∀ t' id', svc.tickerToId.get? t' = some id' → (id' = id ↔ t' = t)) →
      Dict.get? (svc.writePostgres prices outcome tbl).store id =
        match prices.get? t with
        | none => Dict.get? tbl id
        | some p =>
          if outcome.applies then
            TickerState.offerRow (Dict.get? tbl id) ⟨p, svc.sinceOf now t, svc.sourceName⟩
          else Dict.get? tbl id := by
  -- every price has an id, and no two of them the same, so the statement is executed
  have hids : ∀ e ∈ prices.entries, svc.tickerToId.get? e.1 = some (svc.idOf e.1) := by
    rintro ⟨t, p⟩ hmem
    obtain ⟨id, hid⟩ := Dict.mem_keys_iff.1 (h.ids t (Dict.mem_keys.2 ⟨p, hmem⟩))
    simp [idOf, hid]
  have hrows : svc.priceRows prices = some (prices.entries.map fun e =>
      (svc.idOf e.1, ⟨e.2, svc.sinceOf now e.1, svc.sourceName⟩)) := by
    apply h.mapM_lookups now
    intro e hid hsince
    rw [hid, hsince]
    rfl
  have hnodup : ((prices.entries.map fun e =>
      ((svc.idOf e.1, ⟨e.2, svc.sinceOf now e.1, svc.sourceName⟩) :
        SecurityId × LatestPrice P)).map Prod.fst).Nodup := by
    rw [List.map_map]
    refine List.Nodup.map_on ?_ (List.Nodup.of_map _ prices.nodup_keys)
    intro e he e' he' heq
    have hid := hids e he
    have hid' := hids e' he'
    rw [show svc.idOf e.1 = svc.idOf e'.1 from heq] at hid
    exact List.inj_on_of_nodup_map prices.nodup_keys he he' (hinj _ _ _ hid hid')
  obtain ⟨tbl', htbl'⟩ : ∃ tbl', tbl.upsertMany (prices.entries.map fun e =>
      (svc.idOf e.1, ⟨e.2, svc.sinceOf now e.1, svc.sourceName⟩)) = some tbl' :=
    ⟨_, LatestPrices.upsertMany_of_nodup tbl hnodup⟩
  -- the ids name the tickers, so the row of `id` is offered what `t` brings
  have hrow : ∀ t id, (∀ t' id', svc.tickerToId.get? t' = some id' → (id' = id ↔ t' = t)) →
      Dict.get? tbl' id = match prices.get? t with
        | none => Dict.get? tbl id
        | some p =>
          TickerState.offerRow (Dict.get? tbl id) ⟨p, svc.sinceOf now t, svc.sourceName⟩ := by
    intro t id hkey
    rw [LatestPrices.get?_eq_map_register, LatestPrices.register_upsertMany htbl',
      Dict.filter_map_entries prices _ Prod.fst id t fun e he => hkey _ _ (hids e he)]
    cases hp : prices.get? t with
    | none => exact (LatestPrices.get?_eq_map_register tbl id).symm
    | some p => rfl
  unfold writePostgres
  by_cases hempty : prices.entries.isEmpty = true
  · refine ⟨by simp [hempty], fun t id _ => ?_⟩
    have hnone : prices.get? t = none := by
      rw [Dict.get?_eq_none_iff, Dict.keys, List.isEmpty_iff.1 hempty]
      exact List.not_mem_nil
    simp [hempty, hnone]
  · simp only [hempty, hrows, htbl']
    cases outcome with
    | ok => exact ⟨rfl, fun t id hkey => by simpa [PostgresOutcome.applies] using hrow t id hkey⟩
    -- an error that comes after the commit leaves the rows as a success does
    | error committed =>
      cases committed with
      | true => exact ⟨rfl, fun t id hkey => by simpa [PostgresOutcome.applies] using hrow t id hkey⟩
      | false =>
        refine ⟨rfl, fun t id _ => ?_⟩
        cases prices.get? t <;> simp [PostgresOutcome.applies]

omit [DecidableEq P] in
/-- A publish in push mode sends each changed price to its channel, and delivers what Centrifugo
lets through. -/
lemma publish_spec (h : svc.Ready prices) (outcome : PublishOutcome) (now : Instant) :
    (svc.publish prices outcome).raised = false ∧ ∀ t,
      (svc.publish prices outcome).store.filter (fun m => decide (m.ticker = t)) =
        if svc.settings.transport = .push ∧ outcome.delivers t = true then
          (prices.get? t).toList.map fun p =>
            ⟨svc.idOf t, t, p, toIso (svc.sinceOf now t), svc.sourceName⟩
        else [] := by
  have hcommands : svc.publications prices = some (prices.entries.map fun e =>
      ⟨svc.idOf e.1, e.1, e.2, toIso (svc.sinceOf now e.1), svc.sourceName⟩) := by
    apply h.mapM_lookups now
    intro e hid hsince
    rw [hid, hsince]
    rfl
  unfold publish
  -- in poll mode, or when nothing changed, there is no batch
  by_cases hskip : (svc.settings.transport = .poll || prices.entries.isEmpty) = true
  · refine ⟨by simp [hskip], fun t => ?_⟩
    simp only [hskip, if_true, List.filter_nil]
    by_cases hpush : svc.settings.transport = .push
    · have hempty : prices.entries = [] := by simpa [hpush] using hskip
      have hnone : prices.get? t = none := by
        rw [Dict.get?_eq_none_iff, Dict.keys, hempty]
        exact List.not_mem_nil
      simp [hnone]
    · simp [hpush]
  · have hpush : svc.settings.transport = .push := by
      cases ht : svc.settings.transport with
      | poll => simp [ht] at hskip
      | push => rfl
    -- of the batch, what Centrifugo accepts is delivered, whatever becomes of the reply
    have hdelivered : ∀ t, ((prices.entries.map fun e => (⟨svc.idOf e.1, e.1, e.2,
        toIso (svc.sinceOf now e.1), svc.sourceName⟩ : Publication P)).filter
          fun m => outcome.delivers m.ticker).filter (fun m => decide (m.ticker = t)) =
        if svc.settings.transport = .push ∧ outcome.delivers t = true then
          (prices.get? t).toList.map fun p =>
            ⟨svc.idOf t, t, p, toIso (svc.sinceOf now t), svc.sourceName⟩
        else [] := by
      intro t
      rw [List.filter_comm, Dict.filter_map_entries prices _ Publication.ticker t t
        fun _ _ => Iff.rfl]
      by_cases hd : outcome.delivers t = true
      · cases prices.get? t <;> simp [hpush, hd]
      · cases prices.get? t <;> simp [hd]
    simp only [hskip, hcommands]
    cases outcome with
    | replied rejected => exact ⟨rfl, hdelivered⟩
    | failed accepted => exact ⟨rfl, hdelivered⟩

/-! ## A tick at one ticker -/

variable {x : TickerInput P} {id : SecurityId}

/-- Ids name tickers: `id` is the id of `t` and of no other ticker, if of any. -/
def IdNames (svc : PriceService P) (id : SecurityId) (t : Ticker) : Prop :=
  ∀ t' id', svc.tickerToId.get? t' = some id' → (id' = id ↔ t' = t)

/-- What a tick that reads `prices` brings for the ticker `t`. -/
structure Brings (svc : PriceService P) (i : TickInput P) (prices : Dict Ticker P) (t : Ticker)
    (x : TickerInput P) : Prop where
  reading : x.reading = prices.get? t
  now : x.now = i.now
  cacheWritten : x.cacheWritten = i.cache.applies t
  rowWritten : x.rowWritten = i.postgres.applies
  delivered : x.delivered = (decide (svc.settings.transport = .push) && i.publish.delivers t)

/-- The prices a tick applies are ready once they are stamped. -/
lemma ready_restamp (hids : ∀ t ∈ prices.keys, t ∈ svc.tickerToId.keys) (now : Instant) :
    (svc.restamp prices now).Ready prices := by
  refine ⟨hids, fun t ht => ?_⟩
  obtain ⟨p, hp⟩ := Dict.mem_keys_iff.1 ht
  rw [Dict.mem_keys_iff, restamp]
  dsimp only
  rw [get?_stamped svc ⟨⟨.empty, 0, by simp, by simp⟩, .empty, .empty⟩ prices now 0 t, hp]
  exact ⟨_, rfl⟩

lemma sinceOf_restamp (stores : Stores P) (now : Instant) (id : SecurityId) {p : P}
    (hp : prices.get? t = some p) :
    (svc.restamp prices now).sinceOf now t = (svc.view stores id t).stamp now p := by
  rw [sinceOf, restamp]
  dsimp only
  rw [get?_stamped svc stores prices now id t, hp]
  rfl

lemma idOf_restamp (hids : ∀ t ∈ prices.keys, t ∈ svc.tickerToId.keys) (now : Instant)
    (hkey : svc.IdNames id t) {p : P} (hp : prices.get? t = some p) :
    (svc.restamp prices now).idOf t = id := by
  obtain ⟨id', hid'⟩ := Dict.mem_keys_iff.1 (hids t (Dict.mem_keys_iff.2 ⟨p, hp⟩))
  have hget : (svc.restamp prices now).tickerToId.get? t = some id' := hid'
  rw [idOf, hget, Option.getD_some]
  exact (hkey t id' hid').2 rfl

/-- When every ticker that was read was asked for, no writer raises. -/
lemma applyPrices_eq (stores : Stores P) (i : TickInput P)
    (hids : ∀ t ∈ prices.keys, t ∈ svc.tickerToId.keys)
    (hinj : ∀ t t' id, svc.tickerToId.get? t = some id → svc.tickerToId.get? t' = some id →
      t = t') :
    ∃ stats, svc.applyPrices stores i prices =
      ⟨{ svc.restamp prices i.now with
          lastPublished := svc.lastPublished.update prices
          stats := stats },
        { stores with
          redis := ((svc.restamp prices i.now).writeCache prices i.cache stores.redis).store
          latestPrices := ((svc.restamp prices i.now).writePostgres (svc.changedPrices prices)
            i.postgres stores.latestPrices).store },
        ((svc.restamp prices i.now).publish (svc.changedPrices prices) i.publish).store,
        .completed⟩ := by
  have hready := ready_restamp hids i.now
  have hcache := (writeCache_spec hready i.cache stores.redis i.now).1
  have hpostgres := (writePostgres_spec (hready.changedPrices svc) hinj i.postgres
    stores.latestPrices i.now).1
  have hpublish := (publish_spec (hready.changedPrices svc) i.publish i.now).1
  unfold applyPrices
  dsimp only
  rw [hcache, hpostgres, hpublish]
  exact ⟨_, rfl⟩

/-- **A tick is a step at every ticker**, once its read has returned prices. -/
theorem view_applyPrices (stores : Stores P) (i : TickInput P)
    (hids : ∀ t ∈ prices.keys, t ∈ svc.tickerToId.keys)
    (hinj : ∀ t t' id, svc.tickerToId.get? t = some id → svc.tickerToId.get? t' = some id → t = t')
    (hx : svc.Brings i prices t x) (hkey : svc.IdNames id t) :
    (svc.applyPrices stores i prices).service.view (svc.applyPrices stores i prices).stores id t =
      (svc.view stores id t).step id svc.sourceName x := by
  -- the three writes, seen at this ticker
  have hready := ready_restamp hids i.now
  have hcached := (writeCache_spec hready i.cache stores.redis i.now).2 t
  have hrow := (writePostgres_spec (hready.changedPrices svc) hinj i.postgres
    stores.latestPrices i.now).2 t id hkey
  have hstamped := get?_stamped svc stores prices i.now id t
  obtain ⟨stats, heq⟩ := applyPrices_eq stores i hids hinj
  rw [heq]
  have hsource : (svc.restamp prices i.now).sourceName = svc.sourceName := rfl
  cases hp : prices.get? t with
  -- a ticker that was not read is not in any of them
  | none =>
    rw [hp] at hcached hstamped
    rw [get?_changedPrices_none svc hp] at hrow
    rw [TickerState.step_none (hx.reading.trans hp)]
    ext1
    · exact (Dict.get?_update _ _ _).trans (by rw [hp]; rfl)
    · exact hstamped
    · exact hrow
    · exact hcached
  | some p =>
    have hreading : x.reading = some p := hx.reading.trans hp
    have hsince : (svc.restamp prices i.now).sinceOf i.now t =
        (svc.view stores id t).stamp i.now p := sinceOf_restamp stores i.now id hp
    rw [hp] at hcached hstamped
    ext1
    · rw [TickerState.step_last hreading]
      exact (Dict.get?_update _ _ _).trans (by rw [hp]; rfl)
    · rw [TickerState.step_since hreading, hx.now]
      exact hstamped
    -- only a price that changed is sent to the table
    · by_cases hlast : (svc.view stores id t).last = some p
      · rw [TickerState.step_row_of_last hreading hlast]
        rw [get?_changedPrices_of_last hp hlast] at hrow
        exact hrow
      · rw [get?_changedPrices_of_ne hp hlast, hsince, hsource, TickerState.stamp_of_ne hlast] at hrow
        by_cases hw : i.postgres.applies = true
        · rw [TickerState.step_row_of_ne hreading hlast (hx.rowWritten.trans hw), hx.now]
          exact hrow.trans (if_pos hw)
        · rw [TickerState.step_row_of_lost (hx.rowWritten.trans (by simpa using hw))]
          exact hrow.trans (if_neg hw)
    -- every price is sent to the cache, with the stamp it has had since it changed
    · by_cases hw : i.cache.applies t = true
      · rw [TickerState.step_cached hreading (hx.cacheWritten.trans hw), hx.now]
        have hpayload : (svc.restamp prices i.now).payloadOf i.now (t, p) = ⟨id, p,
            toIso ((svc.view stores id t).stamp i.now p), some svc.sourceName⟩ := by
          rw [← hsince, ← idOf_restamp hids i.now hkey hp]
          rfl
        rw [← hpayload]
        exact hcached.trans (if_pos hw)
      · rw [TickerState.step_cached_of_lost (hx.cacheWritten.trans (by simpa using hw))]
        exact hcached.trans (if_neg hw)

/-- What a tick delivers for one ticker, once its read has returned prices. -/
theorem delivered_applyPrices (stores : Stores P) (i : TickInput P)
    (hids : ∀ t ∈ prices.keys, t ∈ svc.tickerToId.keys)
    (hinj : ∀ t t' id, svc.tickerToId.get? t = some id → svc.tickerToId.get? t' = some id → t = t')
    (hx : svc.Brings i prices t x) (hkey : svc.IdNames id t) :
    (svc.applyPrices stores i prices).delivered.filter (fun m => decide (m.ticker = t)) =
      ((svc.view stores id t).publication id t svc.sourceName x).toList := by
  have hready := ready_restamp hids i.now
  have hdelivered := (publish_spec (hready.changedPrices svc) i.publish i.now).2 t
  obtain ⟨stats, heq⟩ := applyPrices_eq stores i hids hinj
  rw [heq]
  refine hdelivered.trans ?_
  have hsettings : (svc.restamp prices i.now).settings = svc.settings := rfl
  rw [hsettings]
  unfold TickerState.publication
  cases hp : prices.get? t with
  | none => simp [hx.reading.trans hp, get?_changedPrices_none svc hp]
  | some p =>
    have hreading : x.reading = some p := hx.reading.trans hp
    rw [hreading]
    by_cases hlast : (svc.view stores id t).last = some p
    · rw [get?_changedPrices_of_last hp hlast]
      simp [hlast]
    · rw [get?_changedPrices_of_ne hp hlast, idOf_restamp hids i.now hkey hp,
        sinceOf_restamp stores i.now id hp, hx.now, hx.delivered]
      have hsource : (svc.restamp prices i.now).sourceName = svc.sourceName := rfl
      by_cases hd : svc.settings.transport = .push ∧ i.publish.delivers t = true
      · simp [hlast, hd, hsource]
      · simp [hd]

/-- The service once a read is over. -/
def afterRead (svc : PriceService P) (upstream : Dict Ticker P) (fetchedAt : ℚ) (stats : Stats) :
    PriceService P :=
  { svc with upstreamPrices := upstream, lastUpstreamFetch := fetchedAt, stats := stats }

omit [DecidableEq P] in
lemma brings_inputAt (h : svc.reading i = some prices) (t : Ticker) (upstream : Dict Ticker P)
    (fetchedAt : ℚ) (stats : Stats) :
    (svc.afterRead upstream fetchedAt stats).Brings i prices t (svc.inputAt i t) :=
  ⟨by rw [inputAt, h]; rfl, rfl, rfl, rfl, rfl⟩

/-- How a tick ends, and what it leaves, by what its read returned. -/
lemma tick_cases (svc : PriceService P) (stores : Stores P) (i : TickInput P) :
    ∃ upstream fetchedAt stats,
      (upstream = svc.upstreamPrices ∨ i.fetch = .returned upstream) ∧
      ((svc.reading i = none ∧ svc.tick stores i =
          ⟨svc.afterRead upstream fetchedAt stats, stores, [], .raised⟩) ∨
        (svc.reading i = some upstream ∧ upstream.entries = [] ∧ svc.tick stores i =
          ⟨svc.afterRead upstream fetchedAt stats, stores, [], .idle⟩) ∨
        (svc.reading i = some upstream ∧ upstream.entries ≠ [] ∧ svc.tick stores i =
          (svc.afterRead upstream fetchedAt stats).applyPrices stores i upstream)) := by
  have hcases := currentPrices_cases { svc with stats.ticks := svc.stats.ticks + 1 } i
  rw [reading_stats] at hcases
  obtain ⟨upstream, fetchedAt, stats, hsvc, hup, hread⟩ := hcases
  have hresult : ({ svc with stats.ticks := svc.stats.ticks + 1 }.currentPrices i.monotonic
      i.fetch).2 = svc.reading i := reading_stats svc i _
  refine ⟨upstream, fetchedAt, stats, hup, ?_⟩
  unfold tick
  -- the read comes first, and a tick does no more than the prices it returns
  generalize { svc with stats.ticks := svc.stats.ticks + 1 }.currentPrices i.monotonic i.fetch =
    out at hsvc hresult
  obtain ⟨svc', read⟩ := out
  dsimp only at hsvc hresult
  rw [hsvc, hresult]
  rcases hread with hread | hread
  · rw [hread]
    exact Or.inl ⟨rfl, rfl⟩
  · rw [hread]
    by_cases hempty : upstream.entries = []
    · exact Or.inr (Or.inl ⟨rfl, hempty, by simp only [hempty, List.isEmpty_nil, if_true]; rfl⟩)
    · refine Or.inr (Or.inr ⟨rfl, hempty, ?_⟩)
      have hfalse : upstream.entries.isEmpty = false := by simpa using hempty
      simp only [hfalse, Bool.false_eq_true, if_false]
      rfl

/-- What applying prices never changes in the service, and that it stays sound. -/
lemma applyPrices_service (hs : svc.Sound) (stores : Stores P) (i : TickInput P)
    (hids : ∀ t ∈ prices.keys, t ∈ svc.tickerToId.keys) :
    (svc.applyPrices stores i prices).service.settings = svc.settings ∧
    (svc.applyPrices stores i prices).service.tickerToId = svc.tickerToId ∧
    (svc.applyPrices stores i prices).stores.securities = stores.securities ∧
    (svc.applyPrices stores i prices).service.Sound := by
  obtain ⟨stats, heq⟩ := applyPrices_eq stores i hids hs.ids_injective
  rw [heq]
  refine ⟨rfl, rfl, rfl, hs.ids_injective, hs.upstream_requested, ?_⟩
  intro t p hp
  have hget := get?_stamped svc stores prices i.now 0 t
  rw [Dict.get?_update] at hp
  cases hin : prices.get? t with
  | none =>
    rw [hin, Option.none_or] at hp
    rw [hin] at hget
    obtain ⟨since, hsince⟩ := hs.last_stamped t p hp
    exact ⟨since, hget.trans hsince⟩
  | some q =>
    rw [hin] at hget
    exact ⟨_, hget⟩

omit [DecidableEq P] in
/-- Only an exception that the service does not catch leaves a tick without prices. -/
lemma fetch_of_reading_none (h : svc.reading i = none) : i.fetch = .raised false := by
  unfold reading currentPrices at h
  dsimp only at h
  split at h
  · exact absurd h (by simp)
  · cases hfetch : i.fetch with
    | returned prices =>
      rw [hfetch] at h
      exact absurd h (by simp)
    | raised caught =>
      cases caught with
      | true =>
        rw [hfetch] at h
        exact absurd h (by simp)
      | false => rfl

/-- What a tick never changes in the service, and that it stays sound, when the tickers it reads
have ids. -/
lemma tick_service_of_ids (hs : svc.Sound) (stores : Stores P)
    (hids : ∀ prices, svc.reading i = some prices → ∀ t ∈ prices.keys, t ∈ svc.tickerToId.keys) :
    (svc.tick stores i).service.settings = svc.settings ∧
    (svc.tick stores i).service.tickerToId = svc.tickerToId ∧
    (svc.tick stores i).stores.securities = stores.securities ∧
    (svc.tick stores i).service.Sound := by
  obtain ⟨upstream, fetchedAt, stats, hup, hcases⟩ := tick_cases svc stores i
  have hrequested : ∀ t ∈ upstream.keys, t ∈ svc.tickerToId.keys := by
    rcases hcases with ⟨hread, -⟩ | ⟨hread, -⟩ | ⟨hread, -⟩
    · rcases hup with rfl | hfetch
      · exact hs.upstream_requested
      · exact absurd ((fetch_of_reading_none hread).symm.trans hfetch) (by simp)
    · exact hids upstream hread
    · exact hids upstream hread
  have hread : (svc.afterRead upstream fetchedAt stats).Sound :=
    ⟨hs.ids_injective, hrequested, hs.last_stamped⟩
  rcases hcases with ⟨-, htick⟩ | ⟨-, -, htick⟩ | ⟨-, -, htick⟩
  · rw [htick]
    exact ⟨rfl, rfl, rfl, hread⟩
  · rw [htick]
    exact ⟨rfl, rfl, rfl, hread⟩
  · rw [htick]
    exact applyPrices_service hread stores i hrequested

/-- So it is when the source returns tickers it was asked for. -/
lemma tick_service (hs : svc.Sound) (stores : Stores P) (hi : svc.Requested i) :
    (svc.tick stores i).service.settings = svc.settings ∧
    (svc.tick stores i).service.tickerToId = svc.tickerToId ∧
    (svc.tick stores i).stores.securities = stores.securities ∧
    (svc.tick stores i).service.Sound :=
  tick_service_of_ids hs stores fun _ hread => reading_requested hs hi hread

/-- **A tick is a step at every ticker**, however it ends, when the tickers it reads have ids. -/
theorem view_tick_of_ids (hs : svc.Sound) (stores : Stores P)
    (hids : ∀ prices, svc.reading i = some prices → ∀ t ∈ prices.keys, t ∈ svc.tickerToId.keys)
    (hkey : svc.IdNames id t) :
    (svc.tick stores i).service.view (svc.tick stores i).stores id t =
      (svc.view stores id t).step id svc.sourceName (svc.inputAt i t) ∧
    (svc.tick stores i).delivered.filter (fun m => decide (m.ticker = t)) =
      ((svc.view stores id t).publication id t svc.sourceName (svc.inputAt i t)).toList := by
  obtain ⟨upstream, fetchedAt, stats, hup, hcases⟩ := tick_cases svc stores i
  rcases hcases with ⟨hread, htick⟩ | ⟨hread, hempty, htick⟩ | ⟨hread, -, htick⟩
  · have hnone : (svc.inputAt i t).reading = none := by rw [inputAt, hread]; rfl
    rw [htick, TickerState.step_none hnone, TickerState.publication, hnone]
    exact ⟨rfl, rfl⟩
  · have hnone : (svc.inputAt i t).reading = none := by
      rw [inputAt, hread]
      refine Dict.get?_eq_none_iff.2 ?_
      rw [Dict.keys, hempty]
      exact List.not_mem_nil
    rw [htick, TickerState.step_none hnone, TickerState.publication, hnone]
    exact ⟨rfl, rfl⟩
  · rw [htick]
    have hread' := hids upstream hread
    have hbrings := brings_inputAt hread t upstream fetchedAt stats
    exact ⟨view_applyPrices stores i hread' hs.ids_injective hbrings hkey,
      delivered_applyPrices stores i hread' hs.ids_injective hbrings hkey⟩

/-- So it is when the source returns tickers it was asked for. -/
theorem view_tick (hs : svc.Sound) (stores : Stores P) (hi : svc.Requested i)
    (hkey : svc.IdNames id t) :
    (svc.tick stores i).service.view (svc.tick stores i).stores id t =
      (svc.view stores id t).step id svc.sourceName (svc.inputAt i t) ∧
    (svc.tick stores i).delivered.filter (fun m => decide (m.ticker = t)) =
      ((svc.view stores id t).publication id t svc.sourceName (svc.inputAt i t)).toList :=
  view_tick_of_ids hs stores (fun _ hread => reading_requested hs hi hread) hkey

end PriceService
end TickerWatch
