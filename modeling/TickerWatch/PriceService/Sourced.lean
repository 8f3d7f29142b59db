import TickerWatch.PriceService.Accounting
import TickerWatch.PriceService.ChangeStream
import TickerWatch.PriceService.Reset
import TickerWatch.PriceService.VendorAnswer

/-!
# The service and its source

`_current_prices` calls `self._source.fetch` when the interval has passed, and serves the previous
read otherwise.  A source has a state of its own, which nothing else moves.

So the changes a lifetime sees are decided by the source and by how often it was called
(`movement_eq`): not by the clock, nor by the transport, nor by what becomes of the writes.
-/

namespace TickerWatch

universe u v

/-! ## A source by itself -/

/-- `PriceSource.fetch`: what a call leaves, and what it answers. -/
structure Source (σ : Type v) (P : Type u) where
  fetch : σ → List Ticker → σ × FetchOutcome P

/-- The prices that differ from the last ones. -/
def changesOf {P : Type u} [DecidableEq P] (last : Ticker → Option P) (prices : Dict Ticker P) :
    List (Ticker × P) :=
  prices.entries.filter fun e => decide (last e.1 ≠ some e.2)

namespace Source

variable {P : Type u} {σ : Type v} [DecidableEq P] {feed : Source σ P} {tickers : List Ticker}

/-- Its state after a number of calls for the same tickers. -/
def after (feed : Source σ P) (tickers : List Ticker) : σ → ℕ → σ
  | s, 0 => s
  | s, n + 1 => feed.after tickers (feed.fetch s tickers).1 n

/-- The changes in its first answers; a call that fails changes nothing. -/
def moves (feed : Source σ P) (tickers : List Ticker) :
    σ → (Ticker → Option P) → ℕ → List (Ticker × P)
  | _, _, 0 => []
  | s, last, n + 1 =>
    match (feed.fetch s tickers).2 with
    | .returned prices => changesOf last prices ++
        feed.moves tickers (feed.fetch s tickers).1 (fun t => (prices.get? t).or (last t)) n
    | .raised _ => feed.moves tickers (feed.fetch s tickers).1 last n

/-- It answers with tickers it was asked for. -/
def Requests (feed : Source σ P) (tickers : List Ticker) : Prop :=
  ∀ s prices, (feed.fetch s tickers).2 = .returned prices → ∀ t ∈ prices.keys, t ∈ tickers

lemma moves_of_returned {s : σ} {last : Ticker → Option P} {prices : Dict Ticker P}
    (h : (feed.fetch s tickers).2 = .returned prices) (n : ℕ) :
    feed.moves tickers s last (n + 1) = changesOf last prices ++
      feed.moves tickers (feed.fetch s tickers).1 (fun t => (prices.get? t).or (last t)) n := by
  rw [moves, h]

lemma moves_of_raised {s : σ} {last : Ticker → Option P} {caught : Bool}
    (h : (feed.fetch s tickers).2 = .raised caught) (n : ℕ) :
    feed.moves tickers s last (n + 1) = feed.moves tickers (feed.fetch s tickers).1 last n := by
  rw [moves, h]

lemma moves_prefix (s : σ) (last : Ticker → Option P) {n m : ℕ} (h : n ≤ m) :
    feed.moves tickers s last n <+: feed.moves tickers s last m := by
  induction n generalizing s last m with
  | zero => exact List.nil_prefix
  | succ n ih =>
    obtain ⟨m, rfl⟩ : ∃ k, m = k + 1 := ⟨m - 1, by omega⟩
    have hle : n ≤ m := Nat.le_of_succ_le_succ h
    cases hfetch : (feed.fetch s tickers).2 with
    | returned prices =>
      rw [moves_of_returned hfetch, moves_of_returned hfetch, List.prefix_append_right_inj]
      exact ih _ _ hle
    | raised caught =>
      rw [moves_of_raised hfetch, moves_of_raised hfetch]
      exact ih _ _ hle

end Source

/-! ## The changes of a tick -/

namespace PriceService

variable {P : Type u} [DecidableEq P] {svc : PriceService P} {stores : Stores P} {i : TickInput P}
  {is : List (TickInput P)} {prices : Dict Ticker P} {t : Ticker}

/-- The changes a tick hands to its writers. -/
def movedBy (svc : PriceService P) (i : TickInput P) : List (Ticker × P) :=
  (svc.reading i).elim [] fun prices => (svc.changedPrices prices).entries

/-- The changes of a sequence of ticks. -/
def movement (svc : PriceService P) (stores : Stores P) : List (TickInput P) → List (Ticker × P)
  | [] => []
  | i :: is => svc.movedBy i ++
      (svc.tick stores i).service.movement (svc.tick stores i).stores is

/-- Every price the service holds was published. -/
def Held (svc : PriceService P) : Prop :=
  ∀ t p, svc.upstreamPrices.get? t = some p → svc.lastPublished.get? t = some p

lemma movedBy_of_reading (h : svc.reading i = some prices) :
    svc.movedBy i = changesOf svc.lastPublished.get? prices := by
  rw [movedBy, h]
  rfl

lemma Held.changesOf_eq_nil (h : svc.Held) :
    changesOf svc.lastPublished.get? svc.upstreamPrices = [] := by
  refine List.filter_eq_nil_iff.2 fun e he => ?_
  rw [h e.1 e.2 (Dict.get?_eq_some_iff.2 he)]
  simp

lemma upstream_tick (svc : PriceService P) (stores : Stores P) (i : TickInput P) :
    (svc.tick stores i).service.upstreamPrices = svc.servedRead i := by
  have hread := (tickWith_read .none svc stores i).2.2.2
  rw [tickWith_none] at hread
  rw [hread]
  unfold servedRead
  cases hcalls : svc.callsUpstream i.monotonic with
  | false =>
    have hcalls' : { svc with stats.ticks := svc.stats.ticks + 1 }.callsUpstream i.monotonic =
        false := hcalls
    rw [currentPrices_of_serves hcalls']
    rfl
  | true =>
    have hnot := not_serves_of_calls hcalls
    unfold currentPrices
    dsimp only
    rw [hnot]
    cases i.fetch with
    | returned prices => rfl
    | raised caught => cases caught <;> rfl

lemma lastPublished_tick (hs : svc.Sound) (hi : svc.Requested i) (stores : Stores P) (t : Ticker) :
    (svc.tick stores i).service.lastPublished.get? t =
      ((svc.reading i).bind fun prices => prices.get? t).or (svc.lastPublished.get? t) := by
  obtain ⟨id, hid⟩ := hs.exists_idNames t
  have hview := congrArg TickerState.last (view_tick hs stores hi hid).1
  rw [TickerState.step_last_eq] at hview
  exact hview

lemma Held.tick_of_reading (h : svc.Held) (hs : svc.Sound) (hi : svc.Requested i)
    (hread : svc.reading i = none ∨ svc.reading i = some svc.upstreamPrices) (stores : Stores P) :
    svc.movedBy i = [] ∧
      (svc.tick stores i).service.lastPublished.get? = svc.lastPublished.get? := by
  rcases hread with hread | hread
  · refine ⟨by rw [movedBy, hread]; rfl, funext fun t => ?_⟩
    rw [lastPublished_tick hs hi, hread]
    rfl
  · refine ⟨(movedBy_of_reading hread).trans h.changesOf_eq_nil, funext fun t => ?_⟩
    rw [lastPublished_tick hs hi, hread, Option.bind_some]
    cases hheld : svc.upstreamPrices.get? t with
    | none => rw [Option.none_or]
    | some p => rw [h t p hheld, Option.some_or]

lemma Held.tick (h : svc.Held) (hs : svc.Sound) (hi : svc.Requested i) (stores : Stores P) :
    (svc.tick stores i).service.Held := by
  intro t p hp
  rw [upstream_tick] at hp
  rw [lastPublished_tick hs hi]
  cases hread : svc.reading i with
  | some prices =>
    rw [servedRead_of_reading hread] at hp
    rw [Option.bind_some, hp, Option.some_or]
  | none =>
    have hfetch := fetch_of_reading_none hread
    have hserved : svc.servedRead i = svc.upstreamPrices := by
      rw [servedRead, hfetch, ite_self]
    rw [hserved] at hp
    rw [Option.bind_none, Option.none_or]
    exact h t p hp

/-! ## What comes of the changes -/

/-- The tickers and prices that were delivered. -/
def sent (svc : PriceService P) (stores : Stores P) (is : List (TickInput P)) :
    List (Ticker × P) :=
  (svc.deliveries stores is).flatten.map fun m => (m.ticker, m.price)

/-- A tick counts its changes, however it ends. -/
lemma updatesChanged_tick (hs : svc.Sound) (hi : svc.Requested i) (stores : Stores P) :
    (svc.tick stores i).service.stats.updatesChanged =
      svc.stats.updatesChanged + (svc.movedBy i).length := by
  obtain ⟨upstream, fetchedAt, calls, errors, -, hsvc, hread⟩ := currentPrices_counts svc i
  have hresult : ({ svc with stats.ticks := svc.stats.ticks + 1 }.currentPrices i.monotonic
      i.fetch).2 = svc.reading i := reading_stats svc i _
  unfold tick
  generalize { svc with stats.ticks := svc.stats.ticks + 1 }.currentPrices i.monotonic i.fetch =
    out at hsvc hresult
  obtain ⟨svc', read⟩ := out
  dsimp only at hsvc hresult
  rw [hsvc, hresult]
  rcases hread with hread | hread
  · rw [movedBy, hread]
    rfl
  · rw [movedBy_of_reading hread, hread]
    dsimp only
    split
    case isTrue hempty =>
      rw [changesOf, List.isEmpty_iff.1 hempty]
      rfl
    case isFalse hne =>
      -- what was read was asked for, so each write counts without raising
      have hrequested := reading_requested hs hi hread
      generalize hold : svc.afterRead upstream fetchedAt (svc.stats.ticked calls errors) = old
      have hids : ∀ t ∈ upstream.keys, t ∈ old.tickerToId.keys := by
        rw [← hold]
        exact hrequested
      have hready := ready_restamp hids i.now
      obtain ⟨_, _, _, -, hcache⟩ := count_writeCache hready i.now i.cache stores.redis
        (by simpa using hne)
      obtain ⟨_, _, -, hrows⟩ := count_writePostgres (hready.changedPrices old) i.now i.postgres
        stores.latestPrices
      obtain ⟨_, _, _, -, -, -, hpublish⟩ := count_publish (hready.changedPrices old) i.now
        i.publish
      rw [(stats_applyPrices old stores i upstream).1, hcache, hrows, hpublish, ← hold]
      rfl

omit [DecidableEq P] in
lemma map_sent_publish (h : svc.Ready prices) (now : Instant)
    (hpush : svc.settings.transport = .push) :
    (svc.publish prices (.replied fun _ => false)).store.map (fun m => (m.ticker, m.price)) =
      prices.entries := by
  have hcommands : svc.publications prices = some (prices.entries.map fun e =>
      ⟨svc.idOf e.1, e.1, e.2, toIso (svc.sinceOf now e.1), svc.sourceName⟩) := by
    apply h.mapM_lookups now
    intro e hid hsince
    rw [hid, hsince]
    rfl
  unfold publish
  rw [hpush]
  split
  case isTrue hempty =>
    have hnil : prices.entries = [] := by simpa using hempty
    rw [hnil]
    rfl
  case isFalse =>
    rw [hcommands]
    dsimp only
    have hdelivered (l : List (Publication P)) :
        l.filter (fun m => (PublishOutcome.replied fun _ => false).delivers m.ticker) = l :=
      List.filter_eq_self.2 fun _ _ => rfl
    rw [hdelivered, List.map_map]
    exact List.map_id _

/-- In push mode, with nothing rejected, a tick sends its changes. -/
lemma sent_tick (hs : svc.Sound) (hi : svc.Requested i) (stores : Stores P)
    (hpush : svc.settings.transport = .push) (hall : i.publish = .replied fun _ => false) :
    (svc.tick stores i).delivered.map (fun m => (m.ticker, m.price)) = svc.movedBy i := by
  obtain ⟨upstream, fetchedAt, stats, -, hcases⟩ := tick_cases svc stores i
  rcases hcases with ⟨hread, htick⟩ | ⟨hread, hempty, htick⟩ | ⟨hread, -, htick⟩
  · rw [htick, movedBy, hread]
    rfl
  · rw [htick, movedBy_of_reading hread, changesOf, hempty]
    rfl
  · rw [htick, movedBy_of_reading hread]
    have hrequested := reading_requested hs hi hread
    generalize hold : svc.afterRead upstream fetchedAt stats = old
    have hids : ∀ t ∈ upstream.keys, t ∈ old.tickerToId.keys := by
      rw [← hold]
      exact hrequested
    have hready := (ready_restamp hids i.now).changedPrices old
    rw [(stats_applyPrices old stores i upstream).2, hall, map_sent_publish hready i.now, ← hold]
    · rfl
    · rw [← hold]
      exact hpush

/-- What a lifetime counts, and what it sends where every publish goes through. -/
lemma movement_seen (hs : svc.Sound) (stores : Stores P) (hreq : ∀ i ∈ is, svc.Requested i) :
    (svc.runTicks stores is).1.stats.updatesChanged =
      svc.stats.updatesChanged + (svc.movement stores is).length ∧
    (svc.settings.transport = .push → PublishesAll is →
      svc.sent stores is = svc.movement stores is) := by
  induction is generalizing svc stores with
  | nil => exact ⟨rfl, fun _ _ => rfl⟩
  | cons i is ih =>
    have hi := hreq i List.mem_cons_self
    obtain ⟨hsettings, hids, -, hsound⟩ := tick_service hs stores hi
    obtain ⟨hcount, hsent⟩ := ih hsound (svc.tick stores i).stores fun j hj =>
      (hreq j (List.mem_cons_of_mem _ hj)).congr hids
    refine ⟨?_, fun hpush hall => ?_⟩
    · show ((svc.tick stores i).service.runTicks (svc.tick stores i).stores is).1.stats.updatesChanged =
        _
      rw [hcount, updatesChanged_tick hs hi, movement, List.length_append, Nat.add_assoc]
    · have hrest := hsent (by rw [hsettings, hpush]) fun j hj => hall j (List.mem_cons_of_mem _ hj)
      rw [sent, deliveries, List.flatten_cons, List.map_append,
        sent_tick hs hi stores hpush (hall i List.mem_cons_self), movement, ← hrest]
      rfl

end PriceService

/-! ## The service with its source -/

/-- A service at work, its stores and its source. -/
structure Sourced (σ : Type v) (P : Type u) where
  service : PriceService P
  stores : Stores P
  source : σ

namespace Sourced

variable {P : Type u} {σ : Type v} [DecidableEq P] {feed : Source σ P} {x : Sourced σ P}
  {i : TickInput P} {is : List (TickInput P)}

/-- `list(self._ticker_to_id)`. -/
def tickers (x : Sourced σ P) : List Ticker := x.service.tickerToId.keys

/-- The input of a tick, with what the source answers in place of what the environment chose. -/
def input (feed : Source σ P) (x : Sourced σ P) (i : TickInput P) : TickInput P :=
  { i with fetch := (feed.fetch x.source x.tickers).2 }

/-- One tick.  The source is left alone unless it is called. -/
def step (feed : Source σ P) (x : Sourced σ P) (i : TickInput P) : Sourced σ P where
  service := (x.service.tick x.stores (x.input feed i)).service
  stores := (x.service.tick x.stores (x.input feed i)).stores
  source := if x.service.callsUpstream i.monotonic then (feed.fetch x.source x.tickers).1
    else x.source

/-- A sequence of ticks. -/
def run (feed : Source σ P) (x : Sourced σ P) (is : List (TickInput P)) : Sourced σ P :=
  is.foldl (step feed) x

/-- The inputs of a sequence of ticks. -/
def inputs (feed : Source σ P) (x : Sourced σ P) : List (TickInput P) → List (TickInput P)
  | [] => []
  | i :: is => x.input feed i :: (x.step feed i).inputs feed is

/-- How often a sequence of ticks calls the source. -/
def calls (feed : Source σ P) (x : Sourced σ P) : List (TickInput P) → ℕ
  | [] => 0
  | i :: is => (if x.service.callsUpstream i.monotonic then 1 else 0) + (x.step feed i).calls feed is

/-- The changes of a sequence of ticks. -/
def movement (feed : Source σ P) (x : Sourced σ P) (is : List (TickInput P)) : List (Ticker × P) :=
  x.service.movement x.stores (x.inputs feed is)

/-- What a sequence of ticks sends. -/
def sent (feed : Source σ P) (x : Sourced σ P) (is : List (TickInput P)) : List (Ticker × P) :=
  x.service.sent x.stores (x.inputs feed is)

/-- **A run with a source is a lifetime** whose inputs the source answers. -/
lemma run_eq (feed : Source σ P) (x : Sourced σ P) (is : List (TickInput P)) :
    ((x.run feed is).service, (x.run feed is).stores) =
      x.service.runTicks x.stores (x.inputs feed is) := by
  induction is generalizing x with
  | nil => rfl
  | cons i is ih => exact ih (x.step feed i)

omit [DecidableEq P] in
lemma input_requested (hfeed : feed.Requests x.tickers) (i : TickInput P) :
    x.service.Requested (x.input feed i) := by
  cases hfetch : (feed.fetch x.source x.tickers).2 with
  | returned prices =>
    simp only [PriceService.Requested, input, hfetch]
    exact hfeed _ _ hfetch
  | raised caught => simp [PriceService.Requested, input, hfetch]

/-- A tick keeps the service sound, and asking for the same tickers. -/
lemma step_sound (hfeed : feed.Requests x.tickers) (hs : x.service.Sound) (i : TickInput P) :
    (x.step feed i).service.Sound ∧ (x.step feed i).tickers = x.tickers := by
  obtain ⟨-, hids, -, hsound⟩ := PriceService.tick_service hs x.stores (input_requested hfeed i)
  exact ⟨hsound, congrArg Dict.keys hids⟩

/-- The tickers a run asks for are those it started with. -/
lemma inputs_requested (hfeed : feed.Requests x.tickers) (hs : x.service.Sound) :
    ∀ j ∈ x.inputs feed is, x.service.Requested j := by
  induction is generalizing x with
  | nil => exact fun j hj => absurd hj List.not_mem_nil
  | cons i is ih =>
    have hi := input_requested hfeed i
    obtain ⟨-, hids, -, hsound⟩ := PriceService.tick_service hs x.stores hi
    intro j hj
    rcases List.mem_cons.1 hj with rfl | hj
    · exact hi
    · have hfeed' : feed.Requests (x.step feed i).tickers := by
        rw [show (x.step feed i).tickers = x.tickers from congrArg Dict.keys hids]
        exact hfeed
      exact (ih hfeed' hsound j hj).congr hids.symm

lemma publishesAll_inputs (hall : PriceService.PublishesAll is) :
    PriceService.PublishesAll (x.inputs feed is) := by
  induction is generalizing x with
  | nil => exact fun j hj => absurd hj List.not_mem_nil
  | cons i is ih =>
    obtain ⟨hi, hrest⟩ := List.forall_mem_cons.1 hall
    exact List.forall_mem_cons.2 ⟨hi, ih hrest⟩

/-- How a tick moves the source and what is published, by whether it calls the source. -/
lemma step_cases (hfeed : feed.Requests x.tickers) (hs : x.service.Sound) (hheld : x.service.Held)
    (i : TickInput P) :
    (x.service.callsUpstream i.monotonic = false ∧ (x.step feed i).source = x.source ∧
      x.service.movedBy (x.input feed i) = [] ∧
      (x.step feed i).service.lastPublished.get? = x.service.lastPublished.get?) ∨
    (x.service.callsUpstream i.monotonic = true ∧
      (x.step feed i).source = (feed.fetch x.source x.tickers).1 ∧
      ((∃ prices, (feed.fetch x.source x.tickers).2 = .returned prices ∧
          x.service.movedBy (x.input feed i) = changesOf x.service.lastPublished.get? prices ∧
          (x.step feed i).service.lastPublished.get? =
            fun t => (prices.get? t).or (x.service.lastPublished.get? t)) ∨
        ∃ caught, (feed.fetch x.source x.tickers).2 = .raised caught ∧
          x.service.movedBy (x.input feed i) = [] ∧
          (x.step feed i).service.lastPublished.get? = x.service.lastPublished.get?)) := by
  have hi := input_requested hfeed i
  cases hcalls : x.service.callsUpstream i.monotonic with
  | false =>
    have hcalls' : x.service.callsUpstream (x.input feed i).monotonic = false := hcalls
    -- what is served again has been published already, so it changes nothing
    have hstays := hheld.tick_of_reading hs hi
      (Or.inr (PriceService.reading_of_serves hcalls')) x.stores
    exact Or.inl ⟨rfl, by rw [step, hcalls]; rfl, hstays⟩
  | true =>
    have hcalls' : x.service.callsUpstream (x.input feed i).monotonic = true := hcalls
    refine Or.inr ⟨rfl, by rw [step, hcalls]; rfl, ?_⟩
    cases hfetch : (feed.fetch x.source x.tickers).2 with
    | returned prices =>
      have hread := PriceService.reading_of_returned hcalls'
        (show (x.input feed i).fetch = _ from hfetch)
      -- an answer replaces what is remembered of the tickers it has
      refine Or.inl ⟨prices, rfl, PriceService.movedBy_of_reading hread, funext fun t => ?_⟩
      show (x.service.tick x.stores (x.input feed i)).service.lastPublished.get? t = _
      rw [PriceService.lastPublished_tick hs hi, hread, Option.bind_some]
    | raised caught =>
      have hread := PriceService.reading_of_raised hcalls'
        (show (x.input feed i).fetch = _ from hfetch)
      -- without an answer the tick serves what is held, or nothing
      refine Or.inr ⟨caught, rfl, hheld.tick_of_reading hs hi ?_ x.stores⟩
      rw [hread]
      cases caught
      · exact Or.inl rfl
      · exact Or.inr rfl

/-- **The changes are those in the answers of the source**, as many as it was called for. -/
theorem movement_eq (hfeed : feed.Requests x.tickers) (hs : x.service.Sound) (hheld : x.service.Held)
    (is : List (TickInput P)) :
    x.movement feed is =
      feed.moves x.tickers x.source x.service.lastPublished.get? (x.calls feed is) ∧
    (x.run feed is).source = feed.after x.tickers x.source (x.calls feed is) := by
  induction is generalizing x with
  | nil => exact ⟨rfl, rfl⟩
  | cons i is ih =>
    obtain ⟨hsound, htickers⟩ := step_sound hfeed hs i
    have hheld' : (x.step feed i).service.Held := hheld.tick hs (input_requested hfeed i) x.stores
    obtain ⟨hrest, hafter⟩ := ih (htickers ▸ hfeed) hsound hheld'
    have hmovement : x.movement feed (i :: is) =
        x.service.movedBy (x.input feed i) ++ (x.step feed i).movement feed is := rfl
    have hrun : (x.run feed (i :: is)).source = ((x.step feed i).run feed is).source := rfl
    rw [hmovement, hrun, hrest, hafter, htickers, calls]
    rcases step_cases hfeed hs hheld i with ⟨hcalls, hsource, hmoved, hlast⟩ |
      ⟨hcalls, hsource, ⟨prices, hfetch, hmoved, hlast⟩ | ⟨caught, hfetch, hmoved, hlast⟩⟩
    · rw [hsource, hmoved, hlast, hcalls, if_neg (by simp), Nat.zero_add]
      exact ⟨rfl, rfl⟩
    · rw [hsource, hmoved, hlast, hcalls, if_pos rfl, Nat.add_comm 1,
        Source.moves_of_returned hfetch]
      exact ⟨rfl, rfl⟩
    · rw [hsource, hmoved, hlast, hcalls, if_pos rfl, Nat.add_comm 1,
        Source.moves_of_raised hfetch]
      exact ⟨rfl, rfl⟩

/-! ## Where prices come from -/

/-- A price of `t` in what the ticks read. -/
def Reads (feed : Source σ P) (x : Sourced σ P) (is : List (TickInput P)) (t : Ticker) (p : P) :
    Prop :=
  ∃ y ∈ x.service.inputsAt x.stores t (x.inputs feed is), y.reading = some p

/-- What holds of all a source answers holds of all that is read. -/
lemma reads_of_answers {good : Ticker → P → Prop} {inv : σ → Prop}
    (hfeed : feed.Requests x.tickers) (hs : x.service.Sound)
    (hinv : ∀ s, inv s → inv (feed.fetch s x.tickers).1 ∧
      ∀ prices, (feed.fetch s x.tickers).2 = .returned prices →
        ∀ t p, prices.get? t = some p → good t p)
    (hsource : inv x.source) (hheld : ∀ t p, x.service.upstreamPrices.get? t = some p → good t p)
    {t : Ticker} {p : P} (h : x.Reads feed is t p) : good t p := by
  induction is generalizing x with
  | nil =>
    obtain ⟨y, hy, -⟩ := h
    exact absurd hy List.not_mem_nil
  | cons i is ih =>
    obtain ⟨hinv', hanswer⟩ := hinv x.source hsource
    obtain ⟨hsound, htickers⟩ := step_sound hfeed hs i
    -- what a tick serves is its answer or what was held before
    have hserved : ∀ t p, (x.service.servedRead (x.input feed i)).get? t = some p → good t p := by
      intro t p hp
      unfold PriceService.servedRead at hp
      split at hp
      · cases hfetch : (feed.fetch x.source x.tickers).2 with
        | returned prices =>
          simp only [input, hfetch] at hp
          exact hanswer prices hfetch t p hp
        | raised caught =>
          simp only [input, hfetch] at hp
          exact hheld t p hp
      · exact hheld t p hp
    obtain ⟨y, hy, hread⟩ := h
    rcases List.mem_cons.1 hy with rfl | hy
    -- it is read in this tick
    · obtain ⟨prices, hprices, hp⟩ := Option.bind_eq_some_iff.1 hread
      rw [← PriceService.servedRead_of_reading hprices] at hp
      exact hserved t p hp
    -- it is read later: what is held after this tick is what it served
    · refine ih (x := x.step feed i) (htickers ▸ hfeed) hsound (htickers ▸ hinv) ?_ ?_
        ⟨y, hy, hread⟩
      · unfold step
        dsimp only
        split
        · exact hinv'
        · exact hsource
      · intro t p hp
        rw [step, PriceService.upstream_tick] at hp
        exact hserved t p hp

lemma view_run (hfeed : feed.Requests x.tickers) (hs : x.service.Sound) (is : List (TickInput P))
    {id : SecurityId} {t : Ticker} (hid : x.service.IdNames id t) :
    (x.run feed is).service.view (x.run feed is).stores id t =
      (x.service.view x.stores id t).run id x.service.sourceName
        (x.service.inputsAt x.stores t (x.inputs feed is)) := by
  have hreq : ∀ j ∈ x.inputs feed is, x.service.Requested j := inputs_requested hfeed hs
  have hrun := (PriceService.view_runTicks hs x.stores hreq hid).1
  rw [← run_eq] at hrun
  exact hrun

/-- **What is stored or sent was stored before, or read.** -/
lemma stored_or_read (hfeed : feed.Requests x.tickers) (hs : x.service.Sound)
    (is : List (TickInput P)) :
    (∀ id row, Dict.get? (x.run feed is).stores.latestPrices id = some row →
      Dict.get? x.stores.latestPrices id = some row ∨ ∃ t, x.Reads feed is t row.price) ∧
    (∀ t c, (x.run feed is).stores.redis.cached t = some c →
      x.stores.redis.cached t = some c ∨ x.Reads feed is t c.price) ∧
    ∀ e ∈ x.sent feed is, x.Reads feed is e.1 e.2 := by
  have hreq : ∀ j ∈ x.inputs feed is, x.service.Requested j := inputs_requested hfeed hs
  refine ⟨fun id row hrow => ?_, fun t c hc => ?_, fun e he => ?_⟩
  · obtain ⟨t, hid⟩ := hs.exists_ticker id
    have hrow' := (congrArg TickerState.row (view_run hfeed hs is hid)).symm.trans hrow
    rcases TickerState.run_row_cases hrow' with hold | ⟨y, hy, hread, -⟩
    · exact Or.inl hold
    · exact Or.inr ⟨t, y, hy, hread⟩
  · obtain ⟨id, hid⟩ := hs.exists_idNames t
    have hc' := (congrArg TickerState.cached (view_run hfeed hs is hid)).symm.trans hc
    exact (TickerState.run_cached_cases hc').imp_right fun ⟨y, hy, hread⟩ => ⟨y, hy, hread⟩
  · obtain ⟨m, hm, rfl⟩ := List.mem_map.1 he
    obtain ⟨id, hid⟩ := hs.exists_idNames m.ticker
    have hchannel := (PriceService.view_runTicks hs x.stores hreq hid).2
    have hmem : m ∈ (x.service.deliveries x.stores (x.inputs feed is)).flatten.filter
        fun m' => decide (m'.ticker = m.ticker) := List.mem_filter.2 ⟨hm, by simp⟩
    rw [hchannel] at hmem
    obtain ⟨y, hy, hread⟩ := TickerState.read_of_mem_publications hmem
    exact ⟨y, hy, hread⟩

end Sourced
end TickerWatch
