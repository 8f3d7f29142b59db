import TickerWatch.PriceService.Lifetime

/-!
# What the counters say

A lifetime counts what it read and what became of it: every price goes to the cache, every changed
one to `latest_prices` and to Centrifugo.  Two of the three writes are counted as a whole: a failed
pipeline and a failed upsert add one error, whatever they applied.  So the counters of these do not
add up after a failure, and do otherwise; the replies of a publish batch are counted one by one.  A
tick that an exception leaves counts only what it came to, and is left out here.
-/

namespace TickerWatch

universe u

/-! ## Tallies of batches -/

/-- Everything that was taken is done, unless some batch failed. -/
def Tally (taken done errors : ℕ) : Prop := done ≤ taken ∧ (done = taken ↔ errors = 0)

/-- A batch of `n` is done, or counted as one error. -/
def Settles (n done errors : ℕ) : Prop := done = n ∧ errors = 0 ∨ done = 0 ∧ errors = 1 ∧ 0 < n

lemma Tally.zero : Tally 0 0 0 := ⟨le_rfl, Iff.rfl⟩

lemma Settles.none : Settles 0 0 0 := Or.inl ⟨rfl, rfl⟩

lemma Tally.add {taken done errors n done' errors' : ℕ} (h : Tally taken done errors)
    (hbatch : Settles n done' errors') : Tally (taken + n) (done + done') (errors + errors') := by
  unfold Tally at *
  rcases hbatch with ⟨rfl, rfl⟩ | ⟨rfl, rfl, hn⟩ <;> omega

namespace Stats

/-- What the counters say of one another: what was read and what changed went through each write
once, but for the batches that were counted as one error, and each change was published or counted
as a failed publish. -/
structure Balanced (s : Stats) (transport : Transport) : Prop where
  cache : Tally s.updatesReceived (s.cacheWrites + s.cacheWritesRejected) s.cacheErrors
  postgres : Tally s.updatesChanged s.postgresUpserts s.postgresErrors
  publish : s.published + s.publishErrors = if transport = .push then s.updatesChanged else 0
  changed : s.updatesChanged ≤ s.updatesReceived
  upstream : s.upstreamErrors ≤ s.ticks

/-- The counters after a number of ticks that delivered a number of publications. -/
structure Counted (s s' : Stats) (transport : Transport) (ticks delivered : ℕ) : Prop where
  balanced : s'.Balanced transport
  ticks : s'.ticks = s.ticks + ticks
  atLeast : s'.published ≤ s.published + delivered
  atMost : s.published + s.publishErrors + delivered ≤ s'.published + s'.publishErrors

lemma Counted.trans {s s' s'' : Stats} {transport : Transport} {n n' d d' : ℕ}
    (h : s.Counted s' transport n d) (h' : s'.Counted s'' transport n' d') :
    s.Counted s'' transport (n + n') (d + d') := by
  refine ⟨h'.balanced, ?_, ?_, ?_⟩
  · rw [h'.ticks, h.ticks, Nat.add_assoc]
  · have hfirst := h.atLeast
    have hsecond := h'.atLeast
    omega
  · have hfirst := h.atMost
    have hsecond := h'.atMost
    omega

/-- The counters once a tick has read its source. -/
def ticked (s : Stats) (calls errors : ℕ) : Stats :=
  { s with
    ticks := s.ticks + 1
    upstreamCalls := s.upstreamCalls + calls
    upstreamErrors := s.upstreamErrors + errors }

lemma Balanced.ticked {s : Stats} {transport : Transport} (h : s.Balanced transport)
    (calls : ℕ) {errors : ℕ} (herrors : errors ≤ 1) :
    s.Counted (s.ticked calls errors) transport 1 0 :=
  ⟨⟨h.cache, h.postgres, h.publish, h.changed, Nat.add_le_add h.upstream herrors⟩, rfl, le_rfl,
    le_rfl⟩

end Stats

namespace PriceService

variable {P : Type u} [DecidableEq P] {svc : PriceService P} {stores : Stores P} {i : TickInput P}
  {prices : Dict Ticker P}

/-! ## The three writes -/

omit [DecidableEq P] in
lemma setPricesIfNewer_counts (r : Redis P) (entries : List (Ticker × CachedPrice P × String))
    (ttl : ℤ) : (r.setPricesIfNewer entries ttl).2.1 + (r.setPricesIfNewer entries ttl).2.2 =
      entries.length := by
  have hcounts : ∀ (r : Redis P) (n : ℕ × ℕ),
      (entries.foldl (Redis.pipelineStep ttl) (r, n)).2.1 +
        (entries.foldl (Redis.pipelineStep ttl) (r, n)).2.2 = n.1 + n.2 + entries.length := by
    induction entries with
    | nil => exact fun r n => rfl
    | cons e entries ih =>
      intro r n
      rw [List.foldl_cons, Redis.pipelineStep, ih, List.length_cons]
      dsimp only
      split <;> dsimp only <;> omega
  exact (hcounts r (0, 0)).trans (by omega)

omit [DecidableEq P] in
lemma count_writeCache (h : svc.Ready prices) (now : Instant) (outcome : CacheOutcome)
    (r : Redis P) (hne : prices.entries ≠ []) :
    ∃ written rejected errors, Settles prices.size (written + rejected) errors ∧
      ∀ s, (svc.writeCache prices outcome r).count s = { s with
        cacheWrites := s.cacheWrites + written
        cacheWritesRejected := s.cacheWritesRejected + rejected
        cacheErrors := s.cacheErrors + errors } := by
  have hentries := h.cacheEntries_eq now
  have hsize : 0 < prices.size := List.length_pos_iff.2 hne
  unfold writeCache
  rw [hentries]
  cases outcome with
  | ok =>
    refine ⟨_, _, 0, Or.inl ⟨?_, rfl⟩, fun s => rfl⟩
    rw [setPricesIfNewer_counts, List.length_map, List.length_map]
    rfl
  | error applied => exact ⟨0, 0, 1, Or.inr ⟨rfl, rfl, hsize⟩, fun s => rfl⟩

omit [DecidableEq P] in
lemma count_writePostgres (h : svc.Ready prices) (now : Instant) (outcome : PostgresOutcome)
    (tbl : LatestPrices P) :
    ∃ upserts errors, Settles prices.size upserts errors ∧
      ∀ s, (svc.writePostgres prices outcome tbl).count s = { s with
        postgresUpserts := s.postgresUpserts + upserts
        postgresErrors := s.postgresErrors + errors } := by
  have hrows : svc.priceRows prices = some (prices.entries.map fun e =>
      (svc.idOf e.1, ⟨e.2, svc.sinceOf now e.1, svc.sourceName⟩)) := by
    apply h.mapM_lookups now
    intro e hid hsince
    rw [hid, hsince]
    rfl
  unfold writePostgres
  split
  case isTrue hempty =>
    have hzero : prices.size = 0 := by rw [Dict.size, List.isEmpty_iff.1 hempty, List.length_nil]
    rw [hzero]
    exact ⟨0, 0, .none, fun s => rfl⟩
  case isFalse hne =>
    have hsize : 0 < prices.size := List.length_pos_iff.2 (by simpa using hne)
    rw [hrows]
    dsimp only
    split
    · exact ⟨_, 0, Or.inl ⟨List.length_map _, rfl⟩, fun s => rfl⟩
    · exact ⟨0, 1, Or.inr ⟨rfl, rfl, hsize⟩, fun s => rfl⟩
    · exact ⟨0, 1, Or.inr ⟨rfl, rfl, hsize⟩, fun s => rfl⟩

omit [DecidableEq P] in
/-- A publish counts every changed price once, and counts as published what was delivered. -/
lemma count_publish (h : svc.Ready prices) (now : Instant) (outcome : PublishOutcome) :
    ∃ published errors batches,
      published + errors = (if svc.settings.transport = .push then prices.size else 0) ∧
      published ≤ (svc.publish prices outcome).store.length ∧
      (svc.publish prices outcome).store.length ≤ published + errors ∧
      ∀ s, (svc.publish prices outcome).count s = { s with
        published := s.published + published
        publishErrors := s.publishErrors + errors
        publishBatches := s.publishBatches + batches } := by
  have hcommands : svc.publications prices = some (prices.entries.map fun e =>
      ⟨svc.idOf e.1, e.1, e.2, toIso (svc.sinceOf now e.1), svc.sourceName⟩) := by
    apply h.mapM_lookups now
    intro e hid hsince
    rw [hid, hsince]
    rfl
  unfold publish
  by_cases hskip : (svc.settings.transport = .poll || prices.entries.isEmpty) = true
  · rw [if_pos hskip]
    refine ⟨0, 0, 0, ?_, le_rfl, le_rfl, fun s => rfl⟩
    by_cases hpush : svc.settings.transport = .push
    · have hempty : prices.entries = [] := by simpa [hpush] using hskip
      rw [if_pos hpush, Dict.size, hempty]
      rfl
    · rw [if_neg hpush]
  · have hpush : svc.settings.transport = .push := by
      cases htransport : svc.settings.transport with
      | poll => exact absurd (by simp [htransport]) hskip
      | push => rfl
    rw [if_neg hskip, hcommands, if_pos hpush]
    generalize hall : (prices.entries.map fun e => (⟨svc.idOf e.1, e.1, e.2,
      toIso (svc.sinceOf now e.1), svc.sourceName⟩ : Publication P)) = commands
    have hsize : commands.length = prices.size := by rw [← hall, List.length_map, Dict.size]
    cases outcome with
    -- each command of the batch was accepted or rejected, and is counted as that
    | replied rejected =>
      have hsplit : commands.length = (commands.filter fun m => rejected m.ticker).length +
          (commands.filter fun m => (PublishOutcome.replied rejected).delivers m.ticker).length :=
        List.length_eq_length_filter_add _
      refine ⟨_, _, 1, ?_, ?_, ?_, fun s => rfl⟩
      · omega
      · dsimp only
        omega
      · dsimp only
        omega
    -- a batch without a reply is counted as failed, whatever was accepted of it
    | failed accepted =>
      refine ⟨0, commands.length, 0, by omega, Nat.zero_le _, ?_, fun s => rfl⟩
      exact (List.length_filter_le _ _).trans (by omega)

/-! ## A tick -/

omit [DecidableEq P] in
lemma currentPrices_counts (svc : PriceService P) (i : TickInput P) :
    ∃ upstream fetchedAt calls errors, errors ≤ 1 ∧
      ({ svc with stats.ticks := svc.stats.ticks + 1 }.currentPrices i.monotonic i.fetch).1 =
        svc.afterRead upstream fetchedAt (svc.stats.ticked calls errors) ∧
      (svc.reading i = none ∨ svc.reading i = some upstream) := by
  rw [← reading_stats svc i { svc.stats with ticks := svc.stats.ticks + 1 }]
  unfold reading currentPrices
  dsimp only
  split
  · exact ⟨_, _, 0, 0, zero_le_one, rfl, Or.inr rfl⟩
  · cases i.fetch with
    | returned prices => exact ⟨_, _, 1, 0, zero_le_one, rfl, Or.inr rfl⟩
    | raised caught =>
      cases caught with
      | true => exact ⟨_, _, 0, 1, le_rfl, rfl, Or.inr rfl⟩
      | false =>
        exact ⟨svc.upstreamPrices, svc.lastUpstreamFetch, 0, 0, zero_le_one, rfl, Or.inl rfl⟩

lemma stats_applyPrices (svc : PriceService P) (stores : Stores P) (i : TickInput P)
    (prices : Dict Ticker P) :
    (svc.applyPrices stores i prices).service.stats =
      ((svc.restamp prices i.now).publish (svc.changedPrices prices) i.publish).count
        (((svc.restamp prices i.now).writePostgres (svc.changedPrices prices) i.postgres
          stores.latestPrices).count
            (((svc.restamp prices i.now).writeCache prices i.cache stores.redis).count
              (svc.restamp prices i.now).stats)) ∧
    (svc.applyPrices stores i prices).delivered =
      ((svc.restamp prices i.now).publish (svc.changedPrices prices) i.publish).store := by
  unfold applyPrices
  dsimp only
  split <;> exact ⟨rfl, rfl⟩

variable {settings : Settings} {stores₀ : Stores P} {svc₀ : PriceService P} {read : CatalogRead}

omit [DecidableEq P] in
lemma warm_stats (svc : PriceService P) (r : Redis P) (rows : List (TickerPrice P)) :
    (svc.warm r rows).1.stats = svc.stats := by
  induction rows generalizing svc r with
  | nil => rfl
  | cons row rows ih =>
    rw [warm_cons]
    exact ih (warmRow svc.settings.priceCacheTtlSeconds (svc, r) row).1 _

omit [DecidableEq P] in
lemma start_stats (h : start settings stores read = (stores₀, some svc₀)) :
    ∃ calls action, svc₀.stats =
      { ({} : Stats) with upstreamCalls := calls, sourceReconciliation := some action } := by
  unfold start syncCatalog at h
  dsimp only at h
  split at h
  · exact absurd (congrArg Prod.snd h) (by simp)
  · obtain rfl := Option.some.inj (Prod.mk.inj h).2
    rw [warm_stats]
    exact ⟨_, _, rfl⟩

end PriceService

end TickerWatch
