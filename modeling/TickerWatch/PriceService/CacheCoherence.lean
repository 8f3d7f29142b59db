import TickerWatch.PriceService.World
import TickerWatch.Prices.Convergence

/-!
# The cache against the source

Whatever fails, a tick whose cache write completes leaves the price it read in the cache, except
where a later entry survived a restart that rebuilt the service's memory from an older row
(`cache_follows_source_iff`).  Such an entry is left when a tick reaches the cache, its upsert is lost
and the process dies before the next one (`cache_ahead_of_memory`).
-/

namespace TickerWatch

universe u

variable {P : Type u} [DecidableEq P]

namespace World

variable {w w' : World P} {svc : PriceService P} {i : TickInput P} {id : SecurityId} {t : Ticker}
  {prices : Dict Ticker P}

/-! ## Runs of the one-ticker service -/

/-- A world before anything was stored. -/
def fresh : World ℕ := ⟨.fresh, none, .first⟩

lemma init_fresh : system.init fresh := by
  refine ⟨rfl, ⟨?_, ?_⟩, ⟨?_, ?_⟩⟩
  · exact fun id row hrow => absurd hrow (by simp [fresh, Stores.fresh])
  · exact fun t c hc => absurd hc (by simp [fresh, Stores.fresh, Redis.cached_empty])
  · exact fun id row hrow => absurd hrow (by simp [fresh, Stores.fresh])
  · exact fun t c hc => absurd hc (by simp [fresh, Stores.fresh, Redis.cached_empty])

/-- A tick of the one-ticker service that is written everywhere. -/
def writtenTick (n : Fin 1000) (price : ℕ) : WorldEvent ℕ :=
  .tick (PriceService.soloTick n price .ok .ok (.replied fun _ => false))

/-! ## The cache across restarts -/

/-- Why a cache write of the price `p` of `t` ends with `p` in the cache: the price is new, or no
entry is stamped later than the service stamps it, or the entry that is shows `p` already. -/
def CacheAdmits (svc : PriceService P) (stores : Stores P) (t : Ticker) (p : P) : Prop :=
  svc.lastPublished.get? t ≠ some p ∨
    ∀ c since, stores.redis.cached t = some c → svc.effectiveAt.get? t = some since →
      toIso since < c.effectiveAt → c.price = p

/-- What a cache write of one ticker leaves. -/
lemma cached_tick_iff (hr : Running w.stores w.clock svc) (hs : StampedUpTo w.stores w.clock)
    (hclock : w.clock < i.now) (hi : svc.Requested i) (hcache : i.cache.isOk = true) {p : P}
    (hp : (svc.inputAt i t).reading = some p) :
    ((svc.tick w.stores i).stores.redis.cached t).map CachedPrice.price = some p ↔
      CacheAdmits svc w.stores t p := by
  obtain ⟨id, hkey⟩ := hr.sound.exists_idNames t
  have hview := (PriceService.view_tick hr.sound w.stores hi hkey).1
  -- the tick offers the price to the cache under the service's stamp
  have hcached : (svc.tick w.stores i).stores.redis.cached t = TickerState.offerCached
      (w.stores.redis.cached t) ⟨id, p, toIso ((svc.view w.stores id t).stamp i.now p),
        some svc.sourceName⟩ := by
    have hstep : ((svc.view w.stores id t).step id svc.sourceName (svc.inputAt i t)).cached =
        TickerState.offerCached (svc.view w.stores id t).cached ⟨id, p,
          toIso ((svc.view w.stores id t).stamp i.now p), some svc.sourceName⟩ :=
      TickerState.step_cached hp (CacheOutcome.applies_of_isOk hcache t)
    rw [← hview] at hstep
    exact hstep
  rw [hcached]
  -- a price that was published keeps its stamp, and may lose against the entry
  by_cases hlast : svc.lastPublished.get? t = some p
  · obtain ⟨since, hsince⟩ := hr.sound.last_stamped t p hlast
    have hstamp : (svc.view w.stores id t).stamp i.now p = since := by
      have hview' : (svc.view w.stores id t).since = some since := hsince
      rw [TickerState.stamp_of_last hlast, hview', Option.getD_some]
    rw [hstamp]
    cases hcur : w.stores.redis.cached t with
    | none =>
      rw [TickerState.offerCached_none]
      simp [CacheAdmits, hcur]
    | some c =>
      by_cases hlt : toIso since < c.effectiveAt
      · -- the entry is later than the service's stamp, so the write is rejected
        have hkept : TickerState.offerCached (some c) ⟨id, p, toIso since, some svc.sourceName⟩ =
            some c := TickerState.offerCached_of_lt hlt
        rw [hkept, Option.map_some, Option.some.injEq]
        constructor
        · intro hprice
          refine Or.inr fun c' since' hc' _ _ => ?_
          rw [hcur] at hc'
          rw [← Option.some.inj hc', hprice]
        · rintro (hne | hall)
          · exact absurd hlast hne
          · exact hall c since hcur hsince hlt
      · have htaken : TickerState.offerCached (some c) ⟨id, p, toIso since, some svc.sourceName⟩ =
            some ⟨id, p, toIso since, some svc.sourceName⟩ :=
          TickerState.offerCached_of_le (not_lt.1 hlt)
        rw [htaken, Option.map_some]
        refine iff_of_true rfl (Or.inr fun c' since' hc' hsince' hlt' => ?_)
        rw [hcur] at hc'
        rw [hsince] at hsince'
        rw [← Option.some.inj hc', ← Option.some.inj hsince'] at hlt'
        exact absurd hlt' hlt
  · have hstamp : (svc.view w.stores id t).stamp i.now p = i.now := TickerState.stamp_of_ne hlast _
    rw [hstamp]
    -- a new price is stamped now, later than any entry
    have hwritten : TickerState.offerCached (w.stores.redis.cached t)
        ⟨id, p, toIso i.now, some svc.sourceName⟩ =
          some ⟨id, p, toIso i.now, some svc.sourceName⟩ := by
      refine TickerState.offerCached_takes fun c hcur => ?_
      obtain ⟨since, hle, hc⟩ := hs.cached t c hcur
      rw [hc]
      exact toIso_le_iff.2 (hle.trans hclock.le)
    rw [hwritten, Option.map_some]
    exact iff_of_true rfl (Or.inl hlast)

/-- **The cache follows the source exactly where no later entry stands in the way.**  In every
world a run reaches, through failed writes, crashes and restarts at any point, a tick whose cache
write completes leaves in the cache the price it read of every ticker, if and only if each of
these prices is new to the service, or not behind a later entry, or what that entry shows. -/
theorem cache_follows_source_iff (h : system.ReachableWhere Honest w)
    (hsvc : w.service = some svc) (hi : Honest w (.tick i)) (hcache : i.cache.isOk = true)
    (hread : svc.reading i = some prices) (hstep : w.step (.tick i) = some w') :
    (∀ t p, prices.get? t = some p →
      (w'.stores.redis.cached t).map CachedPrice.price = some p) ↔
    ∀ t p, prices.get? t = some p → CacheAdmits svc w.stores t p := by
  have hwf := wellFormed_of_reachable h
  simp only [World.step, hsvc] at hstep
  obtain rfl := Option.some.inj hstep
  have hticker : ∀ t p, prices.get? t = some p →
      (((svc.tick w.stores i).stores.redis.cached t).map CachedPrice.price = some p ↔
        CacheAdmits svc w.stores t p) := by
    intro t p hp
    refine cached_tick_iff (hwf.running svc hsvc) hwf.stamped hi.1 (hi.2 svc hsvc) hcache ?_
    rw [PriceService.inputAt, hread]
    exact hp
  constructor
  · intro hall t p hp
    exact (hticker t p hp).1 (hall t p hp)
  · intro hall t p hp
    exact (hticker t p hp).2 (hall t p hp)

/-- The first tick of the one-ticker service leaves its price in the cache. -/
theorem cache_follows_first_tick : ∃ (w w' : World ℕ) (svc : PriceService ℕ),
    system.execWhere Honest fresh [.start PriceService.soloSettings PriceService.soloRead] =
      some w ∧
    w.service = some svc ∧ w.step (writtenTick 1 101) = some w' ∧
    ∀ t p, (PriceService.soloPrices 101).get? t = some p →
      (w'.stores.redis.cached t).map CachedPrice.price = some p := by
  have hok : Honest fresh (.start PriceService.soloSettings PriceService.soloRead) := trivial
  have hfirst : World.step fresh (.start PriceService.soloSettings PriceService.soloRead) =
      some ⟨PriceService.soloStores, some PriceService.soloService, fresh.clock⟩ := by
    have hsolo := PriceService.start_solo
    rw [World.step]
    dsimp only [fresh]
    rw [hsolo]
  have hstart : system.execWhere Honest fresh
      [.start PriceService.soloSettings PriceService.soloRead] =
      some ⟨PriceService.soloStores, some PriceService.soloService, fresh.clock⟩ := by
    rw [System.execWhere, List.foldlM_cons, if_pos hok]
    exact congrArg (fun o => o.bind fun s => some s) hfirst
  refine ⟨_, _, _, hstart, rfl, rfl, ?_⟩
  refine (cache_follows_source_iff ⟨fresh, init_fresh, System.runWhere_of_execWhere hstart⟩ rfl
    (i := PriceService.soloTick 1 101 .ok .ok (.replied fun _ => false)) ?_ rfl ?_ rfl).2 ?_
  · refine ⟨by decide, fun svc hsvc => ?_⟩
    obtain rfl := Option.some.inj hsvc
    exact PriceService.requested_soloTick _ _ _ _ _
  · decide +kernel
  · intro t p _
    refine Or.inr fun c since hc => ?_
    have hnone : PriceService.soloStores.redis = .empty := by decide +kernel
    rw [hnone] at hc
    exact absurd hc (by simp [Redis.cached_empty])

/-- A run that leaves the cache ahead of the table: the second tick writes 102 to the cache, its
upsert is lost and the process dies; the service starts again. -/
def aheadRun : List (WorldEvent ℕ) :=
  [.start PriceService.soloSettings PriceService.soloRead, writtenTick 1 101,
    .crashTick (PriceService.soloTick 2 102 .ok (.error false) (.replied fun _ => false)),
    .start PriceService.soloSettings PriceService.soloRead]

/-- The next tick finds the source back at 101. -/
def backTick : TickInput ℕ := PriceService.soloTick 3 101 .ok .ok (.replied fun _ => false)

/-- **A cache entry can stay ahead of the source.**  After `aheadRun` a tick reads 101 and writes
the cache without error, and the cache still holds 102. -/
theorem cache_ahead_of_memory : ∃ (w w' : World ℕ) (svc : PriceService ℕ) (prices : Dict Ticker ℕ),
    system.execWhere Honest fresh aheadRun = some w ∧ w.service = some svc ∧
    Honest w (.tick backTick) ∧ backTick.cache.isOk = true ∧
    svc.reading backTick = some prices ∧ prices.get? "AAPL" = some 101 ∧
    w.step (.tick backTick) = some w' ∧
    (w'.stores.redis.cached "AAPL").map CachedPrice.price = some 102 := by
  have hrun : ((system.execWhere Honest fresh aheadRun).bind fun w => w.service.bind fun svc =>
      (svc.reading backTick).bind fun prices => (w.step (.tick backTick)).map fun w' =>
        (decide (Honest w (.tick backTick)), prices.get? "AAPL",
          (w'.stores.redis.cached "AAPL").map CachedPrice.price)) =
      some (true, some 101, some 102) := by
    decide +kernel
  obtain ⟨w, hw, hrun⟩ := Option.bind_eq_some_iff.1 hrun
  obtain ⟨svc, hsvc, hrun⟩ := Option.bind_eq_some_iff.1 hrun
  obtain ⟨prices, hprices, hrun⟩ := Option.bind_eq_some_iff.1 hrun
  obtain ⟨w', hw', hrun⟩ := Option.map_eq_some_iff.1 hrun
  simp only [Prod.mk.injEq, decide_eq_true_eq] at hrun
  obtain ⟨hhonest, hread, hcached⟩ := hrun
  exact ⟨w, w', svc, prices, hw, hsvc, hhonest, rfl, hprices, hread, hw', hcached⟩

end World
end TickerWatch
