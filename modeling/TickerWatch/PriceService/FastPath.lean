import TickerWatch.PriceService.CacheCoherence
import TickerWatch.PriceService.Escapes

/-!
# The fast path and the fallback

The chain is table, memory, cache: no row is stamped later than the running service remembers, and
a cache write that goes through leaves no entry stamped earlier than that.  The first half is an
invariant (`levels_of_reachable`), whatever writes are lost and wherever the process dies; the
second is one tick.
-/

namespace TickerWatch

universe u

variable {P : Type u} [DecidableEq P]

namespace TickerState

/-- The row is stamped no later than what the service remembers. -/
def Level (s : TickerState P) : Prop :=
  ∀ row, s.row = some row → ∃ since, s.since = some since ∧ row.effectiveAt ≤ since

variable {s : TickerState P} {x : TickerInput P} {id : SecurityId} {source : String}

omit [DecidableEq P] in
lemma level_started (id : SecurityId) (row : Option (LatestPrice P))
    (cached : Option (CachedPrice P)) : (started id row cached).Level := by
  rintro r rfl
  exact ⟨r.effectiveAt, rfl, le_rfl⟩

/-- A tick writes no row that it does not remember the stamp of. -/
lemma Level.step (h : s.Level) (hup : s.UpTo x.now) (id : SecurityId) (source : String) :
    (s.step id source x).Level := by
  intro row hrow
  cases hx : x.reading with
  | none =>
    rw [step_none hx] at hrow ⊢
    exact h row hrow
  | some p =>
    refine ⟨_, step_since hx, ?_⟩
    by_cases hlast : s.last = some p
    · rw [step_row_of_last hx hlast] at hrow
      obtain ⟨since, hsince, hle⟩ := h row hrow
      rw [stamp_of_last hlast, hsince]
      exact hle
    · rw [stamp_of_ne hlast]
      rcases step_row_cases hrow with hold | ⟨q, -, -, rfl⟩
      · exact hup.row row hold
      · exact le_rfl

/-- A cache write that goes through leaves no entry behind the row. -/
lemma Level.cached_step (h : s.Level) (hup : s.UpTo x.now) (id : SecurityId) (source : String)
    {p : P} (hx : x.reading = some p) (hw : x.cacheWritten = true) :
    ∃ c, (s.step id source x).cached = some c ∧
      ∀ row, (s.step id source x).row = some row → toIso row.effectiveAt ≤ c.effectiveAt := by
  obtain ⟨c, hc, hle⟩ := le_offerCached s.cached ⟨id, p, toIso (s.stamp x.now p), some source⟩
  refine ⟨c, (step_cached hx hw).trans hc, fun row hrow => ?_⟩
  obtain ⟨since, hsince, hrowLe⟩ := h.step hup id source row hrow
  rw [step_since hx] at hsince
  obtain rfl := Option.some.inj hsince
  exact (toIso_le_iff.2 hrowLe).trans hle

end TickerState

namespace World

variable {w w' : World P} {e : FaultEvent P} {i : TickInput P} {svc : PriceService P}

/-- No row of a listed security is stamped later than the running service remembers. -/
def Levels (w : World P) : Prop :=
  ∀ svc, w.service = some svc → ∀ id t, w.stores.securities.Lists id t →
    (svc.view w.stores id t).Level

omit [DecidableEq P] in
lemma levels_of_stopped (h : w.service = none) : w.Levels := by
  intro svc hsvc
  rw [h] at hsvc
  exact absurd hsvc (by simp)

lemma level_tickWith (h : w.WellFormed) (hlevel : w.Levels) (hsvc : w.service = some svc)
    (hclock : w.clock ≤ i.now) (hi : svc.Requested i) (escapes : Escapes) {id : SecurityId}
    {t : Ticker} (hl : w.stores.securities.Lists id t) :
    ((svc.tickWith escapes w.stores i).service.view (svc.tickWith escapes w.stores i).stores id
      t).Level := by
  have hr := h.running svc hsvc
  rw [PriceService.view_tickWith hr.sound w.stores hi (hr.idNames hl)]
  exact (hlevel svc hsvc id t hl).step ((hr.view_upTo h.stamped id t).mono hclock) _ _

/-- **The memory is never behind the table**: every event keeps it so. -/
lemma Levels.faultStep (h : w.WellFormed) (hlevel : w.Levels) (he : FaultSteady w e)
    (hstep : w.faultStep e = some w') : w'.Levels := by
  cases htick : tickOf e with
  | some i =>
    obtain ⟨svc, hsvc, hstores, -, hservice⟩ := tickOf_cases hstep htick
    obtain ⟨hclock, hreq⟩ := he i htick
    intro svc' hsvc' id t hl
    rw [hstores, (PriceService.tick_service (h.running svc hsvc).sound w.stores
      (hreq svc hsvc)).2.2.1] at hl
    rcases hservice with hnone | ⟨escapes, hsome⟩
    · rw [hnone] at hsvc'
      exact absurd hsvc' (by simp)
    · obtain rfl := Option.some.inj (hsome.symm.trans hsvc')
      rw [hstores, ← (PriceService.tickWith_cases escapes svc w.stores i).1]
      exact level_tickWith h hlevel hsvc hclock (hreq svc hsvc) escapes hl
  | none =>
    cases e with
    | tickWith i escapes => exact absurd htick (by simp [tickOf])
    | event e =>
      cases e with
      | tick i => exact absurd htick (by simp [tickOf])
      | crashTick i => exact absurd htick (by simp [tickOf])
      | start settings read =>
        obtain rfl := Option.some.inj hstep
        intro svc hsvc id t hl
        rw [PriceService.view_start (Prod.ext rfl hsvc) hl]
        exact TickerState.level_started _ _ _
      | cutStart settings read cut =>
        obtain rfl := Option.some.inj hstep
        exact levels_of_stopped rfl
      | stop =>
        obtain rfl := Option.some.inj hstep
        exact levels_of_stopped rfl
      | expire key =>
        obtain rfl := Option.some.inj hstep
        exact hlevel

/-- Every world a run reaches is well formed, and the memory of its service is not behind its
table. -/
theorem levels_of_reachable (h : faultSystem.ReachableWhere FaultSteady w) :
    w.WellFormed ∧ w.Levels := by
  apply h.invariant (I := fun w => w.WellFormed ∧ w.Levels)
  · rintro w ⟨hstopped, hlisted, hstamped⟩
    exact ⟨wellFormed_of_stopped hstopped hlisted hstamped, levels_of_stopped hstopped⟩
  · rintro w e w' he ⟨hw, hlevel⟩ hstep
    exact ⟨hw.faultStep he hstep, hlevel.faultStep hw he hstep⟩

/-- **The fast path is never staler than the fallback.**  After any tick whose cache write completed
without error, whatever became of its other writes and whether or not the process survived it,
every ticker that was priced is cached under a stamp no earlier than that of its row. -/
theorem row_le_cached (h : faultSystem.ReachableWhere FaultSteady w) (he : FaultSteady w e)
    (hstep : w.faultStep e = some w') (hi : i ∈ tickOf e) (hok : i.cache.isOk = true)
    (hsvc : w.service = some svc) {prices : Dict Ticker P} (hread : svc.reading i = some prices)
    {t : Ticker} (ht : t ∈ prices.keys) :
    ∃ c, w'.stores.redis.cached t = some c ∧ ∀ id row, w'.stores.securities.Lists id t →
      Dict.get? w'.stores.latestPrices id = some row → toIso row.effectiveAt ≤ c.effectiveAt := by
  obtain ⟨hw, hlevel⟩ := levels_of_reachable h
  obtain ⟨hclock, hreq⟩ := he i hi
  have hr := hw.running svc hsvc
  obtain ⟨svc', hsvc', hstores, -⟩ := tickOf_cases hstep hi
  rw [Option.some.inj (hsvc'.symm.trans hsvc)] at hstores
  obtain ⟨p, hp⟩ := Dict.mem_keys_iff.1 ht
  have hx : (svc.inputAt i t).reading = some p := by
    rw [PriceService.inputAt, hread]
    exact hp
  obtain ⟨id, hid⟩ := Dict.mem_keys_iff.1 (mem_keys_of_reading hr.sound (hreq svc hsvc) hx)
  have hl := hr.lists t id hid
  have hview := (PriceService.view_tick hr.sound w.stores (hreq svc hsvc) (hr.idNames hl)).1
  obtain ⟨c, hc, hrows⟩ := (hlevel svc hsvc id t hl).cached_step
    ((hr.view_upTo hw.stamped id t).mono hclock) id svc.sourceName hx
    (CacheOutcome.applies_of_isOk hok t)
  rw [← hview] at hc hrows
  have hsecurities := (PriceService.tick_service hr.sound w.stores (hreq svc hsvc)).2.2.1
  rw [hstores, hsecurities]
  refine ⟨c, hc, fun id' row hl' hrow => hrows row ?_⟩
  rw [hl'.id_unique hl] at hrow
  exact hrow

/-- After a crash between the cache write and the upsert the cache is ahead of the memory that the
restart reloads, and a tick that reads the older price leaves it ahead. -/
theorem row_le_cached_ahead : ∃ (w w' : World ℕ) (c : CachedPrice ℕ),
    faultSystem.execWhere FaultSteady fresh (aheadRun.map .event) = some w ∧
    w.faultStep (.tickWith backTick .none) = some w' ∧
    w'.stores.redis.cached "AAPL" = some c ∧ ∀ id row, w'.stores.securities.Lists id "AAPL" →
      Dict.get? w'.stores.latestPrices id = some row → toIso row.effectiveAt ≤ c.effectiveAt := by
  have hrun : ((faultSystem.execWhere FaultSteady fresh (aheadRun.map .event)).bind fun w =>
      w.service.bind fun svc => (svc.reading backTick).bind fun prices =>
        (w.faultStep (.tickWith backTick .none)).map fun _ =>
          (decide (FaultSteady w (.tickWith backTick .none)), decide ("AAPL" ∈ prices.keys))) =
      some (true, true) := by
    decide +kernel
  obtain ⟨w, hw, hrun⟩ := Option.bind_eq_some_iff.1 hrun
  obtain ⟨svc, hsvc, hrun⟩ := Option.bind_eq_some_iff.1 hrun
  obtain ⟨prices, hprices, hrun⟩ := Option.bind_eq_some_iff.1 hrun
  obtain ⟨w', hw', hrun⟩ := Option.map_eq_some_iff.1 hrun
  simp only [Prod.mk.injEq, decide_eq_true_eq] at hrun
  obtain ⟨c, hc, hrows⟩ := row_le_cached ⟨fresh, init_fresh, System.runWhere_of_execWhere hw⟩
    hrun.1 hw' rfl rfl hsvc hprices hrun.2
  exact ⟨w, w', c, hw, hw', hc, hrows⟩

end World
end TickerWatch
