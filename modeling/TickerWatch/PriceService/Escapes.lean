import TickerWatch.PriceService.World

/-!
# Exceptions that leave a tick

Each of the three writes of a tick catches the errors of its own client and counts them.  Any other
exception leaves the tick through `gather`, and `run_forever` catches it: the prices have been
stamped, the writes may have been done, in whole or in part, and `_last_published` is what it was
before the tick.

`tickWith` is the tick with such exceptions, `tick` the one without.  What it leaves in the stores is
what the tick leaves there (`tickWith_eq`), so what holds of the stores after every tick holds after
these.
-/

namespace TickerWatch

universe u

/-- Which of the three writes an exception leaves that the write does not catch.  `_write_cache`,
`_write_postgres` and `_publish` each catch the errors of their store or transport only, and
`gather` passes on what is left. -/
structure Escapes where
  cache : Bool
  postgres : Bool
  publish : Bool
  deriving DecidableEq, Repr

/-- No exception. -/
def Escapes.none : Escapes := ⟨false, false, false⟩

/-- A write that an exception leaves: its store has what was done, its counters are not reached. -/
def Written.escape {α : Type u} (w : Written α) (escapes : Bool) : Written α :=
  if escapes then ⟨w.store, id, true⟩ else w

@[simp] lemma Written.store_escape {α : Type u} (w : Written α) (escapes : Bool) :
    (w.escape escapes).store = w.store := by
  cases escapes <;> rfl

@[simp] lemma Written.raised_escape {α : Type u} (w : Written α) (escapes : Bool) :
    (w.escape escapes).raised = (w.raised || escapes) := by
  cases escapes with
  | false => exact (Bool.or_false _).symm
  | true => exact (Bool.or_true _).symm

@[simp] lemma Written.escape_false {α : Type u} (w : Written α) : w.escape false = w := rfl

namespace PriceService

variable {P : Type u} [DecidableEq P]

/-- The part of `tick` after a read that returned prices, with exceptions.  `_write_postgres` and
`_publish` return before anything can raise when they have nothing to do. -/
def applyPricesWith (escapes : Escapes) (svc : PriceService P) (stores : Stores P)
    (i : TickInput P) (prices : Dict Ticker P) : TickResult P :=
  let changed := svc.changedPrices prices
  let svc := svc.restamp prices i.now
  let cache := (svc.writeCache prices i.cache stores.redis).escape escapes.cache
  let postgres := (svc.writePostgres changed i.postgres stores.latestPrices).escape
    (escapes.postgres && !changed.entries.isEmpty)
  let published := (svc.publish changed i.publish).escape
    (escapes.publish && svc.settings.transport = .push && !changed.entries.isEmpty)
  let svc := { svc with stats := published.count (postgres.count (cache.count svc.stats)) }
  let stores := { stores with redis := cache.store, latestPrices := postgres.store }
  if cache.raised || postgres.raised || published.raised then
    ⟨svc, stores, published.store, .raised⟩
  else
    ⟨{ svc with lastPublished := svc.lastPublished.update prices }, stores, published.store,
      .completed⟩

/-- `tick`, with exceptions. -/
def tickWith (escapes : Escapes) (svc : PriceService P) (stores : Stores P) (i : TickInput P) :
    TickResult P :=
  match { svc with stats.ticks := svc.stats.ticks + 1 }.currentPrices i.monotonic i.fetch with
  | (svc, none) => ⟨svc, stores, [], .raised⟩
  | (svc, some prices) =>
    if prices.entries.isEmpty then ⟨svc, stores, [], .idle⟩
    else svc.applyPricesWith escapes stores i prices

variable {svc : PriceService P} {stores : Stores P} {i : TickInput P} {prices : Dict Ticker P}
  {escapes : Escapes}

/-- Without exceptions it is the tick. -/
theorem tickWith_none (svc : PriceService P) (stores : Stores P) (i : TickInput P) :
    svc.tickWith .none stores i = svc.tick stores i := rfl

/-- What the exceptions decide: the counters, how the tick ends, and with that whether the prices
count as published. -/
lemma applyPricesWith_eq (escapes : Escapes) (svc : PriceService P) (stores : Stores P)
    (i : TickInput P) (prices : Dict Ticker P) : ∃ stats status,
    svc.applyPricesWith escapes stores i prices =
      ⟨{ (svc.applyPrices stores i prices).service with
          lastPublished := if status = .raised then svc.lastPublished
            else (svc.applyPrices stores i prices).service.lastPublished
          stats := stats },
        (svc.applyPrices stores i prices).stores, (svc.applyPrices stores i prices).delivered,
        status⟩ := by
  unfold applyPricesWith applyPrices
  simp only [Written.store_escape, Written.raised_escape]
  by_cases hraised : (((svc.restamp prices i.now).writeCache prices i.cache stores.redis).raised ||
      ((svc.restamp prices i.now).writePostgres (svc.changedPrices prices) i.postgres
        stores.latestPrices).raised ||
      ((svc.restamp prices i.now).publish (svc.changedPrices prices) i.publish).raised) = true
  · rw [if_pos hraised, if_pos]
    · exact ⟨_, .raised, rfl⟩
    · simp only [Bool.or_eq_true] at hraised ⊢
      tauto
  · rw [if_neg hraised]
    split
    · exact ⟨_, .raised, rfl⟩
    · exact ⟨_, .completed, rfl⟩

/-- **A tick that an exception leaves has done what the tick does**, but its prices do not count as
published. -/
theorem tickWith_eq (escapes : Escapes) (svc : PriceService P) (stores : Stores P)
    (i : TickInput P) : ∃ stats status,
    svc.tickWith escapes stores i =
      ⟨{ (svc.tick stores i).service with
          lastPublished := if status = .raised then svc.lastPublished
            else (svc.tick stores i).service.lastPublished
          stats := stats },
        (svc.tick stores i).stores, (svc.tick stores i).delivered, status⟩ := by
  obtain ⟨upstream, fetchedAt, stats, hsvc, -, -⟩ :=
    currentPrices_cases { svc with stats.ticks := svc.stats.ticks + 1 } i
  unfold tickWith tick
  generalize { svc with stats.ticks := svc.stats.ticks + 1 }.currentPrices i.monotonic i.fetch = out
    at hsvc
  obtain ⟨svc', read⟩ := out
  dsimp only at hsvc
  subst hsvc
  cases read with
  | none => exact ⟨_, .raised, rfl⟩
  | some prices =>
    dsimp only
    split
    · exact ⟨_, .idle, rfl⟩
    · exact applyPricesWith_eq escapes _ stores i prices

/-- What a tick with exceptions leaves in the stores, has delivered and remembers of stamps is what
the tick leaves; it remembers as published what it did before when it raises. -/
lemma tickWith_cases (escapes : Escapes) (svc : PriceService P) (stores : Stores P)
    (i : TickInput P) :
    (svc.tickWith escapes stores i).stores = (svc.tick stores i).stores ∧
    (svc.tickWith escapes stores i).delivered = (svc.tick stores i).delivered ∧
    (svc.tickWith escapes stores i).service.settings = (svc.tick stores i).service.settings ∧
    (svc.tickWith escapes stores i).service.tickerToId = (svc.tick stores i).service.tickerToId ∧
    (svc.tickWith escapes stores i).service.upstreamPrices =
      (svc.tick stores i).service.upstreamPrices ∧
    (svc.tickWith escapes stores i).service.effectiveAt = (svc.tick stores i).service.effectiveAt ∧
    (svc.tickWith escapes stores i).service.lastPublished =
      if (svc.tickWith escapes stores i).status = .raised then svc.lastPublished
      else (svc.tick stores i).service.lastPublished := by
  obtain ⟨stats, status, heq⟩ := tickWith_eq escapes svc stores i
  rw [heq]
  exact ⟨rfl, rfl, rfl, rfl, rfl, rfl, rfl⟩

/-- At every ticker it is a step that may leave the published price as it was. -/
theorem view_tickWith (hs : svc.Sound) (stores : Stores P) (hi : svc.Requested i)
    {id : SecurityId} {t : Ticker} (hkey : svc.IdNames id t) (escapes : Escapes) :
    (svc.tickWith escapes stores i).service.view (svc.tickWith escapes stores i).stores id t =
      { (svc.view stores id t).step id svc.sourceName (svc.inputAt i t) with
        last := if (svc.tickWith escapes stores i).status = .raised then svc.lastPublished.get? t
          else ((svc.view stores id t).step id svc.sourceName (svc.inputAt i t)).last } := by
  obtain ⟨hstores, -, -, -, -, hsince, hlast⟩ := tickWith_cases escapes svc stores i
  rw [← (view_tick hs stores hi hkey).1, view, hstores, hsince, hlast]
  ext1
  · dsimp only [view]
    split <;> rfl
  · rfl
  · rfl
  · rfl

end PriceService

/-! ## Worlds in which exceptions leave ticks -/

/-- What can happen to a world, a tick that an exception may leave included. -/
inductive FaultEvent (P : Type u)
  | event (e : WorldEvent P)
  | tickWith (i : TickInput P) (escapes : Escapes)

namespace World

variable {P : Type u} [DecidableEq P]

/-- One event. -/
def faultStep (w : World P) : FaultEvent P → Option (World P)
  | .event e => w.step e
  | .tickWith i escapes =>
    match w.service with
    | none => none
    | some svc =>
      let out := svc.tickWith escapes w.stores i
      some { stores := out.stores, service := some out.service, clock := i.now }

/-- The tick an event contains. -/
def tickOf (e : FaultEvent P) : Option (TickInput P) :=
  match e with
  | .event (.tick i) | .event (.crashTick i) | .tickWith i _ => some i
  | .event (.start ..) | .event (.cutStart ..) | .event .stop | .event (.expire _) => none

/-- The clock does not go back and the source returns only tickers it was asked for. -/
def FaultSteady (w : World P) (e : FaultEvent P) : Prop :=
  ∀ i ∈ tickOf e, w.clock ≤ i.now ∧ ∀ svc ∈ w.service, svc.Requested i

/-- The clock strictly increases and the source returns only tickers it was asked for. -/
def FaultHonest (w : World P) (e : FaultEvent P) : Prop :=
  ∀ i ∈ tickOf e, w.clock < i.now ∧ ∀ svc ∈ w.service, svc.Requested i

instance (w : World P) (e : FaultEvent P) : Decidable (FaultSteady w e) :=
  inferInstanceAs (Decidable (∀ i ∈ tickOf e, w.clock ≤ i.now ∧ ∀ svc ∈ w.service, svc.Requested i))

instance (w : World P) (e : FaultEvent P) : Decidable (FaultHonest w e) :=
  inferInstanceAs (Decidable (∀ i ∈ tickOf e, w.clock < i.now ∧ ∀ svc ∈ w.service, svc.Requested i))

/-- The system of the worlds in which exceptions leave ticks. -/
def faultSystem : System (World P) (FaultEvent P) where
  init := system.init
  step := faultStep

variable {w w' : World P} {stores : Stores P} {clock : Instant} {svc : PriceService P}
  {i : TickInput P} {e : FaultEvent P}

omit [DecidableEq P] in
lemma FaultHonest.steady (h : FaultHonest w e) : FaultSteady w e :=
  fun i hi => ⟨(h i hi).1.le, (h i hi).2⟩

omit [DecidableEq P] in
lemma FaultSteady.event {e : WorldEvent P} (h : FaultSteady w (.event e)) : Steady w e := by
  cases e with
  | tick i => exact h i rfl
  | crashTick i => exact h i rfl
  | start settings read => exact trivial
  | cutStart settings read cut => exact trivial
  | stop => exact trivial
  | expire key => exact trivial

/-- What an event that contains a tick does: the stores are as the tick leaves them, however it ends,
and a service that is still running is one that some exceptions left. -/
lemma tickOf_cases (hstep : w.faultStep e = some w') (hi : i ∈ tickOf e) :
    ∃ svc, w.service = some svc ∧ w'.stores = (svc.tick w.stores i).stores ∧ w'.clock = i.now ∧
      (w'.service = none ∨
        ∃ escapes, w'.service = some (svc.tickWith escapes w.stores i).service) := by
  cases hsvc : w.service with
  -- nothing ticks without a service
  | none =>
    cases e with
    | tickWith j escapes => simp [World.faultStep, hsvc] at hstep
    | event e => cases e <;> simp [World.faultStep, World.step, hsvc, tickOf] at hstep hi
  | some svc =>
    refine ⟨svc, rfl, ?_⟩
    cases e with
    | tickWith j escapes =>
      obtain rfl : j = i := Option.some.inj hi
      simp only [World.faultStep, hsvc] at hstep
      rw [← Option.some.inj hstep]
      -- an exception leaves the stores as the three writes made them
      exact ⟨(PriceService.tickWith_cases escapes svc w.stores j).1, rfl, Or.inr ⟨escapes, rfl⟩⟩
    | event e =>
      cases e with
      | tick j =>
        obtain rfl : j = i := Option.some.inj hi
        simp only [World.faultStep, World.step, hsvc] at hstep
        rw [← Option.some.inj hstep]
        exact ⟨rfl, rfl, Or.inr ⟨.none, rfl⟩⟩
      | crashTick j =>
        obtain rfl : j = i := Option.some.inj hi
        simp only [World.faultStep, World.step, hsvc] at hstep
        rw [← Option.some.inj hstep]
        -- the process dies after the writes
        exact ⟨rfl, rfl, Or.inl rfl⟩
      | start settings read => exact absurd hi (by simp [tickOf])
      | cutStart settings read cut => exact absurd hi (by simp [tickOf])
      | stop => exact absurd hi (by simp [tickOf])
      | expire key => exact absurd hi (by simp [tickOf])

/-- A service that an exception left in a tick fits the stores as one whose tick completed. -/
lemma running_tickWith (hr : Running stores clock svc) (hs : StampedUpTo stores clock)
    (hclock : clock ≤ i.now) (hi : svc.Requested i) (escapes : Escapes) :
    Running (svc.tickWith escapes stores i).stores i.now
      (svc.tickWith escapes stores i).service := by
  -- only `lastPublished` differs from what the tick would have left
  have htick := running_tick hr hs hclock hi
  obtain ⟨hstores, -, -, hids, hupstream, hsince, hlast⟩ :=
    PriceService.tickWith_cases escapes svc stores i
  rw [hstores]
  refine ⟨⟨?_, ?_, ?_⟩, ?_, ?_⟩
  · rw [hids]
    exact htick.sound.ids_injective
  · rw [hids, hupstream]
    exact htick.sound.upstream_requested
  · intro t p hp
    rw [hsince]
    rw [hlast] at hp
    split at hp
    · -- what was stamped before the tick is stamped after it
      obtain ⟨id, hkey⟩ := hr.sound.exists_idNames t
      obtain ⟨since, hstamp⟩ := hr.sound.last_stamped t p hp
      have hview := congrArg TickerState.since (PriceService.view_tick hr.sound stores hi hkey).1
      have hstamped := TickerState.step_since_isSome (s := svc.view stores id t) id svc.sourceName
        (svc.inputAt i t) hstamp
      rw [← hview] at hstamped
      exact hstamped
    · exact htick.sound.last_stamped t p hp
  · rw [hids]
    exact htick.lists
  · rw [hsince]
    exact htick.since

/-- **Every event keeps a world well formed**, whichever exception leaves it. -/
theorem WellFormed.faultStep (h : w.WellFormed) (he : FaultSteady w e)
    (hstep : w.faultStep e = some w') : w'.WellFormed := by
  cases htick : tickOf e with
  | some i =>
    obtain ⟨svc, hsvc, hstores, hnow, hservice⟩ := tickOf_cases hstep htick
    obtain ⟨hclock, hreq⟩ := he i htick
    have hr := h.running svc hsvc
    have hi := hreq svc hsvc
    refine ⟨?_, ?_, fun svc' hsvc' => ?_⟩
    · rw [hstores]
      exact listed_tick hr hi h.listed
    · rw [hstores, hnow]
      exact stamped_tick hr h.stamped hclock hi
    · rcases hservice with hnone | ⟨escapes, hsome⟩
      · rw [hnone] at hsvc'
        exact absurd hsvc' (by simp)
      · obtain rfl := Option.some.inj (hsome.symm.trans hsvc')
        rw [hstores, hnow, ← (PriceService.tickWith_cases escapes svc w.stores i).1]
        exact running_tickWith hr h.stamped hclock hi escapes
  | none =>
    cases e with
    | event e => exact h.step he.event hstep
    | tickWith i escapes => exact absurd htick (by simp [tickOf])

end World
end TickerWatch
