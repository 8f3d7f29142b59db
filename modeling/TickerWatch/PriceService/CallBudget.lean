import TickerWatch.PriceService.Lifetime
import TickerWatch.PriceService.Escapes

/-!
# The vendor call budget

`_current_prices` calls the source when `upstream_poll_interval_seconds` have passed since
`_last_upstream_fetch`, and also when it holds no prices.  `_last_upstream_fetch` is set by the calls
that return; a call that fails leaves it where it was, and a call that returns no prices leaves
nothing to serve.  After either one the next tick calls again, whenever it comes.

The calls are recorded beside the service, which reads nothing of the record.
-/

namespace TickerWatch

universe u

/-- One call of `source.fetch`: when, and whether it brought prices. -/
structure UpstreamCall where
  time : ℚ
  usable : Bool
  deriving DecidableEq, Repr

/-- The call brought prices: it returned, and not an empty read. -/
def FetchOutcome.usable {P : Type u} : FetchOutcome P → Bool
  | .returned prices => !prices.entries.isEmpty
  | .raised _ => false

namespace PriceService

variable {P : Type u}

/-- The test of `_current_prices`: this tick calls the source. -/
def callsUpstream (svc : PriceService P) (now : ℚ) : Bool :=
  decide (svc.settings.upstreamPollIntervalSeconds ≤ now - svc.lastUpstreamFetch) ||
    svc.upstreamPrices.entries.isEmpty

variable {svc : PriceService P} {stores : Stores P} {i : TickInput P} {now : ℚ}

/-- A read that does not call the source serves the previous one. -/
lemma currentPrices_of_serves (h : svc.callsUpstream now = false) (fetch : FetchOutcome P) :
    svc.currentPrices now fetch = (svc, some svc.upstreamPrices) := by
  obtain ⟨hdue, hheld⟩ := Bool.or_eq_false_iff.1 h
  unfold currentPrices
  dsimp only
  rw [hdue, hheld]
  rfl

lemma not_serves_of_calls (h : svc.callsUpstream now = true) :
    (!decide (svc.settings.upstreamPollIntervalSeconds ≤ now - svc.lastUpstreamFetch) &&
      !svc.upstreamPrices.entries.isEmpty) = false := by
  rw [← Bool.not_or]
  exact congrArg not h

/-- What a call leaves: the time and the prices of one that returned, else what was there. -/
lemma currentPrices_of_calls (h : svc.callsUpstream now = true) (fetch : FetchOutcome P) :
    (svc.currentPrices now fetch).1.settings = svc.settings ∧
    (fetch.usable = true → (svc.currentPrices now fetch).1.lastUpstreamFetch = now ∧
      (svc.currentPrices now fetch).1.upstreamPrices.entries.isEmpty = false) ∧
    (fetch.usable = false →
      (svc.currentPrices now fetch).1.upstreamPrices.entries.isEmpty = true ∨
      (svc.currentPrices now fetch).1.lastUpstreamFetch = svc.lastUpstreamFetch ∧
        (svc.currentPrices now fetch).1.upstreamPrices = svc.upstreamPrices) := by
  unfold currentPrices
  dsimp only
  rw [not_serves_of_calls h]
  cases fetch with
  | returned prices =>
    refine ⟨rfl, fun husable => ⟨rfl, ?_⟩, fun husable => Or.inl ?_⟩
    · show prices.entries.isEmpty = false
      simpa [FetchOutcome.usable] using husable
    · show prices.entries.isEmpty = true
      simpa [FetchOutcome.usable] using husable
  | raised caught =>
    refine ⟨?_, fun husable => absurd husable (by simp [FetchOutcome.usable]), fun _ => Or.inr ?_⟩
    · cases caught <;> rfl
    · cases caught <;> exact ⟨rfl, rfl⟩

variable [DecidableEq P]

/-- Past the read, a tick leaves what the read left. -/
lemma tickWith_read (escapes : Escapes) (svc : PriceService P) (stores : Stores P)
    (i : TickInput P) :
    let read := { svc with stats.ticks := svc.stats.ticks + 1 }.currentPrices i.monotonic i.fetch
    (svc.tickWith escapes stores i).service.settings = read.1.settings ∧
    (svc.tickWith escapes stores i).service.tickerToId = read.1.tickerToId ∧
    (svc.tickWith escapes stores i).service.lastUpstreamFetch = read.1.lastUpstreamFetch ∧
    (svc.tickWith escapes stores i).service.upstreamPrices = read.1.upstreamPrices := by
  dsimp only
  unfold tickWith
  generalize { svc with stats.ticks := svc.stats.ticks + 1 }.currentPrices i.monotonic i.fetch =
    read
  obtain ⟨svc', prices⟩ := read
  cases prices with
  | none => exact ⟨rfl, rfl, rfl, rfl⟩
  | some prices =>
    dsimp only
    split
    · exact ⟨rfl, rfl, rfl, rfl⟩
    · unfold applyPricesWith
      dsimp only
      split <;> exact ⟨rfl, rfl, rfl, rfl⟩

omit [DecidableEq P] in
lemma start_upstream {settings : Settings} {before : Stores P} {read : CatalogRead}
    (h : start settings before read = (stores, some svc)) : svc.upstreamPrices = .empty := by
  obtain ⟨ids, stats, -, hsvc, -⟩ := start_eq_some h
  rw [hsvc]
  exact (warm_service _ _ _).2.2

end PriceService

/-! ## The record of calls -/

/-- A service at work, the last reading of its monotonic clock, and its calls, latest first. -/
structure Metered (P : Type u) where
  service : PriceService P
  stores : Stores P
  clock : ℚ
  calls : List UpstreamCall

namespace Metered

variable {P : Type u} [DecidableEq P]

/-- One tick, whatever it reads, whatever becomes of its writes and whichever exception leaves it.
The clock is monotonic. -/
def step (m : Metered P) (e : TickInput P × Escapes) : Option (Metered P) :=
  if m.clock ≤ e.1.monotonic then
    let out := m.service.tickWith e.2 m.stores e.1
    some { service := out.service, stores := out.stores, clock := e.1.monotonic,
           calls := if m.service.callsUpstream e.1.monotonic then
               ⟨e.1.monotonic, e.1.fetch.usable⟩ :: m.calls
             else m.calls }
  else none

/-- The ticks of a service from its start on. -/
def system : System (Metered P) (TickInput P × Escapes) where
  init m := (∃ settings stores read,
    PriceService.start settings stores read = (m.stores, some m.service)) ∧ m.calls = []
  step := step

/-- `settings.upstream_poll_interval_seconds`. -/
def interval (m : Metered P) : ℚ := m.service.settings.upstreamPollIntervalSeconds

/-- Every two consecutive calls are an interval apart. -/
def WithinBudget (m : Metered P) : Prop :=
  m.calls.IsChain fun later earlier => m.interval ≤ later.time - earlier.time

/-- The tick does not come within an interval of a last call that failed or brought no prices. -/
def WaitsAfterUnusable (m : Metered P) (e : TickInput P × Escapes) : Prop :=
  ∀ c ∈ m.calls.head?, c.usable = false → m.interval ≤ e.1.monotonic - c.time

instance (m : Metered P) (e : TickInput P × Escapes) : Decidable (m.WaitsAfterUnusable e) :=
  inferInstanceAs (Decidable (∀ c ∈ m.calls.head?, _))

instance (m : Metered P) : Decidable m.WithinBudget :=
  inferInstanceAs (Decidable (List.IsChain _ _))

/-- What the last call says about when the next one comes: after a usable answer the interval counts
from it, and after an unusable one either there is no answer to serve from or the interval has run
out already. -/
structure Inv (m : Metered P) : Prop where
  uncalled : m.calls = [] → m.service.upstreamPrices.entries.isEmpty = true
  past : ∀ c ∈ m.calls.head?, c.time ≤ m.clock
  served : ∀ c ∈ m.calls.head?, c.usable = true →
    m.service.upstreamPrices.entries.isEmpty = false ∧ m.service.lastUpstreamFetch = c.time
  unserved : ∀ c ∈ m.calls.head?, c.usable = false → m.service.upstreamPrices.entries.isEmpty = true ∨
    m.interval ≤ c.time - m.service.lastUpstreamFetch

variable {m m' : Metered P} {e : TickInput P × Escapes}

/-- What a tick does to the record and to what decides the next call. -/
lemma step_cases (h : m.step e = some m') :
    m.clock ≤ e.1.monotonic ∧ m'.clock = e.1.monotonic ∧ m'.interval = m.interval ∧
    (m.service.callsUpstream e.1.monotonic = false ∧ m'.calls = m.calls ∧
        m'.service.upstreamPrices = m.service.upstreamPrices ∧
        m'.service.lastUpstreamFetch = m.service.lastUpstreamFetch ∨
      m.service.callsUpstream e.1.monotonic = true ∧
        m'.calls = ⟨e.1.monotonic, e.1.fetch.usable⟩ :: m.calls ∧
        (e.1.fetch.usable = true → m'.service.upstreamPrices.entries.isEmpty = false ∧
          m'.service.lastUpstreamFetch = e.1.monotonic) ∧
        (e.1.fetch.usable = false → m'.service.upstreamPrices.entries.isEmpty = true ∨
          m'.service.lastUpstreamFetch = m.service.lastUpstreamFetch ∧
            m'.service.upstreamPrices = m.service.upstreamPrices)) := by
  unfold step at h
  split at h
  case isFalse => exact absurd h (by simp)
  case isTrue hclock =>
    obtain rfl := Option.some.inj h
    obtain ⟨hsettings, -, hfetched, hupstream⟩ :=
      PriceService.tickWith_read e.2 m.service m.stores e.1
    cases hcalls : m.service.callsUpstream e.1.monotonic with
    | false =>
      -- the counter of ticks is not read
      have hread := PriceService.currentPrices_of_serves (show
        { m.service with stats.ticks := m.service.stats.ticks + 1 }.callsUpstream e.1.monotonic =
          false from hcalls) e.1.fetch
      rw [hread] at hsettings hfetched hupstream
      refine ⟨hclock, rfl, congrArg Settings.upstreamPollIntervalSeconds hsettings, Or.inl ?_⟩
      exact ⟨rfl, rfl, hupstream, hfetched⟩
    | true =>
      obtain ⟨hread, husable, hunusable⟩ := PriceService.currentPrices_of_calls (show
        { m.service with stats.ticks := m.service.stats.ticks + 1 }.callsUpstream e.1.monotonic =
          true from hcalls) e.1.fetch
      rw [hread] at hsettings
      refine ⟨hclock, rfl, congrArg Settings.upstreamPollIntervalSeconds hsettings, Or.inr ?_⟩
      dsimp only
      rw [hfetched, hupstream]
      exact ⟨rfl, rfl, fun h => ⟨(husable h).2, (husable h).1⟩, hunusable⟩

/-- A tick keeps what the last call says. -/
lemma Inv.step (hi : m.Inv) (h : m.step e = some m') : m'.Inv := by
  obtain ⟨hclock, hnow, hinterval, hcases⟩ := step_cases h
  rcases hcases with ⟨-, hcalls, hupstream, hfetched⟩ | ⟨htest, hcalls, husable, hunusable⟩
  · refine ⟨?_, ?_, ?_, ?_⟩
    · rw [hcalls, hupstream]
      exact hi.uncalled
    · rw [hcalls, hnow]
      exact fun c hc => (hi.past c hc).trans hclock
    · rw [hcalls, hupstream, hfetched]
      exact hi.served
    · rw [hcalls, hupstream, hfetched, hinterval]
      exact hi.unserved
  · refine ⟨?_, ?_, ?_, ?_⟩ <;> rw [hcalls]
    · exact fun hnil => absurd hnil (List.cons_ne_nil _ _)
    · rintro c ⟨rfl⟩
      exact hnow.ge
    · rintro c ⟨rfl⟩ hc
      exact husable hc
    · rintro c ⟨rfl⟩ hc
      rcases hunusable hc with hempty | ⟨hfetched, hupstream⟩
      · exact Or.inl hempty
      · -- a call that failed was made because it was due, or because nothing was held
        rw [hupstream, hfetched, hinterval]
        rcases (Bool.or_eq_true _ _).mp htest with hdue | hempty
        · exact Or.inr (of_decide_eq_true hdue)
        · exact Or.inl hempty

/-- **One tick.**  Within the budget, a tick stays within it exactly if it does not come within an
interval of a last call that failed or brought no prices. -/
lemma withinBudget_step (hi : m.Inv) (hg : m.WithinBudget) (h : m.step e = some m') :
    m'.WithinBudget ↔ m.WaitsAfterUnusable e := by
  obtain ⟨hclock, hnow, hinterval, hcases⟩ := step_cases h
  unfold WithinBudget WaitsAfterUnusable
  rw [hinterval]
  rcases hcases with ⟨htest, hcalls, -, -⟩ | ⟨htest, hcalls, -, -⟩
  · rw [hcalls]
    refine ⟨fun _ c hc hunusable => ?_, fun _ => hg⟩
    -- after an unusable call the test is true, so this tick would have called
    obtain ⟨hdue, hheld⟩ := Bool.or_eq_false_iff.1 htest
    rcases hi.unserved c hc hunusable with hempty | hlate
    · rw [hheld] at hempty
      exact absurd hempty (by simp)
    · have hpast := hi.past c hc
      have hdue' : ¬ m.interval ≤ e.1.monotonic - m.service.lastUpstreamFetch :=
        of_decide_eq_false hdue
      exact absurd (by linarith) hdue'
  · rw [hcalls]
    cases hrest : m.calls with
    | nil => simp
    | cons c rest =>
      have hc : c ∈ m.calls.head? := by
        rw [hrest]
        rfl
      have hg' : List.IsChain (fun later earlier => m.interval ≤ later.time - earlier.time)
          (c :: rest) := hrest ▸ hg
      rw [List.isChain_cons_cons]
      constructor
      · rintro ⟨hgap, -⟩ d hd -
        obtain rfl : c = d := Option.some.inj hd
        exact hgap
      · intro hwait
        refine ⟨?_, hg'⟩
        cases husable : c.usable with
        | false => exact hwait c rfl husable
        | true =>
          obtain ⟨hheld, hfetched⟩ := hi.served c hc husable
          rcases (Bool.or_eq_true _ _).mp htest with hdue | hempty
          · have hdue' := of_decide_eq_true hdue
            rw [hfetched] at hdue'
            exact hdue'
          · rw [hheld] at hempty
            exact absurd hempty (by simp)

/-- What is within the budget was within it a tick ago. -/
lemma withinBudget_before (h : m.step e = some m') (hg : m'.WithinBudget) : m.WithinBudget := by
  obtain ⟨-, -, hinterval, hcases⟩ := step_cases h
  unfold WithinBudget at hg ⊢
  rw [hinterval] at hg
  rcases hcases with ⟨-, hcalls, -, -⟩ | ⟨-, hcalls, -, -⟩
  · rwa [hcalls] at hg
  · rw [hcalls] at hg
    exact hg.of_cons

lemma inv_of_init (h : system.init m) : m.Inv ∧ m.WithinBudget := by
  obtain ⟨⟨settings, stores, read, hstart⟩, hcalls⟩ := h
  refine ⟨⟨fun _ => ?_, ?_, ?_, ?_⟩, ?_⟩
  · rw [PriceService.start_upstream hstart]
    rfl
  all_goals simp [WithinBudget, hcalls]

/-- **The vendor call budget.**  Over any run of ticks of a started service, consecutive calls are
`upstream_poll_interval_seconds` apart exactly if no tick comes within that time of a last call that
failed or brought no prices. -/
theorem call_budget_iff {s t : Metered P} (hs : system.init s) (hrun : system.Run s t) :
    t.WithinBudget ↔ system.RunWhere WaitsAfterUnusable s t := by
  obtain ⟨hinv, hgood⟩ := inv_of_init hs
  have hiff : t.WithinBudget ↔ system.RunWhere (fun m e => True ∧ m.WaitsAfterUnusable e) s t :=
    System.RunWhere.good_iff hrun (I := Inv) hinv hgood (fun _ _ _ _ _ hi _ h => hi.step h)
      (fun _ _ _ _ hi hg h => withinBudget_step hi hg h) fun _ _ _ h hg => withinBudget_before h hg
  exact hiff.trans ⟨fun h => h.mono fun _ _ h => h.2, fun h => h.mono fun _ _ h => ⟨trivial, h⟩⟩

/-! ## A call that fails -/

/-- A vendor that may be called once a minute, by a service that ticks every five seconds. -/
def minuteSettings : Settings := ⟨.api, 60, 60, .push⟩

/-- The service its first start builds. -/
def minuteService : PriceService ℕ :=
  (PriceService.start minuteSettings .fresh PriceService.soloRead).2.get (by decide +kernel)

/-- The service before its first tick. -/
def minuteStart : Metered ℕ where
  service := minuteService
  stores := (PriceService.start minuteSettings .fresh PriceService.soloRead).1
  clock := 0
  calls := []

lemma init_minuteStart : system.init minuteStart := by
  have hstart : PriceService.start minuteSettings .fresh PriceService.soloRead =
      (minuteStart.stores, some minuteService) := Prod.ext rfl (Option.some_get _).symm
  exact ⟨⟨_, _, _, hstart⟩, rfl⟩

/-- A tick at `now` whose call, if it makes one, does `fetch`. -/
def minuteTick (now : ℚ) (fetch : FetchOutcome ℕ) : TickInput ℕ × Escapes :=
  ({ PriceService.soloTick PriceService.firstReading 100 .ok .ok (.replied fun _ => false) with
      monotonic := now
      fetch := fetch }, .none)

/-- **A failed call is repeated five seconds later**, although the vendor may be called once a
minute. -/
theorem failed_call_repeated : ¬ ∀ s t : Metered ℕ, system.init s → system.Run s t →
    t.WithinBudget := by
  intro h
  have hrun : ((system.exec minuteStart [minuteTick 100 (.raised true),
      minuteTick 105 (.raised true)]).any fun t => decide (¬ t.WithinBudget)) = true := by
    decide +kernel
  obtain ⟨t, ht, hover⟩ := (Option.any_eq_true _ _).1 hrun
  exact of_decide_eq_true hover (h _ _ init_minuteStart (System.run_of_exec ht))

/-- A run within the budget: a failed call, and the next tick a minute later. -/
theorem call_budget_waits : ∃ t : Metered ℕ, system.RunWhere WaitsAfterUnusable minuteStart t ∧
    t.calls.length = 2 ∧ t.WithinBudget := by
  have hrun : ((system.execWhere WaitsAfterUnusable minuteStart [minuteTick 100 (.raised true),
      minuteTick 160 (.returned (PriceService.soloPrices 100))]).any fun t =>
        decide (t.calls.length = 2)) = true := by
    decide +kernel
  obtain ⟨t, ht, hcalls⟩ := (Option.any_eq_true _ _).1 hrun
  have hreach := System.runWhere_of_execWhere ht
  exact ⟨t, hreach, of_decide_eq_true hcalls, (call_budget_iff init_minuteStart hreach.run).2 hreach⟩

end Metered
end TickerWatch
