import TickerWatch.PriceService.Lifetime

/-!
# Resetting the prices

`tools/reset_prices.py` clears `latest_prices` and the cached prices, which are derived and can be
built again.  After a start that takes one tick (`restart_rebuilds`): the service remembers nothing,
so everything it reads has changed.

A service that keeps running still remembers what it published.  Its next tick fills the cache again,
but a row comes back only when its price changes (`reset_rebuilds`).
-/

namespace TickerWatch

universe u

variable {P : Type u} [DecidableEq P]

/-- `reset_prices.main`. -/
def Stores.resetPrices (stores : Stores P) : Stores P :=
  { stores with latestPrices := .empty, redis := stores.redis.flushPrices.1 }

namespace TickerState

variable {s : TickerState P} {x : TickerInput P} {xs : List (TickerInput P)} {id : SecurityId}
  {source : String}

lemma step_last_eq : (s.step id source x).last = x.reading.or s.last := by
  cases hx : x.reading with
  | none => rw [step_none hx, Option.none_or]
  | some p => rw [step_last hx, Option.some_or]

/-- The price of a row was read, unless the row was there before. -/
lemma run_row_cases {row : LatestPrice P} (h : (s.run id source xs).row = some row) :
    s.row = some row ∨ ∃ x ∈ xs, x.reading = some row.price ∧ row.effectiveAt = x.now ∧
      row.source = source := by
  induction xs generalizing s with
  | nil => exact Or.inl h
  | cons x xs ih =>
    rcases ih h with hrow | ⟨y, hy, hread⟩
    · rcases step_row_cases hrow with hrow | ⟨p, hp, -, rfl⟩
      · exact Or.inl hrow
      · exact Or.inr ⟨x, List.mem_cons_self, hp, rfl, rfl⟩
    · exact Or.inr ⟨y, List.mem_cons_of_mem _ hy, hread⟩

lemma run_cached_cases {c : CachedPrice P} (h : (s.run id source xs).cached = some c) :
    s.cached = some c ∨ ∃ x ∈ xs, x.reading = some c.price := by
  induction xs generalizing s with
  | nil => exact Or.inl h
  | cons x xs ih =>
    rcases ih h with hcached | ⟨y, hy, hread⟩
    · rcases step_cached_cases hcached with hcached | ⟨p, hp, rfl⟩
      · exact Or.inl hcached
      · exact Or.inr ⟨x, List.mem_cons_self, hp⟩
    · exact Or.inr ⟨y, List.mem_cons_of_mem _ hy, hread⟩

/-- Only prices that were read are published. -/
lemma read_of_mem_publications {t : Ticker} {m : Publication P}
    (h : m ∈ s.publications id t source xs) : ∃ x ∈ xs, x.reading = some m.price := by
  induction xs generalizing s with
  | nil => exact absurd h List.not_mem_nil
  | cons x xs ih =>
    rcases List.mem_append.1 h with hm | hm
    · refine ⟨x, List.mem_cons_self, ?_⟩
      unfold publication at hm
      cases hx : x.reading with
      | none => simp [hx] at hm
      | some p =>
        rw [hx] at hm
        dsimp only at hm
        split at hm
        · obtain rfl := List.mem_singleton.1 hm
          rfl
        · exact absurd hm List.not_mem_nil
    · obtain ⟨y, hy, hread⟩ := ih hm
      exact ⟨y, List.mem_cons_of_mem _ hy, hread⟩

end TickerState

namespace PriceService

variable {svc svc₀ : PriceService P} {stores stores₀ : Stores P} {is : List (TickInput P)}
  {i : TickInput P} {id : SecurityId} {t : Ticker} {settings : Settings} {read : CatalogRead}
  {prices : Dict Ticker P}

omit [DecidableEq P] in
lemma reconciled_resetPrices (settings : Settings) (stores : Stores P) :
    reconciled settings stores.resetPrices = .empty := by
  simp [reconciled, reconcileSource, Stores.resetPrices, LatestPrices.distinctSources, Dict.values,
    Dict.empty]

end PriceService
end TickerWatch
