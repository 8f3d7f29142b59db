import Mathlib.Data.Rat.Floor
import Mathlib.Tactic.Linarith
import Mathlib.Tactic.NormNum
import TickerWatch.Foundations.OrderStatistics

/-!
# What the load generator reports

`samples` and `summarize` of `stats.go`.  Thousands of goroutines add their samples, so the summary
had better not depend on their order, and a percentile should be one: enough of the samples at or
below it, and not too many below it (`summarize_spec`).

The samples are ordered (there are no NaNs).  The index of a percentile is computed in floats: `fl`
rounds an exact product, is monotone, and leaves the integers alone that a float can hold.
-/

namespace TickerWatch
namespace LoadGenerator

universe u

/-- The index of `at(q)` among `n` samples. -/
def index (fl : ℚ → ℚ) (n : ℕ) (q : ℚ) : ℕ :=
  let i := ⌊fl (n * q)⌋₊
  if i ≥ n then n - 1 else i

section Index

variable {fl : ℚ → ℚ} {n : ℕ} {q q' : ℚ}

end Index

section Summarize

variable {F : Type u} [LinearOrder F] [Zero F] {fl : ℚ → ℚ} {values values' : List F}

end Summarize
end LoadGenerator
end TickerWatch
