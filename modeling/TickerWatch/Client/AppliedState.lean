import TickerWatch.Foundations.Register
import TickerWatch.PriceService.Service
import TickerWatch.Watchlist.Handler

/-!
# The applied state of the push client

`byTicker` of `usePushPrices.js` and the one function that changes an item in it, `applyEvent`.
An event moves an item only if it is newer than what the item holds, compared as text.

Every item takes only the events of its own ticker (`get?_applyEvents`), so what a stream of
events does is a fold over one item; and an item is a register that turns away whatever is not
newer (`stamped_foldl`), so the fold ends at the newest of what it was given.
-/

namespace TickerWatch

universe u

variable {P : Type u}

/-- `cur.effective_at && ev.effective_at <= cur.effective_at`; an empty text counts as missing. -/
def WatchlistItem.supersedes (cur : WatchlistItem P) (ev : Publication P) : Bool :=
  match cur.effectiveAt with
  | none => false
  | some since => since != "" && !luaGt ev.effectiveAt since

/-- The item after an event of its ticker. -/
def WatchlistItem.apply (cur : WatchlistItem P) (ev : Publication P) : WatchlistItem P :=
  if cur.supersedes ev then cur
  else { cur with
    price := some ev.price
    effectiveAt := some ev.effectiveAt
    source := some ev.source }

/-- `applyEvent`: the state after one event, and the security that moved. -/
def applyEvent (byTicker : Dict Ticker (WatchlistItem P)) (ev : Publication P) :
    Dict Ticker (WatchlistItem P) × Option SecurityId :=
  match byTicker.get? ev.ticker with
  | none => (byTicker, none)
  | some cur =>
    if cur.supersedes ev then (byTicker, none)
    else (byTicker.set ev.ticker (cur.apply ev), some (cur.apply ev).id)

/-- A stream of events, in order. -/
def applyEvents (byTicker : Dict Ticker (WatchlistItem P)) (evs : List (Publication P)) :
    Dict Ticker (WatchlistItem P) := evs.foldl (fun d ev => (applyEvent d ev).1) byTicker

/-- An event touches the item of its ticker only. -/
lemma get?_applyEvent (d : Dict Ticker (WatchlistItem P)) (ev : Publication P) (t : Ticker) :
    (applyEvent d ev).1.get? t =
      if ev.ticker = t then (d.get? t).map fun cur => cur.apply ev else d.get? t := by
  unfold applyEvent
  by_cases ht : ev.ticker = t
  · subst ht
    rw [if_pos rfl]
    cases hcur : d.get? ev.ticker with
    | none => simp [hcur]
    | some cur =>
      by_cases hold : cur.supersedes ev = true
      · simp [hold, hcur, WatchlistItem.apply]
      · simp [hold, Dict.get?_set_self]
  · rw [if_neg ht]
    split
    · rfl
    · split
      · rfl
      · exact Dict.get?_set_ne _ _ (Ne.symm ht)

/-- **A stream of events is a fold at every item.** -/
theorem get?_applyEvents (d : Dict Ticker (WatchlistItem P)) (evs : List (Publication P))
    (t : Ticker) :
    (applyEvents d evs).get? t = (d.get? t).map fun cur =>
      (evs.filter fun ev => decide (ev.ticker = t)).foldl WatchlistItem.apply cur := by
  induction evs generalizing d with
  | nil => simp [applyEvents]
  | cons ev evs ih =>
    rw [applyEvents, List.foldl_cons, ← applyEvents, ih, get?_applyEvent]
    by_cases ht : ev.ticker = t
    · simp [ht, Function.comp_def]
    · simp [ht]

namespace WatchlistItem

variable {cur : WatchlistItem P} {ev : Publication P}

lemma apply_of_supersedes (h : cur.supersedes ev = true) : cur.apply ev = cur := if_pos h

/-- An event newer than the item replaces its price, stamp and source. -/
lemma apply_of_lt {since : String} (h : cur.effectiveAt = some since)
    (hlt : since < ev.effectiveAt) :
    cur.apply ev = { cur with
      price := some ev.price
      effectiveAt := some ev.effectiveAt
      source := some ev.source } := by
  refine if_neg ?_
  have hgt : luaGt ev.effectiveAt since = true := decide_eq_true hlt
  simp [supersedes, h, hgt]

lemma apply_of_none (h : cur.effectiveAt = none) :
    cur.apply ev = { cur with
      price := some ev.price
      effectiveAt := some ev.effectiveAt
      source := some ev.source } := by
  refine if_neg ?_
  simp [supersedes, h]

/-! ## The item as a register -/

/-- What an item shows, under its stamp. -/
def stamped (cur : WatchlistItem P) : Option (String × Option P × Option String) :=
  cur.effectiveAt.bind fun since =>
    if since = "" then none else some (since, cur.price, cur.source)

/-- What an event says, under its stamp. -/
def write (ev : Publication P) : String × Option P × Option String :=
  (ev.effectiveAt, some ev.price, some ev.source)

@[simp] lemma ticker_apply : (cur.apply ev).ticker = cur.ticker := by
  unfold apply
  split <;> rfl

lemma supersedes_iff :
    cur.supersedes ev = true ↔ ∃ v, cur.stamped = some v ∧ ev.effectiveAt ≤ v.1 := by
  unfold supersedes stamped luaGt
  cases cur.effectiveAt with
  | none => simp
  | some since =>
    by_cases hne : since = ""
    · simp [hne]
    · simp only [Option.bind_some, if_false, ne_eq, hne, not_false_eq_true, bne_iff_ne,
        Bool.and_eq_true, Bool.not_eq_true', decide_eq_false_iff_not, not_lt, true_and,
        Option.some.injEq, exists_eq_left']

lemma apply_of_not_supersedes (h : cur.supersedes ev = false) :
    cur.apply ev = { cur with
      price := some ev.price
      effectiveAt := some ev.effectiveAt
      source := some ev.source } := if_neg (h ▸ Bool.false_ne_true)

lemma stamped_apply (hev : ev.effectiveAt ≠ "") :
    (cur.apply ev).stamped = Register.offer .reject cur.stamped (write ev) := by
  cases hold : cur.supersedes ev with
  | true =>
    obtain ⟨v, hv, hle⟩ := supersedes_iff.1 hold
    have hstale : ¬ Register.Admits .reject v.1 (write ev).1 := not_lt.2 hle
    rw [apply_of_supersedes hold, hv, Register.offer_some_of_not_admits hstale]
  | false =>
    have hnew : (cur.apply ev).stamped = some (write ev) := by
      rw [apply_of_not_supersedes hold]
      simp [stamped, write, hev]
    rw [hnew]
    cases hcur : cur.stamped with
    | none => rfl
    | some v =>
      have hnewer : Register.Admits .reject v.1 (write ev).1 := by
        refine not_le.1 fun hle => ?_
        exact Bool.false_ne_true (hold.symm.trans (supersedes_iff.2 ⟨v, hcur, hle⟩))
      exact (Register.offer_some_of_admits hnewer).symm

/-- **A stream of stamped events is a sequence of offers.** -/
theorem stamped_foldl {evs : List (Publication P)} (hevs : ∀ ev ∈ evs, ev.effectiveAt ≠ "") :
    (evs.foldl apply cur).stamped = Register.offerAll .reject cur.stamped (evs.map write) := by
  induction evs generalizing cur with
  | nil => rfl
  | cons ev evs ih =>
    rw [List.foldl_cons, ih fun e he => hevs e (List.mem_cons_of_mem _ he),
      stamped_apply (hevs ev List.mem_cons_self), List.map_cons, Register.offerAll_cons]

lemma empty_le (s : String) : "" ≤ s := by
  refine not_lt.1 fun h => ?_
  rw [String.lt_iff_toList_lt] at h
  exact List.not_lt_nil _ h

/-- The item shows a price stamped `since` or later. -/
def Shows (cur : WatchlistItem P) (since : String) : Prop :=
  ∃ stamp ∈ cur.effectiveAt, since ≤ stamp

instance (cur : WatchlistItem P) (since : String) : Decidable (cur.Shows since) :=
  inferInstanceAs (Decidable (∃ stamp ∈ cur.effectiveAt, since ≤ stamp))

/-- An event makes an item show what is no later than itself, and nothing else it did not show. -/
lemma shows_apply {since : String} :
    (cur.apply ev).Shows since ↔ cur.Shows since ∨ since ≤ ev.effectiveAt := by
  cases hold : cur.supersedes ev with
  | true =>
    rw [apply_of_supersedes hold]
    refine ⟨Or.inl, fun h => ?_⟩
    rcases h with hshow | hle
    · exact hshow
    obtain ⟨v, hv, hev⟩ := supersedes_iff.1 hold
    obtain ⟨stamp, hat, hsome⟩ := Option.bind_eq_some_iff.1 hv
    split at hsome
    · exact absurd hsome (by simp)
    · obtain rfl := Option.some.inj hsome
      exact ⟨stamp, hat, hle.trans hev⟩
  | false =>
    rw [apply_of_not_supersedes hold]
    have hnew : ({ cur with
        price := some ev.price
        effectiveAt := some ev.effectiveAt
        source := some ev.source } : WatchlistItem P).Shows since ↔ since ≤ ev.effectiveAt := by
      simp [Shows]
    rw [hnew]
    refine ⟨Or.inr, fun h => ?_⟩
    rcases h with ⟨stamp, hat, hle⟩ | hle
    swap
    · exact hle
    -- what the item showed is older than an event it lets through
    by_contra hlater
    refine Bool.false_ne_true (hold.symm.trans (supersedes_iff.2 ⟨(stamp, cur.price, cur.source), ?_,
      (not_le.1 hlater).le.trans hle⟩))
    have hne : stamp ≠ "" := by
      rintro rfl
      exact hlater (hle.trans (empty_le ev.effectiveAt))
    have hsome : cur.effectiveAt = some stamp := hat
    simp [stamped, hsome, hne]

/-- **A stream of events shows the newest of what it was given.** -/
theorem shows_foldl {since : String} (cur : WatchlistItem P) (evs : List (Publication P)) :
    (evs.foldl apply cur).Shows since ↔ cur.Shows since ∨ ∃ ev ∈ evs, since ≤ ev.effectiveAt := by
  induction evs generalizing cur with
  | nil => simp
  | cons ev evs ih =>
    rw [List.foldl_cons, ih, shows_apply]
    simp only [List.mem_cons, exists_eq_or_imp, or_assoc]

lemma ticker_foldl (cur : WatchlistItem P) (evs : List (Publication P)) :
    (evs.foldl apply cur).ticker = cur.ticker := by
  induction evs generalizing cur with
  | nil => rfl
  | cons ev evs ih => rw [List.foldl_cons, ih, ticker_apply]

end WatchlistItem
end TickerWatch
