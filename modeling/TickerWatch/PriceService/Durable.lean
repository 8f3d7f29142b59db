import TickerWatch.PriceService.Lifetime

/-!
# What latest_prices holds after a tick

A tick upserts the prices that changed since the last tick, and counts every price it read as
published whether or not the upsert went through.  So a row follows the service's memory exactly
as long as the last change of its ticker reached the table (`latest_prices_follow_iff`); a lost
change is made good only by the next one, not by the next tick that can reach Postgres
(`lost_change_stays_lost`).
-/

namespace TickerWatch

universe u

variable {P : Type u} [DecidableEq P]

namespace TickerState

/-- Keep the last price and whether the change to it was written. -/
def noteChange (acc : Option P × Bool) (x : TickerInput P) : Option P × Bool :=
  match x.reading with
  | none => acc
  | some p => if acc.1 = some p then acc else (some p, x.rowWritten)

/-- Whether the last change of a ticker was written.  It starts from the stored price, which needs
no write. -/
def lastChangeReached (stored : Option P) (xs : List (TickerInput P)) : Bool :=
  (xs.foldl noteChange (stored, true)).2

/-- The row of a ticker is the price the service has, at the stamp it has. -/
def Agrees (s : TickerState P) : Prop :=
  ∃ p row, s.last = some p ∧ s.row = some row ∧ row.price = p ∧ s.since = some row.effectiveAt

/-- The row and the memory of a ticker, against what was noted of its changes: the last reading, and
whether the upsert of its change took effect.  Without it the stamp that is remembered is later than
that of the row. -/
structure Tracks (s : TickerState P) (acc : Option P × Bool) : Prop where
  last : s.last = acc.1
  reached : acc.2 = true → ∀ p, s.last = some p → s.Agrees
  lost : acc.2 = false → ∃ since, s.since = some since ∧
    ∀ row, s.row = some row → row.effectiveAt < since

variable {s : TickerState P} {x : TickerInput P} {acc : Option P × Bool} {id : SecurityId}
  {source : String}

omit [DecidableEq P] in
/-- A ticker whose last change was lost does not agree with its row. -/
lemma Tracks.agrees_iff (h : s.Tracks acc) {p : P} (hp : s.last = some p) :
    s.Agrees ↔ acc.2 = true := by
  constructor
  · rintro ⟨q, row, -, hrow, -, hsince⟩
    by_contra hlost
    obtain ⟨since, hsince', hold⟩ := h.lost (by simpa using hlost)
    obtain rfl := Option.some.inj (hsince.symm.trans hsince')
    exact absurd (hold row hrow) (lt_irrefl _)
  · intro hreached
    exact h.reached hreached p hp

/-- One tick keeps the record right, as long as the clock is ahead of every stamp. -/
lemma Tracks.step (h : s.Tracks acc) (hbefore : s.Before x.now) :
    (s.step id source x).Tracks (noteChange acc x) := by
  cases hx : x.reading with
  | none =>
    rw [step_none hx, noteChange, hx]
    exact h
  | some p =>
    by_cases hlast : s.last = some p
    · -- a quiet tick: neither the row nor the stamp moves
      have hacc : noteChange acc x = acc := by
        rw [noteChange, hx]
        exact if_pos (h.last ▸ hlast)
      have hsome : ∃ since, s.since = some since := by
        cases hr : acc.2 with
        | true =>
          obtain ⟨q, row, -, -, -, hsince⟩ := h.reached hr p hlast
          exact ⟨_, hsince⟩
        | false =>
          obtain ⟨since, hsince, -⟩ := h.lost hr
          exact ⟨since, hsince⟩
      obtain ⟨since, hsince⟩ := hsome
      have hsince' : (s.step id source x).since = s.since := by
        rw [step_since hx, stamp_of_last hlast, hsince, Option.getD_some]
      have hrow : (s.step id source x).row = s.row := step_row_of_last hx hlast
      have hlast' : (s.step id source x).last = s.last := by rw [step_last hx, hlast]
      rw [hacc]
      refine ⟨hlast'.trans h.last, ?_, ?_⟩
      · intro hr q hq
        rw [Agrees, hlast', hrow, hsince']
        exact h.reached hr q (hlast' ▸ hq)
      · intro hr
        rw [hsince', hrow]
        exact h.lost hr
    -- a change, and whether it reached the table
    · have hacc : noteChange acc x = (some p, x.rowWritten) := by
        rw [noteChange, hx]
        exact if_neg (h.last ▸ hlast)
      have hsince : (s.step id source x).since = some x.now := by
        rw [step_since hx, stamp_of_ne hlast]
      rw [hacc]
      refine ⟨step_last hx, ?_, ?_⟩
      · intro hw q _
        refine ⟨p, ⟨p, x.now, source⟩, step_last hx, ?_, rfl, hsince⟩
        rw [step_row_of_ne hx hlast hw]
        exact offerRow_takes hbefore.row
      · intro hw
        refine ⟨x.now, hsince, fun row hrow => ?_⟩
        rw [step_row_of_lost hw] at hrow
        exact hbefore.row row hrow

lemma Tracks.run {xs : List (TickerInput P)} (h : s.Tracks acc) (id : SecurityId)
    (source : String)
    (hbefore : ∀ x ∈ xs, s.Before x.now) (hclock : (xs.map TickerInput.now).Pairwise (· < ·)) :
    (s.run id source xs).Tracks (xs.foldl noteChange acc) := by
  induction xs generalizing s acc with
  | nil => exact h
  | cons x xs ih =>
    rw [List.map_cons, List.pairwise_cons] at hclock
    apply ih (h.step (hbefore x List.mem_cons_self)) ?_ hclock.2
    intro y hy
    exact (hbefore x List.mem_cons_self).step (hclock.1 _ (List.mem_map_of_mem hy))

end TickerState

namespace PriceService

variable {settings : Settings} {read : CatalogRead} {stores stores₀ : Stores P}
  {svc svc₀ : PriceService P} {is : List (TickInput P)} {i : TickInput P} {prices : Dict Ticker P}

/-- `latest_prices` holds the service's current price and stamp for every ticker of `prices`. -/
def Durable (svc : PriceService P) (stores : Stores P) (prices : Dict Ticker P) : Prop :=
  ∀ t ∈ prices.keys, ∀ id, svc.tickerToId.get? t = some id → (svc.view stores id t).Agrees

/-- Every stamp in the table lies before the clock of the ticks to come. -/
def StampsBefore (stores : Stores P) (is : List (TickInput P)) : Prop :=
  ∀ i ∈ is, ∀ id row, Dict.get? stores.latestPrices id = some row → row.effectiveAt < i.now

/-- The clock of a lifetime: strictly increasing, and ahead of what is stored. -/
structure ClockIncreasing (stores : Stores P) (is : List (TickInput P)) : Prop where
  ticks : (is.map TickInput.now).Pairwise (· < ·)
  stored : StampsBefore stores is

omit [DecidableEq P] in
/-- What a start leaves of a ticker lies before the clock of every tick. -/
lemma view_start_before (h : start settings stores read = (stores₀, some svc₀))
    (hclock : ClockIncreasing stores is) (id : SecurityId) (t : Ticker) (hi : i ∈ is) :
    (svc₀.view stores₀ id t).Before i.now := by
  have hstored : ∀ id row, Dict.get? (reconciled settings stores) id = some row →
      row.effectiveAt < i.now := by
    intro id row hrow
    obtain ⟨row', hrow', -, hstamp⟩ := exists_of_reconciled hrow
    exact hstamp ▸ hclock.stored i hi id row' hrow'
  refine ⟨fun since hsince => ?_, fun row hrow => ?_⟩
  · have hget : svc₀.effectiveAt.get? t = some since := hsince
    rcases start_memory h t with ⟨-, hnone⟩ | ⟨id', row, hrow, -, -, hsome⟩
    · rw [hnone] at hget
      exact absurd hget (by simp)
    · rw [← Option.some.inj (hsome.symm.trans hget)]
      exact hstored id' row hrow
  · have hget : Dict.get? stores₀.latestPrices id = some row := hrow
    rw [(start_service h).2.2.2.1] at hget
    exact hstored id row hget

/-- The inputs of a ticker carry clock readings of the ticks. -/
lemma exists_now_inputsAt {svc : PriceService P} {stores : Stores P} {t : Ticker}
    {x : TickerInput P} (hx : x ∈ svc.inputsAt stores t is) : ∃ i ∈ is, i.now = x.now := by
  have hnow : x.now ∈ is.map TickInput.now := by
    rw [← map_now_inputsAt svc stores t is]
    exact List.mem_map_of_mem hx
  exact List.mem_map.1 hnow

/-- Throughout a lifetime, everything known of a ticker lies before the clock of the ticks to
come. -/
lemma view_runTicks_before {is' : List (TickInput P)}
    (h : start settings stores read = (stores₀, some svc₀))
    (hreq : ∀ j ∈ is, svc₀.Requested j) (hclock : ClockIncreasing stores (is ++ is'))
    {id : SecurityId} {t : Ticker} (hkey : svc₀.IdNames id t) (hi : i ∈ is') :
    ((svc₀.runTicks stores₀ is).1.view (svc₀.runTicks stores₀ is).2 id t).Before i.now := by
  rw [(view_runTicks (start_service h).2.1 stores₀ hreq hkey).1]
  have hticks := hclock.ticks
  rw [List.map_append, List.pairwise_append] at hticks
  obtain ⟨hticks, -, hlt⟩ := hticks
  apply TickerState.Before.run
  · intro x hx
    obtain ⟨j, hj, hjx⟩ := exists_now_inputsAt hx
    exact hjx ▸ view_start_before h hclock id t (List.mem_append_left _ hj)
  · exact view_start_before h hclock id t (List.mem_append_right _ hi)
  · rw [map_now_inputsAt]
    exact hticks
  · intro x hx
    obtain ⟨j, hj, hjx⟩ := exists_now_inputsAt hx
    exact hjx ▸ hlt _ (List.mem_map_of_mem hj) _ (List.mem_map_of_mem hi)

/-- **latest_prices follows the service exactly where the last change reached it.**  After any tick
of a lifetime, in particular after one that reaches Postgres, the table holds the service's price
and stamp of every ticker the tick priced if and only if the last change of each of them was
written. -/
theorem latest_prices_follow_iff (hstart : start settings stores read = (stores₀, some svc₀))
    (hreq : ∀ j ∈ is ++ [i], svc₀.Requested j)
    (hclock : ClockIncreasing stores (is ++ [i]))
    (hread : (svc₀.runTicks stores₀ is).1.reading i = some prices) :
    (svc₀.runTicks stores₀ (is ++ [i])).1.Durable (svc₀.runTicks stores₀ (is ++ [i])).2 prices ↔
      ∀ t ∈ prices.keys, TickerState.lastChangeReached (svc₀.lastPublished.get? t)
        (svc₀.inputsAt stores₀ t (is ++ [i])) = true := by
  have hsound := (start_service hstart).2.1
  obtain ⟨-, hids, -⟩ := runTicks_service hsound stores₀ hreq
  obtain ⟨-, hids₀, hsound₀⟩ := runTicks_service hsound stores₀
    fun j hj => hreq j (List.mem_append_left _ hj)
  have hreq₀ : (svc₀.runTicks stores₀ is).1.Requested i := (hreq i (by simp)).congr hids₀
  have hpriced := reading_requested hsound₀ hreq₀ hread
  rw [hids₀] at hpriced
  -- one ticker: its lifetime is a run of the machine, whose record of the last change tells
  have hticker : ∀ t ∈ prices.keys, ∀ id, svc₀.tickerToId.get? t = some id →
      (((svc₀.runTicks stores₀ (is ++ [i])).1.view (svc₀.runTicks stores₀ (is ++ [i])).2 id t).Agrees
        ↔ TickerState.lastChangeReached (svc₀.lastPublished.get? t)
          (svc₀.inputsAt stores₀ t (is ++ [i])) = true) := by
    intro t ht id hid
    obtain ⟨p, hp⟩ := Dict.mem_keys_iff.1 ht
    have hkey := hsound.idNames hid
    obtain ⟨hlast, hsince, -⟩ := view_start_of_get? hstart hid
    -- a start remembers the price and stamp of the row it found, so it starts out reached
    have htracks₀ : (svc₀.view stores₀ id t).Tracks (svc₀.lastPublished.get? t, true) := by
      refine ⟨rfl, fun _ q hq => ?_, fun h => absurd h (by simp)⟩
      rw [hlast, Option.map_eq_some_iff] at hq
      obtain ⟨row, hrow, hprice⟩ := hq
      refine ⟨q, row, ?_, hrow, hprice, ?_⟩
      · rw [hlast, hrow, ← hprice, Option.map_some]
      · rw [hsince, hrow, Option.map_some]
    have hbefore : ∀ x ∈ svc₀.inputsAt stores₀ t (is ++ [i]),
        (svc₀.view stores₀ id t).Before x.now := by
      intro x hx
      obtain ⟨j, hj, hjx⟩ := exists_now_inputsAt hx
      exact hjx ▸ view_start_before hstart hclock id t hj
    have htracks := htracks₀.run id svc₀.sourceName hbefore
      (by rw [map_now_inputsAt]; exact hclock.ticks)
    rw [← (view_runTicks hsound stores₀ hreq hkey).1] at htracks
    refine htracks.agrees_iff (p := p) ?_
    have hlast' : (svc₀.inputsAt stores₀ t (is ++ [i])) = svc₀.inputsAt stores₀ t is ++
        [(svc₀.runTicks stores₀ is).1.inputAt i t] := inputsAt_append svc₀ stores₀ t is [i]
    rw [(view_runTicks hsound stores₀ hreq hkey).1, hlast', TickerState.run_append]
    exact TickerState.step_last (by rw [inputAt, hread]; exact hp)
  constructor
  · intro h t ht
    obtain ⟨id, hid⟩ := Dict.mem_keys_iff.1 (hpriced t ht)
    exact (hticker t ht id hid).1 (h t ht id (by rw [hids]; exact hid))
  · intro h t ht id hid
    rw [hids] at hid
    exact (hticker t ht id hid).2 (h t ht)

/-- After a first tick that is written, the table holds its price. -/
theorem latest_prices_follow_first_tick :
    let tick := soloTick 1 101 .ok .ok (.replied fun _ => false)
    (soloService.runTicks soloStores ([] ++ [tick])).1.Durable
      (soloService.runTicks soloStores ([] ++ [tick])).2 (soloPrices 101) := by
  intro tick
  have hreq : ∀ j ∈ [] ++ [tick], soloService.Requested j := by
    intro j hj
    obtain rfl := List.mem_singleton.1 hj
    exact requested_soloTick _ _ _ _ _
  have hclock : ClockIncreasing (Stores.fresh : Stores ℕ) ([] ++ [tick]) :=
    ⟨List.pairwise_singleton _ _, fun _ _ id row h => absurd h (by simp [Stores.fresh])⟩
  refine (latest_prices_follow_iff start_solo hreq hclock (by decide +kernel)).2 ?_
  intro t ht
  obtain rfl : t = "AAPL" := by simpa [soloPrices, Dict.keys] using ht
  decide +kernel

/-- **A lost change stays lost.**  The upsert of the first tick fails; the second tick reads the
same price and reaches Postgres, and the table still holds nothing for it. -/
theorem lost_change_stays_lost :
    let lost := soloTick 1 101 .ok (.error false) (.replied fun _ => false)
    let quiet := soloTick 2 101 .ok .ok (.replied fun _ => false)
    start soloSettings .fresh soloRead = (soloStores, some soloService) ∧
    (∀ j ∈ [lost] ++ [quiet], soloService.Requested j) ∧
    ClockIncreasing (Stores.fresh : Stores ℕ) ([lost] ++ [quiet]) ∧
    quiet.postgres = .ok ∧
    (soloService.runTicks soloStores [lost]).1.reading quiet = some (soloPrices 101) ∧
    ¬ (soloService.runTicks soloStores ([lost] ++ [quiet])).1.Durable
      (soloService.runTicks soloStores ([lost] ++ [quiet])).2 (soloPrices 101) := by
  intro lost quiet
  refine ⟨start_solo, ?_, ⟨?_, ?_⟩, rfl, ?_, ?_⟩
  · intro j hj
    rcases List.mem_append.1 hj with hj | hj
    · obtain rfl := List.mem_singleton.1 hj
      exact requested_soloTick _ _ _ _ _
    · obtain rfl := List.mem_singleton.1 hj
      exact requested_soloTick _ _ _ _ _
  · decide
  · exact fun _ _ id row h => absurd h (by simp [Stores.fresh])
  · decide +kernel
  · intro h
    obtain ⟨p, row, -, hrow, -⟩ := h "AAPL" (by decide) 1 (by decide +kernel)
    have hnone : Dict.get? (soloService.runTicks soloStores ([lost] ++ [quiet])).2.latestPrices 1 =
        none := by decide +kernel
    exact absurd (hrow.symm.trans hnone) (by simp)

end PriceService
end TickerWatch
