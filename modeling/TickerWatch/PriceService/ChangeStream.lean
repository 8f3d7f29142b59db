import Mathlib.Data.List.Destutter
import TickerWatch.Client.AppliedState
import TickerWatch.PriceService.Durable

/-!
# The stream of changes and its subscribers

What a lifetime publishes on a ticker's channel, and what a client that applies it holds.

With nothing lost the stream is the readings of the ticker without consecutive repeats
(`change_stream_exact`), and folding it over the service's prices at any tick gives the service's
prices at every later one.  With losses, a client holds the service's price exactly where the price
last accepted for it is the price just read (`subscriber_follows_iff`): the tick after a lost
publication repairs nothing unless the price moves again.
-/

namespace TickerWatch

universe u

variable {P : Type u} [DecidableEq P]

/-- The readings that differ from the one before, the first compared with `last`. -/
def changes (last : Option P) : List P → List P
  | [] => []
  | p :: ps => if last = some p then changes last ps else p :: changes (some p) ps

lemma destutter'_eq_changes (w : P) (ps : List P) :
    ps.destutter' (· ≠ ·) w = w :: changes (some w) ps := by
  induction ps generalizing w with
  | nil => rfl
  | cons p ps ih =>
    by_cases h : w = p
    · subst h
      rw [List.destutter'_cons_neg _ (by simp), ih, changes, if_pos rfl]
    · rw [List.destutter'_cons_pos _ h, ih, changes, if_neg (by simpa using h)]

lemma changes_eq_destutter (last : Option P) (ps : List P) :
    changes last ps = ((last.toList ++ ps).destutter (· ≠ ·)).drop last.toList.length := by
  cases last with
  | none =>
    cases ps with
    | nil => rfl
    | cons p ps =>
      rw [Option.toList_none, List.nil_append, List.destutter_cons', destutter'_eq_changes]
      rfl
  | some w =>
    rw [Option.toList_some, List.singleton_append, List.destutter_cons', destutter'_eq_changes]
    rfl

namespace TickerState

variable {s : TickerState P} {x : TickerInput P} {xs : List (TickerInput P)} {id : SecurityId}
  {source : String} {t : Ticker}

lemma run_last_isSome (h : ∃ p, s.last = some p) : ∃ p, (s.run id source xs).last = some p := by
  induction xs generalizing s with
  | nil => exact h
  | cons x xs ih =>
    apply ih
    cases hx : x.reading with
    | none => rw [step_none hx]; exact h
    | some p => exact ⟨p, step_last hx⟩

/-! ## The stream -/

lemma publication_none (h : x.reading = none) : s.publication id t source x = none := by
  rw [publication, h]

lemma publication_of_last {p : P} (h : x.reading = some p) (hlast : s.last = some p) :
    s.publication id t source x = none := by
  rw [publication, h]
  simp [hlast]

lemma publication_of_ne {p : P} (h : x.reading = some p) (hne : s.last ≠ some p)
    (hd : x.delivered = true) :
    s.publication id t source x = some ⟨id, t, p, toIso x.now, source⟩ := by
  rw [publication, h]
  simp [hne, hd, stamp_of_ne hne]

lemma publication_of_lost (h : x.delivered = false) : s.publication id t source x = none := by
  rw [publication]
  split <;> simp [h]

/-- When nothing is lost, the published prices are the changes of the readings. -/
lemma map_price_publications (hd : ∀ x ∈ xs, x.delivered = true) :
    (s.publications id t source xs).map Publication.price =
      changes s.last (xs.filterMap TickerInput.reading) := by
  induction xs generalizing s with
  | nil => rfl
  | cons x xs ih =>
    have hrest := ih (s := s.step id source x) fun y hy => hd y (List.mem_cons_of_mem _ hy)
    rw [publications, List.map_append, hrest]
    cases hx : x.reading with
    | none => rw [List.filterMap_cons_none hx, publication_none hx, step_none hx]; rfl
    | some p =>
      rw [List.filterMap_cons_some hx, step_last hx, changes]
      by_cases hlast : s.last = some p
      · rw [publication_of_last hx hlast, if_pos hlast, hlast]
        rfl
      · rw [publication_of_ne hx hlast (hd x List.mem_cons_self), if_neg hlast]
        rfl

/-- Published stamps are clock readings of the ticks, in order. -/
lemma map_effectiveAt_publications_sublist (s : TickerState P) (xs : List (TickerInput P)) :
    ((s.publications id t source xs).map Publication.effectiveAt).Sublist
      (xs.map fun x => toIso x.now) := by
  induction xs generalizing s with
  | nil => exact List.Sublist.slnil
  | cons x xs ih =>
    rw [publications, List.map_append, List.map_cons]
    cases hx : s.publication id t source x with
    | none => exact (ih _).cons _
    | some m =>
      have hstamp : m.effectiveAt = toIso x.now := by
        cases hp : x.reading with
        | none => rw [publication_none hp] at hx; exact absurd hx (by simp)
        | some p =>
          by_cases hlast : s.last = some p
          · rw [publication_of_last hp hlast] at hx
            exact absurd hx (by simp)
          · by_cases hd : x.delivered = true
            · rw [publication_of_ne hp hlast hd] at hx
              rw [← Option.some.inj hx]
            · rw [publication_of_lost (by simpa using hd)] at hx
              exact absurd hx (by simp)
      rw [Option.toList_some, List.map_cons, hstamp]
      exact (ih _).cons_cons _

/-! ## A subscriber that misses nothing -/

/-- The item shows the price and stamp the service has. -/
structure Shown (s : TickerState P) (item : WatchlistItem P) : Prop where
  price : item.price = s.last
  effectiveAt : item.effectiveAt = s.since.map toIso
  stamped : ∀ p, s.last = some p → ∃ since, s.since = some since

/-- A tick whose publication is delivered leaves the item showing what the service has. -/
lemma Shown.step {item : WatchlistItem P} (h : s.Shown item) (hbefore : s.Before x.now)
    (hd : x.delivered = true) :
    (s.step id source x).Shown
      ((s.publication id t source x).toList.foldl WatchlistItem.apply item) := by
  cases hx : x.reading with
  | none =>
    rw [publication_none hx, step_none hx]
    exact h
  | some p =>
    by_cases hlast : s.last = some p
    -- no change, no event: the item shows the price it had
    · obtain ⟨since, hsince⟩ := h.stamped p hlast
      rw [publication_of_last hx hlast]
      refine ⟨?_, ?_, fun _ _ => ⟨_, step_since hx⟩⟩
      · rw [step_last hx, ← hlast]
        exact h.price
      · rw [step_since hx, stamp_of_last hlast, hsince, Option.getD_some, Option.map_some]
        exact h.effectiveAt.trans (by rw [hsince, Option.map_some])
    · rw [publication_of_ne hx hlast hd]
      -- the event carries a later stamp than the item, so it is let through
      have happly : item.apply ⟨id, t, p, toIso x.now, source⟩ = { item with
          price := some p, effectiveAt := some (toIso x.now), source := some source } := by
        cases hsince : s.since with
        | none =>
          exact WatchlistItem.apply_of_none (by rw [h.effectiveAt, hsince, Option.map_none])
        | some since =>
          have hshown : item.effectiveAt = some (toIso since) := by
            rw [h.effectiveAt, hsince, Option.map_some]
          exact WatchlistItem.apply_of_lt hshown (toIso_lt_iff.2 (hbefore.since since hsince))
      rw [Option.toList_some, List.foldl_cons, List.foldl_nil, happly]
      refine ⟨(step_last hx).symm, ?_, fun _ _ => ⟨_, step_since hx⟩⟩
      rw [step_since hx, stamp_of_ne hlast, Option.map_some]

lemma Shown.run {item : WatchlistItem P} (h : s.Shown item) (id : SecurityId) (t : Ticker)
    (source : String)
    (hbefore : ∀ x ∈ xs, s.Before x.now) (hclock : (xs.map TickerInput.now).Pairwise (· < ·))
    (hd : ∀ x ∈ xs, x.delivered = true) :
    (s.run id source xs).Shown
      ((s.publications id t source xs).foldl WatchlistItem.apply item) := by
  induction xs generalizing s item with
  | nil => exact h
  | cons x xs ih =>
    rw [List.map_cons, List.pairwise_cons] at hclock
    have hx := hbefore x List.mem_cons_self
    rw [publications, List.foldl_append]
    apply ih (h.step hx (hd x List.mem_cons_self)) ?_ hclock.2 fun y hy =>
      hd y (List.mem_cons_of_mem _ hy)
    intro y hy
    exact hx.step (hclock.1 _ (List.mem_map_of_mem hy))

/-! ## A subscriber that misses some -/

/-- Keep the last price and the last price of which Centrifugo accepted the publication. -/
def noteAccepted (acc : Option P × Option P) (x : TickerInput P) : Option P × Option P :=
  match x.reading with
  | none => acc
  | some p =>
    if acc.1 = some p then acc
    else (some p, if x.delivered then some p else acc.2)

/-- The price a ticker was last accepted at, or the one it started from. -/
def lastAccepted (start : Option P) (xs : List (TickerInput P)) : Option P :=
  (xs.foldl noteAccepted (start, start)).2

/-- The item's stamp, if it has one, lies before `now`. -/
def ItemBefore (item : WatchlistItem P) (now : Instant) : Prop :=
  item.effectiveAt = none ∨ ∃ since, item.effectiveAt = some (toIso since) ∧ since < now

omit [DecidableEq P] in
lemma ItemBefore.mono {item : WatchlistItem P} {now now' : Instant} (h : ItemBefore item now)
    (hlt : now < now') : ItemBefore item now' := by
  rcases h with h | ⟨since, h, hs⟩
  · exact Or.inl h
  · exact Or.inr ⟨since, h, hs.trans hlt⟩

omit [DecidableEq P] in
/-- A publication stamped by the clock is news to the item. -/
lemma apply_of_itemBefore {item : WatchlistItem P} {ev : Publication P} {now : Instant}
    (h : ItemBefore item now) (hev : ev.effectiveAt = toIso now) :
    item.apply ev = { item with
      price := some ev.price
      effectiveAt := some ev.effectiveAt
      source := some ev.source } := by
  rcases h with h | ⟨since, h, hs⟩
  · exact WatchlistItem.apply_of_none h
  · exact WatchlistItem.apply_of_lt h (hev ▸ toIso_lt_iff.2 hs)

/-- A tick's publication, if it is delivered, stamps the item with the clock of the tick. -/
lemma itemBefore_step {item : WatchlistItem P} {now : Instant} (h : ItemBefore item x.now)
    (hnow : x.now < now) :
    ItemBefore ((s.publication id t source x).toList.foldl WatchlistItem.apply item) now := by
  cases hx : x.reading with
  | none =>
    rw [publication_none hx]
    exact h.mono hnow
  | some p =>
    by_cases hlast : s.last = some p
    · rw [publication_of_last hx hlast]
      exact h.mono hnow
    · cases hd : x.delivered with
      | true =>
        rw [publication_of_ne hx hlast hd, Option.toList_some, List.foldl_cons, List.foldl_nil,
          apply_of_itemBefore h rfl]
        exact Or.inr ⟨x.now, rfl, hnow⟩
      | false =>
        rw [publication_of_lost hd]
        exact h.mono hnow

/-- After a tick the item shows the price last accepted. -/
lemma price_step_accepted (id : SecurityId) (t : Ticker) (source : String)
    {item : WatchlistItem P} {acc : Option P × Option P}
    (hlast : s.last = acc.1) (hitem : item.price = acc.2) (hbefore : ItemBefore item x.now) :
    (s.step id source x).last = (noteAccepted acc x).1 ∧
    ((s.publication id t source x).toList.foldl WatchlistItem.apply item).price =
      (noteAccepted acc x).2 := by
  cases hx : x.reading with
  | none =>
    rw [publication_none hx, step_none hx, noteAccepted, hx]
    exact ⟨hlast, hitem⟩
  | some p =>
    rw [step_last hx, noteAccepted, hx]
    by_cases hp : s.last = some p
    · rw [publication_of_last hx hp]
      simp only [← hlast, hp, if_true]
      exact ⟨trivial, hitem⟩
    · have hacc : ¬ acc.1 = some p := hlast ▸ hp
      simp only [hacc, if_false]
      cases hd : x.delivered with
      | true =>
        rw [publication_of_ne hx hp hd, Option.toList_some, List.foldl_cons, List.foldl_nil,
          apply_of_itemBefore hbefore rfl]
        exact ⟨trivial, rfl⟩
      | false =>
        rw [publication_of_lost hd]
        exact ⟨trivial, hitem⟩

lemma price_run_accepted {item : WatchlistItem P} {acc : Option P × Option P}
    (hlast : s.last = acc.1) (hitem : item.price = acc.2)
    (hbefore : ∀ x ∈ xs, ItemBefore item x.now)
    (hclock : (xs.map TickerInput.now).Pairwise (· < ·)) :
    ((s.publications id t source xs).foldl WatchlistItem.apply item).price =
      (xs.foldl noteAccepted acc).2 := by
  induction xs generalizing s item acc with
  | nil => exact hitem
  | cons x xs ih =>
    rw [List.map_cons, List.pairwise_cons] at hclock
    have hx := hbefore x List.mem_cons_self
    obtain ⟨hlast', hitem'⟩ := price_step_accepted id t source hlast hitem hx
    rw [publications, List.foldl_append, List.foldl_cons]
    apply ih hlast' hitem' ?_ hclock.2
    intro y hy
    exact itemBefore_step hx (hclock.1 _ (List.mem_map_of_mem hy))

end TickerState

namespace PriceService

variable {settings : Settings} {read : CatalogRead} {stores stores₀ : Stores P}
  {svc svc₀ : PriceService P} {is is' : List (TickInput P)} {i : TickInput P}
  {prices : Dict Ticker P} {d : Dict Ticker (WatchlistItem P)} {t : Ticker}

/-- No publish error: Centrifugo answers every batch and rejects nothing. -/
def PublishesAll (is : List (TickInput P)) : Prop :=
  ∀ i ∈ is, i.publish = .replied fun _ => false

/-- The readings of one ticker over a lifetime, in order. -/
def readings (svc : PriceService P) (stores : Stores P) (t : Ticker) (is : List (TickInput P)) :
    List P := (svc.inputsAt stores t is).filterMap TickerInput.reading

/-- The publications on the channel of one ticker, in order. -/
def channel (svc : PriceService P) (stores : Stores P) (t : Ticker) (is : List (TickInput P)) :
    List (Publication P) :=
  (svc.deliveries stores is).flatten.filter fun m => decide (m.ticker = t)

/-- The client shows the price and stamp the service has for `t`. -/
def Shows (d : Dict Ticker (WatchlistItem P)) (svc : PriceService P) (t : Ticker) : Prop :=
  ∃ item p since, d.get? t = some item ∧ svc.lastPublished.get? t = some p ∧
    svc.effectiveAt.get? t = some since ∧ item.price = some p ∧
    item.effectiveAt = some (toIso since)

/-- In push mode, with nothing rejected, every input of a ticker is delivered. -/
lemma delivered_inputsAt (hs : svc.Sound) (hreq : ∀ j ∈ is, svc.Requested j)
    (hpush : svc.settings.transport = .push) (hall : PublishesAll is) :
    ∀ x ∈ svc.inputsAt stores t is, x.delivered = true := by
  induction is generalizing svc stores with
  | nil => exact fun x hx => absurd hx List.not_mem_nil
  | cons i is ih =>
    obtain ⟨hsettings, hids, -, hsound⟩ := tick_service hs stores (hreq i List.mem_cons_self)
    intro x hx
    rcases List.mem_cons.1 hx with rfl | hx
    · simp [inputAt, hpush, hall i List.mem_cons_self, PublishOutcome.delivers]
    · exact ih hsound (fun j hj => (hreq j (List.mem_cons_of_mem _ hj)).congr hids)
        (by rw [hsettings]; exact hpush) (fun j hj => hall j (List.mem_cons_of_mem _ hj)) x hx

lemma deliveries_atMostOne (hs : svc.Sound) (hreq : ∀ j ∈ is, svc.Requested j) (t : Ticker) :
    ∀ batch ∈ svc.deliveries stores is,
      (batch.filter fun m => decide (m.ticker = t)).length ≤ 1 := by
  induction is generalizing svc stores with
  | nil => exact fun b hb => absurd hb List.not_mem_nil
  | cons i is ih =>
    have hreq₀ := hreq i List.mem_cons_self
    obtain ⟨-, hids, -, hsound⟩ := tick_service hs stores hreq₀
    obtain ⟨id, hkey⟩ := hs.exists_idNames t
    intro batch hbatch
    rcases List.mem_cons.1 hbatch with rfl | hbatch
    · rw [(view_tick hs stores hreq₀ hkey).2]
      cases (svc.view stores id t).publication id t svc.sourceName (svc.inputAt i t) <;> simp
    · exact ih hsound (fun j hj => (hreq j (List.mem_cons_of_mem _ hj)).congr hids) batch hbatch

/-- The prices on a channel are the changes of its readings. -/
lemma map_price_channel (hs : svc.Sound) (hreq : ∀ j ∈ is, svc.Requested j)
    (hpush : svc.settings.transport = .push) (hall : PublishesAll is) (t : Ticker) :
    (svc.channel stores t is).map Publication.price =
      changes (svc.lastPublished.get? t) (svc.readings stores t is) := by
  obtain ⟨id, hkey⟩ := hs.exists_idNames t
  rw [channel, (view_runTicks hs stores hreq hkey).2,
    TickerState.map_price_publications (delivered_inputsAt hs hreq hpush hall)]
  rfl

lemma pairwise_channel (hs : svc.Sound) (hreq : ∀ j ∈ is, svc.Requested j)
    (hclock : (is.map TickInput.now).Pairwise (· < ·)) (t : Ticker) :
    ((svc.channel stores t is).map Publication.effectiveAt).Pairwise (· < ·) := by
  obtain ⟨id, hkey⟩ := hs.exists_idNames t
  rw [channel, (view_runTicks hs stores hreq hkey).2]
  refine List.Pairwise.sublist (TickerState.map_effectiveAt_publications_sublist _ _) ?_
  have hnows : (svc.inputsAt stores t is).map (fun x => toIso x.now) =
      (is.map TickInput.now).map toIso := by
    rw [← map_now_inputsAt svc stores t is, List.map_map]
    rfl
  rw [hnows, List.pairwise_map]
  exact hclock.imp fun h => toIso_lt_iff.2 h

/-- What the stream after some tick makes of a client that shows the service's prices there. -/
lemma shows_applyEvents (hs : svc.Sound) (hreq : ∀ j ∈ is, svc.Requested j)
    (hpush : svc.settings.transport = .push) (hall : PublishesAll is)
    (hclock : (is.map TickInput.now).Pairwise (· < ·))
    {id : SecurityId} (hkey : svc.IdNames id t)
    (hbefore : ∀ j ∈ is, (svc.view stores id t).Before j.now) (hd : Shows d svc t) :
    Shows (applyEvents d (svc.deliveries stores is).flatten) (svc.runTicks stores is).1 t := by
  obtain ⟨item, p, since, hitem, hp, hsince, hprice, hstamp⟩ := hd
  obtain ⟨hrun, hstream⟩ := view_runTicks hs stores hreq hkey
  have hshown : (svc.view stores id t).Shown item := by
    refine ⟨hprice.trans hp.symm, ?_, fun _ _ => ⟨since, hsince⟩⟩
    have hview : (svc.view stores id t).since = some since := hsince
    rw [hstamp, hview, Option.map_some]
  have hbefore' : ∀ x ∈ svc.inputsAt stores t is, (svc.view stores id t).Before x.now := by
    intro x hx
    obtain ⟨j, hj, hjx⟩ := exists_now_inputsAt hx
    exact hjx ▸ hbefore j hj
  have hafter := hshown.run id t svc.sourceName hbefore'
    (by rw [map_now_inputsAt]; exact hclock) (delivered_inputsAt hs hreq hpush hall)
  rw [← hrun, ← hstream] at hafter
  have hlast : ∃ q, ((svc.runTicks stores is).1.view (svc.runTicks stores is).2 id t).last =
      some q := by
    rw [hrun]
    exact TickerState.run_last_isSome (s := svc.view stores id t) ⟨p, hp⟩
  obtain ⟨q, hq⟩ := hlast
  obtain ⟨since', hsince'⟩ := hafter.stamped q hq
  refine ⟨(svc.channel stores t is).foldl WatchlistItem.apply item, q, since', ?_, hq, hsince', ?_,
    ?_⟩
  · rw [get?_applyEvents, hitem, Option.map_some]
    rfl
  · exact hafter.price.trans hq
  · exact hafter.effectiveAt.trans (by rw [hsince', Option.map_some])

/-- **The change stream is complete and minimal.**  With no publish error, each channel carries
the readings of its ticker with consecutive repeats removed, the warmed-up price counting as the
reading before the first; a tick publishes a ticker at most once, under strictly increasing
stamps.  And a client that shows the service's prices at any tick shows them at every later one,
for the tickers the service had there, by applying what is published in between. -/
theorem change_stream_exact (hstart : start settings stores read = (stores₀, some svc₀))
    (hreq : ∀ j ∈ is, svc₀.Requested j) (hclock : ClockIncreasing stores is)
    (hpush : settings.transport = .push) (hall : PublishesAll is) :
    (∀ t, (svc₀.channel stores₀ t is).map Publication.price =
        (((svc₀.lastPublished.get? t).toList ++ svc₀.readings stores₀ t is).destutter
          (· ≠ ·)).drop (svc₀.lastPublished.get? t).toList.length ∧
      ((svc₀.channel stores₀ t is).map Publication.effectiveAt).Pairwise (· < ·) ∧
      ∀ batch ∈ svc₀.deliveries stores₀ is,
        (batch.filter fun m => decide (m.ticker = t)).length ≤ 1) ∧
    ∀ before after, is = before ++ after → ∀ d : Dict Ticker (WatchlistItem P),
      (∀ t ∈ (svc₀.runTicks stores₀ before).1.lastPublished.keys,
        Shows d (svc₀.runTicks stores₀ before).1 t) →
      ∀ t ∈ (svc₀.runTicks stores₀ before).1.lastPublished.keys,
        Shows (applyEvents d ((svc₀.runTicks stores₀ before).1.deliveries
          (svc₀.runTicks stores₀ before).2 after).flatten) (svc₀.runTicks stores₀ is).1 t := by
  obtain ⟨hsettings, hsound, -⟩ := start_service hstart
  have hpush₀ : svc₀.settings.transport = .push := by rw [hsettings, hpush]
  refine ⟨fun t => ⟨?_, ?_, ?_⟩, ?_⟩
  · rw [map_price_channel hsound hreq hpush₀ hall, changes_eq_destutter]
  · exact pairwise_channel hsound hreq hclock.ticks t
  · exact deliveries_atMostOne hsound hreq t
  -- the rest of the run is a lifetime from where its first part leads
  · rintro before after rfl d hd t ht
    have hreq₁ : ∀ j ∈ before, svc₀.Requested j := fun j hj => hreq j (List.mem_append_left _ hj)
    obtain ⟨hsettings₁, hids₁, hsound₁⟩ := runTicks_service hsound stores₀ hreq₁
    obtain ⟨id, hkey⟩ := hsound.exists_idNames t
    have hticks := hclock.ticks
    rw [List.map_append, List.pairwise_append] at hticks
    rw [runTicks_append]
    exact shows_applyEvents hsound₁
      (fun j hj => (hreq j (List.mem_append_right _ hj)).congr hids₁) (by rw [hsettings₁, hpush₀])
      (fun j hj => hall j (List.mem_append_right _ hj)) hticks.2.1
      (by rw [IdNames, hids₁]; exact hkey)
      (fun j hj => view_runTicks_before hstart hreq₁ hclock hkey hj) (hd t ht)

/-- Three ticks, the second of them quiet, publish two prices. -/
theorem change_stream_three_ticks :
    let ok : PublishOutcome := .replied fun _ => false
    (soloService.channel soloStores "AAPL" [soloTick 1 101 .ok .ok ok, soloTick 2 101 .ok .ok ok,
      soloTick 3 102 .ok .ok ok]).map Publication.price = [101, 102] := by
  intro ok
  have hreq : ∀ j ∈ [soloTick 1 101 .ok .ok ok, soloTick 2 101 .ok .ok ok,
      soloTick 3 102 .ok .ok ok], soloService.Requested j := by
    intro j hj
    simp only [List.mem_cons, List.not_mem_nil, or_false] at hj
    rcases hj with rfl | rfl | rfl <;> exact requested_soloTick _ _ _ _ _
  have hclock : ClockIncreasing (Stores.fresh : Stores ℕ) [soloTick 1 101 .ok .ok ok,
      soloTick 2 101 .ok .ok ok, soloTick 3 102 .ok .ok ok] :=
    ⟨by decide, fun _ _ id row h => absurd h (by simp [Stores.fresh])⟩
  have hall : PublishesAll [soloTick 1 101 .ok .ok ok, soloTick 2 101 .ok .ok ok,
      soloTick 3 102 .ok .ok ok] := by
    intro j hj
    simp only [List.mem_cons, List.not_mem_nil, or_false] at hj
    rcases hj with rfl | rfl | rfl <;> rfl
  exact ((change_stream_exact start_solo hreq hclock rfl hall).1 "AAPL").1.trans
    (by decide +kernel)

/-! ## Lost publications -/

/-- A client subscribed to every ticker, started from the service's prices. -/
def StartsFrom (d : Dict Ticker (WatchlistItem P)) (svc : PriceService P) : Prop :=
  ∀ t ∈ svc.tickerToId.keys, ∃ item, d.get? t = some item ∧
    item.price = svc.lastPublished.get? t ∧
    item.effectiveAt = (svc.effectiveAt.get? t).map toIso

/-- **A subscriber follows the service exactly where nothing lost is outstanding.**  After any tick
of a lifetime, in particular after one in which Centrifugo rejected nothing, the client holds the
current price of every ticker the tick priced if and only if, for each of them, the price
Centrifugo accepted last (or the one the client started from) is the price just read. -/
theorem subscriber_follows_iff (hstart : start settings stores read = (stores₀, some svc₀))
    (hreq : ∀ j ∈ is ++ [i], svc₀.Requested j)
    (hclock : ClockIncreasing stores (is ++ [i])) (hd : StartsFrom d svc₀)
    (hread : (svc₀.runTicks stores₀ is).1.reading i = some prices) :
    (∀ t p, prices.get? t = some p →
      ((applyEvents d (svc₀.deliveries stores₀ (is ++ [i])).flatten).get? t).bind
        WatchlistItem.price = some p) ↔
    ∀ t p, prices.get? t = some p → TickerState.lastAccepted (svc₀.lastPublished.get? t)
      (svc₀.inputsAt stores₀ t (is ++ [i])) = some p := by
  have hsound := (start_service hstart).2.1
  have hreq₁ : ∀ j ∈ is, svc₀.Requested j := fun j hj => hreq j (List.mem_append_left _ hj)
  obtain ⟨-, hids₁, hsound₁⟩ := runTicks_service hsound stores₀ hreq₁
  have hpriced := reading_requested hsound₁ ((hreq i (by simp)).congr hids₁) hread
  rw [hids₁] at hpriced
  -- one ticker: the client shows its last accepted change
  have hclient : ∀ t p, prices.get? t = some p →
      ((applyEvents d (svc₀.deliveries stores₀ (is ++ [i])).flatten).get? t).bind
        WatchlistItem.price = TickerState.lastAccepted (svc₀.lastPublished.get? t)
          (svc₀.inputsAt stores₀ t (is ++ [i])) := by
    intro t p hp
    have hin := hpriced t (Dict.mem_keys_iff.2 ⟨p, hp⟩)
    obtain ⟨id, hid⟩ := Dict.mem_keys_iff.1 hin
    obtain ⟨item, hitem, hprice, hstamp⟩ := hd t hin
    rw [get?_applyEvents, hitem, Option.map_some, Option.bind_some,
      (view_runTicks hsound stores₀ hreq (hsound.idNames hid)).2]
    rw [TickerState.lastAccepted]
    refine TickerState.price_run_accepted ?_ hprice ?_ (by rw [map_now_inputsAt]; exact hclock.ticks)
    · rfl
    intro x hx
    obtain ⟨j, hj, hjx⟩ := exists_now_inputsAt hx
    have hbefore := view_start_before hstart hclock id t hj
    -- what it starts from is older than any tick, so no accepted event is dropped
    cases hsince : svc₀.effectiveAt.get? t with
    | none => exact Or.inl (by rw [hstamp, hsince, Option.map_none])
    | some since =>
      exact Or.inr ⟨since, by rw [hstamp, hsince, Option.map_some],
        hjx ▸ hbefore.since since hsince⟩
  constructor
  · intro h t p hp
    rw [← hclient t p hp]
    exact h t p hp
  · intro h t p hp
    rw [hclient t p hp]
    exact h t p hp

/-- The client of the one-ticker service, before the first price. -/
def soloClient : Dict Ticker (WatchlistItem ℕ) :=
  ⟨[("AAPL", ⟨1, "AAPL", "Apple Inc.", none, none, none, none⟩)], by simp⟩

lemma startsFrom_soloClient : StartsFrom soloClient soloService := by
  intro t ht
  have hkeys : soloService.tickerToId.keys = ["AAPL"] := by decide
  obtain rfl : t = "AAPL" := by simpa [hkeys] using ht
  exact ⟨⟨1, "AAPL", "Apple Inc.", none, none, none, none⟩, by decide, by decide, by decide⟩

/-- After a first tick that is accepted, the client holds its price. -/
theorem subscriber_follows_first_tick :
    ((applyEvents soloClient (soloService.deliveries soloStores
      ([] ++ [soloTick 1 101 .ok .ok (.replied fun _ => false)])).flatten).get? "AAPL").bind
        WatchlistItem.price = some 101 := by
  have hreq : ∀ j ∈ [] ++ [soloTick 1 101 .ok .ok (.replied fun _ => false)],
      soloService.Requested j := by
    intro j hj
    obtain rfl := List.mem_singleton.1 hj
    exact requested_soloTick _ _ _ _ _
  have hclock : ClockIncreasing (Stores.fresh : Stores ℕ)
      ([] ++ [soloTick 1 101 .ok .ok (.replied fun _ => false)]) :=
    ⟨List.pairwise_singleton _ _, fun _ _ id row h => absurd h (by simp [Stores.fresh])⟩
  have hread : (soloService.runTicks soloStores []).1.reading
      (soloTick 1 101 .ok .ok (.replied fun _ => false)) = some (soloPrices 101) := by
    decide +kernel
  refine (subscriber_follows_iff start_solo hreq hclock startsFrom_soloClient hread).2 ?_ "AAPL"
    101 (by decide)
  intro t p hp
  obtain rfl : t = "AAPL" := by
    by_contra hne
    have hnone : (soloPrices 101).get? t = none := by
      rw [Dict.get?_eq_none_iff]
      simpa [soloPrices, Dict.keys] using hne
    rw [hnone] at hp
    exact absurd hp (by simp)
  rw [← hp]
  decide +kernel

/-- **A dropped publication is not superseded.**  The batch of the first tick fails; the second
tick reads the same price, reaches Centrifugo and rejects nothing, and the client still holds no
price. -/
theorem dropped_publication_stays_dropped :
    let dropped := soloTick 1 101 .ok .ok (.failed fun _ => false)
    let quiet := soloTick 2 101 .ok .ok (.replied fun _ => false)
    start soloSettings .fresh soloRead = (soloStores, some soloService) ∧
    (∀ j ∈ [dropped] ++ [quiet], soloService.Requested j) ∧
    ClockIncreasing (Stores.fresh : Stores ℕ) ([dropped] ++ [quiet]) ∧
    soloSettings.transport = .push ∧ quiet.publish = .replied (fun _ => false) ∧
    StartsFrom soloClient soloService ∧
    (soloService.runTicks soloStores [dropped]).1.reading quiet = some (soloPrices 101) ∧
    ((applyEvents soloClient (soloService.deliveries soloStores
      ([dropped] ++ [quiet])).flatten).get? "AAPL").bind WatchlistItem.price ≠
        (soloPrices 101).get? "AAPL" := by
  intro dropped quiet
  refine ⟨start_solo, ?_, ⟨by decide, ?_⟩, rfl, rfl, startsFrom_soloClient, by decide +kernel,
    by decide +kernel⟩
  · intro j hj
    simp only [List.singleton_append, List.mem_cons, List.not_mem_nil, or_false] at hj
    rcases hj with rfl | rfl <;> exact requested_soloTick _ _ _ _ _
  · exact fun _ _ id row h => absurd h (by simp [Stores.fresh])

end PriceService
end TickerWatch
