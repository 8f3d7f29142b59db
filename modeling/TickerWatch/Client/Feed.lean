import TickerWatch.Client.PushWorld
import TickerWatch.PriceService.Lifetime

/-!
# Where the ticks come from

A tick of the price service whose batch Centrifugo accepts is a tick of the push world: it publishes
the same events on every channel, and what the service remembers of a ticker is the quote
(`tick_feeds`).
-/

namespace TickerWatch

universe u

namespace PriceService

variable {P : Type u} [DecidableEq P] {svc : PriceService P} {i : TickInput P} {t : Ticker}
  {id : SecurityId}

/-- What a tick finds changed. -/
def changeSet (svc : PriceService P) (i : TickInput P) : Dict Ticker (Change P) :=
  match svc.reading i with
  | none => .empty
  | some prices =>
    (svc.changedPrices prices).mapValues fun t p => ⟨svc.idOf t, p, svc.sourceName⟩

/-- The quotes are what the service last published. -/
def Feeds (svc : PriceService P) (prices : Dict Ticker (Quote P)) : Prop :=
  ∀ t, (prices.get? t).map Quote.price = svc.lastPublished.get? t ∧
    ∀ q, prices.get? t = some q → svc.effectiveAt.get? t = some q.effectiveAt

lemma get?_changeSet_none (h : (svc.inputAt i t).reading = none) :
    (svc.changeSet i).get? t = none := by
  unfold changeSet
  cases hread : svc.reading i with
  | none => exact Dict.get?_empty t
  | some prices =>
    have hp : prices.get? t = none := by
      rw [inputAt, hread] at h
      exact h
    dsimp only
    rw [Dict.get?_mapValues, get?_changedPrices_none svc hp, Option.map_none]

lemma get?_changeSet_some {p : P} (h : (svc.inputAt i t).reading = some p) :
    (svc.changeSet i).get? t = if svc.lastPublished.get? t = some p then none
      else some ⟨svc.idOf t, p, svc.sourceName⟩ := by
  obtain ⟨prices, hread, hp⟩ := Option.bind_eq_some_iff.1 h
  unfold changeSet
  rw [hread]
  dsimp only
  rw [Dict.get?_mapValues]
  split
  · rename_i hlast
    rw [get?_changedPrices_of_last hp hlast, Option.map_none]
  · rename_i hlast
    rw [get?_changedPrices_of_ne hp hlast, Option.map_some]

omit [DecidableEq P] in
lemma idOf_of_reading (hs : svc.Sound) (hi : svc.Requested i) (hkey : svc.IdNames id t) {p : P}
    (h : (svc.inputAt i t).reading = some p) : svc.idOf t = id := by
  obtain ⟨prices, hread, hp⟩ := Option.bind_eq_some_iff.1 h
  obtain ⟨id', hid⟩ := Dict.mem_keys_iff.1
    (reading_requested hs hi hread t (Dict.mem_keys_iff.2 ⟨p, hp⟩))
  rw [idOf, hid, Option.getD_some]
  exact (hkey t id' hid).2 rfl

/-- **A tick of the service is a tick of the push world.** -/
theorem tick_feeds {w : PushWorld P} (hs : svc.Sound) (hi : svc.Requested i) (stores : Stores P)
    (hpush : svc.settings.transport = .push) (hall : ∀ t, i.publish.delivers t = true)
    (hfeeds : svc.Feeds w.prices) :
    (svc.tick stores i).service.Feeds (w.tick i.now (svc.changeSet i)).prices ∧
    ∀ t, (svc.tick stores i).delivered.filter (fun m => decide (m.ticker = t)) =
      (PushWorld.publications i.now (svc.changeSet i)).filter fun m => decide (m.ticker = t) := by
  constructor
  · intro t
    obtain ⟨id, hkey⟩ := hs.exists_idNames t
    obtain ⟨hprice, hstamp⟩ := hfeeds t
    have hview := (view_tick hs stores hi hkey).1
    have hlast : (svc.tick stores i).service.lastPublished.get? t =
        ((svc.view stores id t).step id svc.sourceName (svc.inputAt i t)).last :=
      congrArg TickerState.last hview
    have hsince : (svc.tick stores i).service.effectiveAt.get? t =
        ((svc.view stores id t).step id svc.sourceName (svc.inputAt i t)).since :=
      congrArg TickerState.since hview
    rw [PushWorld.get?_prices_tick, hlast, hsince]
    cases hread : (svc.inputAt i t).reading with
    | none =>
      rw [get?_changeSet_none hread, TickerState.step_none hread]
      exact ⟨hprice, hstamp⟩
    | some p =>
      rw [get?_changeSet_some hread, TickerState.step_last hread, TickerState.step_since hread]
      -- a price that did not change keeps its stamp on both sides
      by_cases hp : svc.lastPublished.get? t = some p
      · have hv : (svc.view stores id t).last = some p := hp
        rw [if_pos hp, TickerState.stamp_of_last hv, ← hp]
        refine ⟨hprice, fun q hq => ?_⟩
        have hsame : (svc.view stores id t).since = some q.effectiveAt := hstamp q hq
        rw [hsame, Option.getD_some]
      · have hv : (svc.view stores id t).last ≠ some p := hp
        rw [if_neg hp, TickerState.stamp_of_ne hv]
        refine ⟨rfl, fun q hq => ?_⟩
        rw [← Option.some.inj hq]
        rfl
  · intro t
    obtain ⟨id, hkey⟩ := hs.exists_idNames t
    rw [(view_tick hs stores hi hkey).2, PushWorld.publications,
      Dict.filter_map_entries _ _ Publication.ticker t t fun _ _ => Iff.rfl]
    unfold TickerState.publication
    cases hread : (svc.inputAt i t).reading with
    | none =>
      rw [get?_changeSet_none hread]
      rfl
    | some p =>
      -- in push mode, when nothing is rejected, a change is delivered
      have hdelivered : (svc.inputAt i t).delivered = true := by
        rw [inputAt, hpush, hall t]
        rfl
      rw [get?_changeSet_some hread, idOf_of_reading hs hi hkey hread]
      by_cases hp : svc.lastPublished.get? t = some p
      · have hv : (svc.view stores id t).last = some p := hp
        rw [if_pos hp, hv]
        simp
      · have hv : (svc.view stores id t).last ≠ some p := hp
        simp only [if_neg hp, hv, hdelivered, TickerState.stamp_of_ne hv, ne_eq, not_false_eq_true,
          and_self, if_true]
        rfl

end PriceService
end TickerWatch
