import TickerWatch.Client.UsePushPrices

/-!
# The drain does not depend on the order of the buffer

Events reach the buffer in whatever order the broker delivered them, some of them twice.  The loop
of the drain leaves at every item the newest of the item and its events (`Newest`), which names no
order, and reports the items that have a newer event.

No stamp of a snapshot is the empty text: the server writes null or what `to_iso` gives
(`toIso_ne_empty`).
-/

namespace TickerWatch

universe u

variable {P : Type u}

namespace WatchlistItem

/-- The item with the price, stamp and source of an event. -/
def updated (it : WatchlistItem P) (ev : Publication P) : WatchlistItem P :=
  { it with
    price := some ev.price
    effectiveAt := some ev.effectiveAt
    source := some ev.source }

/-- The event is newer than the item; an item without a stamp is older than every event. -/
def OlderThan (it : WatchlistItem P) (ev : Publication P) : Prop :=
  ∀ since ∈ it.effectiveAt, since < ev.effectiveAt

/-- `out` is the newest of an item and its events: the item, if no event of it is newer, else the
item with what its newest event says. -/
def Newest (it : WatchlistItem P) (evs : List (Publication P)) (out : WatchlistItem P) : Prop :=
  out = it ∧ (∀ ev ∈ evs, ev.ticker = it.ticker → ¬ it.OlderThan ev) ∨
  ∃ ev ∈ evs, ev.ticker = it.ticker ∧ it.OlderThan ev ∧ out = it.updated ev ∧
    ∀ ev' ∈ evs, ev'.ticker = it.ticker → ev'.effectiveAt ≤ ev.effectiveAt

/-- The stamp of an item strictly advanced. -/
def Advanced (it out : WatchlistItem P) : Prop :=
  ∃ stamp ∈ out.effectiveAt, ∀ since ∈ it.effectiveAt, since < stamp

variable {it out : WatchlistItem P} {ev : Publication P} {evs evs' : List (Publication P)}

lemma apply_eq_updated (h : it.supersedes ev = false) : it.apply ev = it.updated ev :=
  apply_of_not_supersedes h

/-- An item whose stamp is not empty lets through what is newer. -/
lemma supersedes_eq_false_iff (h : it.effectiveAt ≠ some "") :
    it.supersedes ev = false ↔ it.OlderThan ev := by
  unfold supersedes OlderThan luaGt
  cases hsince : it.effectiveAt with
  | none => simp
  | some since =>
    have hne : since ≠ "" := fun heq => h (hsince.trans (congrArg some heq))
    simp [hne]

/-- **One more event** makes the newest of an item and its events the newest with that one. -/
lemma Newest.apply (h : it.Newest evs out) (hit : it.effectiveAt ≠ some "")
    (hev : ev.ticker = it.ticker) : it.Newest (evs ++ [ev]) (out.apply ev) := by
  rcases h with ⟨rfl, hnone⟩ | ⟨ev₀, hmem, ht₀, holder, rfl, hmax⟩
  -- no event so far was newer than the item, so it is as it was
  · cases hold : out.supersedes ev with
    | true =>
      rw [apply_of_supersedes hold]
      refine Or.inl ⟨rfl, fun ev' hev' ht' hnew => ?_⟩
      rcases List.mem_append.1 hev' with hin | hlast
      · exact hnone ev' hin ht' hnew
      · obtain rfl := List.mem_singleton.1 hlast
        exact Bool.false_ne_true (((supersedes_eq_false_iff hit).2 hnew).symm.trans hold)
    | false =>
      have hnew := (supersedes_eq_false_iff hit).1 hold
      rw [apply_eq_updated hold]
      refine Or.inr ⟨ev, List.mem_append_right _ List.mem_cons_self, hev, hnew, rfl, ?_⟩
      intro ev' hev' ht'
      rcases List.mem_append.1 hev' with hin | hlast
      · -- an event that is not newer than the item is not newer than one that is
        have hnot := hnone ev' hin ht'
        simp only [OlderThan, not_forall, not_lt] at hnot
        obtain ⟨since, hsince, hle⟩ := hnot
        exact hle.trans (hnew since hsince).le
      · obtain rfl := List.mem_singleton.1 hlast
        exact le_rfl
  -- `ev₀` is the newest so far, and the item shows it
  · cases hold : (it.updated ev₀).supersedes ev with
    | true =>
      rw [apply_of_supersedes hold]
      refine Or.inr ⟨ev₀, List.mem_append_left _ hmem, ht₀, holder, rfl, fun ev' hev' ht' => ?_⟩
      rcases List.mem_append.1 hev' with hin | hlast
      · exact hmax ev' hin ht'
      · obtain rfl := List.mem_singleton.1 hlast
        obtain ⟨v, hv, hle⟩ := supersedes_iff.1 hold
        obtain ⟨stamp, hstamp, hsome⟩ := Option.bind_eq_some_iff.1 hv
        obtain rfl : ev₀.effectiveAt = stamp := Option.some.inj hstamp
        split at hsome
        · exact absurd hsome (by simp)
        · obtain rfl := Option.some.inj hsome
          exact hle
    | false =>
      -- an event that is let through is not older than `ev₀`, whose stamp is not empty
      have hle : ev₀.effectiveAt ≤ ev.effectiveAt := by
        by_contra hlt
        have hne : ev₀.effectiveAt ≠ "" := by
          intro heq
          exact hlt (heq ▸ empty_le ev.effectiveAt)
        have hstamp : (it.updated ev₀).stamped =
            some (ev₀.effectiveAt, some ev₀.price, some ev₀.source) := by
          simp [stamped, updated, hne]
        exact Bool.false_ne_true
          (hold.symm.trans (supersedes_iff.2 ⟨_, hstamp, (not_le.1 hlt).le⟩))
      rw [apply_eq_updated hold]
      refine Or.inr ⟨ev, List.mem_append_right _ List.mem_cons_self, hev,
        fun since hsince => (holder since hsince).trans_le hle, rfl, fun ev' hev' ht' => ?_⟩
      rcases List.mem_append.1 hev' with hin | hlast
      · exact (hmax ev' hin ht').trans hle
      · obtain rfl := List.mem_singleton.1 hlast
        exact le_rfl

lemma Newest.skip (h : it.Newest evs out) (hev : ev.ticker ≠ it.ticker) :
    it.Newest (evs ++ [ev]) out := by
  have hback : ∀ ev' ∈ evs ++ [ev], ev'.ticker = it.ticker → ev' ∈ evs := by
    intro ev' hev' ht'
    rcases List.mem_append.1 hev' with hin | hlast
    · exact hin
    · exact absurd (List.mem_singleton.1 hlast ▸ ht') hev
  rcases h with ⟨rfl, hnone⟩ | ⟨ev₀, hmem, ht₀, holder, rfl, hmax⟩
  · exact Or.inl ⟨rfl, fun ev' hev' ht' => hnone ev' (hback ev' hev' ht') ht'⟩
  · exact Or.inr ⟨ev₀, List.mem_append_left _ hmem, ht₀, holder, rfl,
      fun ev' hev' ht' => hmax ev' (hback ev' hev' ht') ht'⟩

/-- When a stamp determines the event of a ticker, the newest depends on which events there are, not
on their order or number. -/
lemma Newest.unique {out' : WatchlistItem P} (h : it.Newest evs out) (h' : it.Newest evs' out')
    (hdistinct : ∀ a ∈ evs, ∀ b ∈ evs, a.ticker = b.ticker → a.effectiveAt = b.effectiveAt → a = b)
    (hsame : ∀ ev, ev ∈ evs' ↔ ev ∈ evs) : out = out' := by
  rcases h with ⟨rfl, hnone⟩ | ⟨a, ha, hta, hna, rfl, hmaxa⟩ <;>
    rcases h' with ⟨rfl, hnone'⟩ | ⟨b, hb, htb, hnb, rfl, hmaxb⟩
  · rfl
  · exact absurd hnb (hnone b ((hsame b).1 hb) htb)
  · exact absurd hna (hnone' a ((hsame a).2 ha) hta)
  · have hle := hmaxa b ((hsame b).1 hb) htb
    have hge := hmaxb a ((hsame a).2 ha) hta
    rw [hdistinct a ha b ((hsame b).1 hb) (hta.trans htb.symm) (le_antisymm hge hle)]

/-- The stamp of the newest advanced exactly if some event of the item is newer. -/
lemma Newest.advanced_iff (h : it.Newest evs out) :
    it.Advanced out ↔ ∃ ev ∈ evs, ev.ticker = it.ticker ∧ it.OlderThan ev := by
  rcases h with ⟨rfl, hnone⟩ | ⟨ev, hmem, ht, holder, rfl, -⟩
  · constructor
    · rintro ⟨stamp, hstamp, hlt⟩
      exact absurd (hlt stamp hstamp) (lt_irrefl _)
    · rintro ⟨ev, hmem, ht, hnew⟩
      exact absurd hnew (hnone ev hmem ht)
  · exact ⟨fun _ => ⟨ev, hmem, ht, holder⟩, fun _ => ⟨ev.effectiveAt, rfl, holder⟩⟩

lemma Newest.ticker (h : it.Newest evs out) : out.ticker = it.ticker := by
  rcases h with ⟨rfl, -⟩ | ⟨ev, -, -, -, rfl, -⟩ <;> rfl

lemma Newest.id (h : it.Newest evs out) : out.id = it.id := by
  rcases h with ⟨rfl, -⟩ | ⟨ev, -, -, -, rfl, -⟩ <;> rfl

lemma newest_nil (it : WatchlistItem P) : it.Newest [] it :=
  Or.inl ⟨rfl, fun _ h => absurd h List.not_mem_nil⟩

end WatchlistItem

/-! ## The applied state -/

variable {d : Dict Ticker (WatchlistItem P)} {evs evs' : List (Publication P)} {ev : Publication P}
  {t : Ticker} {it : WatchlistItem P}

lemma keys_applyEvent (d : Dict Ticker (WatchlistItem P)) (ev : Publication P) :
    (applyEvent d ev).1.keys = d.keys := by
  unfold applyEvent
  split
  · rfl
  · rename_i cur hcur
    split
    · rfl
    · exact Dict.keys_set_of_mem _ (Dict.mem_keys_iff.2 ⟨cur, hcur⟩)

lemma keys_applyEvents (d : Dict Ticker (WatchlistItem P)) (evs : List (Publication P)) :
    (applyEvents d evs).keys = d.keys := by
  induction evs generalizing d with
  | nil => rfl
  | cons ev evs ih =>
    rw [applyEvents, List.foldl_cons, ← applyEvents, ih, keys_applyEvent]

lemma applyEvents_concat (d : Dict Ticker (WatchlistItem P)) (evs : List (Publication P))
    (ev : Publication P) :
    applyEvents d (evs ++ [ev]) = (applyEvent (applyEvents d evs) ev).1 := by
  rw [applyEvents, List.foldl_append]
  rfl

/-- Every item is kept under its own ticker, and none has the empty text for a stamp. -/
structure WellStamped (d : Dict Ticker (WatchlistItem P)) : Prop where
  ticker : ∀ t it, d.get? t = some it → it.ticker = t
  stamp : ∀ t it, d.get? t = some it → it.effectiveAt ≠ some ""

/-- **A stream of events leaves the newest at every item.** -/
theorem newest_applyEvents (hd : WellStamped d) (evs : List (Publication P))
    (hit : d.get? t = some it) :
    ∃ out, (applyEvents d evs).get? t = some out ∧ it.Newest evs out := by
  have ht := hd.ticker t it hit
  induction evs using List.reverseRecOn with
  | nil => exact ⟨it, hit, it.newest_nil⟩
  | append_singleton evs ev ih =>
    obtain ⟨out, hout, hnewest⟩ := ih
    rw [applyEvents_concat, get?_applyEvent, hout]
    by_cases hev : ev.ticker = t
    · rw [if_pos hev]
      exact ⟨out.apply ev, rfl, hnewest.apply (hd.stamp t it hit) (hev.trans ht.symm)⟩
    · rw [if_neg hev]
      exact ⟨out, rfl, hnewest.skip fun heq => hev (heq.trans ht)⟩

/-! ## What the drain reports -/

lemma drain_concat (d : Dict Ticker (WatchlistItem P)) (evs : List (Publication P))
    (ev : Publication P) :
    (PushClient.drain d (evs ++ [ev])).2 =
      (PushClient.drain d evs).2 ++ (applyEvent (applyEvents d evs) ev).2.toList := by
  rw [← PushClient.drain_fst, PushClient.drain, List.foldl_append]
  rfl

lemma applyEvent_eq_some_iff {id : SecurityId} :
    (applyEvent d ev).2 = some id ↔
      ∃ cur, d.get? ev.ticker = some cur ∧ cur.supersedes ev = false ∧ cur.id = id := by
  unfold applyEvent
  cases hcur : d.get? ev.ticker with
  | none => simp
  | some cur =>
    cases hold : cur.supersedes ev with
    | true => simp [hold]
    | false => simp [hold, WatchlistItem.apply]

/-- **The drain reports the items that have a newer event.** -/
theorem mem_drain_iff (hd : WellStamped d) (evs : List (Publication P)) (id : SecurityId) :
    id ∈ (PushClient.drain d evs).2 ↔ ∃ t it, d.get? t = some it ∧ it.id = id ∧
      ∃ ev ∈ evs, ev.ticker = it.ticker ∧ it.OlderThan ev := by
  induction evs using List.reverseRecOn with
  | nil => simp [PushClient.drain]
  | append_singleton evs ev ih =>
    rw [drain_concat, List.mem_append, Option.mem_toList, ih, applyEvent_eq_some_iff]
    constructor
    -- either an earlier event was let through at the item, or the last one is
    · rintro (⟨t, it, hit, hid, ev', hmem, ht', hnew⟩ | ⟨cur, hcur, hlet, hid⟩)
      · exact ⟨t, it, hit, hid, ev', List.mem_append_left _ hmem, ht', hnew⟩
      · have hkey : ev.ticker ∈ d.keys := by
          rw [← keys_applyEvents d evs]
          exact Dict.mem_keys_iff.2 ⟨cur, hcur⟩
        obtain ⟨it, hit⟩ := Dict.mem_keys_iff.1 hkey
        obtain ⟨out, hout, hnewest⟩ := newest_applyEvents hd evs hit
        obtain rfl := Option.some.inj (hout.symm.trans hcur)
        refine ⟨ev.ticker, it, hit, hnewest.id.symm.trans hid, ?_⟩
        rcases hnewest with ⟨rfl, -⟩ | ⟨ev₀, hmem, ht₀, hnew, -, -⟩
        · exact ⟨ev, List.mem_append_right _ List.mem_cons_self, (hd.ticker _ _ hit).symm,
            (WatchlistItem.supersedes_eq_false_iff (hd.stamp _ _ hit)).1 hlet⟩
        · exact ⟨ev₀, List.mem_append_left _ hmem, ht₀, hnew⟩
    · rintro ⟨t, it, hit, hid, ev', hmem, ht', hnew⟩
      rcases List.mem_append.1 hmem with hin | hlast
      · exact Or.inl ⟨t, it, hit, hid, ev', hin, ht', hnew⟩
      · obtain rfl := List.mem_singleton.1 hlast
        obtain ⟨out, hout, hnewest⟩ := newest_applyEvents hd evs hit
        have ht : ev'.ticker = t := ht'.trans (hd.ticker t it hit)
        -- if no event moved the item before, the last one does
        rcases hnewest with ⟨rfl, -⟩ | ⟨ev₀, hmem₀, ht₀, hnew₀, -, -⟩
        · refine Or.inr ⟨out, ht ▸ hout, ?_, hid⟩
          exact (WatchlistItem.supersedes_eq_false_iff (hd.stamp t out hit)).2 hnew
        · exact Or.inl ⟨t, it, hit, hid, ev₀, hmem₀, ht₀, hnew₀⟩

/-! ## The snapshot and its drain -/

namespace PushClient

variable {items : List (WatchlistItem P)}

lemma get?_ofItems (hticker : (items.map WatchlistItem.ticker).Nodup) (h : it ∈ items) :
    (ofItems items).get? it.ticker = some it := by
  refine Dict.get?_ofList_of_unique (List.mem_map.2 ⟨it, h, rfl⟩) fun it' h' => ?_
  obtain ⟨it'', hmem, heq⟩ := List.mem_map.1 h'
  obtain ⟨ht, rfl⟩ := Prod.mk.inj heq
  exact List.inj_on_of_nodup_map hticker hmem h ht

lemma wellStamped_ofItems (hstamp : ∀ it ∈ items, it.effectiveAt ≠ some "") :
    WellStamped (ofItems items) :=
  ⟨fun _ _ h => (of_get?_ofItems h).2, fun _ _ h => hstamp _ (of_get?_ofItems h).1⟩

/-- **Draining does not depend on the order of the buffer.**  Over a snapshot with distinct tickers
and events whose stamps are distinct per ticker, every list of the same events, in any order and
with any repetition, leaves the same applied state: at every item the newest of it and its events,
and no other item.  It reports the items whose stamp advanced. -/
theorem drain_order_independent (items : List (WatchlistItem P)) (evs evs' : List (Publication P))
    (hticker : (items.map WatchlistItem.ticker).Nodup)
    (hstamp : ∀ it ∈ items, it.effectiveAt ≠ some "")
    (hdistinct : evs.Pairwise fun a b => a.ticker = b.ticker → a.effectiveAt ≠ b.effectiveAt)
    (hsame : ∀ ev, ev ∈ evs' ↔ ev ∈ evs) :
    (drain (ofItems items) evs').1 = (drain (ofItems items) evs).1 ∧
    (∀ it ∈ items, ∃ out, (drain (ofItems items) evs').1.get? it.ticker = some out ∧
      it.Newest evs out) ∧
    (∀ t, t ∈ (drain (ofItems items) evs').1.keys ↔ ∃ it ∈ items, it.ticker = t) ∧
    ∀ id, id ∈ (drain (ofItems items) evs').2 ↔ ∃ it ∈ items, it.id = id ∧
      ∃ out, (drain (ofItems items) evs').1.get? it.ticker = some out ∧ it.Advanced out := by
  have hd := wellStamped_ofItems hstamp
  -- two events of one ticker with one stamp are the same event
  have hunique : ∀ a ∈ evs, ∀ b ∈ evs, a.ticker = b.ticker → a.effectiveAt = b.effectiveAt →
      a = b := by
    have hdet : evs.Pairwise fun a b => a.ticker = b.ticker → a.effectiveAt = b.effectiveAt →
        a = b := hdistinct.imp fun h ht hs => absurd hs (h ht)
    exact List.Pairwise.forall_of_forall_of_flip (fun _ _ _ _ => rfl) hdet
      (hdet.imp fun h ht hs => (h ht.symm hs.symm).symm)
  -- the result at an item is fixed by which events there are
  have hnewest : ∀ it ∈ items, ∃ out, (applyEvents (ofItems items) evs').get? it.ticker = some out ∧
      (applyEvents (ofItems items) evs).get? it.ticker = some out ∧ it.Newest evs out ∧
      it.Newest evs' out := by
    intro it hit
    obtain ⟨out, hout, hn⟩ := newest_applyEvents hd evs (get?_ofItems hticker hit)
    obtain ⟨out', hout', hn'⟩ := newest_applyEvents hd evs' (get?_ofItems hticker hit)
    obtain rfl := hn.unique hn' hunique hsame
    exact ⟨out, hout', hout, hn, hn'⟩
  have hkeys : ∀ t, t ∈ (ofItems items).keys ↔ ∃ it ∈ items, it.ticker = t := by
    intro t
    rw [← Dict.contains_iff, contains_ofItems]
  rw [drain_fst, drain_fst]
  refine ⟨Dict.ext_get? ?_ fun t ht => ?_, fun it hit => ?_, fun t => ?_, fun id => ?_⟩
  · rw [keys_applyEvents, keys_applyEvents]
  · rw [keys_applyEvents, hkeys] at ht
    obtain ⟨it, hit, rfl⟩ := ht
    obtain ⟨out, hout', hout, -⟩ := hnewest it hit
    rw [hout', hout]
  · obtain ⟨out, hout', -, hn, -⟩ := hnewest it hit
    exact ⟨out, hout', hn⟩
  · rw [keys_applyEvents, hkeys]
  · rw [mem_drain_iff hd]
    constructor
    -- an item is reported when some event is newer than it, which depends on the events only
    · rintro ⟨t, it, hget, hid, hnew⟩
      obtain ⟨hit, rfl⟩ := of_get?_ofItems hget
      obtain ⟨out, hout', -, -, hn'⟩ := hnewest it hit
      exact ⟨it, hit, hid, out, hout', hn'.advanced_iff.2 hnew⟩
    · rintro ⟨it, hit, hid, out, hout, hadv⟩
      obtain ⟨out', hout', -, -, hn'⟩ := hnewest it hit
      obtain rfl := Option.some.inj (hout'.symm.trans hout)
      exact ⟨it.ticker, it, get?_ofItems hticker hit, hid, hn'.advanced_iff.1 hadv⟩

/-- A snapshot of a security without a price and one with a price. -/
def pairItems : List (WatchlistItem ℕ) :=
  [⟨1, "A", "Alpha", none, none, none, none⟩,
   ⟨2, "B", "Beta", none, some 20, some "2026-09-21T12:00:05.000000Z", some "api"⟩]

/-- An older and a newer event of `A`, and one of `B` that its snapshot supersedes. -/
def pairEvents : List (Publication ℕ) :=
  [⟨1, "A", 10, "2026-09-21T12:00:00.000000Z", "api"⟩,
   ⟨1, "A", 11, "2026-09-21T12:00:05.000000Z", "api"⟩,
   ⟨2, "B", 19, "2026-09-21T12:00:00.000000Z", "api"⟩]

/-- The events the other way round, and once more. -/
theorem drain_pairEvents_reversed :
    (drain (ofItems pairItems) (pairEvents.reverse ++ pairEvents.reverse)).1 =
      (drain (ofItems pairItems) pairEvents).1 ∧
    ∀ id, id ∈ (drain (ofItems pairItems) (pairEvents.reverse ++ pairEvents.reverse)).2 ↔
      ∃ it ∈ pairItems, it.id = id ∧ ∃ out,
        (drain (ofItems pairItems) (pairEvents.reverse ++ pairEvents.reverse)).1.get? it.ticker =
          some out ∧ it.Advanced out := by
  have h := drain_order_independent pairItems pairEvents (pairEvents.reverse ++ pairEvents.reverse)
    (by decide) (by decide) (by decide) (by simp)
  exact ⟨h.1, h.2.2.2⟩

end PushClient
end TickerWatch
