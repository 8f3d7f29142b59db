import TickerWatch.Client.PushWorld

/-!
# Items, events and the server's quote

The quote of a ticker only moves to later stamps, so whatever stems from the server, an item of a
snapshot or a publication, is the current quote or an older one (`Genuine`).  An item that is behind
waits for the event that carries the current quote (`Awaits`), and applying that event, with any
others around it, brings the item up to date (`Awaits.foldl`).
-/

namespace TickerWatch

universe u

variable {P : Type u}

/-- A stamped value is the quote's or older. -/
def Quote.Covers (q : Quote P) (v : String × Option P × Option String) : Prop :=
  v = q.write ∨ v.1 < q.write.1

/-- A stamped value is the ticker's current quote or an older one. -/
def Past (prices : Dict Ticker (Quote P)) (t : Ticker)
    (v : String × Option P × Option String) : Prop := ∃ q, prices.get? t = some q ∧ q.Covers v

/-- What an event of a server with these prices can be. -/
def Publication.Genuine (prices : Dict Ticker (Quote P)) (ev : Publication P) : Prop :=
  ev.effectiveAt ≠ "" ∧ Past prices ev.ticker (WatchlistItem.write ev)

/-- What an item of a client of a server with these prices can be. -/
structure WatchlistItem.Genuine (prices : Dict Ticker (Quote P)) (it : WatchlistItem P) :
    Prop where
  blank : it.stamped = none → it.price = none ∧ it.effectiveAt = none
  past : ∀ v, it.stamped = some v → Past prices it.ticker v

/-- The item shows the current quote of its ticker. -/
def WatchlistItem.Current (prices : Dict Ticker (Quote P)) (it : WatchlistItem P) : Prop :=
  it.stamped = (prices.get? it.ticker).map Quote.write

/-- The item shows the current quote of its ticker, or one of the events does. -/
def WatchlistItem.Awaits (prices : Dict Ticker (Quote P)) (it : WatchlistItem P)
    (evs : List (Publication P)) : Prop :=
  it.Current prices ∨ ∃ ev ∈ evs, ev.ticker = it.ticker ∧
    (prices.get? it.ticker).map Quote.write = some (WatchlistItem.write ev)

/-! ## One item under a stream of events -/

section Item

variable {prices prices' : Dict Ticker (Quote P)} {t : Ticker} {it : WatchlistItem P}
  {evs evs' : List (Publication P)} {ev : Publication P} {q : Quote P}
  {v : String × Option P × Option String}

lemma Past.eq_of_le (h : Past prices t v) (hq : prices.get? t = some q) (hle : q.write.1 ≤ v.1) :
    v = q.write := by
  obtain ⟨q', hq', hcov⟩ := h
  obtain rfl := Option.some.inj (hq.symm.trans hq')
  exact hcov.resolve_right (not_lt.2 hle)

/-- Events that are no news to the item are not what it waits for. -/
lemma WatchlistItem.Awaits.of_upToDate (hit : it.Genuine prices) (h : it.Awaits prices evs)
    (hsub : ∀ ev ∈ evs, ev.ticker = it.ticker → ev ∈ evs' ∨ it.supersedes ev = true) :
    it.Awaits prices evs' := by
  rcases h with h | ⟨ev, hev, ht, hcur⟩
  · exact Or.inl h
  rcases hsub ev hev ht with hev' | hold
  · exact Or.inr ⟨ev, hev', ht, hcur⟩
  · obtain ⟨v, hv, hle⟩ := supersedes_iff.1 hold
    obtain ⟨q, hq, hw⟩ := Option.map_eq_some_iff.1 hcur
    refine Or.inl ?_
    rw [Current, hv, hq, Option.map_some, (hit.past v hv).eq_of_le hq (hw ▸ hle)]

lemma WatchlistItem.Awaits.mono (h : it.Awaits prices evs) (hsub : ∀ ev ∈ evs, ev ∈ evs') :
    it.Awaits prices evs' := by
  rcases h with h | ⟨ev, hev, ht, hcur⟩
  · exact Or.inl h
  · exact Or.inr ⟨ev, hsub ev hev, ht, hcur⟩

/-- Genuine events leave a genuine item genuine. -/
lemma WatchlistItem.Genuine.foldl (hit : it.Genuine prices) (hevs : ∀ ev ∈ evs, ev.Genuine prices)
    (ht : ∀ ev ∈ evs, ev.ticker = it.ticker) : (evs.foldl apply it).Genuine prices := by
  induction evs generalizing it with
  | nil => exact hit
  | cons ev evs ih =>
    have hev := hevs ev List.mem_cons_self
    refine ih ⟨fun hnone => ?_, fun v hv => ?_⟩ (fun e he => hevs e (List.mem_cons_of_mem _ he))
      fun e he => (ht e (List.mem_cons_of_mem _ he)).trans ticker_apply.symm
    · rw [stamped_apply hev.1] at hnone
      rcases Register.offer_cases .reject it.stamped (write ev) with h | ⟨h, cur, hcur, -⟩
      · exact absurd (h.symm.trans hnone) (by simp)
      · exact absurd (h.symm.trans hnone) (by simp [hcur])
    · rw [ticker_apply]
      rw [stamped_apply hev.1] at hv
      rcases Register.offer_cases .reject it.stamped (write ev) with h | ⟨h, -⟩
      · rw [← Option.some.inj (h.symm.trans hv), ← ht ev List.mem_cons_self]
        exact hev.2
      · exact hit.past v (h ▸ hv)

/-- **An item catches up** with what it waits for when the event is applied. -/
lemma WatchlistItem.Awaits.foldl (hit : it.Genuine prices)
    (hevs : ∀ ev ∈ evs, ev.Genuine prices) (ht : ∀ ev ∈ evs, ev.ticker = it.ticker)
    (h : it.Awaits prices (evs ++ evs')) : (evs.foldl apply it).Awaits prices evs' := by
  have hfold : (evs.foldl apply it).stamped =
      Register.offerAll .reject it.stamped (evs.map write) :=
    stamped_foldl fun ev hev => (hevs ev hev).1
  have hgen := hit.foldl hevs ht
  have htick : (evs.foldl apply it).ticker = it.ticker := ticker_foldl it evs
  -- the newest of what was applied is at least the current quote
  have hreach : ∀ q, prices.get? it.ticker = some q →
      (it.stamped = some q.write ∨ q.write ∈ evs.map write) →
      (evs.foldl apply it).Current prices := by
    intro q hq hin
    have hsome : ∃ out, Register.offerAll .reject it.stamped (evs.map write) = some out := by
      by_cases hnil : evs.map write = []
      · rw [hnil] at hin ⊢
        exact ⟨q.write, hin.resolve_right (by simp)⟩
      · exact Register.offerAll_isSome hnil
    obtain ⟨out, hout⟩ := hsome
    obtain ⟨-, hall, hstart⟩ := Register.offerAll_spec _ _ hout
    have hle : q.write.1 ≤ out.1 := hin.elim (hstart q.write) (hall q.write)
    have hpast := hgen.past out (hfold.trans hout)
    rw [htick] at hpast
    rw [Current, htick, hq, hfold, hout, hpast.eq_of_le hq hle, Option.map_some]
  rcases h with h | ⟨ev, hev, hevt, hcur⟩
  · cases hq : prices.get? it.ticker with
    | some q =>
      refine Or.inl (hreach q hq (Or.inl ?_))
      rw [Current, hq] at h
      exact h
    | none =>
      -- without a quote there is no genuine event of the ticker
      have hnil : evs = [] := by
        refine List.eq_nil_iff_forall_not_mem.2 fun ev hev => ?_
        obtain ⟨q, hq', -⟩ := (hevs ev hev).2
        rw [ht ev hev, hq] at hq'
        exact absurd hq' (by simp)
      subst hnil
      exact Or.inl h
  · obtain ⟨q, hq, hw⟩ := Option.map_eq_some_iff.1 hcur
    rcases List.mem_append.1 hev with hev | hev
    · exact Or.inl (hreach q hq (Or.inr (hw ▸ List.mem_map_of_mem hev)))
    · exact Or.inr ⟨ev, hev, hevt.trans htick.symm, by rw [htick]; exact hcur⟩

/-- What a stream of genuine events makes of the item of a ticker. -/
lemma genuine_applyEvents {d : Dict Ticker (WatchlistItem P)}
    (hd : ∀ t it, d.get? t = some it → it.ticker = t ∧ it.Genuine prices)
    (hevs : ∀ ev ∈ evs, ev.Genuine prices) (hit : (applyEvents d evs).get? t = some it) :
    it.ticker = t ∧ it.Genuine prices ∧ ∃ cur, d.get? t = some cur ∧
      ∀ evs', cur.Awaits prices (evs ++ evs') → it.Awaits prices evs' := by
  rw [get?_applyEvents] at hit
  obtain ⟨cur, hcur, rfl⟩ := Option.map_eq_some_iff.1 hit
  obtain ⟨rfl, hgen⟩ := hd t cur hcur
  have hown : ∀ ev ∈ evs.filter fun ev => decide (ev.ticker = cur.ticker),
      ev.Genuine prices ∧ ev.ticker = cur.ticker := by
    intro ev hev
    obtain ⟨hev, ht⟩ := List.mem_filter.1 hev
    exact ⟨hevs ev hev, of_decide_eq_true ht⟩
  have hg := fun ev hev => (hown ev hev).1
  have ht := fun ev hev => (hown ev hev).2
  refine ⟨WatchlistItem.ticker_foldl _ _, hgen.foldl hg ht, cur, hcur, fun evs' hawait => ?_⟩
  refine WatchlistItem.Awaits.foldl hgen hg ht (hawait.of_upToDate hgen fun ev hev hevt => ?_)
  refine Or.inl (List.mem_append.2 ((List.mem_append.1 hev).imp_left fun hev => ?_))
  exact List.mem_filter.2 ⟨hev, decide_eq_true hevt⟩

lemma WatchlistItem.Current.fields (hit : it.Genuine prices) (h : it.Current prices) :
    it.price = (prices.get? it.ticker).map Quote.price ∧
    it.effectiveAt = (prices.get? it.ticker).map fun q => toIso q.effectiveAt := by
  rw [Current] at h
  cases hq : prices.get? it.ticker with
  | none =>
    rw [hq] at h
    exact hit.blank h
  | some q =>
    rw [hq, Option.map_some, stamped] at h
    obtain ⟨since, heff, hsome⟩ := Option.bind_eq_some_iff.1 h
    split at hsome
    · exact absurd hsome (by simp)
    · obtain ⟨rfl, hprice, -⟩ := by simpa [Quote.write] using hsome
      exact ⟨hprice, heff⟩

end Item

end TickerWatch
