import TickerWatch.Client.Freshness

/-!
# The connect gap

`usePushPrices.js` states its rule first: subscribe, then take the snapshot, because the other order
"would drop any update landing in the gap".  `resync` takes the snapshot first and subscribes to
what it finds afterwards.
-/

namespace TickerWatch

universe u

namespace PushWorld

variable {P : Type u} {w w' : PushWorld P} {prices prices' : Dict Ticker (Quote P)}
  {now : Instant} {changed : Dict Ticker (Change P)} {t : Ticker} {it : WatchlistItem P}
  {items : List (WatchlistItem P)} {evs evs' : List (Publication P)} {ev : Publication P}
  {r : ℕ} {whole : Bool}

/-- The request is not one whose snapshot has lost an update. -/
def isWhole (w : PushWorld P) (request : ℕ) : Bool :=
  match w.requests.get? request with
  | some (.served _ whole) => whole
  | _ => true

/-- No update is lost to the client: a tick does not publish for a displayed ticker whose channel is
not established, and no snapshot is applied that has lost an update since it was computed. -/
def Gapless (w : PushWorld P) : PushEvent P → Prop
  | .tick _ changed => w.resynced = true → ∀ t ∈ changed.keys,
      w.client.byTicker.contains t = true → w.established.contains t = true
  | .respond request => w.connected = true → w.isWhole request = true
  | _ => True

instance (w : PushWorld P) (e : PushEvent P) : Decidable (w.Gapless e) :=
  match e with
  | .tick _ changed => inferInstanceAs (Decidable (w.resynced = true → ∀ t ∈ changed.keys,
      w.client.byTicker.contains t = true → w.established.contains t = true))
  | .respond request => inferInstanceAs (Decidable (w.connected = true → w.isWhole request = true))
  | .mount | .cleanup | .connected | .disconnected | .established _ | .deliver | .join _
  | .leave _ | .refresh | .serve _ | .fail .. => inferInstanceAs (Decidable True)

/-- A resync has completed without error and none has been started since, every subscription is
established and every message is delivered. -/
def Quiescent (w : PushWorld P) : Prop :=
  w.resynced = true ∧ (∀ t ∈ w.client.subs, w.established.contains t = true) ∧ w.wire = []

instance (w : PushWorld P) : Decidable w.Quiescent := inferInstanceAs (Decidable (_ ∧ _ ∧ _))

/-! ## The invariant -/

/-- What holds of the snapshots under way, the applied state and the events between the server and
the client: each of them shows a price the server had, and a snapshot computed whole lacks nothing
that is not in the buffer or on the wire. -/
structure Synchronized (w : PushWorld P) : Prop where
  clock : ∀ t q, w.prices.get? t = some q → q.effectiveAt ≤ w.clock
  client : w.connected = true → w.client.hasClient = true
  buffer : ∀ ev ∈ w.client.buffer, ev.Genuine w.prices
  wire : ∀ ev ∈ w.wire, ev.Genuine w.prices
  served : ∀ r items whole, w.requests.get? r = some (.served items whole) → ∀ it ∈ items,
    it.Genuine w.prices ∧ (whole = true → it.Awaits w.prices (w.client.buffer ++ w.wire))
  applied : ∀ t it, w.client.byTicker.get? t = some it → it.ticker = t ∧ it.Genuine w.prices
  resynced : w.resynced = true → w.connected = true ∧ w.client.buffering = false ∧
    ∀ t it, w.client.byTicker.get? t = some it → t ∈ w.client.subs ∧ it.Awaits w.prices w.wire

/-- A request that survives the loss of some events: its snapshot, and what can be said of it. -/
lemma served_of_lose (h : (w.lose evs).get? r = some (.served items whole)) :
    ∃ whole', w.requests.get? r = some (.served items whole') ∧
      (whole = true → whole' = true ∧ ∀ it ∈ items, ∀ ev ∈ evs, ev.ticker = it.ticker →
        it.supersedes ev = true) := by
  rw [lose, Dict.get?_mapValues] at h
  obtain ⟨request, hreq, heq⟩ := Option.map_eq_some_iff.1 h
  cases request with
  | sent => exact absurd heq (by simp [WatchlistRequest.lose])
  | served items' whole' =>
    rw [WatchlistRequest.lose] at heq
    obtain ⟨rfl, rfl⟩ := WatchlistRequest.served.inj heq
    refine ⟨whole', hreq, fun hw => ?_⟩
    obtain ⟨hw, hall⟩ := (Bool.and_eq_true_iff).1 hw
    refine ⟨hw, fun it hit ev hev ht => ?_⟩
    have hup := List.all_eq_true.1 (List.all_eq_true.1 hall it hit) ev hev
    simpa [ht] using hup

/-- The snapshots under way still await what they did when every event is on its way or counted as
lost. -/
lemma Synchronized.served_lose (h : w.Synchronized)
    (hsub : ∀ ev ∈ w.client.buffer ++ w.wire, ev ∈ evs' ∨ ev ∈ evs)
    (hr : (w.lose evs).get? r = some (.served items whole)) (hit : it ∈ items) :
    it.Genuine w.prices ∧ (whole = true → it.Awaits w.prices evs') := by
  obtain ⟨whole', hreq, hlost⟩ := served_of_lose hr
  obtain ⟨hgen, hawait⟩ := h.served r items whole' hreq it hit
  refine ⟨hgen, fun hwhole => ?_⟩
  obtain ⟨hwhole', hold⟩ := hlost hwhole
  refine (hawait hwhole').of_upToDate hgen fun ev hev ht => ?_
  exact (hsub ev hev).imp id fun hev => hold it hit ev hev ht

/-! ## Each step -/

lemma Synchronized.startResync (h : w.Synchronized) : w.startResync.Synchronized where
  clock := h.clock
  client := h.client
  buffer := by
    intro ev hev
    exact absurd hev List.not_mem_nil
  wire := h.wire
  served := by
    intro r items whole hr it hit
    rw [PushWorld.startResync, Dict.get?_set] at hr
    split at hr
    · exact absurd hr (by simp)
    · apply h.served_lose ?_ hr hit
      intro ev hev
      exact (List.mem_append.1 hev).symm
  applied := h.applied
  resynced := fun hres => absurd hres Bool.false_ne_true

lemma Synchronized.close (h : w.Synchronized) : w.close.Synchronized where
  clock := h.clock
  client := fun hconn => absurd hconn Bool.false_ne_true
  buffer := h.buffer
  wire := by
    intro ev hev
    exact absurd hev List.not_mem_nil
  served := by
    intro r items whole hr it hit
    apply h.served_lose ?_ hr hit
    intro ev hev
    rwa [PushWorld.close, List.append_nil, ← List.mem_append]
  applied := h.applied
  resynced := fun hres => absurd hres Bool.false_ne_true

/-- A change of the client outside its buffer and its applied state. -/
lemma Synchronized.withClient (h : w.Synchronized) (c : PushClient P)
    (hbuffer : c.buffer = w.client.buffer) (happlied : c.byTicker = w.client.byTicker)
    (hclient : w.connected = true → c.hasClient = true)
    (hres : w.resynced = true → c.buffering = false ∧ c.subs = w.client.subs) :
    { w with client := c }.Synchronized where
  clock := h.clock
  client := hclient
  buffer := by
    rw [hbuffer]
    exact h.buffer
  wire := h.wire
  served := by
    rw [hbuffer]
    exact h.served
  applied := by
    rw [happlied]
    exact h.applied
  resynced := by
    intro hw
    obtain ⟨hconn, -, hall⟩ := h.resynced hw
    obtain ⟨hbuf, hsubs⟩ := hres hw
    rw [happlied, hsubs]
    exact ⟨hconn, hbuf, hall⟩

lemma past_tick {v : String × Option P × Option String} (hclock : ∀ t q,
    w.prices.get? t = some q → q.effectiveAt ≤ w.clock) (hnow : w.clock < now)
    (h : Past w.prices t v) : Past (w.tick now changed).prices t v := by
  obtain ⟨q, hq, hcov⟩ := h
  rw [Past, get?_prices_tick]
  cases hc : changed.get? t with
  | none => exact ⟨q, by rw [hq]; rfl, hcov⟩
  | some c =>
    refine ⟨c.quote now, rfl, Or.inr ?_⟩
    have hle : v.1 ≤ q.write.1 := hcov.elim (fun heq => heq ▸ le_rfl) le_of_lt
    exact lt_of_le_of_lt hle (toIso_lt ((hclock t q hq).trans_lt hnow))

lemma genuine_tick (h : w.Synchronized) (hnow : w.clock < now) (hev : ev.Genuine w.prices) :
    ev.Genuine (w.tick now changed).prices := ⟨hev.1, past_tick h.clock hnow hev.2⟩

lemma genuine_of_mem_publications (hev : ev ∈ publications now changed) :
    ev.Genuine (w.tick now changed).prices := by
  obtain ⟨t, c, hc, rfl⟩ := mem_publications.1 hev
  refine ⟨toIso_ne_empty now, c.quote now, ?_, Or.inl rfl⟩
  have hget : changed.get? (c.publication now t).ticker = some c := hc
  rw [get?_prices_tick, hget]
  rfl

lemma item_genuine_tick (h : w.Synchronized) (hnow : w.clock < now) (hit : it.Genuine w.prices) :
    it.Genuine (w.tick now changed).prices :=
  ⟨hit.blank, fun v hv => past_tick h.clock hnow (hit.past v hv)⟩

lemma not_supersedes_of_tick (h : w.Synchronized) (hnow : w.clock < now)
    (hit : it.Genuine w.prices) (hev : ev ∈ publications now changed) :
    it.supersedes ev = false := by
  refine Bool.eq_false_iff.2 fun hold => ?_
  obtain ⟨v, hv, hle⟩ := WatchlistItem.supersedes_iff.1 hold
  obtain ⟨q, hq, hcov⟩ := hit.past v hv
  obtain ⟨t, c, -, rfl⟩ := mem_publications.1 hev
  have hvq : v.1 ≤ toIso q.effectiveAt := hcov.elim (fun heq => heq ▸ le_rfl) le_of_lt
  exact not_lt.2 (hle.trans hvq) (toIso_lt ((h.clock _ q hq).trans_lt hnow))

/-- What an item awaits after a tick that reaches it, if it changes its ticker at all. -/
lemma awaits_tick (hit : it.Awaits w.prices evs)
    (hreach : it.ticker ∈ changed.keys → w.established.contains it.ticker = true) :
    it.Awaits (w.tick now changed).prices
      (evs ++ (publications now changed).filter w.reaches) := by
  cases hc : changed.get? it.ticker with
  | none =>
    have hsame : (w.tick now changed).prices.get? it.ticker = w.prices.get? it.ticker := by
      rw [get?_prices_tick, hc]
      rfl
    rw [WatchlistItem.Awaits, WatchlistItem.Current, hsame]
    exact WatchlistItem.Awaits.mono hit fun ev hev => List.mem_append_left _ hev
  | some c =>
    have hpub : c.publication now it.ticker ∈ publications now changed :=
      mem_publications.2 ⟨_, c, hc, rfl⟩
    refine Or.inr ⟨c.publication now it.ticker, ?_, rfl, ?_⟩
    · refine List.mem_append_right _ (List.mem_filter.2 ⟨hpub, ?_⟩)
      exact hreach (Dict.mem_keys_iff.2 ⟨c, hc⟩)
    · rw [get?_prices_tick, hc]
      rfl

lemma Synchronized.tick (h : w.Synchronized) (hnow : w.clock < now)
    (hgap : w.Gapless (.tick now changed)) : (w.tick now changed).Synchronized where
  clock := by
    intro t q hq
    rw [get?_prices_tick] at hq
    cases hc : changed.get? t with
    | none =>
      rw [hc] at hq
      exact ((h.clock t q hq).trans_lt hnow).le
    | some c =>
      rw [hc] at hq
      rw [← Option.some.inj hq]
      exact le_rfl
  client := h.client
  buffer := fun ev hev => genuine_tick h hnow (h.buffer ev hev)
  wire := by
    intro ev hev
    rcases List.mem_append.1 hev with hev | hev
    · exact genuine_tick h hnow (h.wire ev hev)
    · exact genuine_of_mem_publications (List.mem_filter.1 hev).1
  served := by
    intro r items whole hr it hit
    obtain ⟨whole', hreq, hlost⟩ := served_of_lose hr
    obtain ⟨hgen, hawait⟩ := h.served r items whole' hreq it hit
    refine ⟨item_genuine_tick h hnow hgen, fun hwhole => ?_⟩
    obtain ⟨hwhole', hold⟩ := hlost hwhole
    rw [PushWorld.tick, ← List.append_assoc]
    refine awaits_tick (hawait hwhole') fun hkey => ?_
    -- otherwise the publication is lost to the snapshot, and it would have been news
    by_contra hout
    obtain ⟨c, hc⟩ := Dict.mem_keys_iff.1 hkey
    have hpub : c.publication now it.ticker ∈ publications now changed :=
      mem_publications.2 ⟨_, c, hc, rfl⟩
    have hlate := not_supersedes_of_tick h hnow hgen hpub
    have hmem : c.publication now it.ticker ∈
        (publications now changed).filter fun ev => !w.reaches ev :=
      List.mem_filter.2 ⟨hpub, by simpa [reaches, Change.publication] using hout⟩
    exact Bool.false_ne_true (hlate.symm.trans (hold it hit _ hmem rfl))
  applied := by
    intro t it hit
    obtain ⟨ht, hgen⟩ := h.applied t it hit
    exact ⟨ht, item_genuine_tick h hnow hgen⟩
  resynced := by
    intro hres
    obtain ⟨hconn, hbuf, hall⟩ := h.resynced hres
    refine ⟨hconn, hbuf, fun t it hit => ?_⟩
    obtain ⟨hsub, hawait⟩ := hall t it hit
    obtain ⟨rfl, -⟩ := h.applied t it hit
    refine ⟨hsub, awaits_tick hawait fun hkey => hgap hres it.ticker hkey ?_⟩
    exact Dict.contains_iff.2 (Dict.mem_keys_iff.2 ⟨it, hit⟩)

/-! ### A publication arrives -/

lemma Synchronized.receive {wire : List (Publication P)} (h : w.Synchronized)
    (hwire : w.wire = ev :: wire) : (w.receive ev wire).Synchronized := by
  have hev : ev.Genuine w.prices := h.wire ev (hwire ▸ List.mem_cons_self)
  have hrest : ∀ e ∈ wire, e.Genuine w.prices := by
    intro e he
    exact h.wire e (hwire ▸ List.mem_cons_of_mem _ he)
  have hlost : ∀ e ∈ w.client.buffer ++ w.wire, e ∈ w.client.buffer ++ wire ∨ e ∈ [ev] := by
    intro e he
    rw [hwire] at he
    simp only [List.mem_append, List.mem_cons] at he ⊢
    tauto
  unfold PushWorld.receive
  split
  · rename_i hsub
    cases hbuf : w.client.buffering with
    | true =>
      -- the event moves from the wire to the buffer
      rw [PushClient.onPublication_of_buffering hbuf, if_pos rfl]
      refine ⟨h.clock, h.client, ?_, hrest, ?_, h.applied, fun hres => ?_⟩
      · intro e he
        rcases List.mem_append.1 he with he | he
        · exact h.buffer e he
        · exact List.mem_singleton.1 he ▸ hev
      · intro r items whole hr it hit
        obtain ⟨hgen, hawait⟩ := h.served r items whole hr it hit
        rw [hwire] at hawait
        exact ⟨hgen, fun hwhole => (hawait hwhole).mono fun e he => by simpa using he⟩
      · exact absurd (hbuf.symm.trans (h.resynced hres).2.1) (by simp)
    | false =>
      -- the event is applied at once
      have happly : (w.client.onPublication ev).byTicker = applyEvents w.client.byTicker [ev] :=
        PushClient.byTicker_onPublication hbuf
      have hone : ∀ e ∈ [ev], e.Genuine w.prices := fun e he => List.mem_singleton.1 he ▸ hev
      refine ⟨h.clock, fun hconn => ?_, ?_, hrest, ?_, ?_, ?_⟩
      · rw [PushClient.hasClient_onPublication]
        exact h.client hconn
      · rw [PushClient.buffer_onPublication hbuf]
        exact h.buffer
      · intro r items whole hr it hit
        rw [PushClient.buffer_onPublication hbuf]
        exact h.served_lose hlost hr hit
      · intro t it hit
        rw [happly] at hit
        obtain ⟨ht, hgen, -⟩ := genuine_applyEvents h.applied hone hit
        exact ⟨ht, hgen⟩
      · intro hres
        obtain ⟨hconn, -, hall⟩ := h.resynced hres
        rw [happly, PushClient.subs_onPublication, PushClient.buffering_onPublication]
        refine ⟨hconn, hbuf, fun t it hit => ?_⟩
        obtain ⟨-, -, cur, hcur, hcatch⟩ := genuine_applyEvents h.applied hone hit
        obtain ⟨hin, hawait⟩ := hall t cur hcur
        rw [hwire] at hawait
        exact ⟨hin, hcatch wire hawait⟩
  · rename_i hsub
    refine ⟨h.clock, h.client, h.buffer, hrest, ?_, h.applied, fun hres => ?_⟩
    · exact fun r items whole hr it hit => h.served_lose hlost hr hit
    · -- the item of the ticker would be subscribed
      obtain ⟨hconn, hbuf, hall⟩ := h.resynced hres
      refine ⟨hconn, hbuf, fun t it hit => ?_⟩
      obtain ⟨hin, hawait⟩ := hall t it hit
      obtain ⟨rfl, hgen⟩ := h.applied t it hit
      rw [hwire] at hawait
      refine ⟨hin, hawait.of_upToDate hgen fun e he het => ?_⟩
      refine (List.mem_cons.1 he).elim (fun heq => ?_) Or.inl
      refine absurd ?_ hsub
      rw [← heq, het]
      simpa using hin

/-! ### A snapshot is computed and applied -/

lemma genuine_of_mem_snapshot (hit : it ∈ w.snapshot) :
    it.Genuine w.prices ∧ it.Current w.prices := by
  obtain ⟨row, -, rfl⟩ := List.mem_map.1 hit
  have hticker : ∀ p : Option (Price P), (row.toItem p).ticker = row.ticker := fun _ => rfl
  rw [WatchlistItem.Current, hticker]
  cases hq : w.prices.get? row.ticker with
  | none => exact ⟨⟨fun _ => ⟨rfl, rfl⟩, fun v hv => absurd hv (by simp [MemberRow.toItem,
      WatchlistItem.stamped])⟩, rfl⟩
  | some q =>
    have hshows : (row.toItem (some (q.toPrice row.id))).stamped = some q.write := by
      simp [MemberRow.toItem, WatchlistItem.stamped, Quote.toPrice, Quote.write, toIso_ne_empty]
    refine ⟨⟨fun hnone => ?_, fun v hv => ⟨q, hq, Or.inl ?_⟩⟩, hshows⟩
    · exact absurd (hshows.symm.trans hnone) (by simp)
    · exact (Option.some.inj (hshows.symm.trans hv)).symm

lemma Synchronized.serve (h : w.Synchronized) :
    { w with requests := w.requests.set r (.served w.snapshot true) }.Synchronized where
  clock := h.clock
  client := h.client
  buffer := h.buffer
  wire := h.wire
  served := by
    intro r' items whole hr it hit
    rw [Dict.get?_set] at hr
    split at hr
    · obtain ⟨rfl, -⟩ := WatchlistRequest.served.inj (Option.some.inj hr)
      obtain ⟨hgen, hcur⟩ := genuine_of_mem_snapshot hit
      exact ⟨hgen, fun _ => Or.inl hcur⟩
    · exact h.served r' items whole hr it hit
  applied := h.applied
  resynced := h.resynced

lemma Synchronized.respond (h : w.Synchronized)
    (hr : w.requests.get? r = some (.served items whole)) (hgap : w.Gapless (.respond r)) :
    (w.respond r items).Synchronized := by
  obtain ⟨happly, hbuf, hbuffer, hclient, hsubs⟩ := w.client.finishResync_spec items
  -- every item of the response shows a quote there was
  have hitems : ∀ t it, (PushClient.ofItems items).get? t = some it →
      it.ticker = t ∧ it.Genuine w.prices := by
    intro t it hit
    obtain ⟨hmem, ht⟩ := PushClient.of_get?_ofItems hit
    exact ⟨ht, (h.served r items whole hr it hmem).1⟩
  refine ⟨h.clock, ?_, ?_, h.wire, ?_, ?_, ?_⟩
  · exact fun hconn => hclient.trans (h.client hconn)
  · rw [PushWorld.respond, hbuffer]
    intro ev hev
    exact absurd hev List.not_mem_nil
  · intro r' items' whole' hr' it hit
    rw [PushWorld.respond, Dict.get?_erase] at hr'
    split at hr'
    · exact absurd hr' (by simp)
    · rw [PushWorld.respond, hbuffer]
      -- the buffer is drained: what it held was applied
      apply h.served_lose ?_ hr' hit
      intro ev hev
      exact (List.mem_append.1 hev).symm
  · intro t it hit
    rw [PushWorld.respond, happly] at hit
    obtain ⟨ht, hgen, -⟩ := genuine_applyEvents hitems h.buffer hit
    exact ⟨ht, hgen⟩
  · intro hconn
    refine ⟨hconn, hbuf, fun t it hit => ?_⟩
    rw [PushWorld.respond, happly] at hit
    obtain ⟨-, -, cur, hcur, hcatch⟩ := genuine_applyEvents hitems h.buffer hit
    obtain ⟨hmem, ht⟩ := PushClient.of_get?_ofItems hcur
    -- without a gap, the snapshot and the buffer together have seen every quote
    have hwhole : whole = true := by
      have hkept := hgap hconn
      rwa [isWhole, hr] at hkept
    exact ⟨(hsubs (h.client hconn) t).2 ⟨cur, hmem, ht⟩,
      hcatch w.wire ((h.served r items whole hr cur hmem).2 hwhole)⟩

/-! ## Every step -/

lemma synchronized_of_init (h : system.init w) : w.Synchronized := by
  obtain ⟨hclock, hconn, -, hwire, hclient, hreq, hres⟩ := h
  refine ⟨hclock, ?_, ?_, ?_, ?_, ?_, ?_⟩
  · exact fun hc => absurd (hconn.symm.trans hc) Bool.false_ne_true
  · simp [hclient, PushClient.initial]
  · simp [hwire]
  · simp [hreq]
  · simp [hclient, PushClient.initial]
  · exact fun hr => absurd (hres.symm.trans hr) Bool.false_ne_true

lemma synchronized_step {e : PushEvent P} (hgap : w.Gapless e) (h : w.Synchronized)
    (hstep : w.step e = some w') : w'.Synchronized := by
  cases e with
  -- a client that has yet to connect has resynced nothing
  | mount =>
    obtain ⟨hno, rfl⟩ := by simpa [step] using hstep
    refine h.withClient _ rfl rfl (fun _ => rfl) fun hres => ?_
    exact absurd (hno.symm.trans (h.client (h.resynced hres).1)) Bool.false_ne_true
  | cleanup =>
    obtain ⟨-, rfl⟩ := by simpa [step] using hstep
    rw [PushClient.cleanup_eq]
    exact h.close.withClient _ rfl rfl (fun hconn => absurd hconn Bool.false_ne_true)
      fun hres => absurd hres Bool.false_ne_true
  -- the resync it starts is under way, and only its response makes it resynced
  | connected =>
    obtain ⟨⟨hclient, -⟩, rfl⟩ := by simpa [step] using hstep
    have hstart := h.startResync
    exact ⟨hstart.clock, fun _ => hclient, hstart.buffer, hstart.wire, hstart.served,
      hstart.applied, fun hres => absurd hres Bool.false_ne_true⟩
  | disconnected =>
    obtain ⟨-, rfl⟩ := by simpa [step] using hstep
    exact h.close
  | established t =>
    obtain ⟨-, rfl⟩ := by simpa [step] using hstep
    exact ⟨h.clock, h.client, h.buffer, h.wire, h.served, h.applied, h.resynced⟩
  -- the two events where the gap opens: what is published now, and what the snapshot missed
  | tick now changed =>
    obtain ⟨hnow, rfl⟩ := by simpa [step] using hstep
    exact h.tick hnow hgap
  | deliver =>
    rw [step] at hstep
    split at hstep
    · exact absurd hstep (by simp)
    · rename_i ev wire hwire
      obtain rfl := Option.some.inj hstep
      exact h.receive hwire
  -- the server's list and the sockets' establishment are not what the client shows
  | join row =>
    rw [step] at hstep
    split at hstep <;> obtain rfl := Option.some.inj hstep
    · exact h
    · exact ⟨h.clock, h.client, h.buffer, h.wire, h.served, h.applied, h.resynced⟩
  | leave id =>
    obtain rfl := Option.some.inj hstep
    exact ⟨h.clock, h.client, h.buffer, h.wire, h.served, h.applied, h.resynced⟩
  | refresh =>
    obtain rfl := Option.some.inj hstep
    exact h.startResync
  | serve request =>
    rw [step] at hstep
    split at hstep
    · obtain rfl := Option.some.inj hstep
      exact h.serve
    · exact absurd hstep (by simp)
  | respond request =>
    rw [step] at hstep
    split at hstep
    · rename_i items whole hr
      obtain rfl := Option.some.inj hstep
      exact h.respond hr hgap
    · exact absurd hstep (by simp)
  -- a failed request leaves the client unsynchronized, which is what it was
  | fail request message =>
    rw [step] at hstep
    split at hstep
    · obtain rfl := Option.some.inj hstep
      refine Synchronized.withClient (w := { w with requests := w.requests.erase request })
        ?_ _ rfl rfl h.client fun hres => ⟨rfl, rfl⟩
      refine ⟨h.clock, h.client, h.buffer, h.wire, fun r items whole hr => ?_, h.applied,
        h.resynced⟩
      rw [Dict.get?_erase] at hr
      split at hr
      · exact absurd hr (by simp)
      · exact h.served r items whole hr
    · exact absurd hstep (by simp)

/-- **The applied state is the server's.**  In a run in which no update is lost to the client, every
displayed ticker shows the price and the stamp of its last publication, or of the snapshot if it has
not been published since, whenever the client is quiescent. -/
theorem quiescent_client_current (h : system.ReachableWhere Gapless w) (hq : w.Quiescent)
    (hit : w.client.byTicker.get? t = some it) :
    it.price = (w.prices.get? t).map Quote.price ∧
    it.effectiveAt = (w.prices.get? t).map fun q => toIso q.effectiveAt := by
  have hsync : w.Synchronized := by
    apply h.invariant fun s hs => synchronized_of_init hs
    exact fun s e s' hgap hs hstep => synchronized_step hgap hs hstep
  obtain ⟨hres, -, hwire⟩ := hq
  obtain ⟨-, -, hall⟩ := hsync.resynced hres
  obtain ⟨rfl, hgen⟩ := hsync.applied t it hit
  obtain ⟨-, hawait⟩ := hall it.ticker it hit
  rw [hwire] at hawait
  apply WatchlistItem.Current.fields hgen
  exact hawait.resolve_right (by simp)

/-- A server without prices, a user who watches AAPL, and a page that has not connected. -/
def unconnected : PushWorld ℕ where
  prices := .empty
  clock := .first
  members := [⟨1, "AAPL", "Apple Inc.", none⟩]
  connected := false
  established := []
  wire := []
  client := PushClient.initial
  requests := .empty
  nextRequest := 0
  resynced := false

lemma init_unconnected : system.init unconnected :=
  ⟨by simp [unconnected], rfl, rfl, rfl, rfl, rfl, rfl⟩

/-- A tick that finds one price. -/
def priceTick (seconds : Fin 60) (price : ℕ) : PushEvent ℕ :=
  .tick ⟨seconds * 1000000, by omega⟩ (Dict.ofList [("AAPL", ⟨1, price, "simulated"⟩)])

/-- The first connect, with a tick after its subscription is established. -/
def connects : List (PushEvent ℕ) :=
  [priceTick 1 101, .mount, .connected, .serve 0, .respond 0, .established "AAPL", priceTick 2 102,
    .deliver]

theorem quiescent_client_current_connect : ∃ w it,
    system.execWhere Gapless unconnected connects = some w ∧ w.Quiescent ∧
    w.client.byTicker.get? "AAPL" = some it ∧
    it.price = (w.prices.get? "AAPL").map Quote.price ∧ it.price = some 102 := by
  have hrun : ((system.execWhere Gapless unconnected connects).bind fun w =>
      (w.client.byTicker.get? "AAPL").map fun it => (decide w.Quiescent, it.price)) =
      some (true, some 102) := by
    decide +kernel
  obtain ⟨w, hw, hrun⟩ := Option.bind_eq_some_iff.1 hrun
  obtain ⟨it, hit, hrun⟩ := Option.map_eq_some_iff.1 hrun
  obtain ⟨hq, hprice⟩ := Prod.mk.inj hrun
  have hquiet := of_decide_eq_true hq
  have hcurrent := quiescent_client_current
    ⟨unconnected, init_unconnected, System.runWhere_of_execWhere hw⟩ hquiet hit
  exact ⟨w, it, hw, hquiet, hit, hcurrent.1, hprice⟩

/-- The first connect, with a tick between the snapshot and the subscription. -/
def connectsAcrossTick : List (PushEvent ℕ) :=
  [priceTick 1 101, .mount, .connected, .serve 0, priceTick 2 102, .respond 0, .established "AAPL"]

/-- **An update falls into the gap.**  The tick is too late for the snapshot and too early for the
subscription, and the client goes on showing the price before it. -/
theorem update_in_connect_gap : ∃ w it, system.Reachable w ∧ w.Quiescent ∧ w.requests = .empty ∧
    w.client.error = none ∧ w.client.byTicker.get? "AAPL" = some it ∧ it.price = some 101 ∧
    (w.prices.get? "AAPL").map Quote.price = some 102 := by
  have hrun : ((system.execWhere (fun _ _ => True) unconnected connectsAcrossTick).bind fun w =>
      (w.client.byTicker.get? "AAPL").map fun it =>
        (decide w.Quiescent, w.requests.entries.isEmpty, w.client.error, it.price,
          (w.prices.get? "AAPL").map Quote.price)) =
      some (true, true, none, some 101, some 102) := by
    decide +kernel
  obtain ⟨w, hw, hrun⟩ := Option.bind_eq_some_iff.1 hrun
  obtain ⟨it, hit, hrun⟩ := Option.map_eq_some_iff.1 hrun
  simp only [Prod.mk.injEq, decide_eq_true_eq, List.isEmpty_iff] at hrun
  obtain ⟨hquiet, hreq, herror, hprice, hserver⟩ := hrun
  exact ⟨w, it, ⟨unconnected, init_unconnected, System.runWhere_of_execWhere hw⟩, hquiet,
    Dict.ext hreq, herror, hit, hprice, hserver⟩

end PushWorld
end TickerWatch
