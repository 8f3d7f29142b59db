import TickerWatch.Client.SplitWorld

/-!
# Events a resync loses

`buffering` and `buffer` are shared by every resync.  A resync that starts empties the buffer, one
that completes applies what is in it, and one that fails leaves it unapplied; either end turns
buffering off for all of them.  So an event that arrives while resyncs overlap can be applied to a
map that is about to be replaced, and an event that arrives during a request that fails stays in
the buffer until the next resync empties it.

`Receipts` keeps, next to the world, what the client has received.  An event is lost at three
places (`Kept`); a run that avoids them shows every event received once no resync is outstanding
(`received_shown`).
-/

namespace TickerWatch

universe u

/-- The world and what the client has received in it: all of it, what came since each snapshot was
computed, and what went into the buffer since a resync last ended.  The last two are where a
publication can be lost. -/
structure Receipts (P : Type u) where
  split : SplitWorld P
  /-- Every publication a handler got. -/
  received : List (Publication P)
  /-- What was received since a snapshot was computed. -/
  missed : Dict ℕ (List (Publication P))
  /-- What went into the buffer since a resync last ended. -/
  waiting : List (Publication P)

namespace Receipts

variable {P : Type u}

/-- The publication a handler of the client gets. -/
def receives (s : SplitWorld P) : SplitEvent P → Option (Publication P)
  | .push .deliver => s.push.wire.head?.filter fun ev => s.push.client.subs.contains ev.ticker
  | _ => none

/-- One event, with the history it adds to. -/
def step (x : Receipts P) (e : SplitEvent P) : Option (Receipts P) :=
  (x.split.step e).map fun s =>
    { split := s
      received := x.received ++ (receives x.split e).toList
      missed := match e with
        | .push (.serve request) => x.missed.set request []
        | _ => x.missed.mapValues fun _ evs => evs ++ (receives x.split e).toList
      waiting := match e with
        | .push (.respond _) | .push (.fail ..) => []
        | _ =>
          if x.split.push.client.buffering then x.waiting ++ (receives x.split e).toList
          else x.waiting }

/-- The system, from where nothing was received. -/
def system : System (Receipts P) (SplitEvent P) where
  init x := SplitWorld.system.init x.split ∧ x.received = [] ∧ x.missed = .empty ∧ x.waiting = []
  step := step

/-- The items of a snapshot under way. -/
def snapshotOf (w : PushWorld P) (request : ℕ) : List (WatchlistItem P) :=
  match w.requests.get? request with
  | some (.served items _) => items
  | _ => []

/-- No event is lost.  A snapshot is computed from stores that know of every event received; when it
is applied, every event received since is in the buffer, unless the snapshot or a later event there
is as new; and a request fails only when no event that was buffered is news to the client. -/
def Kept (x : Receipts P) : SplitEvent P → Prop
  | .push (.serve _) => ∀ ev ∈ x.received, ∀ it ∈ x.split.push.snapshot, it.ticker = ev.ticker →
      it.Shows ev.effectiveAt
  | .push (.respond request) => ∀ ev ∈ (x.missed.get? request).getD [],
      ∀ it ∈ snapshotOf x.split.push request, it.ticker = ev.ticker →
        it.Shows ev.effectiveAt ∨ ∃ ev' ∈ x.split.push.client.buffer,
          ev'.ticker = ev.ticker ∧ ev.effectiveAt ≤ ev'.effectiveAt
  | .push (.fail ..) => ∀ ev ∈ x.waiting, ∀ it ∈ x.split.push.client.byTicker.get? ev.ticker,
      it.Shows ev.effectiveAt
  | .push .mount | .push .cleanup | .push .connected | .push .disconnected
  | .push (.established _) | .push (.tick ..) | .push .deliver | .push (.join _)
  | .push (.leave _) | .push .refresh | .tick .. | .write _ | .expire _ => True

instance (x : Receipts P) (e : SplitEvent P) : Decidable (x.Kept e) :=
  match e with
  | .push (.serve _) => inferInstanceAs (Decidable (∀ ev ∈ x.received,
      ∀ it ∈ x.split.push.snapshot, it.ticker = ev.ticker → it.Shows ev.effectiveAt))
  | .push (.respond request) => inferInstanceAs (Decidable (∀ ev ∈
      (x.missed.get? request).getD [], ∀ it ∈ snapshotOf x.split.push request,
        it.ticker = ev.ticker → it.Shows ev.effectiveAt ∨ ∃ ev' ∈ x.split.push.client.buffer,
          ev'.ticker = ev.ticker ∧ ev.effectiveAt ≤ ev'.effectiveAt))
  | .push (.fail ..) => inferInstanceAs (Decidable (∀ ev ∈ x.waiting,
      ∀ it ∈ x.split.push.client.byTicker.get? ev.ticker, it.Shows ev.effectiveAt))
  | .push .mount | .push .cleanup | .push .connected | .push .disconnected
  | .push (.established _) | .push (.tick ..) | .push .deliver | .push (.join _)
  | .push (.leave _) | .push .refresh | .tick .. | .write _ | .expire _ =>
    inferInstanceAs (Decidable True)

variable {x x' : Receipts P} {e : SplitEvent P} {w w' : PushWorld P} {r : ℕ}
  {items : List (WatchlistItem P)} {whole : Bool} {ev : Publication P} {it : WatchlistItem P}
  {d : Dict ℕ (WatchlistRequest P)}

/-! ## The requests -/

/-- Losing events changes no snapshot and drops no request. -/
def SameRequests (w : PushWorld P) (d : Dict ℕ (WatchlistRequest P)) : Prop :=
  d = w.requests ∨ ∃ evs, d = w.lose evs

lemma SameRequests.served (h : SameRequests w d) (hr : d.get? r = some (.served items whole)) :
    ∃ whole', w.requests.get? r = some (.served items whole') := by
  rcases h with rfl | ⟨evs, rfl⟩
  · exact ⟨whole, hr⟩
  · obtain ⟨whole', hr', -⟩ := PushWorld.served_of_lose hr
    exact ⟨whole', hr'⟩

lemma SameRequests.pending (h : SameRequests w d) (hp : ∃ r q, w.requests.get? r = some q) :
    ∃ r q, d.get? r = some q := by
  obtain ⟨r, q, hq⟩ := hp
  rcases h with rfl | ⟨evs, rfl⟩
  · exact ⟨r, q, hq⟩
  · exact ⟨r, q.lose evs, by rw [PushWorld.lose, Dict.get?_mapValues, hq, Option.map_some]⟩

/-! ## The invariant -/

/-- Every event received is shown by a snapshot under way or recorded as missed by it, and shown by
the applied state or waiting in the buffer of a resync. -/
structure Traced (x : Receipts P) : Prop where
  served : ∀ r items whole, x.split.push.requests.get? r = some (.served items whole) →
    ∃ evs, x.missed.get? r = some evs ∧ ∀ it ∈ items, ∀ ev ∈ x.received, it.ticker = ev.ticker →
      it.Shows ev.effectiveAt ∨ ev ∈ evs
  applied : ∀ ev ∈ x.received, ∀ it, x.split.push.client.byTicker.get? ev.ticker = some it →
    it.Shows ev.effectiveAt ∨ x.split.push.client.buffering = true ∧ ev ∈ x.waiting
  pending : x.split.push.client.buffering = true →
    (∃ r q, x.split.push.requests.get? r = some q) ∨
      x.received = [] ∧ x.split.push.client.subs = []

/-! ## Each step -/

/-- What a step that receives nothing leaves of the history. -/
lemma history_of_none (hnone : receives x.split e = none)
    (hserve : ∀ request, e ≠ .push (.serve request)) (hstep : x.step e = some x') :
    x.split.step e = some x'.split ∧ x'.received = x.received ∧
    (∀ r evs, x.missed.get? r = some evs → x'.missed.get? r = some evs) ∧
    ((∀ request, e ≠ .push (.respond request)) → (∀ request m, e ≠ .push (.fail request m)) →
      x'.waiting = x.waiting) := by
  obtain ⟨s, hs, rfl⟩ := Option.map_eq_some_iff.1 hstep
  refine ⟨hs, by simp [hnone], fun r evs hevs => ?_, fun hrespond hfail => ?_⟩
  · dsimp only
    split
    · exact absurd rfl (hserve _)
    · rw [Dict.get?_mapValues, hevs, hnone]
      simp
  · dsimp only
    split
    · exact absurd rfl (hrespond _)
    · exact absurd rfl (hfail _ _)
    · simp [hnone]

/-- A step that leaves the applied state, the buffering and the requests as they were. -/
lemma Traced.quiet (h : x.Traced) (hstep : x.step e = some x') (hnone : receives x.split e = none)
    (hserve : ∀ request, e ≠ .push (.serve request))
    (hrespond : ∀ request, e ≠ .push (.respond request))
    (hfail : ∀ request m, e ≠ .push (.fail request m))
    (hclient : x'.split.push.client.byTicker = x.split.push.client.byTicker ∧
      x'.split.push.client.buffering = x.split.push.client.buffering ∧
      (x'.split.push.client.subs = x.split.push.client.subs ∨ x'.split.push.client.subs = []))
    (hreq : SameRequests x.split.push x'.split.push.requests) : x'.Traced := by
  obtain ⟨-, hreceived, hmissed, hwaiting⟩ := history_of_none hnone hserve hstep
  obtain ⟨hbyTicker, hbuffering, hsubs⟩ := hclient
  refine ⟨fun r items whole hr => ?_, fun ev hev it hit => ?_, fun hbuf => ?_⟩
  · obtain ⟨whole', hr'⟩ := hreq.served hr
    obtain ⟨evs, hevs, hall⟩ := h.served r items whole' hr'
    rw [hreceived]
    exact ⟨evs, hmissed r evs hevs, hall⟩
  · rw [hbyTicker] at hit
    rw [hreceived] at hev
    rw [hbuffering, hwaiting hrespond hfail]
    exact h.applied ev hev it hit
  · rw [hbuffering] at hbuf
    rw [hreceived]
    rcases h.pending hbuf with hp | ⟨hempty, hsub⟩
    · exact Or.inl (hreq.pending hp)
    · refine Or.inr ⟨hempty, ?_⟩
      rcases hsubs with hs | hs
      · rw [hs, hsub]
      · exact hs

lemma Traced.begin (h : x.Traced) {evs : List (Publication P)} {n : ℕ}
    (hclient : x'.split.push.client = x.split.push.client.beginResync)
    (hreq : x'.split.push.requests = (x.split.push.lose evs).set n .sent)
    (hreceived : x'.received = x.received)
    (hmissed : ∀ r evs, x.missed.get? r = some evs → x'.missed.get? r = some evs)
    (hwaiting : ∀ ev ∈ x.waiting, ev ∈ x'.waiting) : x'.Traced := by
  refine ⟨fun r items whole hr => ?_, fun ev hev it hit => ?_, fun _ => Or.inl ?_⟩
  · rw [hreq, Dict.get?_set] at hr
    split at hr
    · exact absurd hr (by simp)
    · obtain ⟨whole', hr'⟩ := SameRequests.served (Or.inr ⟨evs, rfl⟩) hr
      obtain ⟨missed, hget, hall⟩ := h.served r items whole' hr'
      rw [hreceived]
      exact ⟨missed, hmissed r missed hget, hall⟩
  · rw [hclient] at hit ⊢
    rw [hreceived] at hev
    rcases h.applied ev hev it hit with hshow | ⟨-, hwait⟩
    · exact Or.inl hshow
    · exact Or.inr ⟨rfl, hwaiting ev hwait⟩
  · exact ⟨n, .sent, by rw [hreq, Dict.get?_set_self]⟩

lemma Traced.ended (h : x.Traced)
    (hserved : ∀ r items whole, x'.split.push.requests.get? r = some (.served items whole) →
      ∃ whole', x.split.push.requests.get? r = some (.served items whole'))
    (hbuffering : x'.split.push.client.buffering = false)
    (hreceived : x'.received = x.received)
    (hmissed : ∀ r evs, x.missed.get? r = some evs → x'.missed.get? r = some evs)
    (happlied : ∀ ev ∈ x.received, ∀ it,
      x'.split.push.client.byTicker.get? ev.ticker = some it → it.Shows ev.effectiveAt) :
    x'.Traced := by
  refine ⟨fun r items whole hr => ?_, fun ev hev it hit => Or.inl ?_, fun hbuf => ?_⟩
  · obtain ⟨whole', hr'⟩ := hserved r items whole hr
    obtain ⟨evs, hevs, hall⟩ := h.served r items whole' hr'
    rw [hreceived]
    exact ⟨evs, hmissed r evs hevs, hall⟩
  · rw [hreceived] at hev
    exact happlied ev hev it hit
  · rw [hbuffering] at hbuf
    exact absurd hbuf Bool.false_ne_true

/-- A publication that is handled is shown or waits, and so does what came before it. -/
lemma shown_onPublication {s : PushClient P} {received waiting : List (Publication P)}
    {ev : Publication P} (happlied : ∀ ev ∈ received, ∀ it,
      s.byTicker.get? ev.ticker = some it → it.Shows ev.effectiveAt ∨
        s.buffering = true ∧ ev ∈ waiting) :
    ∀ ev' ∈ received ++ [ev], ∀ it, (s.onPublication ev).byTicker.get? ev'.ticker = some it →
      it.Shows ev'.effectiveAt ∨ (s.onPublication ev).buffering = true ∧
        ev' ∈ if s.buffering = true then waiting ++ [ev] else waiting := by
  intro ev' hev' it hit
  cases hbuf : s.buffering with
  | true =>
    rw [PushClient.onPublication_of_buffering hbuf] at hit ⊢
    rcases List.mem_append.1 hev' with hold | hnew
    · refine (happlied ev' hold it hit).imp_right fun hwait => ⟨hbuf, ?_⟩
      exact List.mem_append_left _ hwait.2
    · exact Or.inr ⟨hbuf, List.mem_append_right _ hnew⟩
  | false =>
    left
    rw [PushClient.byTicker_onPublication hbuf] at hit
    have hone : (applyEvent s.byTicker ev).1 = applyEvents s.byTicker [ev] := rfl
    rw [hone] at hit
    obtain ⟨cur, hget, hshows⟩ := SplitWorld.shows_of_get?_applyEvents hit
    rcases List.mem_append.1 hev' with hold | hnew
    · rcases happlied ev' hold cur hget with hshow | ⟨hbuf', -⟩
      · exact (hshows _).2 (Or.inl hshow)
      · rw [hbuf] at hbuf'
        exact absurd hbuf' Bool.false_ne_true
    · obtain rfl := List.mem_singleton.1 hnew
      exact (hshows _).2 (Or.inr ⟨ev', List.mem_singleton_self _, rfl, le_rfl⟩)

lemma Traced.deliver (h : x.Traced) (hstep : x.step (.push .deliver) = some x') : x'.Traced := by
  obtain ⟨s, hs, rfl⟩ := Option.map_eq_some_iff.1 hstep
  obtain ⟨w, hw, rfl⟩ := Option.map_eq_some_iff.1 hs
  obtain ⟨hclient, hreq⟩ := PushWorld.step_eq hw
  have hsame : SameRequests x.split.push w.requests := by
    rw [hreq, PushWorld.requestsAfter]
    split
    · exact Or.inl rfl
    · split
      · exact Or.inl rfl
      · exact Or.inr ⟨_, rfl⟩
  rw [PushWorld.clientAfter] at hclient
  cases hwire : x.split.push.wire with
  | nil => exact absurd hw (by simp [PushWorld.step, hwire])
  | cons ev wire =>
    rw [hwire] at hclient
    dsimp only at hclient
    cases hsub : x.split.push.client.subs.contains ev.ticker with
    | false =>
      -- no handler is there to receive it
      rw [hsub, if_neg Bool.false_ne_true] at hclient
      have hnone : receives x.split (.push .deliver) = none := by
        rw [receives, hwire, List.head?_cons, Option.filter_some_neg]
        exact hsub
      refine h.quiet hstep hnone (fun request heq => by cases heq) (fun request heq => by cases heq)
        (fun request m heq => by cases heq) ?_ hsame
      dsimp only
      rw [hclient]
      exact ⟨rfl, rfl, Or.inl rfl⟩
    | true =>
      rw [hsub, if_pos rfl] at hclient
      have hsome : receives x.split (.push .deliver) = some ev := by
        rw [receives, hwire, List.head?_cons, Option.filter_some_pos]
        exact hsub
      have hmem : ev.ticker ∈ x.split.push.client.subs := List.contains_iff_mem.1 hsub
      refine ⟨fun r items whole hr => ?_, fun ev' hev' it hit => ?_, fun hbuf => ?_⟩
      · obtain ⟨whole', hr'⟩ := hsame.served hr
        obtain ⟨evs, hevs, hall⟩ := h.served r items whole' hr'
        refine ⟨evs ++ [ev], ?_, fun it hit ev' hev' ht => ?_⟩
        · rw [Dict.get?_mapValues, hevs, hsome]
          rfl
        · rcases List.mem_append.1 hev' with hold | hnew
          · exact (hall it hit ev' hold ht).imp_right fun hin => List.mem_append_left _ hin
          · rw [hsome] at hnew
            exact Or.inr (List.mem_append_right _ hnew)
      · dsimp only at hit hev' ⊢
        rw [hsome] at hev' ⊢
        rw [hclient] at hit ⊢
        exact shown_onPublication h.applied ev' hev' it hit
      · dsimp only at hbuf
        rw [hclient, PushClient.buffering_onPublication] at hbuf
        rcases h.pending hbuf with hp | ⟨-, hsubs⟩
        · exact Or.inl (hsame.pending hp)
        · rw [hsubs] at hmem
          exact absurd hmem List.not_mem_nil

lemma Traced.serve (h : x.Traced) {request : ℕ} (hk : x.Kept (.push (.serve request)))
    (hstep : x.step (.push (.serve request)) = some x') : x'.Traced := by
  obtain ⟨s, hs, rfl⟩ := Option.map_eq_some_iff.1 hstep
  obtain ⟨w, hw, rfl⟩ := Option.map_eq_some_iff.1 hs
  obtain ⟨hclient, hreq⟩ := PushWorld.step_eq hw
  have hnone : receives x.split (.push (.serve request)) = none := rfl
  refine ⟨fun r items whole hr => ?_, fun ev hev it hit => ?_, fun hbuf => ?_⟩
  · dsimp only at hr ⊢
    rw [hreq, PushWorld.requestsAfter, Dict.get?_set] at hr
    rw [hnone, Dict.get?_set]
    split at hr
    · rename_i heq
      rw [if_pos heq]
      obtain ⟨rfl, -⟩ := WatchlistRequest.served.inj (Option.some.inj hr)
      refine ⟨[], rfl, fun it hit ev hev ht => Or.inl (hk ev ?_ it hit ht)⟩
      simpa using hev
    · rename_i hne
      rw [if_neg hne]
      obtain ⟨evs, hevs, hall⟩ := h.served r items whole hr
      refine ⟨evs, hevs, fun it hit ev hev => hall it hit ev ?_⟩
      simpa using hev
  · dsimp only at hev hit ⊢
    rw [hnone] at hev ⊢
    rw [hclient] at hit ⊢
    have hev' : ev ∈ x.received := by simpa using hev
    refine (h.applied ev hev' it hit).imp_right fun hwait => ⟨hwait.1, ?_⟩
    simpa [hwait.1] using hwait.2
  · dsimp only
    exact Or.inl ⟨request, _, by rw [hreq, PushWorld.requestsAfter, Dict.get?_set_self]⟩

lemma Traced.respond (h : x.Traced) {request : ℕ} (hk : x.Kept (.push (.respond request)))
    (hstep : x.step (.push (.respond request)) = some x') : x'.Traced := by
  obtain ⟨hs, hreceived, hmissed, -⟩ :=
    history_of_none rfl (fun request heq => by cases heq) hstep
  obtain ⟨w, hw, hpush⟩ := Option.map_eq_some_iff.1 hs
  obtain ⟨hclient, hreq⟩ := PushWorld.step_eq hw
  have hpush' : x'.split.push = w := by rw [← hpush]
  obtain ⟨items, whole, hget⟩ : ∃ items whole,
      x.split.push.requests.get? request = some (.served items whole) := by
    rw [PushWorld.step] at hw
    split at hw
    · exact ⟨_, _, by assumption⟩
    · exact absurd hw (by simp)
  rw [PushWorld.clientAfter, hget] at hclient
  obtain ⟨hbyTicker, hbuffering, -⟩ := PushClient.finishResync_spec x.split.push.client items
  -- what the snapshot does not show was in the buffer, or was missed
  obtain ⟨evs, hevs, hall⟩ := h.served request items whole hget
  simp only [Kept, snapshotOf, hget, hevs, Option.getD_some] at hk
  refine h.ended ?_ ?_ hreceived hmissed ?_
  · intro r items whole hr
    rw [hpush', hreq, PushWorld.requestsAfter, Dict.get?_erase] at hr
    split at hr
    · exact absurd hr (by simp)
    · exact SameRequests.served (Or.inr ⟨_, rfl⟩) hr
  · rw [hpush', hclient]
    exact hbuffering
  · intro ev hev it hit
    rw [hpush', hclient, hbyTicker] at hit
    obtain ⟨cur, hofItems, hshows⟩ := SplitWorld.shows_of_get?_applyEvents hit
    obtain ⟨hmem, ht⟩ := PushClient.of_get?_ofItems hofItems
    rw [hshows]
    -- what was missed is shown all the same, as the condition has it
    rcases hall cur hmem ev hev ht with hshow | hin
    · exact Or.inl hshow
    · exact hk ev hin cur hmem ht

lemma Traced.fail (h : x.Traced) {request : ℕ} {message : String}
    (hk : x.Kept (.push (.fail request message)))
    (hstep : x.step (.push (.fail request message)) = some x') : x'.Traced := by
  obtain ⟨hs, hreceived, hmissed, -⟩ :=
    history_of_none rfl (fun request heq => by cases heq) hstep
  obtain ⟨w, hw, hpush⟩ := Option.map_eq_some_iff.1 hs
  obtain ⟨hclient, hreq⟩ := PushWorld.step_eq hw
  have hpush' : x'.split.push = w := by rw [← hpush]
  refine h.ended ?_ ?_ hreceived hmissed ?_
  · intro r items whole hr
    rw [hpush', hreq, PushWorld.requestsAfter, Dict.get?_erase] at hr
    split at hr
    · exact absurd hr (by simp)
    · exact ⟨whole, hr⟩
  · rw [hpush', hclient]
    rfl
  · intro ev hev it hit
    rw [hpush', hclient] at hit
    rcases h.applied ev hev it hit with hshow | ⟨-, hwait⟩
    · exact hshow
    · exact hk ev hwait it hit

/-- What the price service and the cache do leaves the client alone. -/
lemma server_step {s s' : SplitWorld P} (hstep : s.step e = some s')
    (he : ∀ e', e ≠ .push e') :
    s'.push.client = s.push.client ∧ SameRequests s.push s'.push.requests := by
  cases e with
  | push e' => exact absurd rfl (he e')
  | tick now unchanged changed =>
    rw [← Option.some.inj (Option.ite_none_right_eq_some.1 hstep).2]
    exact ⟨rfl, Or.inl rfl⟩
  | expire t =>
    rw [← Option.some.inj hstep]
    exact ⟨rfl, Or.inl rfl⟩
  | write n =>
    rw [SplitWorld.step] at hstep
    split at hstep
    · exact absurd hstep (by simp)
    · rename_i write _
      rw [← Option.some.inj hstep]
      cases write with
      | cache quotes => exact ⟨rfl, Or.inl rfl⟩
      | postgres quotes => exact ⟨rfl, Or.inl rfl⟩
      | publish now changed => exact ⟨rfl, Or.inr ⟨_, rfl⟩⟩

/-- **A step that loses no event keeps every event traced.** -/
theorem Traced.step (h : x.Traced) (hk : x.Kept e) (hstep : x.step e = some x') : x'.Traced := by
  obtain ⟨s, hs, hx'⟩ := Option.map_eq_some_iff.1 hstep
  have hsplit : x'.split = s := by rw [← hx']
  cases e with
  -- the server's own events touch neither the client nor its requests
  | tick | write | expire =>
    obtain ⟨hclient, hreq⟩ := server_step hs (by simp)
    rw [← hsplit] at hclient hreq
    refine h.quiet hstep rfl (by simp) (by simp) (by simp) ?_ hreq
    rw [hclient]
    exact ⟨rfl, rfl, Or.inl rfl⟩
  | push e =>
    obtain ⟨w, hw, hpush⟩ := SplitWorld.push_step hs
    obtain ⟨hclient, hreq⟩ := PushWorld.step_eq hw
    have hpush' : x'.split.push = w := by rw [hsplit, ← hpush]
    rw [← hpush'] at hclient hreq
    cases e with
    | serve request => exact h.serve hk hstep
    | respond request => exact h.respond hk hstep
    | fail request message => exact h.fail hk hstep
    | deliver => exact h.deliver hstep
    -- a resync starts buffering, and has missed nothing yet
    | connected | refresh =>
      obtain ⟨-, hreceived, hmissed, hwaiting⟩ := history_of_none rfl (by simp) hstep
      refine h.begin hclient hreq hreceived hmissed fun ev hev => ?_
      rw [hwaiting (by simp) (by simp)]
      exact hev
    | mount | established | join | leave =>
      refine h.quiet hstep rfl (by simp) (by simp) (by simp) ?_ (Or.inl hreq)
      rw [hclient]
      exact ⟨rfl, rfl, Or.inl rfl⟩
    -- a lost connection loses its requests
    | disconnected =>
      refine h.quiet hstep rfl (by simp) (by simp) (by simp) ?_ (Or.inr ⟨_, hreq⟩)
      rw [hclient]
      exact ⟨rfl, rfl, Or.inl rfl⟩
    | cleanup =>
      refine h.quiet hstep rfl (by simp) (by simp) (by simp) ?_ (Or.inr ⟨_, hreq⟩)
      rw [hclient, PushWorld.clientAfter, PushClient.cleanup_eq]
      exact ⟨rfl, rfl, Or.inr rfl⟩
    | tick now changed => exact absurd hs (by simp [SplitWorld.step])

/-- **Every event received is shown.**  In a run in which no snapshot is computed from stores behind
the events received, none is applied that misses an event the buffer does not hold, and no request
fails while an event is waiting, every event the client has received is reflected once no resync is
outstanding: what is applied for its ticker, if that is on the watchlist, is as new. -/
theorem received_shown (h : system.ReachableWhere Kept x) (hidle : x.split.push.requests = .empty)
    (hev : ev ∈ x.received) (hit : x.split.push.client.byTicker.get? ev.ticker = some it) :
    it.Shows ev.effectiveAt := by
  have htraced : x.Traced := by
    refine h.invariant (fun x hinit => ?_) fun x e x' hk hx hstep => hx.step hk hstep
    obtain ⟨⟨⟨-, -, -, -, hclient, hrequests, -⟩, -⟩, hreceived, -, -⟩ := hinit
    refine ⟨fun r items whole hr => ?_, fun ev hev => ?_, fun _ => Or.inr ⟨hreceived, ?_⟩⟩
    · rw [hrequests] at hr
      exact absurd hr (by simp)
    · rw [hreceived] at hev
      exact absurd hev List.not_mem_nil
    · rw [hclient]
      rfl
  rcases htraced.applied ev hev it hit with hshow | ⟨hbuf, -⟩
  · exact hshow
  · rcases htraced.pending hbuf with ⟨r, q, hq⟩ | ⟨hnone, -⟩
    · rw [hidle] at hq
      exact absurd hq (by simp)
    · rw [hnone] at hev
      exact absurd hev List.not_mem_nil

/-! ## A request that fails -/

/-- Nothing received, and a page that has not connected. -/
def fresh : Receipts ℕ := ⟨SplitWorld.unconnected, [], .empty, []⟩

lemma init_fresh : system.init fresh :=
  ⟨⟨PushWorld.init_unconnected, rfl, fun t q hq => absurd hq (by simp [fresh,
    SplitWorld.unconnected]), rfl⟩, rfl, rfl, rfl⟩

/-- The page shows the first price and is subscribed. -/
def settles : List (SplitEvent ℕ) :=
  [SplitWorld.priceTick SplitWorld.early 101, .write 0, .write 0, .write 0, .push .mount,
    .push .connected, .push (.serve 0), .push (.respond 0), .push (.established "AAPL")]

/-- A tick whose event arrives while a resync is under way. -/
def eventDuringResync : List (SplitEvent ℕ) :=
  [.push .refresh, .push (.serve 1), SplitWorld.priceTick SplitWorld.late 102, .write 0,
    .write 0, .write 0, .push .deliver]

theorem received_shown_resync : ∃ (x : Receipts ℕ) (ev : Publication ℕ) (it : WatchlistItem ℕ),
    system.execWhere Kept fresh (settles ++ eventDuringResync ++ [.push (.respond 1)]) = some x ∧
    ev ∈ x.received ∧ ev.price = 102 ∧
    x.split.push.client.byTicker.get? ev.ticker = some it ∧ it.Shows ev.effectiveAt := by
  have hrun : ((system.execWhere Kept fresh (settles ++ eventDuringResync ++
      [.push (.respond 1)])).bind fun x => x.received.head?.bind fun ev =>
        (x.split.push.client.byTicker.get? ev.ticker).map fun _ =>
          (ev.price, x.split.push.requests.entries.isEmpty)) = some (102, true) := by
    decide +kernel
  obtain ⟨x, hx, hrun⟩ := Option.bind_eq_some_iff.1 hrun
  obtain ⟨ev, hev, hrun⟩ := Option.bind_eq_some_iff.1 hrun
  obtain ⟨it, hit, hrun⟩ := Option.map_eq_some_iff.1 hrun
  obtain ⟨hprice, hidle⟩ := Prod.mk.inj hrun
  have hmem : ev ∈ x.received := List.mem_of_head? hev
  exact ⟨x, ev, it, hx, hmem, hprice, hit, received_shown
    ⟨fresh, init_fresh, System.runWhere_of_execWhere hx⟩ (Dict.ext (List.isEmpty_iff.1 hidle)) hmem
    hit⟩

/-- **A failed request loses an event.**  The event arrives while the request is pending; the request
fails, and the page goes on showing the price before it with nothing outstanding. -/
theorem event_lost_by_failure : ∃ (x x' : Receipts ℕ) (ev : Publication ℕ) (it : WatchlistItem ℕ),
    system.Reachable x ∧ x.split.push.client.byTicker.contains "AAPL" = true ∧ x.received = [] ∧
    system.Run x x' ∧ x'.split.push.requests = .empty ∧ ev ∈ x'.received ∧ ev.ticker = "AAPL" ∧
    x'.split.push.client.byTicker.get? "AAPL" = some it ∧ ev.price = 102 ∧ it.price = some 101 ∧
    ¬ it.Shows ev.effectiveAt := by
  have hrun : ((system.execWhere (fun _ _ => True) fresh settles).bind fun x =>
      (system.execWhere (fun _ _ => True) x (eventDuringResync ++
        [.push (.fail 1 "request failed")])).bind fun x' => x'.received.head?.bind fun ev =>
          (x'.split.push.client.byTicker.get? "AAPL").map fun it =>
            (x.split.push.client.byTicker.contains "AAPL" && x.received.isEmpty &&
              x'.split.push.requests.entries.isEmpty, ev.ticker, ev.price, it.price,
              decide (it.Shows ev.effectiveAt))) =
      some (true, "AAPL", 102, some 101, false) := by
    decide +kernel
  obtain ⟨x, hx, hrun⟩ := Option.bind_eq_some_iff.1 hrun
  obtain ⟨x', hx', hrun⟩ := Option.bind_eq_some_iff.1 hrun
  obtain ⟨ev, hev, hrun⟩ := Option.bind_eq_some_iff.1 hrun
  obtain ⟨it, hit, hrun⟩ := Option.map_eq_some_iff.1 hrun
  simp only [Prod.mk.injEq, decide_eq_false_iff_not, Bool.and_eq_true, List.isEmpty_iff] at hrun
  obtain ⟨⟨⟨hbefore, hnone⟩, hidle⟩, hticker, hprice, hold, hlost⟩ := hrun
  exact ⟨x, x', ev, it, ⟨fresh, init_fresh, System.runWhere_of_execWhere hx⟩, hbefore, hnone,
    System.runWhere_of_execWhere hx', Dict.ext hidle, List.mem_of_head? hev, hticker, hit, hprice,
    hold, hlost⟩

end Receipts
end TickerWatch
