import TickerWatch.Client.Drain
import TickerWatch.Foundations.System

/-!
# The subscriptions of the push client

`PushClient` says of a subscription that it is there.  Here the hook has the objects: `client.current`
refers to a `Centrifuge` object, `subs.current` to the `Subscription` objects made on one, and a
cleanup leaves the old client behind while resyncs begun on it are still under way.

What centrifuge-js does is a parameter (`CentrifugeApi`), and what the hook relies on is its
documented behaviour (`CentrifugeApi.Documented`): above all, `newSubscription` raises if the channel
has a subscription already, and `removeSubscription` unsubscribes and forgets it.  Forgetting the
objects gives the `PushClient` of before (`forget_step`).
-/

namespace TickerWatch

universe u

/-- `ticker:${ticker}`. -/
def tickerChannel (t : Ticker) : String := "ticker:" ++ t

lemma tickerChannel_inj {t t' : Ticker} : tickerChannel t = tickerChannel t' ↔ t = t' := by
  unfold tickerChannel
  rw [← String.toList_inj, String.toList_append, String.toList_append, List.append_cancel_left_eq,
    String.toList_inj]

/-- What the hook uses of centrifuge-js, over the state `σ` of a `Centrifuge` object and the
`Subscription` objects `ς` made on it.  `error` is an exception and its message. -/
structure CentrifugeApi (σ ς : Type) where
  /-- `new Centrifuge(...)`. -/
  new : σ
  newSubscription : String → σ → Except String (ς × σ)
  subscribe : ς → σ → σ
  unsubscribe : ς → σ → σ
  removeSubscription : ς → σ → σ
  disconnect : σ → σ
  getSubscription : String → σ → Option ς
  /-- `channel` of a subscription. -/
  channel : ς → String
  /-- The subscription is one of this client's, and its `state` is not `unsubscribed`. -/
  Active : ς → σ → Prop

namespace CentrifugeApi

/-- What centrifuge-js documents of them: a client has a registry of subscriptions by channel,
making one twice for a channel raises, and a subscription is active from `subscribe` to
`unsubscribe` or its removal.  A disconnect changes neither. -/
structure Documented {σ ς : Type} (api : CentrifugeApi σ ς) : Prop where
  active_new : ∀ sub, ¬ api.Active sub api.new
  getSubscription_new : ∀ ch, api.getSubscription ch api.new = none
  newSubscription_raises : ∀ ch s,
    (∃ e, api.newSubscription ch s = .error e) ↔ api.getSubscription ch s ≠ none
  newSubscription_channel : ∀ ch s sub s', api.newSubscription ch s = .ok (sub, s') →
    api.channel sub = ch
  getSubscription_newSubscription : ∀ ch s sub s', api.newSubscription ch s = .ok (sub, s') →
    ∀ ch', api.getSubscription ch' s' = if ch' = ch then some sub else api.getSubscription ch' s
  active_newSubscription : ∀ ch s sub s', api.newSubscription ch s = .ok (sub, s') →
    ∀ sub', api.Active sub' s' ↔ api.Active sub' s
  getSubscription_subscribe : ∀ sub s ch,
    api.getSubscription ch (api.subscribe sub s) = api.getSubscription ch s
  active_subscribe : ∀ sub s, api.getSubscription (api.channel sub) s = some sub →
    ∀ sub', api.Active sub' (api.subscribe sub s) ↔ api.Active sub' s ∨ sub' = sub
  getSubscription_unsubscribe : ∀ sub s ch,
    api.getSubscription ch (api.unsubscribe sub s) = api.getSubscription ch s
  active_unsubscribe : ∀ sub s sub',
    api.Active sub' (api.unsubscribe sub s) ↔ api.Active sub' s ∧ sub' ≠ sub
  getSubscription_removeSubscription : ∀ sub s, api.getSubscription (api.channel sub) s = some sub →
    ∀ ch, api.getSubscription ch (api.removeSubscription sub s) =
      if ch = api.channel sub then none else api.getSubscription ch s
  active_removeSubscription : ∀ sub s sub',
    api.Active sub' (api.removeSubscription sub s) ↔ api.Active sub' s ∧ sub' ≠ sub
  getSubscription_disconnect : ∀ s ch,
    api.getSubscription ch (api.disconnect s) = api.getSubscription ch s
  active_disconnect : ∀ s sub, api.Active sub (api.disconnect s) ↔ api.Active sub s

end CentrifugeApi

/-- A `Centrifuge` object, by when it was made. -/
abbrev ClientId := ℕ

/-- The hook with its objects.  A client that was disconnected stays on the heap with its registry,
and a subscription in `subs` remembers which client made it: the map outlives the client it was
filled for. -/
structure PushHook (σ ς : Type) (P : Type u) where
  /-- The `Centrifuge` objects, and how many were made. -/
  heap : ClientId → σ
  made : ℕ
  /-- `client.current`. -/
  client : Option ClientId
  /-- `subs.current`: each subscription with the client it was made on. -/
  subs : Dict Ticker (ClientId × ς)
  buffering : Bool
  buffer : List (Publication P)
  byTicker : Dict Ticker (WatchlistItem P)
  items : List (WatchlistItem P)
  changed : List SecurityId
  error : Option String
  /-- The resyncs that wait for their response. -/
  underway : ℕ
  /-- History: a resync has succeeded on the client there is. -/
  settled : Bool

/-- What can happen to the hook.  The effect runs, and is cleaned up, when the token changes; an
unmount is a cleanup. -/
inductive HookEvent (P : Type u)
  | effect
  | cleanup
  | resync
  | respond (items : List (WatchlistItem P))
  | fail (message : String)
  | publication (ev : Publication P)

/-- What an event is for the hook without its objects. -/
def HookEvent.onClient {P : Type u} (s : PushClient P) : HookEvent P → PushClient P
  | .effect => s.connect
  | .cleanup => s.cleanup
  | .resync => s.beginResync
  | .respond items => s.finishResync items
  | .fail message => s.failResync message
  | .publication ev => s.onPublication ev

/-- `resync` from the drain on. -/
def PushClient.applyBuffer {P : Type u} (s : PushClient P) : PushClient P :=
  let drained := PushClient.drain s.byTicker s.buffer
  { { s with buffering := false, byTicker := drained.1, buffer := [] }.publish drained.2 with
    error := none }

namespace PushHook

variable {σ ς : Type} {P : Type u}

/-! ## The hook's functions -/

section Functions

variable (api : CentrifugeApi σ ς)

/-- The hook before its effect has run. -/
def initial : PushHook σ ς P where
  heap := fun _ => api.new
  made := 0
  client := none
  subs := .empty
  buffering := true
  buffer := []
  byTicker := .empty
  items := []
  changed := []
  error := none
  underway := 0
  settled := false

/-- A method of an object is called. -/
def call (h : PushHook σ ς P) (c : ClientId) (f : σ → σ) : PushHook σ ς P :=
  { h with heap := Function.update h.heap c (f (h.heap c)) }

/-- `ensureSubscribed`. -/
def ensureSubscribed (h : PushHook σ ς P) (t : Ticker) : Except String (PushHook σ ς P) :=
  match h.client with
  | none => .ok h
  | some c =>
    if h.subs.contains t then .ok h
    else (api.newSubscription (tickerChannel t) (h.heap c)).map fun out =>
      { h with
        heap := Function.update h.heap c (api.subscribe out.1 out.2)
        subs := h.subs.set t (c, out.1) }

/-- `client.current?.removeSubscription(sub)`. -/
def removeFromCurrent (h : PushHook σ ς P) (sub : ς) : PushHook σ ς P :=
  match h.client with
  | none => h
  | some c => h.call c (api.removeSubscription sub)

/-- `dropSubscription`. -/
def dropSubscription (h : PushHook σ ς P) (t : Ticker) : PushHook σ ς P :=
  match h.subs.get? t with
  | none => h
  | some (owner, sub) =>
    { (h.call owner (api.unsubscribe sub)).removeFromCurrent api sub with
      subs := h.subs.erase t }

/-- `ensureSubscribed` for each item, until one of them raises. -/
def subscribeAll (h : PushHook σ ς P) :
    List (WatchlistItem P) → PushHook σ ς P × Option String
  | [] => (h, none)
  | it :: items =>
    match h.ensureSubscribed api it.ticker with
    | .error e => (h, some e)
    | .ok h' => h'.subscribeAll items

/-- `dropSubscription` for the tickers that have no item. -/
def dropUnlisted (h : PushHook σ ς P) (ts : List Ticker) : PushHook σ ς P :=
  ts.foldl (fun h t => if h.byTicker.contains t then h else h.dropSubscription api t) h

/-- `publish`. -/
def publish (h : PushHook σ ς P) (moved : List SecurityId) : PushHook σ ς P :=
  { h with items := h.byTicker.values, changed := moved }

/-- The handler of a publication. -/
def onPublication (h : PushHook σ ς P) (ev : Publication P) : PushHook σ ς P :=
  if h.buffering then { h with buffer := h.buffer ++ [ev] }
  else
    match (applyEvent h.byTicker ev).2 with
    | none => h
    | some id => { h with byTicker := (applyEvent h.byTicker ev).1 }.publish [id]

/-- `resync` up to its request. -/
def beginResync (h : PushHook σ ς P) : PushHook σ ς P :=
  { h with buffering := true, buffer := [], underway := h.underway + 1 }

/-- The `catch` of `resync`. -/
def failResync (h : PushHook σ ς P) (message : String) : PushHook σ ς P :=
  { h with error := some message, buffering := false }

/-- `resync` once every item has its subscription. -/
def applySnapshot (h : PushHook σ ς P) : PushHook σ ς P :=
  let h := h.dropUnlisted api h.subs.keys
  let drained := PushClient.drain h.byTicker h.buffer
  { { h with buffering := false, byTicker := drained.1, buffer := [] }.publish drained.2 with
    error := none
    settled := h.client.isSome }

/-- `byTicker.current = new Map(...)`. -/
def setItems (h : PushHook σ ς P) (items : List (WatchlistItem P)) : PushHook σ ς P :=
  { h with byTicker := PushClient.ofItems items }

/-- `resync` from its response on. -/
def finishResync (h : PushHook σ ς P) (items : List (WatchlistItem P)) : PushHook σ ς P :=
  match (h.setItems items).subscribeAll api items with
  | (h, none) => h.applySnapshot api
  | (h, some e) => h.failResync e

/-- The effect makes a client. -/
def connect (h : PushHook σ ς P) : PushHook σ ς P :=
  { h with
    heap := Function.update h.heap h.made api.new
    made := h.made + 1
    client := some h.made }

/-- The cleanup of the effect that made the client `c`. -/
def cleanup (h : PushHook σ ς P) (c : ClientId) : PushHook σ ς P :=
  { (h.subs.keys.foldl (dropSubscription api) h).call c api.disconnect with
    client := none
    settled := false }

/-- One event. -/
def step (h : PushHook σ ς P) : HookEvent P → Option (PushHook σ ς P)
  | .effect =>
    match h.client with
    | none => some (h.connect api)
    | some _ => none
  | .cleanup => h.client.map fun c => h.cleanup api c
  | .resync => some h.beginResync
  | .respond items =>
    if h.underway = 0 then none
    else some ({ h with underway := h.underway - 1 }.finishResync api items)
  | .fail message =>
    if h.underway = 0 then none
    else some ({ h with underway := h.underway - 1 }.failResync message)
  | .publication ev => some (h.onPublication ev)

/-- The runs of the hook. -/
def system : System (PushHook σ ς P) (HookEvent P) where
  init h := h = initial api
  step h e := h.step api e

end Functions

/-! ## Without the objects -/

/-- The hook without its objects. -/
def forget (h : PushHook σ ς P) : PushClient P :=
  ⟨h.client.isSome, h.subs.keys, h.buffering, h.buffer, h.byTicker, h.items, h.changed, h.error⟩

variable {api : CentrifugeApi σ ς} {h h' : PushHook σ ς P} {t : Ticker} {c : ClientId}
  {items : List (WatchlistItem P)}

lemma forget_ensureSubscribed (heq : h.ensureSubscribed api t = .ok h') :
    h'.forget = h.forget.ensureSubscribed t := by
  unfold ensureSubscribed at heq
  unfold PushClient.ensureSubscribed
  cases hclient : h.client with
  | none =>
    rw [hclient] at heq
    obtain rfl := Except.ok.inj heq
    rw [if_pos (by simp [forget, hclient])]
  | some c =>
    rw [hclient] at heq
    dsimp only at heq
    split at heq
    · rename_i hthere
      obtain rfl := Except.ok.inj heq
      rw [if_pos]
      simp [forget, Dict.contains_iff.1 hthere]
    · rename_i hnew
      have hnotMem : t ∉ h.subs.keys := fun hmem => hnew (Dict.contains_iff.2 hmem)
      cases hmade : api.newSubscription (tickerChannel t) (h.heap c) with
      | error e =>
        rw [hmade] at heq
        exact absurd heq (by simp [Except.map])
      | ok out =>
        rw [hmade] at heq
        obtain rfl := Except.ok.inj heq
        rw [if_neg (by simp [forget, hclient, hnotMem])]
        simp [forget, hclient, Dict.keys_set_of_notMem _ hnotMem]

lemma forget_removeFromCurrent (api : CentrifugeApi σ ς) (h : PushHook σ ς P) (sub : ς) :
    (h.removeFromCurrent api sub).forget = h.forget := by
  unfold removeFromCurrent
  split <;> rfl

lemma forget_dropSubscription (h : PushHook σ ς P) (t : Ticker) :
    (h.dropSubscription api t).forget = h.forget.dropSubscription t := by
  unfold dropSubscription PushClient.dropSubscription
  cases hget : h.subs.get? t with
  | none =>
    have hnotMem : t ∉ h.subs.keys := Dict.get?_eq_none_iff.1 hget
    have hsame : h.forget.subs.filter (fun t' => decide (t' ≠ t)) = h.forget.subs := by
      refine List.filter_eq_self.2 fun t' ht' => decide_eq_true ?_
      rintro rfl
      exact hnotMem ht'
    rw [hsame]
  | some e =>
    have hrest := forget_removeFromCurrent api (h.call e.1 (api.unsubscribe e.2)) e.2
    unfold forget at hrest ⊢
    simp only [PushClient.mk.injEq] at hrest ⊢
    obtain ⟨hclient, -, hbuffering, hbuffer, hbyTicker, hitems, hchanged, herror⟩ := hrest
    exact ⟨hclient, Dict.keys_erase _ _, hbuffering, hbuffer, hbyTicker, hitems, hchanged, herror⟩

lemma forget_subscribeAll (heq : h.subscribeAll api items = (h', none)) :
    h'.forget = items.foldl (fun s it => s.ensureSubscribed it.ticker) h.forget := by
  induction items generalizing h with
  | nil =>
    obtain rfl := (Prod.mk.inj heq).1
    rfl
  | cons it items ih =>
    unfold subscribeAll at heq
    cases hfirst : h.ensureSubscribed api it.ticker with
    | error e =>
      rw [hfirst] at heq
      exact absurd (congrArg Prod.snd heq) (by simp)
    | ok h₁ =>
      rw [hfirst] at heq
      rw [List.foldl_cons, ← forget_ensureSubscribed hfirst]
      exact ih heq

lemma forget_dropAll (api : CentrifugeApi σ ς) (h : PushHook σ ς P) (ts : List Ticker) :
    (ts.foldl (dropSubscription api) h).forget =
      ts.foldl PushClient.dropSubscription h.forget := by
  induction ts generalizing h with
  | nil => rfl
  | cons t ts ih => rw [List.foldl_cons, ih, forget_dropSubscription, List.foldl_cons]

lemma forget_dropUnlisted (h : PushHook σ ς P) (ts : List Ticker) :
    (h.dropUnlisted api ts).forget = ts.foldl
      (fun s t => if s.byTicker.contains t then s else s.dropSubscription t) h.forget := by
  unfold dropUnlisted
  induction ts generalizing h with
  | nil => rfl
  | cons t ts ih =>
    rw [List.foldl_cons, ih, List.foldl_cons]
    by_cases ht : h.byTicker.contains t = true
    · have ht' : h.forget.byTicker.contains t = true := ht
      rw [if_pos ht, if_pos ht']
    · have ht' : ¬ h.forget.byTicker.contains t = true := ht
      rw [if_neg ht, if_neg ht', forget_dropSubscription]

/-- A response whose subscriptions are all made leaves what `PushClient` says. -/
lemma forget_finishResync
    (heq : (h.setItems items).subscribeAll api items = (h', none)) :
    (h.finishResync api items).forget = h.forget.finishResync items := by
  have hsubscribed := forget_subscribeAll heq
  have hdropped : (h'.dropUnlisted api h'.subs.keys).forget = h'.forget.subs.foldl
      (fun s t => if s.byTicker.contains t then s else s.dropSubscription t) h'.forget :=
    forget_dropUnlisted h' h'.subs.keys
  rw [hsubscribed] at hdropped
  have happly : (h'.applySnapshot api).forget =
      (h'.dropUnlisted api h'.subs.keys).forget.applyBuffer := rfl
  have hfinish : h.finishResync api items = h'.applySnapshot api := by
    unfold finishResync
    rw [heq]
  rw [hfinish, happly, hdropped]
  rfl

lemma forget_onPublication (h : PushHook σ ς P) (ev : Publication P) :
    (h.onPublication ev).forget = h.forget.onPublication ev := by
  unfold onPublication PushClient.onPublication
  by_cases hbuffering : h.buffering = true
  · have hbuffering' : h.forget.buffering = true := hbuffering
    rw [if_pos hbuffering, if_pos hbuffering']
    rfl
  · have hbuffering' : ¬ h.forget.buffering = true := hbuffering
    rw [if_neg hbuffering, if_neg hbuffering']
    have hsame : h.forget.byTicker = h.byTicker := rfl
    rw [hsame]
    cases (applyEvent h.byTicker ev).2 with
    | none => rfl
    | some id => rfl

/-! ## The objects -/

/-- The map `subs` is the registry of the client `c` in state `s`, and what is in it is active.
From it `ensureSubscribed` never asks for a channel twice, so `newSubscription` does not raise. -/
structure Registers (api : CentrifugeApi σ ς) (c : ClientId) (s : σ)
    (subs : Dict Ticker (ClientId × ς)) : Prop where
  owned : ∀ t e, subs.get? t = some e → e.1 = c ∧ api.channel e.2 = tickerChannel t ∧
    api.getSubscription (tickerChannel t) s = some e.2
  registered : ∀ ch sub, api.getSubscription ch s = some sub →
    ∃ t, ch = tickerChannel t ∧ subs.get? t = some (c, sub)
  active : ∀ sub, api.Active sub s ↔ ∃ t, subs.get? t = some (c, sub)

/-- The hook has the client `c`, and its map is the registry of it. -/
structure Owns (api : CentrifugeApi σ ς) (h : PushHook σ ς P) (c : ClientId) : Prop where
  client : h.client = some c
  registers : Registers api c (h.heap c) h.subs

/-- Only the client `c` and the map of subscriptions differ. -/
structure Touches (c : ClientId) (h h' : PushHook σ ς P) : Prop where
  heap : ∀ c', c' ≠ c → h'.heap c' = h.heap c'
  client : h'.client = h.client
  settled : h'.settled = h.settled

lemma Touches.refl (c : ClientId) (h : PushHook σ ς P) : Touches c h h :=
  ⟨fun _ _ => rfl, rfl, rfl⟩

lemma Touches.trans {h₁ h₂ h₃ : PushHook σ ς P} (h : Touches c h₁ h₂) (h' : Touches c h₂ h₃) :
    Touches c h₁ h₃ :=
  ⟨fun c' hc => (h'.heap c' hc).trans (h.heap c' hc), h'.client.trans h.client,
    h'.settled.trans h.settled⟩

/-- The subscription is removed from the client it was unsubscribed on. -/
lemma call_removeFromCurrent {f : σ → σ} {sub : ς} (hclient : h.client = some c) :
    (h.call c f).removeFromCurrent api sub = h.call c fun s => api.removeSubscription sub (f s) := by
  unfold removeFromCurrent
  rw [show (h.call c f).client = some c from hclient]
  simp [call]

section Documented

variable (hdoc : api.Documented)
include hdoc

variable {s s' : σ} {subs : Dict Ticker (ClientId × ς)} {sub : ς}

lemma registers_new (c : ClientId) : Registers api c api.new .empty where
  owned t e he := absurd he (by simp)
  registered ch sub hsub := by
    rw [hdoc.getSubscription_new] at hsub
    exact absurd hsub (by simp)
  active sub := iff_of_false (hdoc.active_new sub) (by simp)

/-- A ticker that is not in the map has no subscription on the client. -/
lemma Registers.exists_new (hreg : Registers api c s subs) (hnone : subs.get? t = none) :
    ∃ sub s', api.newSubscription (tickerChannel t) s = .ok (sub, s') := by
  have hfree : ¬ ∃ e, api.newSubscription (tickerChannel t) s = .error e := by
    rw [hdoc.newSubscription_raises, not_not]
    cases hget : api.getSubscription (tickerChannel t) s with
    | none => rfl
    | some sub =>
      obtain ⟨t', ht', hsub⟩ := hreg.registered _ _ hget
      rw [tickerChannel_inj] at ht'
      subst ht'
      exact absurd (hnone.symm.trans hsub) (by simp)
  cases hmade : api.newSubscription (tickerChannel t) s with
  | error e => exact absurd ⟨e, hmade⟩ hfree
  | ok out => exact ⟨out.1, out.2, rfl⟩

/-- A subscription is made, subscribed to and noted. -/
lemma Registers.subscribe (hreg : Registers api c s subs) (hnone : subs.get? t = none)
    (hmade : api.newSubscription (tickerChannel t) s = .ok (sub, s')) :
    Registers api c (api.subscribe sub s') (subs.set t (c, sub)) := by
  have hchannel := hdoc.newSubscription_channel _ _ _ _ hmade
  have hregistry := hdoc.getSubscription_newSubscription _ _ _ _ hmade
  -- the client has the new one under its channel, so it can become active
  have hregistered : api.getSubscription (api.channel sub) s' = some sub := by
    rw [hregistry, if_pos hchannel]
  refine ⟨fun t' e he => ?_, fun ch sub' hsub => ?_, fun sub' => ?_⟩
  · rw [hdoc.getSubscription_subscribe, hregistry]
    rw [Dict.get?_set] at he
    split at he
    · rename_i ht
      obtain rfl := Option.some.inj he
      exact ⟨rfl, by rw [ht]; exact hchannel, if_pos (by rw [ht])⟩
    · rename_i ht
      obtain ⟨hc, hch, hold⟩ := hreg.owned t' e he
      exact ⟨hc, hch, by rw [if_neg fun h => ht (tickerChannel_inj.1 h), hold]⟩
  · rw [hdoc.getSubscription_subscribe, hregistry] at hsub
    split at hsub
    · rename_i hch
      obtain rfl := Option.some.inj hsub
      exact ⟨t, hch, Dict.get?_set_self _ _ _⟩
    · rename_i hch
      obtain ⟨t', ht', hold⟩ := hreg.registered ch sub' hsub
      have hne : t' ≠ t := by
        rintro rfl
        exact hch ht'
      exact ⟨t', ht', (Dict.get?_set_ne _ _ hne).trans hold⟩
  · rw [hdoc.active_subscribe sub s' hregistered, hdoc.active_newSubscription _ _ _ _ hmade,
      hreg.active]
    -- active are the ones from before and the new one
    constructor
    · rintro (⟨t', hold⟩ | rfl)
      · exact ⟨t', (Dict.get?_set_ne _ _ (Dict.ne_of_get? hnone hold)).trans hold⟩
      · exact ⟨t, Dict.get?_set_self _ _ _⟩
    · rintro ⟨t', hnew⟩
      rw [Dict.get?_set] at hnew
      split at hnew
      · exact Or.inr (Prod.mk.inj (Option.some.inj hnew)).2.symm
      · exact Or.inl ⟨t', hnew⟩

/-- A subscription is unsubscribed, removed and forgotten. -/
lemma Registers.remove (hreg : Registers api c s subs) (hget : subs.get? t = some (c, sub)) :
    Registers api c (api.removeSubscription sub (api.unsubscribe sub s)) (subs.erase t) := by
  obtain ⟨-, hchannel, hregistered⟩ := hreg.owned t _ hget
  dsimp only at hchannel hregistered
  -- `removeSubscription` needs the subscription to be the registered one, which `unsubscribe` left
  -- it
  have hstill : api.getSubscription (api.channel sub) (api.unsubscribe sub s) = some sub := by
    rw [hdoc.getSubscription_unsubscribe, hchannel, hregistered]
  -- only the channel of this ticker is gone
  have hregistry : ∀ ch, api.getSubscription ch (api.removeSubscription sub
      (api.unsubscribe sub s)) = if ch = tickerChannel t then none
        else api.getSubscription ch s := by
    intro ch
    rw [hdoc.getSubscription_removeSubscription sub _ hstill, hchannel,
      hdoc.getSubscription_unsubscribe]
  refine ⟨fun t' e he => ?_, fun ch sub' hsub => ?_, fun sub' => ?_⟩
  · rw [Dict.get?_erase] at he
    rw [hregistry]
    split at he
    · exact absurd he (by simp)
    · rename_i hne
      obtain ⟨hc, hch, hold⟩ := hreg.owned t' e he
      exact ⟨hc, hch, by rw [if_neg fun h => hne (tickerChannel_inj.1 h), hold]⟩
  · rw [hregistry] at hsub
    split at hsub
    · exact absurd hsub (by simp)
    · rename_i hch
      obtain ⟨t', ht', hold⟩ := hreg.registered ch sub' hsub
      refine ⟨t', ht', ?_⟩
      rw [Dict.get?_erase, if_neg, hold]
      rintro rfl
      exact hch ht'
  -- no subscription other than this one stops being active
  · rw [hdoc.active_removeSubscription, hdoc.active_unsubscribe, and_assoc, and_self, hreg.active]
    constructor
    · rintro ⟨⟨t', hold⟩, hne⟩
      refine ⟨t', ?_⟩
      rw [Dict.get?_erase, if_neg, hold]
      rintro rfl
      exact hne (Prod.mk.inj (Option.some.inj (hold.symm.trans hget))).2
    · rintro ⟨t', hnew⟩
      rw [Dict.get?_erase] at hnew
      split at hnew
      · exact absurd hnew (by simp)
      · rename_i hne
        refine ⟨⟨t', hnew⟩, ?_⟩
        rintro rfl
        obtain ⟨-, hchannel', -⟩ := hreg.owned t' _ hnew
        exact hne (tickerChannel_inj.1 (hchannel'.symm.trans hchannel))

lemma Registers.disconnect (hreg : Registers api c s subs) :
    Registers api c (api.disconnect s) subs := by
  refine ⟨fun t e he => ?_, fun ch sub hsub => ?_, fun sub => ?_⟩
  · rw [hdoc.getSubscription_disconnect]
    exact hreg.owned t e he
  · rw [hdoc.getSubscription_disconnect] at hsub
    exact hreg.registered ch sub hsub
  · rw [hdoc.active_disconnect]
    exact hreg.active sub

/-- Subscribing does not raise, and keeps the registry. -/
lemma Owns.ensureSubscribed (howns : h.Owns api c) (t : Ticker) :
    ∃ h', h.ensureSubscribed api t = .ok h' ∧ h'.Owns api c ∧ Touches c h h' := by
  unfold PushHook.ensureSubscribed
  rw [howns.client]
  dsimp only
  by_cases hthere : h.subs.contains t = true
  · rw [if_pos hthere]
    exact ⟨h, rfl, howns, .refl c h⟩
  · rw [if_neg hthere]
    have hnone : h.subs.get? t = none :=
      Dict.contains_eq_false_iff.1 (Bool.eq_false_iff.2 hthere)
    obtain ⟨sub, s, hmade⟩ := howns.registers.exists_new hdoc hnone
    have hreg := howns.registers.subscribe hdoc hnone hmade
    rw [hmade]
    refine ⟨_, rfl, ⟨rfl, ?_⟩, ⟨fun c' hc => Function.update_of_ne hc _ _, howns.client.symm, rfl⟩⟩
    show Registers api c (Function.update h.heap c _ c) _
    rw [Function.update_self]
    exact hreg

lemma Owns.dropSubscription (howns : h.Owns api c) (t : Ticker) :
    (h.dropSubscription api t).Owns api c ∧ Touches c h (h.dropSubscription api t) := by
  unfold PushHook.dropSubscription
  cases hget : h.subs.get? t with
  | none => exact ⟨howns, .refl c h⟩
  | some e =>
    obtain ⟨owner, sub⟩ := e
    obtain ⟨rfl, -⟩ := howns.registers.owned t _ hget
    dsimp only at hget ⊢
    rw [call_removeFromCurrent howns.client]
    refine ⟨⟨howns.client, ?_⟩, ⟨fun c' hc => Function.update_of_ne hc _ _, rfl, rfl⟩⟩
    show Registers api owner (Function.update h.heap owner _ owner) _
    rw [Function.update_self]
    exact howns.registers.remove hdoc hget

lemma Owns.subscribeAll (howns : h.Owns api c) (items : List (WatchlistItem P)) :
    ∃ h', h.subscribeAll api items = (h', none) ∧ h'.Owns api c ∧ Touches c h h' := by
  induction items generalizing h with
  | nil => exact ⟨h, rfl, howns, .refl c h⟩
  | cons it items ih =>
    obtain ⟨h₁, hfirst, howns₁, htouch₁⟩ := howns.ensureSubscribed hdoc it.ticker
    obtain ⟨h₂, hrest, howns₂, htouch₂⟩ := ih howns₁
    refine ⟨h₂, ?_, howns₂, htouch₁.trans htouch₂⟩
    unfold PushHook.subscribeAll
    rw [hfirst]
    exact hrest

lemma Owns.dropAll (howns : h.Owns api c) (ts : List Ticker) :
    (ts.foldl (PushHook.dropSubscription api) h).Owns api c ∧
      Touches c h (ts.foldl (PushHook.dropSubscription api) h) := by
  induction ts generalizing h with
  | nil => exact ⟨howns, .refl c h⟩
  | cons t ts ih =>
    obtain ⟨howns₁, htouch₁⟩ := howns.dropSubscription hdoc t
    obtain ⟨howns₂, htouch₂⟩ := ih howns₁
    exact ⟨howns₂, htouch₁.trans htouch₂⟩

lemma Owns.dropUnlisted (howns : h.Owns api c) (ts : List Ticker) :
    (h.dropUnlisted api ts).Owns api c ∧ Touches c h (h.dropUnlisted api ts) := by
  unfold PushHook.dropUnlisted
  induction ts generalizing h with
  | nil => exact ⟨howns, .refl c h⟩
  | cons t ts ih =>
    rw [List.foldl_cons]
    split
    · exact ih howns
    · obtain ⟨howns₁, htouch₁⟩ := howns.dropSubscription hdoc t
      obtain ⟨howns₂, htouch₂⟩ := ih howns₁
      exact ⟨howns₂, htouch₁.trans htouch₂⟩

end Documented

/-! ## What holds in every state -/

/-- The hook's map is the registry of its client, empty without one; the clients it has left have
nothing; and once a resync has succeeded, the map has the tickers of the applied watchlist. -/
structure Tracks (api : CentrifugeApi σ ς) (h : PushHook σ ς P) : Prop where
  absent : h.client = none → h.subs = .empty
  owns : ∀ c, h.client = some c → h.Owns api c
  left : ∀ c, h.client ≠ some c → Registers api c (h.heap c) .empty
  applied : h.settled = true →
    h.client.isSome = true ∧ ∀ t, t ∈ h.subs.keys ↔ t ∈ h.byTicker.keys

lemma Tracks.congr (htracks : h.Tracks api) (hheap : h'.heap = h.heap)
    (hclient : h'.client = h.client) (hsubs : h'.subs = h.subs) (hsettled : h'.settled = h.settled)
    (hkeys : h'.byTicker.keys = h.byTicker.keys) : h'.Tracks api := by
  refine ⟨fun hc => ?_, fun c hc => ⟨hc, ?_⟩, fun c hc => ?_, fun hset => ?_⟩
  · rw [hsubs]
    exact htracks.absent (hclient ▸ hc)
  · rw [hheap, hsubs]
    exact (htracks.owns c (hclient ▸ hc)).registers
  · rw [hheap]
    exact htracks.left c (hclient ▸ hc)
  · rw [hclient, hsubs, hkeys]
    exact htracks.applied (hsettled ▸ hset)

lemma Tracks.onPublication (htracks : h.Tracks api) (ev : Publication P) :
    (h.onPublication ev).Tracks api := by
  unfold PushHook.onPublication
  split
  · exact htracks.congr rfl rfl rfl rfl rfl
  · split
    · exact htracks
    · exact htracks.congr rfl rfl rfl rfl (keys_applyEvent _ _)

lemma subscribeAll_of_none (hclient : h.client = none) (items : List (WatchlistItem P)) :
    h.subscribeAll api items = (h, none) := by
  induction items with
  | nil => rfl
  | cons it items ih =>
    have hfirst : h.ensureSubscribed api it.ticker = .ok h := by
      unfold PushHook.ensureSubscribed
      rw [hclient]
    unfold PushHook.subscribeAll
    rw [hfirst]
    exact ih

section Documented

variable (hdoc : api.Documented)
include hdoc

lemma Tracks.exists_subscribeAll (htracks : h.Tracks api) (items : List (WatchlistItem P)) :
    ∃ h', (h.setItems items).subscribeAll api items = (h', none) := by
  cases hclient : h.client with
  | none =>
    have hclient' : (h.setItems items).client = none := hclient
    exact ⟨_, subscribeAll_of_none hclient' items⟩
  | some c =>
    have howns : (h.setItems items).Owns api c :=
      ⟨hclient, (htracks.owns c hclient).registers⟩
    obtain ⟨h', hall, -⟩ := howns.subscribeAll hdoc items
    exact ⟨h', hall⟩

lemma Tracks.finishResync (htracks : h.Tracks api) (items : List (WatchlistItem P)) :
    (h.finishResync api items).Tracks api := by
  obtain ⟨h₁, hall⟩ := htracks.exists_subscribeAll hdoc items
  have hforget := forget_finishResync hall
  have hfinish : h.finishResync api items = h₁.applySnapshot api := by
    unfold PushHook.finishResync
    rw [hall]
  rw [hfinish] at hforget ⊢
  cases hclient : h.client with
  | none =>
    have hclient' : (h.setItems items).client = none := hclient
    obtain rfl := (Prod.mk.inj ((subscribeAll_of_none hclient' items).symm.trans hall)).1
    -- a client that was closed meanwhile has no subscriptions, so there are none to drop
    have hsubs : h.subs = .empty := htracks.absent hclient
    have hdrop : (h.setItems items).dropUnlisted api (h.setItems items).subs.keys =
        h.setItems items := by
      rw [show (h.setItems items).subs = .empty from hsubs]
      rfl
    unfold PushHook.applySnapshot
    rw [hdrop]
    refine ⟨fun _ => hsubs, fun c hc => ?_, fun c _ => ?_, fun hset => ?_⟩
    · exact absurd (hclient.symm.trans hc) (by simp)
    · exact htracks.left c (by rw [hclient]; simp)
    · have hset' : h.client.isSome = true := hset
      rw [hclient] at hset'
      exact absurd hset' (by simp)
  | some c =>
    have howns : (h.setItems items).Owns api c :=
      ⟨hclient, (htracks.owns c hclient).registers⟩
    -- first every listed ticker is subscribed, then every unlisted one dropped
    obtain ⟨h₁', hall', howns₁, htouch₁⟩ := howns.subscribeAll hdoc items
    obtain rfl := (Prod.mk.inj (hall.symm.trans hall')).1
    obtain ⟨howns₂, htouch₂⟩ := howns₁.dropUnlisted hdoc h₁.subs.keys
    have htouch := htouch₁.trans htouch₂
    have hclient' : (h₁.applySnapshot api).client = some c := howns₂.client
    obtain ⟨hbyTicker, -, -, -, hsubs⟩ := PushClient.finishResync_spec h.forget items
    rw [← hforget] at hbyTicker hsubs
    refine ⟨fun hnone => ?_, fun c' hc' => ?_, fun c' hc' => ?_, fun _ => ⟨?_, fun t => ?_⟩⟩
    · exact absurd (hclient'.symm.trans hnone) (by simp)
    · obtain rfl := Option.some.inj (hclient'.symm.trans hc')
      exact ⟨hclient', howns₂.registers⟩
    · have hne : c' ≠ c := by
        rintro rfl
        exact hc' hclient'
      -- the other clients are not touched
      have hheap : (h₁.applySnapshot api).heap c' = h.heap c' := htouch.heap c' hne
      rw [hheap]
      refine htracks.left c' ?_
      rw [hclient]
      simpa using hne.symm
    · rw [hclient']
      rfl
    · have hhas : h.forget.hasClient = true := by
        show h.client.isSome = true
        rw [hclient]
        rfl
      -- what is shown are the tickers of the response, and so is what is subscribed
      have hkeys : (h₁.applySnapshot api).byTicker.keys = (PushClient.ofItems items).keys := by
        have heq : (h₁.applySnapshot api).byTicker = _ := hbyTicker
        rw [heq, keys_applyEvents]
      rw [hkeys, ← Dict.contains_iff (d := PushClient.ofItems items), PushClient.contains_ofItems]
      exact hsubs hhas t

lemma Tracks.cleanup (htracks : h.Tracks api) (hclient : h.client = some c) :
    (h.cleanup api c).Tracks api := by
  obtain ⟨howns, htouch⟩ := (htracks.owns c hclient).dropAll hdoc h.subs.keys
  have hkeys : (h.subs.keys.foldl (PushHook.dropSubscription api) h).subs.keys = [] := by
    have hforget := congrArg PushClient.subs (forget_dropAll api h h.subs.keys)
    have hclean := congrArg PushClient.subs (PushClient.cleanup_eq h.forget)
    exact hforget.trans hclean
  have hsubs : (h.subs.keys.foldl (PushHook.dropSubscription api) h).subs = .empty :=
    Dict.ext (List.map_eq_nil_iff.1 hkeys)
  have hreg := howns.registers
  rw [hsubs] at hreg
  refine ⟨fun _ => hsubs, fun c' hc' => absurd hc' (by simp [PushHook.cleanup]), fun c' _ => ?_,
    fun hset => absurd hset (by simp [PushHook.cleanup])⟩
  show Registers api c' (Function.update
    (h.subs.keys.foldl (PushHook.dropSubscription api) h).heap c _ c') .empty
  by_cases hc' : c' = c
  · subst hc'
    rw [Function.update_self]
    exact hreg.disconnect hdoc
  · rw [Function.update_of_ne hc', htouch.heap c' hc']
    refine htracks.left c' ?_
    rw [hclient]
    simpa using Ne.symm hc'

lemma Tracks.connect (htracks : h.Tracks api) (hclient : h.client = none) :
    (h.connect api).Tracks api := by
  have hsubs : h.subs = .empty := htracks.absent hclient
  refine ⟨fun hnone => absurd hnone (by simp [PushHook.connect]), fun c hc => ⟨hc, ?_⟩,
    fun c hc => ?_, fun hset => ?_⟩
  · obtain rfl := Option.some.inj hc
    show Registers api h.made (Function.update h.heap h.made api.new h.made) h.subs
    rw [Function.update_self, hsubs]
    exact registers_new hdoc _
  · have hne : c ≠ h.made := by
      rintro rfl
      exact hc rfl
    show Registers api c (Function.update h.heap h.made api.new c) .empty
    rw [Function.update_of_ne hne]
    exact htracks.left c (by rw [hclient]; simp)
  · have hsome := (htracks.applied hset).1
    rw [hclient] at hsome
    exact absurd hsome (by simp)

/-- **Every event keeps it.** -/
theorem Tracks.step {e : HookEvent P} (htracks : h.Tracks api) (hstep : h.step api e = some h') :
    h'.Tracks api := by
  cases e with
  | effect =>
    unfold PushHook.step at hstep
    cases hclient : h.client with
    | none =>
      rw [hclient] at hstep
      obtain rfl := Option.some.inj hstep
      -- a new client, with an empty registry and an empty map
      exact htracks.connect hdoc hclient
    | some c =>
      rw [hclient] at hstep
      exact absurd hstep (by simp)
  | cleanup =>
    obtain ⟨c, hclient, rfl⟩ := Option.map_eq_some_iff.1 hstep
    -- the client goes, and the map is cleared with it
    exact htracks.cleanup hdoc hclient
  | resync =>
    obtain rfl := Option.some.inj hstep
    exact htracks.congr rfl rfl rfl rfl rfl
  | respond items =>
    unfold PushHook.step at hstep
    dsimp only at hstep
    split at hstep
    · exact absurd hstep (by simp)
    · obtain rfl := Option.some.inj hstep
      -- the response of a resync is counted off, and then it subscribes to the items
      have hunder : { h with underway := h.underway - 1 }.Tracks api :=
        htracks.congr rfl rfl rfl rfl rfl
      exact hunder.finishResync hdoc items
  | fail message =>
    unfold PushHook.step at hstep
    dsimp only at hstep
    split at hstep
    · exact absurd hstep (by simp)
    · obtain rfl := Option.some.inj hstep
      exact htracks.congr rfl rfl rfl rfl rfl
  | publication ev =>
    obtain rfl := Option.some.inj hstep
    exact htracks.onPublication ev

lemma tracks_initial : (initial api : PushHook σ ς P).Tracks api where
  absent _ := rfl
  owns c hc := absurd hc (by simp [initial])
  left c _ := registers_new hdoc c
  applied hset := absurd hset (by simp [initial])

theorem tracks_of_reachable (hreach : (system api).Reachable h) : h.Tracks api := by
  refine hreach.invariant ?_ fun h e h' htracks hstep => htracks.step hdoc hstep
  rintro h rfl
  exact tracks_initial hdoc

/-- **What happens to the hook happens to it without its objects**, as `PushClient` has it. -/
theorem forget_step {e : HookEvent P} (htracks : h.Tracks api) (hstep : h.step api e = some h') :
    h'.forget = e.onClient h.forget := by
  cases e with
  | effect =>
    unfold PushHook.step at hstep
    cases hclient : h.client with
    | none =>
      rw [hclient] at hstep
      obtain rfl := Option.some.inj hstep
      rfl
    | some c =>
      rw [hclient] at hstep
      exact absurd hstep (by simp)
  | cleanup =>
    obtain ⟨c, -, rfl⟩ := Option.map_eq_some_iff.1 hstep
    show _ = { h.forget.subs.foldl PushClient.dropSubscription h.forget with hasClient := false }
    rw [← forget_dropAll api h]
    rfl
  | resync =>
    obtain rfl := Option.some.inj hstep
    rfl
  | respond items =>
    unfold PushHook.step at hstep
    dsimp only at hstep
    split at hstep
    · exact absurd hstep (by simp)
    · obtain rfl := Option.some.inj hstep
      -- the response belongs to a resync under way, which it ends
      have hunder : { h with underway := h.underway - 1 }.Tracks api :=
        htracks.congr rfl rfl rfl rfl rfl
      obtain ⟨h₁, hall⟩ := hunder.exists_subscribeAll hdoc items
      exact forget_finishResync hall
  | fail message =>
    unfold PushHook.step at hstep
    dsimp only at hstep
    split at hstep
    · exact absurd hstep (by simp)
    · obtain rfl := Option.some.inj hstep
      rfl
  | publication ev =>
    obtain rfl := Option.some.inj hstep
    exact forget_onPublication h ev

/-- **Subscriptions track membership.**  In every state of every run: once a resync has succeeded on
the client there is, every ticker of the applied watchlist has exactly one active subscription on it,
and no other channel has one; and a client that was cleaned up has none. -/
theorem subscriptions_track_membership (hreach : (system api).Reachable h) :
    (∀ c, h.client = some c → h.settled = true →
      (∀ t ∈ h.byTicker.keys,
        ∃! sub, api.Active sub (h.heap c) ∧ api.channel sub = tickerChannel t) ∧
      ∀ sub, api.Active sub (h.heap c) →
        ∃ t ∈ h.byTicker.keys, api.channel sub = tickerChannel t) ∧
    ∀ c, h.client ≠ some c → ∀ sub, ¬ api.Active sub (h.heap c) := by
  have htracks := tracks_of_reachable hdoc hreach
  refine ⟨fun c hclient hset => ⟨fun t ht => ?_, fun sub hactive => ?_⟩, fun c hclient sub => ?_⟩
  · have hreg := (htracks.owns c hclient).registers
    obtain ⟨e, he⟩ := Dict.mem_keys_iff.1 (((htracks.applied hset).2 t).2 ht)
    obtain ⟨owner, sub⟩ := e
    obtain ⟨rfl, hchannel, -⟩ := hreg.owned t _ he
    refine ⟨sub, ⟨(hreg.active sub).2 ⟨t, he⟩, hchannel⟩, fun sub' ⟨hactive', hchannel'⟩ => ?_⟩
    obtain ⟨t', ht'⟩ := (hreg.active sub').1 hactive'
    have hsame : t' = t := tickerChannel_inj.1 ((hreg.owned t' _ ht').2.1.symm.trans hchannel')
    subst hsame
    exact (Prod.mk.inj (Option.some.inj (ht'.symm.trans he))).2
  · have hreg := (htracks.owns c hclient).registers
    obtain ⟨t, ht⟩ := (hreg.active sub).1 hactive
    have hkey : t ∈ h.subs.keys := Dict.mem_keys_iff.2 ⟨_, ht⟩
    exact ⟨t, ((htracks.applied hset).2 t).1 hkey, (hreg.owned t _ ht).2.1⟩
  · intro hactive
    obtain ⟨t, ht⟩ := ((htracks.left c hclient).active sub).1 hactive
    exact absurd ht (by simp)

end Documented

/-! ## A client library -/

/-- The state of a client that does what is documented: its registry, what is active, and how many
subscriptions it has made. -/
structure SimpleClient where
  registry : Dict String (ℕ × String)
  active : List (ℕ × String)
  made : ℕ
  deriving DecidableEq

/-- Its methods.  A subscription is a number and its channel. -/
def simpleApi : CentrifugeApi SimpleClient (ℕ × String) where
  new := ⟨.empty, [], 0⟩
  newSubscription ch s :=
    if (s.registry.get? ch).isSome then
      .error ("Subscription to the channel " ++ ch ++ " already exists")
    else .ok ((s.made, ch), { s with registry := s.registry.set ch (s.made, ch), made := s.made + 1 })
  subscribe sub s := { s with active := sub :: s.active }
  unsubscribe sub s := { s with active := s.active.filter fun sub' => decide (sub' ≠ sub) }
  removeSubscription sub s := { s with
    registry := s.registry.erase sub.2
    active := s.active.filter fun sub' => decide (sub' ≠ sub) }
  disconnect s := s
  getSubscription ch s := s.registry.get? ch
  channel sub := sub.2
  Active sub s := sub ∈ s.active

lemma documented_simpleApi : simpleApi.Documented where
  active_new sub := by simp [simpleApi]
  getSubscription_new ch := rfl
  newSubscription_raises ch s := by
    unfold simpleApi
    dsimp only
    cases s.registry.get? ch <;> simp
  newSubscription_channel ch s sub s' h := by
    unfold simpleApi at h ⊢
    dsimp only at h
    split at h
    · exact absurd h (by simp)
    · obtain ⟨rfl, -⟩ := Prod.mk.inj (Except.ok.inj h)
      rfl
  getSubscription_newSubscription ch s sub s' h ch' := by
    unfold simpleApi at h ⊢
    dsimp only at h ⊢
    split at h
    · exact absurd h (by simp)
    · obtain ⟨rfl, rfl⟩ := Prod.mk.inj (Except.ok.inj h)
      exact Dict.get?_set _ _ _ _
  active_newSubscription ch s sub s' h sub' := by
    unfold simpleApi at h ⊢
    dsimp only at h ⊢
    split at h
    · exact absurd h (by simp)
    · obtain ⟨-, rfl⟩ := Prod.mk.inj (Except.ok.inj h)
      exact Iff.rfl
  getSubscription_subscribe sub s ch := rfl
  active_subscribe sub s _ sub' := by simp [simpleApi, or_comm]
  getSubscription_unsubscribe sub s ch := rfl
  active_unsubscribe sub s sub' := by simp [simpleApi]
  getSubscription_removeSubscription sub s _ ch := Dict.get?_erase _ _ _
  active_removeSubscription sub s sub' := by simp [simpleApi]
  getSubscription_disconnect s ch := rfl
  active_disconnect s sub := Iff.rfl

/-- The effect runs, two resyncs overlap, and one of them has brought its snapshot. -/
def firstResync : List (HookEvent ℕ) :=
  [.effect, .resync, .resync, .respond PushClient.pairItems]

/-- The hook after them. -/
def resynced : PushHook SimpleClient (ℕ × String) ℕ :=
  (((system simpleApi).exec (initial simpleApi) firstResync).get (by decide +kernel))

/-- It has what the theorem says. -/
theorem resynced_tracks_membership : resynced.client = some 0 ∧ resynced.settled = true ∧
    ((∀ c, resynced.client = some c → resynced.settled = true →
      (∀ t ∈ resynced.byTicker.keys, ∃! sub, simpleApi.Active sub (resynced.heap c) ∧
        simpleApi.channel sub = tickerChannel t) ∧
      ∀ sub, simpleApi.Active sub (resynced.heap c) →
        ∃ t ∈ resynced.byTicker.keys, simpleApi.channel sub = tickerChannel t) ∧
    ∀ c, resynced.client ≠ some c → ∀ sub, ¬ simpleApi.Active sub (resynced.heap c)) := by
  have hexec : (system simpleApi).exec (initial simpleApi) firstResync = some resynced :=
    (Option.some_get _).symm
  exact ⟨by decide +kernel, by decide +kernel, subscriptions_track_membership documented_simpleApi
    ⟨_, rfl, System.run_of_exec hexec⟩⟩

end PushHook
end TickerWatch
