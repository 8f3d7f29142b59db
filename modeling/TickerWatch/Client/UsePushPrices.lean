import TickerWatch.Client.AppliedState

/-!
# The push client

The refs and handlers of `usePushWatchlist`, each as a function of the client's state.  JavaScript
runs them one at a time; a resync is two of them, the part before its `await` and the part after.

The order `publish` sorts the displayed items in is left out, and so are `status` and `meta`, which
nothing else reads.
-/

namespace TickerWatch

universe u

/-- The refs of the hook and the state it renders.  An event is compared with `byTicker` and changes
it; `items` is what `byTicker` was at the last `publish`. -/
structure PushClient (P : Type u) where
  /-- `client.current` is there. -/
  hasClient : Bool
  /-- The tickers that have a subscription. -/
  subs : List Ticker
  /-- True until the snapshot is applied. -/
  buffering : Bool
  /-- Events received while buffering. -/
  buffer : List (Publication P)
  /-- The applied state. -/
  byTicker : Dict Ticker (WatchlistItem P)
  items : List (WatchlistItem P)
  changed : List SecurityId
  error : Option String

namespace PushClient

variable {P : Type u}

/-- The hook before its effect has run. -/
def initial : PushClient P := ⟨false, [], true, [], .empty, [], [], none⟩

/-- `publish`. -/
def publish (s : PushClient P) (moved : List SecurityId) : PushClient P :=
  { s with items := s.byTicker.values, changed := moved }

/-- `ensureSubscribed`. -/
def ensureSubscribed (s : PushClient P) (t : Ticker) : PushClient P :=
  if !s.hasClient || s.subs.contains t then s else { s with subs := s.subs ++ [t] }

/-- `dropSubscription`. -/
def dropSubscription (s : PushClient P) (t : Ticker) : PushClient P :=
  { s with subs := s.subs.filter fun t' => decide (t' ≠ t) }

/-- The handler of a publication. -/
def onPublication (s : PushClient P) (ev : Publication P) : PushClient P :=
  if s.buffering then { s with buffer := s.buffer ++ [ev] }
  else
    match (applyEvent s.byTicker ev).2 with
    | none => s
    | some id => { s with byTicker := (applyEvent s.byTicker ev).1 }.publish [id]

/-- `resync` up to its request. -/
def beginResync (s : PushClient P) : PushClient P := { s with buffering := true, buffer := [] }

/-- The loop of the drain: the applied state and the securities that moved. -/
def drain (byTicker : Dict Ticker (WatchlistItem P)) (buffer : List (Publication P)) :
    Dict Ticker (WatchlistItem P) × List SecurityId :=
  buffer.foldl (fun acc ev =>
    ((applyEvent acc.1 ev).1, acc.2 ++ (applyEvent acc.1 ev).2.toList)) (byTicker, [])

/-- A subscription for every item of a snapshot and for no other ticker. -/
def resubscribe (s : PushClient P) (items : List (WatchlistItem P)) : PushClient P :=
  let s := items.foldl (fun s (it : WatchlistItem P) => s.ensureSubscribed it.ticker) s
  s.subs.foldl (fun s t => if s.byTicker.contains t then s else s.dropSubscription t) s

/-- The items of a snapshot by ticker. -/
def ofItems (items : List (WatchlistItem P)) : Dict Ticker (WatchlistItem P) :=
  Dict.ofList (items.map fun it => (it.ticker, it))

/-- `resync` from its response on. -/
def finishResync (s : PushClient P) (items : List (WatchlistItem P)) : PushClient P :=
  let s := { s with byTicker := ofItems items }
  let s := s.resubscribe items
  let drained := drain s.byTicker s.buffer
  { { s with buffering := false, byTicker := drained.1, buffer := [] }.publish drained.2 with
    error := none }

/-- `resync` when its request fails. -/
def failResync (s : PushClient P) (message : String) : PushClient P :=
  { s with error := some message, buffering := false }

/-- The effect creates the client. -/
def connect (s : PushClient P) : PushClient P := { s with hasClient := true }

/-- The cleanup of the effect. -/
def cleanup (s : PushClient P) : PushClient P :=
  { s.subs.foldl dropSubscription s with hasClient := false }

/-! ## What the handlers do -/

variable {s : PushClient P} {ev : Publication P} {t t' : Ticker} {items : List (WatchlistItem P)}

lemma drain_fst (byTicker : Dict Ticker (WatchlistItem P)) (buffer : List (Publication P)) :
    (drain byTicker buffer).1 = applyEvents byTicker buffer := by
  have hfold : ∀ acc : Dict Ticker (WatchlistItem P) × List SecurityId,
      (buffer.foldl (fun acc ev => ((applyEvent acc.1 ev).1,
        acc.2 ++ (applyEvent acc.1 ev).2.toList)) acc).1 = applyEvents acc.1 buffer := by
    induction buffer with
    | nil => exact fun _ => rfl
    | cons ev buffer ih => exact fun acc => ih _
  exact hfold _

/-- Outside a resync a publication is applied at once. -/
lemma byTicker_onPublication (h : s.buffering = false) :
    (s.onPublication ev).byTicker = (applyEvent s.byTicker ev).1 := by
  have hcases : (applyEvent s.byTicker ev).2 = none →
      (applyEvent s.byTicker ev).1 = s.byTicker := by
    intro hnone
    unfold applyEvent at hnone ⊢
    split
    · rfl
    · rename_i cur hcur
      rw [hcur] at hnone
      by_cases hold : cur.supersedes ev = true
      · simp [hold]
      · simp [hold] at hnone
  unfold onPublication
  rw [h, if_neg Bool.false_ne_true]
  split
  · exact (hcases ‹_›).symm
  · rfl

lemma onPublication_of_buffering (h : s.buffering = true) :
    s.onPublication ev = { s with buffer := s.buffer ++ [ev] } := by
  rw [onPublication, if_pos h]

@[simp] lemma subs_onPublication : (s.onPublication ev).subs = s.subs := by
  unfold onPublication
  split
  · rfl
  · split <;> rfl

@[simp] lemma hasClient_onPublication : (s.onPublication ev).hasClient = s.hasClient := by
  unfold onPublication
  split
  · rfl
  · split <;> rfl

@[simp] lemma buffering_onPublication : (s.onPublication ev).buffering = s.buffering := by
  unfold onPublication
  split
  · rfl
  · split <;> rfl

lemma buffer_onPublication (h : s.buffering = false) :
    (s.onPublication ev).buffer = s.buffer := by
  unfold onPublication
  rw [h, if_neg Bool.false_ne_true]
  split <;> rfl

lemma ensureSubscribed_eq (s : PushClient P) (t : Ticker) :
    ∃ subs, (∀ t', t' ∈ subs ↔ t' ∈ s.subs ∨ s.hasClient = true ∧ t = t') ∧
      s.ensureSubscribed t = { s with subs := subs } := by
  unfold ensureSubscribed
  by_cases hclient : s.hasClient = true
  · by_cases hthere : t ∈ s.subs
    · rw [if_pos (by simp [hthere])]
      exact ⟨s.subs, fun t' => ⟨Or.inl, fun h => h.elim id fun h => h.2 ▸ hthere⟩, rfl⟩
    · rw [if_neg (by simp [hclient, hthere])]
      exact ⟨_, fun t' => by simp [hclient, eq_comm], rfl⟩
  · rw [if_pos (by simp [hclient])]
    exact ⟨s.subs, fun t' => by simp [hclient], rfl⟩

lemma foldl_ensureSubscribed_eq (s : PushClient P) (items : List (WatchlistItem P)) :
    ∃ subs, (∀ t, t ∈ subs ↔
        t ∈ s.subs ∨ s.hasClient = true ∧ ∃ it ∈ items, WatchlistItem.ticker it = t) ∧
      items.foldl (fun s it => s.ensureSubscribed it.ticker) s = { s with subs := subs } := by
  induction items generalizing s with
  | nil => exact ⟨s.subs, by simp, rfl⟩
  | cons it items ih =>
    obtain ⟨subs, hsubs, heq⟩ := ensureSubscribed_eq s it.ticker
    obtain ⟨subs', hsubs', heq'⟩ := ih { s with subs := subs }
    refine ⟨subs', fun t => ?_, by rw [List.foldl_cons, heq, heq']⟩
    rw [hsubs', hsubs]
    simp only [List.mem_cons, exists_eq_or_imp, or_assoc, ← and_or_left]

/-- Dropping the subscriptions of what the snapshot does not hold. -/
lemma foldl_drop_eq (s : PushClient P) (ts : List Ticker) :
    ∃ subs, (∀ t, t ∈ subs ↔ t ∈ s.subs ∧ (t ∈ ts → s.byTicker.contains t = true)) ∧
      ts.foldl (fun s t => if s.byTicker.contains t then s else s.dropSubscription t) s =
        { s with subs := subs } := by
  induction ts generalizing s with
  | nil => exact ⟨s.subs, by simp, rfl⟩
  | cons t ts ih =>
    rw [List.foldl_cons]
    by_cases ht : s.byTicker.contains t = true
    · rw [if_pos ht]
      obtain ⟨subs, hsubs, heq⟩ := ih s
      refine ⟨subs, fun t' => ?_, heq⟩
      rw [hsubs, List.mem_cons]
      exact ⟨fun h => ⟨h.1, fun h' => h'.elim (fun h' => h' ▸ ht) h.2⟩,
        fun h => ⟨h.1, fun h' => h.2 (Or.inr h')⟩⟩
    · rw [if_neg ht]
      obtain ⟨subs, hsubs, heq⟩ := ih (s.dropSubscription t)
      refine ⟨subs, fun t' => ?_, heq⟩
      rw [hsubs, List.mem_cons, dropSubscription, List.mem_filter, decide_eq_true_iff]
      constructor
      · rintro ⟨⟨hmem, hne⟩, hin⟩
        exact ⟨hmem, fun h => hin (h.resolve_left hne)⟩
      · rintro ⟨hmem, hin⟩
        refine ⟨⟨hmem, ?_⟩, fun h => hin (Or.inr h)⟩
        rintro rfl
        exact ht (hin (Or.inl rfl))

lemma cleanup_eq (s : PushClient P) : s.cleanup = { s with subs := [], hasClient := false } := by
  have hdrop : ∀ (ts : List Ticker) (s : PushClient P), ts.foldl dropSubscription s =
      { s with subs := s.subs.filter fun t => decide (t ∉ ts) } := by
    intro ts
    induction ts with
    | nil => intro s; simp
    | cons t ts ih =>
      intro s
      rw [List.foldl_cons, ih, dropSubscription]
      simp only [List.filter_filter, List.mem_cons, not_or, Bool.decide_and, Bool.and_comm]
  have hnone : (s.subs.filter fun t => decide (t ∉ s.subs)) = [] := by simp
  rw [cleanup, hdrop, hnone]

lemma contains_ofItems : (ofItems items).contains t = true ↔ ∃ it ∈ items, it.ticker = t := by
  rw [ofItems, Dict.contains_ofList_iff]
  simp

lemma of_get?_ofItems {it : WatchlistItem P} (h : (ofItems items).get? t = some it) :
    it ∈ items ∧ it.ticker = t := by
  obtain ⟨it', hmem, heq⟩ := List.mem_map.1 (Dict.mem_of_get?_ofList h)
  obtain ⟨rfl, rfl⟩ := Prod.mk.inj heq
  exact ⟨hmem, rfl⟩

/-- **What a response leaves**: the snapshot with the buffer applied, nothing buffered, and, if
there is a client, a subscription exactly for what the snapshot has items for. -/
theorem finishResync_spec (s : PushClient P) (items : List (WatchlistItem P)) :
    (s.finishResync items).byTicker = applyEvents (ofItems items) s.buffer ∧
    (s.finishResync items).buffering = false ∧ (s.finishResync items).buffer = [] ∧
    (s.finishResync items).hasClient = s.hasClient ∧
    (s.hasClient = true → ∀ t, t ∈ (s.finishResync items).subs ↔ ∃ it ∈ items, it.ticker = t) := by
  unfold finishResync resubscribe
  obtain ⟨subs, hsubs, heq⟩ := foldl_ensureSubscribed_eq
    { s with byTicker := ofItems items } items
  obtain ⟨subs', hsubs', heq'⟩ := foldl_drop_eq
    { s with byTicker := ofItems items, subs := subs } subs
  simp only [heq, heq', publish]
  refine ⟨drain_fst _ _, trivial, trivial, trivial, fun hclient t => ?_⟩
  rw [hsubs', hsubs]
  simp only [hclient, contains_ofItems, true_and]
  constructor
  · rintro ⟨hmem, hin⟩
    exact hin hmem
  · intro hin
    exact ⟨Or.inr hin, fun _ => hin⟩

end PushClient
end TickerWatch
