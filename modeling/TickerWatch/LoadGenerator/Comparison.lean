import Mathlib.Data.List.Chain
import TickerWatch.Client.AppliedState
import TickerWatch.Foundations.System
import TickerWatch.Shared.Datetime

/-!
# Poll against push

The clients of the load generator: `poll` of `main.go`, and the snapshot and `onPublication` of
`push.go`.  Both count an update of a price, and measure how long after its `effective_at` they
first saw it; the benchmark compares the two, so they should count the same things.

One client of each kind watches the same list here.  A tick stamps a price, and its writes go their
own ways: the publication may fail, and what a request is answered with may be newer than what was
published, or older than what an earlier request was answered with, or missing, since the API falls
back from the cache to the table.  So an answer is any choice of stamps there have been, and a
publication is an event of its own, which comes before the next tick stamps the price again and
reaches the push client if it is subscribed.

The push client takes a snapshot before it subscribes, and another one when it takes part in the
reconnect storm.  What is left out are the counters of errors, bytes and messages, and how long a slow
reader sleeps.  Go parses what `to_iso` writes; its clock is the one of this model, in microseconds.
-/

namespace TickerWatch
namespace LoadGenerator

/-- The list both clients watch, the celebrity of the push client, and the time before which it drops
its samples. -/
structure LoadConfig where
  watchlist : List (SecurityId × Ticker)
  ids_nodup : (watchlist.map Prod.fst).Nodup
  tickers_nodup : (watchlist.map Prod.snd).Nodup
  celebrity : Option Ticker
  measureFrom : ℤ

/-- An item of `watchlistResponse`: a stamp that is null is decoded to the empty text. -/
structure Item where
  id : SecurityId
  ticker : Ticker
  effectiveAt : String
  deriving DecidableEq

/-- An update that was counted: the version of the price, and when the client saw it. -/
structure Sample where
  ticker : Ticker
  effective : Instant
  observed : ℤ
  deriving DecidableEq

namespace Sample

/-- What the sample is of. -/
def version (x : Sample) : Ticker × Instant := (x.ticker, x.effective)

/-- `observedAt.Sub(effective)`, the latency that is stored. -/
def latency (x : Sample) : ℤ := x.observed - x.effective.micros

end Sample

/-! ## The poll client -/

/-- `lastSeen` of `pollClient`, and the samples it added to `updateLatency`. -/
structure Poller where
  lastSeen : Dict SecurityId String
  updates : List Sample
  deriving DecidableEq

namespace Poller

/-- One pass of the loop of `poll` over the items. -/
def see (parse : String → Option Instant) (observedAt : ℤ) (p : Poller) (it : Item) : Poller :=
  if it.effectiveAt = "" ∨ (p.lastSeen.get? it.id).getD "" = it.effectiveAt then p
  else
    { lastSeen := p.lastSeen.set it.id it.effectiveAt
      updates :=
        if p.lastSeen.contains it.id then
          p.updates ++ ((parse it.effectiveAt).map fun e => ⟨it.ticker, e, observedAt⟩).toList
        else p.updates }

/-- `poll`, from its response on. -/
def receive (parse : String → Option Instant) (observedAt : ℤ) (p : Poller) (items : List Item) :
    Poller :=
  items.foldl (see parse observedAt) p

end Poller

/-! ## The push client -/

/-- `lastSeen` of `pushClient`, and its samples. -/
structure Pusher where
  lastSeen : Dict Ticker String
  updates : List Sample
  deriving DecidableEq

namespace Pusher

/-- `snapshot`, from its response on. -/
def applySnapshot (p : Pusher) (items : List Item) : Pusher :=
  { p with lastSeen := p.lastSeen.setAll (items.map fun it => (it.ticker, it.effectiveAt)) }

/-- `onPublication`. -/
def onPublication (parse : String → Option Instant) (measureFrom observed : ℤ) (p : Pusher)
    (ticker : Ticker) (effectiveAt : String) : Pusher :=
  if (p.lastSeen.get? ticker).any fun prev => decide (effectiveAt ≤ prev) then p
  else
    { lastSeen := p.lastSeen.set ticker effectiveAt
      updates :=
        if observed < measureFrom then p.updates
        else p.updates ++ ((parse effectiveAt).map fun e => ⟨ticker, e, observed⟩).toList }

end Pusher

/-! ## The run -/

/-- The server, the two clients, and what is on its way to them.  Versions are stored and published
in two events, so a poll can read what no client has been sent yet, and a version may never be
published. -/
structure Comparison where
  now : ℤ
  /-- Every version there has been. -/
  log : List (Ticker × Instant)
  /-- History: the versions that were published. -/
  published : List (Ticker × Instant)
  poller : Poller
  /-- The response to a poll. -/
  polling : Option (List Item)
  pusher : Pusher
  /-- Whether a snapshot is to be requested, the response to it, and whether one has been applied. -/
  owed : Bool
  snapshot : Option (List Item)
  ready : Bool
  /-- The push client has taken part in the storm. -/
  stormed : Bool
  subscribed : List Ticker
  inbox : List (Ticker × Instant)
  deriving DecidableEq

/-- What can happen.  A poll is read by the server, and is done or fails at the client; so is the
snapshot, but a client whose first one fails gives up. -/
inductive LoadEvent
  | pass (micros : ℕ)
  | stamp (ticker : Ticker) (effective : Instant)
  | publish (ticker : Ticker) (effective : Instant)
  | pollRead (answer : Dict Ticker Instant)
  | pollDone
  | pollFail
  | snapshotRead (answer : Dict Ticker Instant)
  | snapshotDone
  | subscribe (ticker : Ticker)
  | deliver
  | drop
  | storm

namespace Comparison

/-- The clients before they have asked for anything. -/
def initial (now : ℤ) (log published : List (Ticker × Instant)) : Comparison :=
  ⟨now, log, published, ⟨.empty, []⟩, none, ⟨.empty, []⟩, true, none, false, false, [], []⟩

/-- The items of `GET /watchlist`. -/
def items (cfg : LoadConfig) (answer : Dict Ticker Instant) : List Item :=
  cfg.watchlist.map fun e => ⟨e.1, e.2, (answer.get? e.2).elim "" toIso⟩

/-- One event. -/
def step (parse : String → Option Instant) (cfg : LoadConfig) (s : Comparison) :
    LoadEvent → Option Comparison
  | .pass micros => some { s with now := s.now + micros }
  | .stamp ticker effective =>
    -- a version is newer than the one it replaces
    if ∀ m ∈ s.log, m.1 = ticker → m.2 < effective then
      some { s with log := s.log ++ [(ticker, effective)] }
    else none
  | .publish ticker effective =>
    -- a tick publishes what it stamped, once
    if (ticker, effective) ∈ s.log ∧ (∀ m ∈ s.log, m.1 = ticker → m.2 ≤ effective) ∧
        (ticker, effective) ∉ s.published then
      some { s with
        published := s.published ++ [(ticker, effective)]
        inbox := if ticker ∈ s.subscribed then s.inbox ++ [(ticker, effective)] else s.inbox }
    else none
  | .pollRead answer =>
    if s.polling = none ∧ answer.entries ⊆ s.log then
      some { s with polling := some (items cfg answer) }
    else none
  | .pollDone =>
    s.polling.map fun items =>
      { s with polling := none, poller := s.poller.receive parse s.now items }
  | .pollFail => if s.polling = none then none else some { s with polling := none }
  | .snapshotRead answer =>
    if s.owed = true ∧ answer.entries ⊆ s.log then
      some { s with owed := false, snapshot := some (items cfg answer) }
    else none
  | .snapshotDone =>
    s.snapshot.map fun items =>
      { s with snapshot := none, ready := true, pusher := s.pusher.applySnapshot items }
  | .subscribe ticker =>
    if s.ready = true ∧ (ticker ∈ cfg.watchlist.map Prod.snd ∨ cfg.celebrity = some ticker) ∧
        ticker ∉ s.subscribed then
      some { s with subscribed := s.subscribed ++ [ticker] }
    else none
  | .deliver =>
    match s.inbox with
    | [] => none
    | (ticker, effective) :: inbox =>
      some { s with
        inbox := inbox
        pusher := s.pusher.onPublication parse cfg.measureFrom s.now ticker (toIso effective) }
  | .drop => some { s with subscribed := [], inbox := [] }
  | .storm =>
    if s.ready = true ∧ s.stormed = false then
      some { s with owed := true, stormed := true, subscribed := [], inbox := [] }
    else none

/-- The runs of the comparison: some prices are there before it, and were published or not. -/
def system (parse : String → Option Instant) (cfg : LoadConfig) : System Comparison LoadEvent where
  init s := ∃ now log published, published ⊆ log ∧ s = initial now log published
  step := step parse cfg

/-! ## What may be asked of a run

Nothing of this holds by itself.  A poll goes back in time when the cache is down and the table behind
it, and it is ahead of the push client between the write of the cache and the publication.
-/

/-- The server answers a poll with nothing older than what the client has seen. -/
def Forward (cfg : LoadConfig) (s : Comparison) : LoadEvent → Prop
  | .pollRead answer => ∀ e ∈ cfg.watchlist, ∀ v ∈ answer.get? e.2,
      ∀ text ∈ s.poller.lastSeen.get? e.1, text ≤ toIso v
  | _ => True

instance (cfg : LoadConfig) (s : Comparison) (e : LoadEvent) : Decidable (Forward cfg s e) := by
  cases e <;> unfold Forward <;> infer_instance

/-- No connection is lost.  What the snapshot shows was published.  When the server reads a poll, the
push client has subscribed and measures, and what the poll shows is the last version that was
published, and is no longer on its way to the push client. -/
def Prompt (cfg : LoadConfig) (s : Comparison) : LoadEvent → Prop
  | .pollRead answer => cfg.measureFrom ≤ s.now ∧ ∀ e ∈ cfg.watchlist, e.2 ∈ s.subscribed ∧
      ∀ v ∈ answer.get? e.2, (e.2, v) ∈ s.published ∧ (e.2, v) ∉ s.inbox ∧
        ∀ m ∈ s.published, m.1 = e.2 → m.2 ≤ v
  | .snapshotRead answer => ∀ m ∈ answer.entries, m ∈ s.published
  | .drop | .storm => False
  | _ => True

instance (cfg : LoadConfig) (s : Comparison) (e : LoadEvent) : Decidable (Prompt cfg s e) := by
  cases e <;> unfold Prompt <;> infer_instance

end Comparison

/-! ## What the poll client counts

The client goes from one version of a ticker to another, and counts the one it arrives at.  How the two
stand to each other depends on what the server answers: `R` is any relation that holds between what
the client has seen and what it is shown, and then the versions it counts form a chain under it.
-/

section Poller

variable {parse : String → Option Instant} {cfg : LoadConfig} {K K' : Ticker → Instant → Prop}
  {R : Instant → Instant → Prop} {L L' : Sample → Prop} {p : Poller} {now : ℤ}

/-- The versions of a ticker that were counted. -/
def Poller.counts (p : Poller) (t : Ticker) : List Instant :=
  (p.updates.filter fun x => decide (x.ticker = t)).map Sample.effective

/-- The client and a response it has yet to go through, when what it has seen satisfies `K`, what it
has counted satisfies `L`, and it goes along `R`. -/
structure Poller.Tracks (cfg : LoadConfig) (K : Ticker → Instant → Prop)
    (R : Instant → Instant → Prop) (L : Sample → Prop) (p : Poller) (items : List Item) : Prop where
  listed : ∀ it ∈ items, (it.id, it.ticker) ∈ cfg.watchlist
  nodup : (items.map Item.id).Nodup
  item : ∀ it ∈ items, it.effectiveAt = "" ∨ ∃ v, it.effectiveAt = toIso v ∧ K it.ticker v ∧
    ∀ w, p.lastSeen.get? it.id = some (toIso w) → w ≠ v → R w v
  seen : ∀ id t, (id, t) ∈ cfg.watchlist → ∀ text, p.lastSeen.get? id = some text →
    ∃ v, text = toIso v ∧ K t v
  counted : ∀ x ∈ p.updates, L x
  last : ∀ id t, (id, t) ∈ cfg.watchlist → ∀ v ∈ (p.counts t).getLast?,
    p.lastSeen.get? id = some (toIso v)
  chain : ∀ t, (p.counts t).IsChain R

lemma LoadConfig.ticker_unique {id : SecurityId} {t t' : Ticker} (h : (id, t) ∈ cfg.watchlist)
    (h' : (id, t') ∈ cfg.watchlist) : t = t' :=
  congrArg Prod.snd (List.inj_on_of_nodup_map cfg.ids_nodup h h' rfl)

lemma LoadConfig.id_unique {id id' : SecurityId} {t : Ticker} (h : (id, t) ∈ cfg.watchlist)
    (h' : (id', t) ∈ cfg.watchlist) : id = id' :=
  congrArg Prod.fst (List.inj_on_of_nodup_map cfg.tickers_nodup h h' rfl)

lemma toIso_ne_empty (v : Instant) : toIso v ≠ "" := by
  intro h
  have hlength := Datetime.length_toIso v
  rw [h] at hlength
  exact absurd hlength (by decide)

lemma Poller.Tracks.mono {items : List Item} (h : p.Tracks cfg K R L items)
    (hK : ∀ t v, K t v → K' t v) (hL : ∀ x, L x → L' x) : p.Tracks cfg K' R L' items where
  listed := h.listed
  nodup := h.nodup
  item it hit := (h.item it hit).imp id fun ⟨v, hv, hKv, hR⟩ => ⟨v, hv, hK _ _ hKv, hR⟩
  seen id t hmem text htext :=
    let ⟨v, hv, hKv⟩ := h.seen id t hmem text htext
    ⟨v, hv, hK t v hKv⟩
  counted x hx := hL x (h.counted x hx)
  last := h.last
  chain := h.chain

lemma Poller.Tracks.nil {items : List Item} (h : p.Tracks cfg K R L items) :
    p.Tracks cfg K R L [] :=
  ⟨by simp, List.nodup_nil, by simp, h.seen, h.counted, h.last, h.chain⟩

lemma Poller.tracks_start : (⟨.empty, []⟩ : Poller).Tracks cfg K R L [] :=
  ⟨by simp, List.nodup_nil, by simp, by simp, by simp, by simp [counts], by simp [counts]⟩

lemma Poller.counts_append (p : Poller) (x : Sample) (seen : Dict SecurityId String) (t : Ticker) :
    (⟨seen, p.updates ++ [x]⟩ : Poller).counts t =
      p.counts t ++ if x.ticker = t then [x.effective] else [] := by
  unfold counts
  rw [List.filter_append, List.map_append]
  by_cases ht : x.ticker = t
  · simp [ht]
  · simp [ht]

lemma Poller.Tracks.see {it : Item} {items : List Item} (h : p.Tracks cfg K R L (it :: items))
    (hparse : ∀ v, parse (toIso v) = some v)
    (hL : ∀ t w v, K t w → K t v → w ≠ v → R w v → L ⟨t, v, now⟩) :
    (p.see parse now it).Tracks cfg K R L items := by
  have hrest : p.Tracks cfg K R L items :=
    ⟨fun it' hit' => h.listed it' (List.mem_cons_of_mem _ hit'), (List.nodup_cons.1 h.nodup).2,
      fun it' hit' => h.item it' (List.mem_cons_of_mem _ hit'), h.seen, h.counted, h.last, h.chain⟩
  unfold Poller.see
  split
  · exact hrest
  · next hnew =>
    obtain ⟨hne, hother⟩ := not_or.1 hnew
    have hlisted := h.listed it List.mem_cons_self
    obtain ⟨v, hv, hKv, hR⟩ := (h.item it List.mem_cons_self).resolve_left hne
    rw [hv, hparse, Option.map_some, Option.toList_some]
    rw [hv] at hother
    have hmoved : ∀ w, p.lastSeen.get? it.id = some (toIso w) → w ≠ v ∧ R w v := by
      intro w hw
      have hwv : w ≠ v := by
        rintro rfl
        exact hother (by rw [hw]; rfl)
      exact ⟨hwv, hR w hw hwv⟩
    -- the items to come are of other securities
    have hitems : ∀ it' ∈ items, it'.effectiveAt = "" ∨ ∃ v', it'.effectiveAt = toIso v' ∧
        K it'.ticker v' ∧ ∀ w, (p.lastSeen.set it.id (toIso v)).get? it'.id = some (toIso w) →
          w ≠ v' → R w v' := by
      intro it' hit'
      have hid : it'.id ≠ it.id := fun heq =>
        (List.nodup_cons.1 h.nodup).1 (heq ▸ List.mem_map_of_mem hit')
      refine (hrest.item it' hit').imp id ?_
      rintro ⟨v', hv', hKv', hR'⟩
      refine ⟨v', hv', hKv', fun w hw => hR' w ?_⟩
      rwa [Dict.get?_set_ne _ _ hid] at hw
    have hseen : ∀ id t, (id, t) ∈ cfg.watchlist → ∀ text,
        (p.lastSeen.set it.id (toIso v)).get? id = some text → ∃ v, text = toIso v ∧ K t v := by
      intro id t hmem text htext
      rw [Dict.get?_set] at htext
      split at htext
      · next heq =>
        obtain rfl := heq
        obtain rfl := Option.some.inj htext
        exact ⟨v, rfl, LoadConfig.ticker_unique hmem hlisted ▸ hKv⟩
      · exact h.seen id t hmem text htext
    have hlast : ∀ id t, (id, t) ∈ cfg.watchlist → t ≠ it.ticker → ∀ v' ∈ (p.counts t).getLast?,
        (p.lastSeen.set it.id (toIso v)).get? id = some (toIso v') := by
      intro id t hmem ht v' hv'
      have hid : id ≠ it.id := fun heq => ht (LoadConfig.ticker_unique (heq ▸ hmem) hlisted)
      exact (Dict.get?_set_ne _ _ hid).trans (h.last id t hmem v' hv')
    split
    · next hknown =>
      -- the client knows the security, so what it is shown is counted
      obtain ⟨text, htext⟩ := Dict.mem_keys_iff.1 (Dict.contains_iff.1 hknown)
      obtain ⟨w, rfl, hKw⟩ := h.seen it.id it.ticker hlisted text htext
      obtain ⟨hwv, hRw⟩ := hmoved w htext
      refine ⟨hrest.listed, hrest.nodup, hitems, hseen, fun x hx => ?_, fun id t hmem v' hv' => ?_,
        fun t => ?_⟩
      · rcases List.mem_append.1 hx with hx | hx
        · exact h.counted x hx
        · obtain rfl := List.mem_singleton.1 hx
          exact hL _ w v hKw hKv hwv hRw
      · rw [Poller.counts_append] at hv'
        by_cases ht : it.ticker = t
        · subst ht
          rw [if_pos rfl, List.getLast?_append_of_ne_nil _ (List.cons_ne_nil _ _)] at hv'
          obtain rfl : v = v' := by simpa using hv'
          rw [LoadConfig.id_unique hmem hlisted]
          exact Dict.get?_set_self _ _ _
        · rw [if_neg ht, List.append_nil] at hv'
          exact hlast id t hmem (Ne.symm ht) v' hv'
      · rw [Poller.counts_append]
        by_cases ht : it.ticker = t
        · subst ht
          rw [if_pos rfl]
          refine (h.chain _).append (List.isChain_singleton v) fun x hx y hy => ?_
          obtain rfl : v = y := by simpa using hy
          have hx' := h.last it.id it.ticker hlisted x hx
          rw [htext] at hx'
          exact toIso_inj.1 (Option.some.inj hx') ▸ hRw
        · rw [if_neg ht, List.append_nil]
          exact h.chain t
    · next hunknown =>
      refine ⟨hrest.listed, hrest.nodup, hitems, hseen, h.counted, fun id t hmem v' hv' => ?_,
        h.chain⟩
      by_cases ht : t = it.ticker
      · -- nothing of it was counted, since it was not known
        subst ht
        have hold := h.last it.id it.ticker hlisted v' hv'
        exact absurd (Dict.contains_iff.2 (Dict.mem_keys_iff.2 ⟨_, hold⟩)) hunknown
      · exact hlast id t hmem ht v' hv'

lemma Poller.Tracks.receive {items : List Item} (h : p.Tracks cfg K R L items)
    (hparse : ∀ v, parse (toIso v) = some v)
    (hL : ∀ t w v, K t w → K t v → w ≠ v → R w v → L ⟨t, v, now⟩) :
    (p.receive parse now items).Tracks cfg K R L [] := by
  induction items generalizing p with
  | nil => exact h
  | cons it items ih => exact ih (h.see hparse hL)

lemma nodup_versions {xs : List Sample}
    (h : ∀ t, ((xs.filter fun x => decide (x.ticker = t)).map Sample.effective).Nodup) :
    (xs.map Sample.version).Nodup := by
  induction xs with
  | nil => exact List.nodup_nil
  | cons x xs ih =>
    rw [List.map_cons, List.nodup_cons]
    refine ⟨fun hmem => ?_, ih fun t => ?_⟩
    · obtain ⟨y, hy, hversion⟩ := List.mem_map.1 hmem
      obtain ⟨hticker, heffective⟩ := Prod.mk.inj hversion
      have hx := h x.ticker
      rw [List.filter_cons, if_pos (decide_eq_true rfl), List.map_cons, List.nodup_cons] at hx
      exact hx.1 (List.mem_map.2 ⟨y, List.mem_filter.2 ⟨hy, decide_eq_true hticker⟩, heffective⟩)
    · refine (h t).sublist (List.Sublist.map _ (List.Sublist.filter _ (List.sublist_cons_self x xs)))

lemma Poller.Tracks.once {items : List Item} (h : p.Tracks cfg K (· < ·) L items) :
    (p.updates.map Sample.version).Nodup :=
  nodup_versions fun t => (List.isChain_iff_pairwise.1 (h.chain t)).imp fun hlt => ne_of_lt hlt

end Poller

namespace Comparison

variable {parse : String → Option Instant} {cfg : LoadConfig} {s s' : Comparison} {e : LoadEvent}

lemma tracks_items {K : Ticker → Instant → Prop} {R : Instant → Instant → Prop} {L : Sample → Prop}
    {answer : Dict Ticker Instant} (h : s.poller.Tracks cfg K R L [])
    (hanswer : ∀ id t v, (id, t) ∈ cfg.watchlist → answer.get? t = some v → K t v ∧
      ∀ w, s.poller.lastSeen.get? id = some (toIso w) → w ≠ v → R w v) :
    s.poller.Tracks cfg K R L (items cfg answer) := by
  refine ⟨fun it hit => ?_, ?_, fun it hit => ?_, h.seen, h.counted, h.last, h.chain⟩
  · obtain ⟨entry, hentry, rfl⟩ := List.mem_map.1 hit
    exact hentry
  · rw [items, List.map_map]
    exact cfg.ids_nodup
  · obtain ⟨entry, hentry, rfl⟩ := List.mem_map.1 hit
    dsimp only
    cases hget : answer.get? entry.2 with
    | none => exact Or.inl rfl
    | some v => exact Or.inr ⟨v, rfl, hanswer entry.1 entry.2 v hentry hget⟩

/-- What the poll client has seen and counted, along a step.  Only the server's answer to a poll has
to be looked at. -/
lemma tracks_step {K : Comparison → Ticker → Instant → Prop} {R : Instant → Instant → Prop}
    {L : Comparison → Sample → Prop} (hparse : ∀ v, parse (toIso v) = some v)
    (hKmono : ∀ t v, K s t v → K s' t v) (hLmono : ∀ x, L s x → L s' x)
    (hanswer : ∀ answer, e = .pollRead answer → answer.entries ⊆ s.log → ∀ id t v,
      (id, t) ∈ cfg.watchlist → answer.get? t = some v → K s t v ∧
        ∀ w, s.poller.lastSeen.get? id = some (toIso w) → w ≠ v → R w v)
    (hL : ∀ t w v, K s t w → K s t v → w ≠ v → R w v → L s ⟨t, v, s.now⟩)
    (h : s.poller.Tracks cfg (K s) R (L s) (s.polling.getD []))
    (hstep : step parse cfg s e = some s') :
    s'.poller.Tracks cfg (K s') R (L s') (s'.polling.getD []) := by
  -- what the other client and the server do leaves the poller as it is
  have hkept (hpoller : s'.poller = s.poller) (hpolling : s'.polling = s.polling) :
      s'.poller.Tracks cfg (K s') R (L s') (s'.polling.getD []) := by
    rw [hpoller, hpolling]
    exact h.mono hKmono hLmono
  cases e with
  | pass micros | drop =>
    obtain rfl := Option.some.inj hstep
    exact hkept rfl rfl
  | stamp ticker effective | publish ticker effective | subscribe ticker | storm =>
    obtain ⟨-, hs'⟩ := Option.ite_none_right_eq_some.1 hstep
    obtain rfl := Option.some.inj hs'
    exact hkept rfl rfl
  | pollRead answer =>
    obtain ⟨⟨-, hlog⟩, hs'⟩ := Option.ite_none_right_eq_some.1 hstep
    obtain rfl := Option.some.inj hs'
    -- the answer is read from the store, and the caller says what that means
    exact (tracks_items h.nil (hanswer answer rfl hlog)).mono hKmono hLmono
  | pollDone =>
    obtain ⟨items, hitems, rfl⟩ := Option.map_eq_some_iff.1 hstep
    rw [hitems] at h
    -- the answer becomes the poller's: what differs from it is counted
    exact (h.receive hparse hL).mono hKmono hLmono
  | pollFail =>
    obtain ⟨-, hs'⟩ := Option.ite_none_left_eq_some.1 hstep
    obtain rfl := Option.some.inj hs'
    exact h.nil.mono hKmono hLmono
  | snapshotRead answer =>
    obtain ⟨-, hs'⟩ := Option.ite_none_right_eq_some.1 hstep
    obtain rfl := Option.some.inj hs'
    exact hkept rfl rfl
  | snapshotDone =>
    obtain ⟨items, -, rfl⟩ := Option.map_eq_some_iff.1 hstep
    exact hkept rfl rfl
  | deliver =>
    simp only [step] at hstep
    split at hstep
    · exact absurd hstep (by simp)
    · obtain rfl := Option.some.inj hstep
      exact hkept rfl rfl

/-! ## What the push client counts

A version is published once and in order, so it is delivered at most once, and that is why it is
counted at most once: a snapshot of the storm may well set `lastSeen` back.
-/

/-- What is on its way to the push client is newer than what it counted, and in order.  So each
publication it receives is a version it has not counted, whichever snapshots it took between. -/
structure Delivers (s : Comparison) : Prop where
  published_log : s.published ⊆ s.log
  inbox_published : s.inbox ⊆ s.published
  sorted : s.inbox.Pairwise fun a b => a.1 = b.1 → a.2 < b.2
  counted : ∀ x ∈ s.pusher.updates, x.version ∈ s.published ∧ x.observed ≤ s.now ∧
    ∀ m ∈ s.inbox, m.1 = x.ticker → x.effective < m.2
  once : (s.pusher.updates.map Sample.version).Nodup

lemma delivers_initial {now : ℤ} {log published : List (Ticker × Instant)}
    (h : published ⊆ log) : Delivers (initial now log published) :=
  ⟨h, List.nil_subset _, List.Pairwise.nil, by simp [initial], List.nodup_nil⟩

/-- What is published is newer than what was published of its ticker before. -/
lemma Delivers.newest (h : Delivers s) {t : Ticker} {v w : Instant}
    (hnewest : ∀ m ∈ s.log, m.1 = t → m.2 ≤ v) (hnew : (t, v) ∉ s.published)
    (hw : (t, w) ∈ s.published) : w < v := by
  refine (hnewest (t, w) (h.published_log hw) rfl).lt_of_ne ?_
  rintro rfl
  exact hnew hw

lemma Delivers.publish (h : Delivers s) {t : Ticker} {v : Instant} (hlog : (t, v) ∈ s.log)
    (hnewest : ∀ m ∈ s.log, m.1 = t → m.2 ≤ v) (hnew : (t, v) ∉ s.published) :
    Delivers { s with
      published := s.published ++ [(t, v)]
      inbox := if t ∈ s.subscribed then s.inbox ++ [(t, v)] else s.inbox } := by
  -- it goes to the inbox if its channel is subscribed
  have hsub : ∀ m ∈ (if t ∈ s.subscribed then s.inbox ++ [(t, v)] else s.inbox),
      m ∈ s.inbox ∨ m = (t, v) := by
    intro m hm
    split at hm
    · exact (List.mem_append.1 hm).imp id List.mem_singleton.1
    · exact Or.inl hm
  refine ⟨fun m hm => ?_, fun m hm => ?_, ?_, fun x hx => ?_, h.once⟩
  · rcases List.mem_append.1 hm with hm | hm
    · exact h.published_log hm
    · exact List.mem_singleton.1 hm ▸ hlog
  · rcases hsub m hm with hm | rfl
    · exact List.mem_append_left _ (h.inbox_published hm)
    · exact List.mem_append_right _ (List.mem_singleton_self _)
  · dsimp only
    split
    -- the newest of the log goes to the end
    · refine List.pairwise_append.2 ⟨h.sorted, List.pairwise_singleton _ _, fun a ha b hb heq => ?_⟩
      obtain rfl := List.mem_singleton.1 hb
      obtain ⟨t', w⟩ := a
      obtain rfl : t' = t := heq
      exact h.newest hnewest hnew (h.inbox_published ha)
    · exact h.sorted
  · obtain ⟨hpublished, hobserved, hnewer⟩ := h.counted x hx
    refine ⟨List.mem_append_left _ hpublished, hobserved, fun m hm heq => ?_⟩
    rcases hsub m hm with hm | rfl
    · exact hnewer m hm heq
    -- what was counted was published, so it is older than the newest
    · have hx' : (t, x.effective) ∈ s.published := by
        rw [show t = x.ticker from heq]
        exact hpublished
      exact h.newest hnewest hnew hx'

lemma onPublication_cases (hparse : ∀ v, parse (toIso v) = some v) (p : Pusher)
    (measureFrom observed : ℤ) (t : Ticker) (v : Instant) :
    (p.onPublication parse measureFrom observed t (toIso v)).updates = p.updates ∨
      (p.onPublication parse measureFrom observed t (toIso v)).updates =
        p.updates ++ [⟨t, v, observed⟩] := by
  rw [Pusher.onPublication, hparse]
  split
  · exact Or.inl rfl
  · dsimp only
    split
    · exact Or.inl rfl
    · exact Or.inr rfl

/-- The first publication on its way has not been counted. -/
lemma Delivers.deliver (h : Delivers s) (hparse : ∀ v, parse (toIso v) = some v) {t : Ticker}
    {v : Instant} {inbox : List (Ticker × Instant)} (hinbox : s.inbox = (t, v) :: inbox)
    (measureFrom : ℤ) :
    Delivers { s with
      inbox := inbox
      pusher := s.pusher.onPublication parse measureFrom s.now t (toIso v) } := by
  have hmem : (t, v) ∈ s.inbox := hinbox ▸ List.mem_cons_self
  have hrest : ∀ m ∈ inbox, m ∈ s.inbox := fun m hm => hinbox ▸ List.mem_cons_of_mem _ hm
  have hsorted := h.sorted
  rw [hinbox, List.pairwise_cons] at hsorted
  -- what was counted before stays older than the rest of the inbox
  have hcounted : ∀ x ∈ s.pusher.updates, x.version ∈ s.published ∧ x.observed ≤ s.now ∧
      ∀ m ∈ inbox, m.1 = x.ticker → x.effective < m.2 := fun x hx =>
    let ⟨hpublished, hobserved, hnewer⟩ := h.counted x hx
    ⟨hpublished, hobserved, fun m hm => hnewer m (hrest m hm)⟩
  refine ⟨h.published_log, fun m hm => h.inbox_published (hrest m hm), hsorted.2, ?_, ?_⟩
  -- a counted one was at the head, so the rest of its channel is newer
  · dsimp only
    rcases onPublication_cases hparse s.pusher measureFrom s.now t v with heq | heq
    · rw [heq]
      exact hcounted
    · rw [heq]
      intro x hx
      rcases List.mem_append.1 hx with hx | hx
      · exact hcounted x hx
      · obtain rfl := List.mem_singleton.1 hx
        exact ⟨h.inbox_published hmem, le_rfl, fun m hm heq => hsorted.1 m hm heq.symm⟩
  -- it is newer than all that was counted of its ticker, so it is none of them
  · dsimp only
    rcases onPublication_cases hparse s.pusher measureFrom s.now t v with heq | heq
    · rw [heq]
      exact h.once
    · rw [heq, List.map_append, List.map_singleton, List.nodup_append]
      refine ⟨h.once, List.nodup_singleton _, fun y hy z hz hyz => ?_⟩
      obtain ⟨x, hx, rfl⟩ := List.mem_map.1 hy
      obtain rfl := List.mem_singleton.1 hz
      obtain ⟨hticker, heffective⟩ := Prod.mk.inj hyz
      have hlt := (h.counted x hx).2.2 (t, v) hmem hticker.symm
      exact absurd heffective (ne_of_lt hlt)

lemma Delivers.disconnect (h : Delivers s) (owed stormed : Bool) :
    Delivers { s with owed := owed, stormed := stormed, subscribed := [], inbox := [] } :=
  ⟨h.published_log, List.nil_subset _, List.Pairwise.nil,
    fun x hx => ⟨(h.counted x hx).1, (h.counted x hx).2.1, by simp⟩, h.once⟩

lemma Delivers.step (h : Delivers s) (hparse : ∀ v, parse (toIso v) = some v)
    (hstep : step parse cfg s e = some s') : Delivers s' := by
  cases e with
  | pass micros =>
    obtain rfl := Option.some.inj hstep
    -- an observation stays in the past
    exact ⟨h.published_log, h.inbox_published, h.sorted, fun x hx =>
      let ⟨hpublished, hobserved, hnewer⟩ := h.counted x hx
      ⟨hpublished, hobserved.trans (le_add_of_nonneg_right (Int.natCast_nonneg _)), hnewer⟩, h.once⟩
  | stamp ticker effective =>
    obtain ⟨-, hs'⟩ := Option.ite_none_right_eq_some.1 hstep
    obtain rfl := Option.some.inj hs'
    -- the log grows, and nothing is published yet
    exact ⟨fun m hm => List.mem_append_left _ (h.published_log hm), h.2, h.3, h.4, h.5⟩
  | publish ticker effective =>
    obtain ⟨⟨hlog, hnewest, hnew⟩, hs'⟩ := Option.ite_none_right_eq_some.1 hstep
    obtain rfl := Option.some.inj hs'
    exact h.publish hlog hnewest hnew
  | pollRead answer | snapshotRead answer | subscribe ticker =>
    obtain ⟨-, hs'⟩ := Option.ite_none_right_eq_some.1 hstep
    obtain rfl := Option.some.inj hs'
    exact ⟨h.1, h.2, h.3, h.4, h.5⟩
  | pollDone | snapshotDone =>
    obtain ⟨items, -, rfl⟩ := Option.map_eq_some_iff.1 hstep
    exact ⟨h.1, h.2, h.3, h.4, h.5⟩
  | pollFail =>
    obtain ⟨-, hs'⟩ := Option.ite_none_left_eq_some.1 hstep
    obtain rfl := Option.some.inj hs'
    exact ⟨h.1, h.2, h.3, h.4, h.5⟩
  | deliver =>
    cases hinbox : s.inbox with
    | nil =>
      simp only [Comparison.step, hinbox] at hstep
      exact absurd hstep (by simp)
    | cons m inbox =>
      simp only [Comparison.step, hinbox] at hstep
      obtain rfl := Option.some.inj hstep
      exact h.deliver hparse hinbox cfg.measureFrom
  | drop =>
    obtain rfl := Option.some.inj hstep
    -- a lost connection empties the inbox
    exact h.disconnect s.owed s.stormed
  | storm =>
    obtain ⟨-, hs'⟩ := Option.ite_none_right_eq_some.1 hstep
    obtain rfl := Option.some.inj hs'
    exact h.disconnect true true

/-! ## Counting once -/

/-- A version that the poll client counted was there, and was not the only one of its ticker. -/
def Replaces (s : Comparison) (x : Sample) : Prop :=
  x.version ∈ s.log ∧ ∃ w ≠ x.effective, (x.ticker, w) ∈ s.log

lemma log_subset (hstep : step parse cfg s e = some s') : s.log ⊆ s'.log := by
  cases e with
  | pass micros | drop =>
    obtain rfl := Option.some.inj hstep
    exact List.Subset.refl _
  | stamp ticker effective =>
    obtain ⟨-, hs'⟩ := Option.ite_none_right_eq_some.1 hstep
    obtain rfl := Option.some.inj hs'
    exact List.subset_append_left _ _
  | publish ticker effective | pollRead answer | snapshotRead answer | subscribe ticker | storm =>
    obtain ⟨-, hs'⟩ := Option.ite_none_right_eq_some.1 hstep
    obtain rfl := Option.some.inj hs'
    exact List.Subset.refl _
  | pollDone | snapshotDone =>
    obtain ⟨items, -, rfl⟩ := Option.map_eq_some_iff.1 hstep
    exact List.Subset.refl _
  | pollFail =>
    obtain ⟨-, hs'⟩ := Option.ite_none_left_eq_some.1 hstep
    obtain rfl := Option.some.inj hs'
    exact List.Subset.refl _
  | deliver =>
    simp only [Comparison.step] at hstep
    split at hstep
    · exact absurd hstep (by simp)
    · obtain rfl := Option.some.inj hstep
      exact List.Subset.refl _

/-- Along runs whose answers satisfy `ok`, the poll client goes along the relation `R` that they
stand in to what it has seen. -/
lemma tracks_of_reachable {ok : Comparison → LoadEvent → Prop} {R : Instant → Instant → Prop}
    (hparse : ∀ v, parse (toIso v) = some v)
    (hok : ∀ (s : Comparison) answer, ok s (.pollRead answer) → ∀ id t v, (id, t) ∈ cfg.watchlist →
      answer.get? t = some v → ∀ w, s.poller.lastSeen.get? id = some (toIso w) → w ≠ v → R w v)
    (hreach : (system parse cfg).ReachableWhere ok s) :
    s.poller.Tracks cfg (fun t v => (t, v) ∈ s.log) R (Replaces s) (s.polling.getD []) := by
  refine hreach.invariant (I := fun s =>
    s.poller.Tracks cfg (fun t v => (t, v) ∈ s.log) R (Replaces s) (s.polling.getD [])) ?_ ?_
  · rintro _ ⟨now, log, published, -, rfl⟩
    exact Poller.tracks_start
  · intro s e s' he htracks hstep
    have hlog {m : Ticker × Instant} (hm : m ∈ s.log) : m ∈ s'.log := log_subset hstep hm
    refine @tracks_step parse cfg s s' e (fun s t v => (t, v) ∈ s.log) R Replaces hparse
      (fun t v => hlog) ?_ ?_ ?_ htracks hstep
    · exact fun x ⟨hx, w, hw, hmem⟩ => ⟨hlog hx, w, hw, hlog hmem⟩
    · rintro answer rfl hanswer id t v hmem hv
      exact ⟨hanswer (Dict.get?_eq_some_iff.1 hv), hok s answer he id t v hmem hv⟩
    · exact fun t w v hw hv hne _ => ⟨hv, w, hne, hw⟩

/-- **Each client counts a version at most once**, as far as the server lets it.  Whatever the order
of polls, publications, lost connections and the storm, and whatever is lost of them, the push client
counts a version at most once, and only what was published.  The poll client counts only stamps there
were, of a ticker that had another one, and none twice in a row; and as long as the server answers it
with nothing older than before, it too counts a version at most once. -/
theorem counted_once (hparse : ∀ v, parse (toIso v) = some v)
    (hreach : (system parse cfg).Reachable s) :
    (s.pusher.updates.map Sample.version).Nodup ∧
      (∀ x ∈ s.pusher.updates, x.version ∈ s.published) ∧
      (∀ x ∈ s.poller.updates, Replaces s x) ∧ (∀ t, (s.poller.counts t).IsChain (· ≠ ·)) ∧
      ((system parse cfg).ReachableWhere (Forward cfg) s →
        (s.poller.updates.map Sample.version).Nodup) := by
  have hdelivers : Delivers s := by
    refine hreach.invariant (I := Delivers) ?_ fun s e s' h hstep => h.step hparse hstep
    rintro _ ⟨now, log, published, hsub, rfl⟩
    exact delivers_initial hsub
  have htracks := @tracks_of_reachable parse cfg s (fun _ _ => True) (· ≠ ·) hparse
    (fun _ _ _ _ _ _ _ _ _ _ hne => hne) hreach
  refine ⟨hdelivers.once, fun x hx => (hdelivers.counted x hx).1, htracks.counted, htracks.chain,
    fun hforward => ?_⟩
  refine (tracks_of_reachable (R := (· < ·)) hparse ?_ hforward).once
  intro s answer hanswer id t v hmem hv w hw hne
  exact (toIso_le_iff.1 (hanswer (id, t) hmem v hv _ hw)).lt_of_ne hne

/-! ## A connection that is lost -/

/-- Go's parser, of what `to_iso` writes. -/
def parseTime (text : String) : Option Instant :=
  (Datetime.fromIso text).bind Datetime.astimezoneUtc

lemma parseTime_toIso (v : Instant) : parseTime (toIso v) = some v := by
  obtain ⟨d, hd, hmicros⟩ := Datetime.fromIso_toIso v
  rw [parseTime, hd, Option.bind_some]
  exact Datetime.astimezoneUtc_eq_some_iff.2 hmicros

/-- One ticker on the list. -/
def oneTicker : LoadConfig where
  watchlist := [(7, "NVDA")]
  ids_nodup := by decide
  tickers_nodup := by decide
  celebrity := none
  measureFrom := 0

/-- A server with one price, which was published. -/
def onePrice : Comparison := initial 0 [("NVDA", .first)] [("NVDA", .first)]

/-- Where a list of events leads to, from a server with one price. -/
def after (events : List LoadEvent) : Comparison :=
  ((system parseTime oneTicker).exec onePrice events).getD onePrice

/-- The second version of a price. -/
def second : Instant := ⟨10, by decide⟩

/-- The third. -/
def third : Instant := ⟨40, by decide⟩

/-- What the server shows of the price. -/
def shows (v : Instant) : Dict Ticker Instant := .ofList [("NVDA", v)]

/-- The push client loses its connection with the second version on its way to it. -/
def lossy : List LoadEvent :=
  [.snapshotRead (shows .first), .snapshotDone, .subscribe "NVDA", .pollRead (shows .first),
    .pollDone, .stamp "NVDA" second, .publish "NVDA" second, .drop, .pollRead (shows second),
    .pass 30, .pollDone, .subscribe "NVDA", .stamp "NVDA" third, .publish "NVDA" third, .pass 30,
    .deliver, .pollRead (shows third), .pollDone]

/-- The two versions the poll client counted are different. -/
theorem lossy_counted : ((after lossy).poller.updates.map Sample.version).Nodup ∧
    (after lossy).poller.updates.length = 2 ∧ (after lossy).pusher.updates.length = 1 := by
  have hexec : (system parseTime oneTicker).execWhere (Forward oneTicker) onePrice lossy =
      some (after lossy) := by decide +kernel
  have hreach : (system parseTime oneTicker).ReachableWhere (Forward oneTicker) (after lossy) :=
    ⟨_, ⟨0, _, _, List.Subset.refl _, rfl⟩, System.runWhere_of_execWhere hexec⟩
  obtain ⟨s₀, hinit, hrun⟩ := hreach
  exact ⟨(counted_once parseTime_toIso ⟨s₀, hinit, hrun.run⟩).2.2.2.2 ⟨s₀, hinit, hrun⟩,
    by decide +kernel, by decide +kernel⟩

/-- The server falls back to the table while the cache is down. -/
def fallsBack : List LoadEvent :=
  [.pollRead (shows .first), .pollDone, .stamp "NVDA" second, .pollRead (shows second), .pollDone,
    .pollRead (shows .first), .pollDone, .pollRead (shows second), .pollDone]

/-- The second version is counted twice. -/
example : (after fallsBack).poller.counts "NVDA" = [second, .first, second] := by decide +kernel

end Comparison

end LoadGenerator
end TickerWatch
