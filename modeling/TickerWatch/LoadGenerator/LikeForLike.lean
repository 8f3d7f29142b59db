import Mathlib.Data.List.Perm.Subperm
import TickerWatch.LoadGenerator.Comparison

/-!
# Like for like

Polling and pushing are compared on what both clients get to see.  A tick writes its stores and
publishes side by side, so a poll can show a version before the push client has it, or one whose
publication failed; the poll client is then ahead.  Leave that out (`Prompt`): then the poll client
counts nothing that the push client did not count, and sees nothing sooner (`poll_within_push`).  It
counts less, since a version that is replaced between two polls is never seen.
-/

namespace TickerWatch
namespace LoadGenerator
namespace Comparison

variable {parse : String → Option Instant} {cfg : LoadConfig} {s s' : Comparison} {e : LoadEvent}

/-! ## The push client, undisturbed -/

/-- What is on its way to the push client is newer than what it has seen, which was published.  Before
its snapshot it has nothing, and it takes no other. -/
structure Undisturbed (s : Comparison) : Prop where
  newer : ∀ m ∈ s.inbox, ∀ text, s.pusher.lastSeen.get? m.1 = some text → text < toIso m.2
  seen : ∀ t text, s.pusher.lastSeen.get? t = some text →
    text = "" ∨ ∃ v, text = toIso v ∧ (t, v) ∈ s.published
  unready : s.ready = false → s.inbox = [] ∧ s.subscribed = []
  owed : s.owed = true → s.ready = false
  snapshot : ∀ items ∈ s.snapshot, s.owed = false ∧ s.ready = false ∧ ∀ it ∈ items,
    it.effectiveAt = "" ∨ ∃ v, it.effectiveAt = toIso v ∧ (it.ticker, v) ∈ s.published

lemma empty_lt_toIso (v : Instant) : "" < toIso v := by
  rw [String.lt_iff_toList_lt]
  cases htext : (toIso v).toList with
  | nil => exact absurd (String.toList_eq_nil_iff.1 htext) (toIso_ne_empty v)
  | cons c cs => exact List.nil_lt_cons c cs

lemma undisturbed_initial (now : ℤ) (log published : List (Ticker × Instant)) :
    Undisturbed (initial now log published) :=
  ⟨by simp [initial], by simp [initial], fun _ => ⟨rfl, rfl⟩, fun _ => rfl, by simp [initial]⟩

lemma Undisturbed.publish (h : Undisturbed s) (hdelivers : Delivers s) {t : Ticker} {v : Instant}
    (hnewest : ∀ m ∈ s.log, m.1 = t → m.2 ≤ v) (hnew : (t, v) ∉ s.published) :
    Undisturbed { s with
      published := s.published ++ [(t, v)]
      inbox := if t ∈ s.subscribed then s.inbox ++ [(t, v)] else s.inbox } := by
  have hseen : ∀ text, s.pusher.lastSeen.get? t = some text → text < toIso v := by
    intro text htext
    obtain rfl | ⟨w, rfl, hw⟩ := h.seen t text htext
    · exact empty_lt_toIso v
    · exact toIso_lt_iff.2 (hdelivers.newest hnewest hnew hw)
  refine ⟨fun m hm text htext => ?_, fun t' text htext => ?_, fun hready => ?_, h.owed,
    fun items hitems => ?_⟩
  · dsimp only at hm
    split at hm
    · rcases List.mem_append.1 hm with hm | hm
      · exact h.newer m hm text htext
      · obtain rfl := List.mem_singleton.1 hm
        exact hseen text htext
    · exact h.newer m hm text htext
  · exact (h.seen t' text htext).imp id fun ⟨w, hw, hmem⟩ => ⟨w, hw, List.mem_append_left _ hmem⟩
  · obtain ⟨hinbox, hsubscribed⟩ := h.unready hready
    dsimp only
    rw [hsubscribed, hinbox, if_neg List.not_mem_nil]
    exact ⟨rfl, rfl⟩
  · obtain ⟨howed, hready, hitems⟩ := h.snapshot items hitems
    exact ⟨howed, hready, fun it hit => (hitems it hit).imp id fun ⟨w, hw, hmem⟩ =>
      ⟨w, hw, List.mem_append_left _ hmem⟩⟩

lemma onPublication_eq (hparse : ∀ v, parse (toIso v) = some v) {p : Pusher}
    {measureFrom observed : ℤ} {t : Ticker} {v : Instant}
    (hnewer : ∀ text, p.lastSeen.get? t = some text → text < toIso v) :
    p.onPublication parse measureFrom observed t (toIso v) =
      { lastSeen := p.lastSeen.set t (toIso v)
        updates := if observed < measureFrom then p.updates else p.updates ++ [⟨t, v, observed⟩] } := by
  have hany : (p.lastSeen.get? t).any (fun prev => decide (toIso v ≤ prev)) = false := by
    cases hprev : p.lastSeen.get? t with
    | none => rfl
    | some prev => exact decide_eq_false (not_le.2 (hnewer prev hprev))
  rw [Pusher.onPublication, hany, if_neg Bool.false_ne_true, hparse]
  rfl

/-- The first publication on its way is new to the client, and it leaves the rest new. -/
lemma Undisturbed.deliver (h : Undisturbed s) (hdelivers : Delivers s)
    (hparse : ∀ v, parse (toIso v) = some v) {t : Ticker} {v : Instant}
    {inbox : List (Ticker × Instant)} (hinbox : s.inbox = (t, v) :: inbox) (measureFrom : ℤ) :
    Undisturbed { s with
      inbox := inbox
      pusher := s.pusher.onPublication parse measureFrom s.now t (toIso v) } := by
  have hmem : (t, v) ∈ s.inbox := hinbox ▸ List.mem_cons_self
  have hsorted := hdelivers.sorted
  rw [hinbox, List.pairwise_cons] at hsorted
  rw [onPublication_eq hparse (h.newer (t, v) hmem)]
  refine ⟨fun m hm text htext => ?_, fun t' text htext => ?_, fun hready => ?_, h.owed, h.snapshot⟩
  · change (s.pusher.lastSeen.set t (toIso v)).get? m.1 = some text at htext
    rw [Dict.get?_set] at htext
    split at htext
    · next heq =>
      obtain rfl := Option.some.inj htext
      exact toIso_lt_iff.2 (hsorted.1 m hm heq.symm)
    · exact h.newer m (hinbox ▸ List.mem_cons_of_mem _ hm) text htext
  · change (s.pusher.lastSeen.set t (toIso v)).get? t' = some text at htext
    rw [Dict.get?_set] at htext
    split at htext
    · next heq =>
      obtain rfl := heq
      obtain rfl := Option.some.inj htext
      exact Or.inr ⟨v, rfl, hdelivers.inbox_published hmem⟩
    · exact h.seen t' text htext
  · exact absurd ((h.unready hready).1.symm.trans hinbox) (by simp)

lemma Undisturbed.applySnapshot (h : Undisturbed s) {items : List Item}
    (hitems : s.snapshot = some items) :
    Undisturbed { s with
      snapshot := none, ready := true, pusher := s.pusher.applySnapshot items } := by
  obtain ⟨howed, hready, hstamps⟩ := h.snapshot items hitems
  obtain ⟨hinbox, -⟩ := h.unready hready
  refine ⟨fun m hm => ?_, fun t text htext => ?_, fun hfalse => absurd hfalse (by simp),
    fun hfalse => absurd (howed.symm.trans hfalse) (by simp), by simp⟩
  · exact absurd (hinbox ▸ hm) List.not_mem_nil
  · change (s.pusher.lastSeen.setAll _).get? t = some text at htext
    rcases Dict.mem_or_of_get?_setAll htext with hmem | hold
    · obtain ⟨it, hit, heq⟩ := List.mem_map.1 hmem
      obtain ⟨rfl, rfl⟩ := Prod.mk.inj heq
      exact hstamps it hit
    · exact h.seen t text hold

lemma Undisturbed.step (h : Undisturbed s) (hdelivers : Delivers s)
    (hparse : ∀ v, parse (toIso v) = some v) (hprompt : Prompt cfg s e)
    (hstep : step parse cfg s e = some s') : Undisturbed s' := by
  cases e with
  | pass micros =>
    obtain rfl := Option.some.inj hstep
    exact ⟨h.newer, h.seen, h.unready, h.owed, h.snapshot⟩
  -- the store and the poller have no part in it
  | stamp ticker effective | pollRead answer =>
    obtain ⟨-, hs'⟩ := Option.ite_none_right_eq_some.1 hstep
    obtain rfl := Option.some.inj hs'
    exact ⟨h.newer, h.seen, h.unready, h.owed, h.snapshot⟩
  | publish ticker effective =>
    obtain ⟨⟨-, hnewest, hnew⟩, hs'⟩ := Option.ite_none_right_eq_some.1 hstep
    obtain rfl := Option.some.inj hs'
    exact h.publish hdelivers hnewest hnew
  | pollDone =>
    obtain ⟨items, -, rfl⟩ := Option.map_eq_some_iff.1 hstep
    exact ⟨h.newer, h.seen, h.unready, h.owed, h.snapshot⟩
  | pollFail =>
    obtain ⟨-, hs'⟩ := Option.ite_none_left_eq_some.1 hstep
    obtain rfl := Option.some.inj hs'
    exact ⟨h.newer, h.seen, h.unready, h.owed, h.snapshot⟩
  | snapshotRead answer =>
    obtain ⟨⟨howed, -⟩, hs'⟩ := Option.ite_none_right_eq_some.1 hstep
    obtain rfl := Option.some.inj hs'
    -- a prompt snapshot shows published versions only, or the empty text
    refine ⟨h.newer, h.seen, h.unready, fun hfalse => absurd hfalse (by simp), fun items' hitems => ?_⟩
    obtain rfl := Option.some.inj hitems
    refine ⟨rfl, h.owed howed, fun it hit => ?_⟩
    obtain ⟨entry, -, rfl⟩ := List.mem_map.1 hit
    dsimp only
    cases hget : answer.get? entry.2 with
    | none => exact Or.inl rfl
    | some v => exact Or.inr ⟨v, rfl, hprompt _ (Dict.get?_eq_some_iff.1 hget)⟩
  | snapshotDone =>
    obtain ⟨items, hitems, rfl⟩ := Option.map_eq_some_iff.1 hstep
    exact h.applySnapshot hitems
  | subscribe ticker =>
    obtain ⟨⟨hready, -, -⟩, hs'⟩ := Option.ite_none_right_eq_some.1 hstep
    obtain rfl := Option.some.inj hs'
    -- channels are subscribed once the snapshot was applied
    exact ⟨h.newer, h.seen, fun hfalse => absurd (hready.symm.trans hfalse) (by simp), h.owed,
      h.snapshot⟩
  | deliver =>
    cases hinbox : s.inbox with
    | nil =>
      simp only [Comparison.step, hinbox] at hstep
      exact absurd hstep (by simp)
    | cons m inbox =>
      simp only [Comparison.step, hinbox] at hstep
      obtain rfl := Option.some.inj hstep
      exact h.deliver hdelivers hparse hinbox cfg.measureFrom
  -- neither is prompt: what is on its way would be lost
  | drop | storm => exact absurd hprompt id

/-! ## Push counts what poll counts -/

/-- The push client has received a version, and counts all that are published after it.  It is kept
from then on, as the subscription stays and the time for dropping samples is over. -/
structure CaughtUp (cfg : LoadConfig) (s : Comparison) (t : Ticker) (v : Instant) : Prop where
  published : (t, v) ∈ s.published
  received : (t, v) ∉ s.inbox
  subscribed : t ∈ s.subscribed
  measures : cfg.measureFrom ≤ s.now
  later : ∀ w, (t, w) ∈ s.published → v < w →
    (t, w) ∈ s.inbox ∨ ∃ q ∈ s.pusher.updates, q.version = (t, w)

/-- The push client has counted what the poll client counted, and not later. -/
def Matched (s : Comparison) (x : Sample) : Prop :=
  ∃ q ∈ s.pusher.updates, q.version = x.version ∧ q.observed ≤ x.observed

lemma mem_onPublication {p : Pusher} {measureFrom observed : ℤ} {t : Ticker} {text : String}
    {x : Sample} (h : x ∈ p.updates) :
    x ∈ (p.onPublication parse measureFrom observed t text).updates := by
  unfold Pusher.onPublication
  split
  · exact h
  · dsimp only
    split
    · exact h
    · exact List.mem_append_left _ h

lemma mem_updates {x : Sample} (h : x ∈ s.pusher.updates)
    (hstep : step parse cfg s e = some s') : x ∈ s'.pusher.updates := by
  cases e with
  | pass micros | drop =>
    obtain rfl := Option.some.inj hstep
    exact h
  | stamp ticker effective | publish ticker effective | pollRead answer | snapshotRead answer
  | subscribe ticker | storm =>
    obtain ⟨-, hs'⟩ := Option.ite_none_right_eq_some.1 hstep
    obtain rfl := Option.some.inj hs'
    exact h
  | pollDone | snapshotDone =>
    obtain ⟨items, -, rfl⟩ := Option.map_eq_some_iff.1 hstep
    exact h
  | pollFail =>
    obtain ⟨-, hs'⟩ := Option.ite_none_left_eq_some.1 hstep
    obtain rfl := Option.some.inj hs'
    exact h
  | deliver =>
    simp only [Comparison.step] at hstep
    split at hstep
    · exact absurd hstep (by simp)
    · obtain rfl := Option.some.inj hstep
      exact mem_onPublication h

lemma CaughtUp.publish {t t' : Ticker} {v v' : Instant} (h : CaughtUp cfg s t v)
    (hnew : (t', v') ∉ s.published) :
    CaughtUp cfg { s with
      published := s.published ++ [(t', v')]
      inbox := if t' ∈ s.subscribed then s.inbox ++ [(t', v')] else s.inbox } t v := by
  refine ⟨List.mem_append_left _ h.published, fun hmem => ?_, h.subscribed, h.measures,
    fun w hw hlt => ?_⟩
  · dsimp only at hmem
    split at hmem
    · rcases List.mem_append.1 hmem with hmem | hmem
      · exact h.received hmem
      · exact hnew (List.mem_singleton.1 hmem ▸ h.published)
    · exact h.received hmem
  · dsimp only
    rcases List.mem_append.1 hw with hw | hw
    · refine (h.later w hw hlt).imp (fun hmem => ?_) id
      split
      · exact List.mem_append_left _ hmem
      · exact hmem
    · obtain ⟨rfl, rfl⟩ := Prod.mk.inj (List.mem_singleton.1 hw)
      rw [if_pos h.subscribed]
      exact Or.inl (List.mem_append_right _ (List.mem_singleton_self _))

/-- A client that has caught up stays so. -/
lemma CaughtUp.step {t : Ticker} {v : Instant} (h : CaughtUp cfg s t v)
    (hundisturbed : Undisturbed s) (hparse : ∀ v, parse (toIso v) = some v)
    (hprompt : Prompt cfg s e) (hstep : step parse cfg s e = some s') : CaughtUp cfg s' t v := by
  cases e with
  | pass micros =>
    obtain rfl := Option.some.inj hstep
    exact ⟨h.published, h.received, h.subscribed,
      -- time only passes, so what is to be measured stays so
      h.measures.trans (le_add_of_nonneg_right (Int.natCast_nonneg _)), h.later⟩
  | publish ticker effective =>
    obtain ⟨⟨-, -, hnew⟩, hs'⟩ := Option.ite_none_right_eq_some.1 hstep
    obtain rfl := Option.some.inj hs'
    -- the channel is subscribed, so the version goes to the inbox
    exact h.publish hnew
  | stamp ticker effective | pollRead answer | snapshotRead answer =>
    obtain ⟨-, hs'⟩ := Option.ite_none_right_eq_some.1 hstep
    obtain rfl := Option.some.inj hs'
    exact ⟨h.published, h.received, h.subscribed, h.measures, h.later⟩
  | pollDone | snapshotDone =>
    obtain ⟨items, -, rfl⟩ := Option.map_eq_some_iff.1 hstep
    exact ⟨h.published, h.received, h.subscribed, h.measures, h.later⟩
  | pollFail =>
    obtain ⟨-, hs'⟩ := Option.ite_none_left_eq_some.1 hstep
    obtain rfl := Option.some.inj hs'
    exact ⟨h.published, h.received, h.subscribed, h.measures, h.later⟩
  | subscribe ticker =>
    obtain ⟨-, hs'⟩ := Option.ite_none_right_eq_some.1 hstep
    obtain rfl := Option.some.inj hs'
    exact ⟨h.published, h.received, List.mem_append_left _ h.subscribed, h.measures, h.later⟩
  | deliver =>
    cases hinbox : s.inbox with
    | nil =>
      simp only [Comparison.step, hinbox] at hstep
      exact absurd hstep (by simp)
    | cons m inbox =>
      simp only [Comparison.step, hinbox] at hstep
      obtain rfl := Option.some.inj hstep
      refine ⟨h.published, fun hmem => h.received (hinbox ▸ List.mem_cons_of_mem _ hmem),
        h.subscribed, h.measures, fun w hw hlt => ?_⟩
      -- a later version is the one that is delivered, or is where it was
      rcases h.later w hw hlt with hmem | ⟨q, hq, hversion⟩
      · rw [hinbox] at hmem
        rcases List.mem_cons.1 hmem with rfl | hmem
        · -- it is counted now
          have hnewer := hundisturbed.newer (t, w) (hinbox ▸ List.mem_cons_self)
          refine Or.inr ⟨⟨t, w, s.now⟩, ?_, rfl⟩
          dsimp only
          rw [onPublication_eq hparse hnewer, if_neg (not_lt.2 h.measures)]
          exact List.mem_append_right _ (List.mem_singleton_self _)
        · exact Or.inl hmem
      · exact Or.inr ⟨q, mem_onPublication hq, hversion⟩
  | drop | storm => exact absurd hprompt id

/-- The state of a run in which the push client keeps up. -/
structure KeepsUp (cfg : LoadConfig) (s : Comparison) : Prop where
  delivers : Delivers s
  undisturbed : Undisturbed s
  tracks : s.poller.Tracks cfg (CaughtUp cfg s) (· < ·) (Matched s) (s.polling.getD [])

lemma KeepsUp.step (h : KeepsUp cfg s) (hparse : ∀ v, parse (toIso v) = some v)
    (hprompt : Prompt cfg s e) (hstep : step parse cfg s e = some s') : KeepsUp cfg s' := by
  refine ⟨h.delivers.step hparse hstep, h.undisturbed.step h.delivers hparse hprompt hstep, ?_⟩
  refine @tracks_step parse cfg s s' e (CaughtUp cfg) (· < ·) Matched hparse ?_ ?_ ?_ ?_ h.tracks
    hstep
  · exact fun t v hcaught => hcaught.step h.undisturbed hparse hprompt hstep
  · exact fun x ⟨q, hq, hmatch⟩ => ⟨q, mem_updates hq hstep, hmatch⟩
  · -- what the poll shows is the newest there is, so there is nothing after it yet
    rintro answer rfl - id t v hmem hv
    obtain ⟨hmeasures, hlisted⟩ := hprompt
    obtain ⟨hsubscribed, hshown⟩ := hlisted (id, t) hmem
    obtain ⟨hpublished, hreceived, hnewest⟩ := hshown v hv
    refine ⟨⟨hpublished, hreceived, hsubscribed, hmeasures, fun w hw hlt => ?_⟩, fun w hw hne => ?_⟩
    · exact absurd (hnewest (t, w) hw rfl) (not_le.2 hlt)
    · obtain ⟨w', hw', hcaught⟩ := h.tracks.seen id t hmem _ hw
      obtain rfl := toIso_inj.1 hw'
      exact (hnewest (t, w) hcaught.published rfl).lt_of_ne hne
  · intro t w v hw hv hne hlt
    obtain ⟨q, hq, hversion⟩ := (hw.later v hv.published hlt).resolve_left hv.received
    exact ⟨q, hq, hversion, (h.delivers.counted q hq).2.1⟩

/-- **Push counts what poll counts, and sees it no later.**  Beside a push client that is connected and
is not behind what the polls show, every update the poll client counts is one the push client counted,
with no greater latency, so the poll client counts no more; and the push client counts every version
that is published after the one the poll client saw last. -/
theorem poll_within_push (hparse : ∀ v, parse (toIso v) = some v)
    (hreach : (system parse cfg).ReachableWhere (Prompt cfg) s) :
    s.poller.updates.length ≤ s.pusher.updates.length ∧
      (∀ x ∈ s.poller.updates, ∃ q ∈ s.pusher.updates,
        q.version = x.version ∧ q.latency ≤ x.latency) ∧
      ∀ id t v w, (id, t) ∈ cfg.watchlist → s.poller.lastSeen.get? id = some (toIso v) → v < w →
        (t, w) ∈ s.published →
          (t, w) ∈ s.inbox ∨ ∃ q ∈ s.pusher.updates, q.version = (t, w) := by
  have h : KeepsUp cfg s := by
    refine hreach.invariant (I := KeepsUp cfg) ?_ fun s e s' hprompt h hstep =>
      h.step hparse hprompt hstep
    rintro _ ⟨now, log, published, hsub, rfl⟩
    exact ⟨delivers_initial hsub, undisturbed_initial now log published, Poller.tracks_start⟩
  refine ⟨?_, fun x hx => ?_, fun id t v w hmem hseen hlt hw => ?_⟩
  · have hsub : s.poller.updates.map Sample.version ⊆ s.pusher.updates.map Sample.version := by
      intro y hy
      obtain ⟨x, hx, rfl⟩ := List.mem_map.1 hy
      obtain ⟨q, hq, hversion, -⟩ := h.tracks.counted x hx
      exact hversion ▸ List.mem_map_of_mem hq
    have hlength := (List.subperm_of_subset h.tracks.once hsub).length_le
    rwa [List.length_map, List.length_map] at hlength
  · obtain ⟨q, hq, hversion, hobserved⟩ := h.tracks.counted x hx
    refine ⟨q, hq, hversion, ?_⟩
    have heffective : q.effective = x.effective := congrArg Prod.snd hversion
    rw [Sample.latency, Sample.latency, heffective]
    exact sub_le_sub_right hobserved _
  · obtain ⟨v', hv', hcaught⟩ := h.tracks.seen id t hmem _ hseen
    exact hcaught.later w hw (toIso_inj.1 hv' ▸ hlt)

/-- Two versions are published between two polls. -/
def replaced : List LoadEvent :=
  [.snapshotRead (shows .first), .snapshotDone, .subscribe "NVDA", .pollRead (shows .first), .pollDone,
    .stamp "NVDA" second, .publish "NVDA" second, .deliver, .pass 50, .stamp "NVDA" third,
    .publish "NVDA" third, .deliver, .pollRead (shows third), .pass 20, .pollDone]

/-- The poll client counts one update and the push client two. -/
theorem replaced_counted :
    (after replaced).poller.updates.length ≤ (after replaced).pusher.updates.length ∧
      (after replaced).poller.updates.map Sample.latency = [30] ∧
      ∃ q ∈ (after replaced).pusher.updates, q.version = ("NVDA", third) ∧ q.latency ≤ 30 := by
  have hexec : (system parseTime oneTicker).execWhere (Prompt oneTicker) onePrice replaced =
      some (after replaced) := by decide +kernel
  obtain ⟨hlength, hmatched, -⟩ := poll_within_push parseTime_toIso
    ⟨_, ⟨0, _, _, List.Subset.refl _, rfl⟩, System.runWhere_of_execWhere hexec⟩
  exact ⟨hlength, by decide +kernel, hmatched ⟨"NVDA", third, 70⟩ (by decide +kernel)⟩

/-- The server reads a poll between the write of the cache and the publication. -/
def ahead : List LoadEvent :=
  [.snapshotRead (shows .first), .snapshotDone, .subscribe "NVDA", .pollRead (shows .first), .pollDone,
    .stamp "NVDA" second, .pass 20, .pollRead (shows second), .pollDone, .pass 5,
    .publish "NVDA" second, .deliver]

/-- The poll client sees the version first. -/
example : (after ahead).poller.updates.map Sample.latency = [10] ∧
    (after ahead).pusher.updates.map Sample.latency = [15] := by decide +kernel

end Comparison
end LoadGenerator
end TickerWatch
