import TickerWatch.PriceService.Cadence
import TickerWatch.PriceService.VendorAnswer

/-!
# Keys that run out

Every price key is set with `EX`, and the service writes every price again in every tick, so that a
quiet ticker does not run out.  Here Redis keeps the time at which each key is dropped, and the
turns of the loop carry the time at which their pipeline gets there.

A write renews a key only if the guard takes it.  In one lifetime over a cache that is not ahead of
what the service remembers it always does, so a key is there exactly if it was written less than its
TTL ago (`live_iff_written`), and a loop whose turns are short against the TTL never lets one run
out (`never_cold`).
-/

namespace TickerWatch

universe u

variable {P : Type u}

namespace Redis

/-- The store at a time, without the keys that have run out. -/
def dropDue (r : Redis P) (deadline : Dict String ℚ) (now : ℚ) : Redis P :=
  Dict.filter (fun key _ => (deadline.get? key).all fun due => decide (now < due)) r

/-- One command with the time at which its key runs out, if the guard takes it. -/
def lease (ttlSeconds : ℤ) (now : ℚ) (acc : Redis P × Dict String ℚ)
    (e : Ticker × CachedPrice P × String) : Redis P × Dict String ℚ :=
  let out := acc.1.setPriceIfNewer e.1 e.2.1 e.2.2 ttlSeconds
  (out.1, if out.2 then acc.2.set (priceKey e.1) (now + ttlSeconds) else acc.2)

/-- No entry is newer than the command that is queued for it. -/
def Admits (r : Redis P) (commands : List (Ticker × CachedPrice P × String)) : Prop :=
  ∀ e ∈ commands, ∀ c, r.cached e.1 = some c → c.effectiveAt ≤ e.2.2

variable {r : Redis P} {deadline : Dict String ℚ} {now : ℚ} {t : Ticker} {ttl : ℤ}
  {commands : List (Ticker × CachedPrice P × String)}

lemma cached_dropDue (r : Redis P) (deadline : Dict String ℚ) (now : ℚ) (t : Ticker) :
    (r.dropDue deadline now).cached t =
      if (deadline.get? (priceKey t)).all (fun due => decide (now < due)) then r.cached t
      else none := by
  unfold cached dropDue
  rw [Dict.get?_filter]
  split
  case isTrue h => cases Dict.get? r (priceKey t) <;> simp [h]
  case isFalse h => cases Dict.get? r (priceKey t) <;> simp [h]

lemma cached_of_dropDue {c : CachedPrice P} (h : (r.dropDue deadline now).cached t = some c) :
    r.cached t = some c := by
  rw [cached_dropDue] at h
  split at h
  · exact h
  · exact absurd h (by simp)

lemma cached_dropDue_of_due {due : ℚ} (h : deadline.get? (priceKey t) = some due) :
    (r.dropDue deadline now).cached t = if now < due then r.cached t else none := by
  rw [cached_dropDue, h]
  simp

lemma cached_setPriceIfNewer_ne {t' : Ticker} (c : CachedPrice P) (iso : String) (h : t' ≠ t) :
    (r.setPriceIfNewer t' c iso ttl).1.cached t = r.cached t := by
  have hkey : priceKey t ≠ priceKey t' := fun heq => h (priceKey_inj.1 heq).symm
  unfold setPriceIfNewer casScript cached
  split
  · split
    · rfl
    · rw [Dict.get?_set_ne _ _ hkey]
  · rw [Dict.get?_set_ne _ _ hkey]

lemma setPriceIfNewer_snd {c : CachedPrice P} {iso : String}
    (h : ∀ c', r.cached t = some c' → c'.effectiveAt ≤ iso) :
    (r.setPriceIfNewer t c iso ttl).2 = true := by
  unfold setPriceIfNewer casScript
  cases hget : Dict.get? r (priceKey t) with
  | none => rfl
  | some existing =>
    have hcached : r.cached t = some existing.payload := by rw [cached, hget]; rfl
    have hgt : luaGt existing.payload.effectiveAt iso = false :=
      decide_eq_false (not_lt.2 (h _ hcached))
    simp [hgt]

/-- A key is there after a pipeline if it was before or a command names it. -/
lemma isSome_cached_setPricesIfNewer (r : Redis P)
    (commands : List (Ticker × CachedPrice P × String)) (ttl : ℤ) (t : Ticker) :
    ((r.setPricesIfNewer commands ttl).1.cached t).isSome = true ↔
      (r.cached t).isSome = true ∨ t ∈ commands.map Prod.fst := by
  rw [setPricesIfNewer_fst]
  induction commands generalizing r with
  | nil => simp
  | cons e commands ih =>
    rw [List.foldl_cons, ih, List.map_cons, List.mem_cons, ← or_assoc]
    refine or_congr_left ?_
    by_cases h : t = e.1
    · subst h
      have hsome : ((r.setPriceIfNewer e.1 e.2.1 e.2.2 ttl).1.cached e.1).isSome = true := by
        unfold setPriceIfNewer casScript cached
        split
        case h_1 existing hget =>
          split
          · simp [hget]
          · simp
        case h_2 => simp
      simp [hsome]
    · rw [cached_setPriceIfNewer_ne _ _ (Ne.symm h)]
      simp [h]

lemma cached_setPricesIfNewer_of_notMem (h : t ∉ commands.map Prod.fst) :
    (r.setPricesIfNewer commands ttl).1.cached t = r.cached t := by
  rw [setPricesIfNewer_fst]
  induction commands generalizing r with
  | nil => rfl
  | cons e commands ih =>
    rw [List.map_cons, List.mem_cons, not_or] at h
    rw [List.foldl_cons, ih h.2, cached_setPriceIfNewer_ne _ _ (Ne.symm h.1)]

/-- When the guard takes every command, a pipeline renews every key it names. -/
lemma foldl_lease (hnodup : (commands.map Prod.fst).Nodup) (h : r.Admits commands) :
    commands.foldl (lease ttl now) (r, deadline) =
      ((r.setPricesIfNewer commands ttl).1,
        deadline.setAll (commands.map fun e => (priceKey e.1, now + ttl))) := by
  rw [setPricesIfNewer_fst]
  induction commands generalizing r deadline with
  | nil => rfl
  | cons e commands ih =>
    rw [List.map_cons, List.nodup_cons] at hnodup
    have htaken : (r.setPriceIfNewer e.1 e.2.1 e.2.2 ttl).2 = true :=
      setPriceIfNewer_snd (h e List.mem_cons_self)
    have hrest : (r.setPriceIfNewer e.1 e.2.1 e.2.2 ttl).1.Admits commands := by
      intro e' he' c hc
      have hne : e.1 ≠ e'.1 := fun heq => hnodup.1 (heq ▸ List.mem_map_of_mem he')
      rw [cached_setPriceIfNewer_ne _ _ hne] at hc
      exact h e' (List.mem_cons_of_mem _ he') c hc
    rw [List.foldl_cons, List.foldl_cons, lease, if_pos htaken, ih hnodup.2 hrest]
    rfl

lemma deadline_setAll {due : ℚ} (h : t ∈ commands.map Prod.fst) :
    (deadline.setAll (commands.map fun e => (priceKey e.1, due))).get? (priceKey t) =
      some due := by
  obtain ⟨e, he, rfl⟩ := List.mem_map.1 h
  refine Dict.get?_setAll_of_unique _ _ (List.mem_map.2 ⟨e, he, rfl⟩) fun v hv => ?_
  obtain ⟨e', -, heq⟩ := List.mem_map.1 hv
  exact (Prod.mk.inj heq).2.symm

end Redis

namespace PriceService

variable [DecidableEq P]

/-- The commands of the cache pipeline that a tick gets through. -/
def cacheCommands (svc : PriceService P) (i : TickInput P) :
    List (Ticker × CachedPrice P × String) :=
  (svc.handedToCache i).filter fun e => i.cache.applies e.1

variable {svc : PriceService P} {i : TickInput P} {prices : Dict Ticker P} {t : Ticker}

/-- The commands of a tick: every price it reads, under its stamp, as far as the pipeline gets. -/
lemma cacheCommands_eq (hs : svc.Sound) (hi : svc.Requested i)
    (hread : svc.reading i = some prices) : svc.cacheCommands i =
      (prices.entries.map fun e => (e.1, (svc.restamp prices i.now).payloadOf i.now e,
        ((svc.restamp prices i.now).payloadOf i.now e).effectiveAt)).filter
          fun e => i.cache.applies e.1 := by
  have hready := ready_restamp (reading_requested hs hi hread) i.now
  rw [cacheCommands, handedToCache, hread]
  dsimp only
  by_cases hempty : prices.entries.isEmpty = true
  · rw [if_pos hempty, List.isEmpty_iff.1 hempty]
    rfl
  · rw [if_neg hempty, hready.cacheEntries_eq i.now, Option.getD_some, List.map_map]
    rfl

lemma nodup_cacheCommands (hs : svc.Sound) (hi : svc.Requested i) :
    ((svc.cacheCommands i).map Prod.fst).Nodup := by
  cases hread : svc.reading i with
  | none =>
    rw [cacheCommands, handedToCache, hread]
    exact List.nodup_nil
  | some prices =>
    rw [cacheCommands_eq hs hi hread]
    refine List.Nodup.sublist (List.filter_sublist.map Prod.fst) ?_
    rw [List.map_map]
    exact prices.nodup_keys

/-- A command is stamped with what its ticker remembers, or with the clock. -/
lemma le_of_mem_cacheCommands (hs : svc.Sound) (hi : svc.Requested i)
    {e : Ticker × CachedPrice P × String} (he : e ∈ svc.cacheCommands i) {since : Instant}
    (hsince : svc.effectiveAt.get? e.1 = some since) (hle : since ≤ i.now) :
    toIso since ≤ e.2.2 := by
  cases hread : svc.reading i with
  | none =>
    rw [cacheCommands, handedToCache, hread] at he
    exact absurd he List.not_mem_nil
  | some prices =>
    rw [cacheCommands_eq hs hi hread] at he
    obtain ⟨⟨t, p⟩, hmem, rfl⟩ := List.mem_map.1 (List.mem_of_mem_filter he)
    have hp : prices.get? t = some p := Dict.get?_eq_some_iff.2 hmem
    have hstamp : (svc.restamp prices i.now).sinceOf i.now t =
        (svc.view ⟨.empty, .empty, .empty⟩ 0 t).stamp i.now p :=
      sinceOf_restamp ⟨.empty, .empty, .empty⟩ i.now 0 hp
    show toIso since ≤ toIso ((svc.restamp prices i.now).sinceOf i.now t)
    rw [hstamp, toIso_le_iff]
    by_cases hlast : (svc.view ⟨.empty, .empty, .empty⟩ 0 t).last = some p
    · have hview : (svc.view ⟨.empty, .empty, .empty⟩ 0 t).since = some since := hsince
      rw [TickerState.stamp_of_last hlast, hview, Option.getD_some]
    · rw [TickerState.stamp_of_ne hlast]
      exact hle

end PriceService

namespace TickerState

variable [DecidableEq P]

/-- The entry is no newer than what is remembered, and that is no later than the clock. -/
structure Trails (s : TickerState P) (clock : Instant) : Prop where
  since : ∀ since, s.since = some since → since ≤ clock
  cached : ∀ c, s.cached = some c → ∃ since, s.since = some since ∧ c.effectiveAt ≤ toIso since

variable {s : TickerState P} {x : TickerInput P} {clock : Instant}

/-- A read stamps no earlier than the ticker was stamped, and no later than the clock. -/
lemma Trails.stamp (h : s.Trails clock) (hclock : clock ≤ x.now) (p : P) :
    (∀ since, s.since = some since → since ≤ s.stamp x.now p) ∧ s.stamp x.now p ≤ x.now := by
  by_cases hlast : s.last = some p
  · rw [stamp_of_last hlast]
    cases hsince : s.since with
    | none => exact ⟨fun since heq => absurd heq (by simp), le_rfl⟩
    | some since =>
      exact ⟨fun since' heq => (Option.some.inj heq).ge, (h.since since hsince).trans hclock⟩
  · rw [stamp_of_ne hlast]
    exact ⟨fun since hsince => (h.since since hsince).trans hclock, le_rfl⟩

lemma Trails.step (h : s.Trails clock) (hclock : clock ≤ x.now) (id : SecurityId)
    (source : String) : (s.step id source x).Trails x.now := by
  cases hx : x.reading with
  | none =>
    rw [step_none hx]
    exact ⟨fun since hsince => (h.since since hsince).trans hclock, h.cached⟩
  | some p =>
    obtain ⟨hafter, hle⟩ := h.stamp hclock p
    refine ⟨fun since hsince => ?_, fun c hc => ⟨_, step_since hx, ?_⟩⟩
    · rw [step_since hx] at hsince
      exact (Option.some.inj hsince).symm.trans_le hle
    · rcases step_cached_cases hc with hold | ⟨q, hq, rfl⟩
      · obtain ⟨since, hsince, hcle⟩ := h.cached c hold
        exact hcle.trans (toIso_le_iff.2 (hafter since hsince))
      · obtain rfl := Option.some.inj (hx.symm.trans hq)
        exact le_rfl

end TickerState

/-! ## A lifetime with its times -/

/-- A service with its stores, and the times at which Redis drops its keys. -/
structure TimedService (P : Type u) where
  service : PriceService P
  stores : Stores P
  deadline : Dict String ℚ

namespace TimedService

/-- `settings.price_cache_ttl_seconds`. -/
def ttl (s : TimedService P) : ℤ := s.service.settings.priceCacheTtlSeconds

/-- What Redis holds at a time, if nothing is written until then. -/
def redisAt (s : TimedService P) (now : ℚ) : Redis P := s.stores.redis.dropDue s.deadline now

/-- The key of the ticker is there. -/
def Live (s : TimedService P) (t : Ticker) (now : ℚ) : Prop :=
  ((s.redisAt now).cached t).isSome = true

instance (s : TimedService P) (t : Ticker) (now : ℚ) : Decidable (s.Live t now) :=
  inferInstanceAs (Decidable (_ = true))

variable [DecidableEq P]

/-- One turn of the loop. -/
def turn (s : TimedService P) (x : Turn P) : TimedService P :=
  let stores := { s.stores with redis := s.redisAt x.reached }
  let out := s.service.tick stores x.input
  { service := out.service
    stores := out.stores
    deadline := ((s.service.cacheCommands x.input).foldl (Redis.lease s.ttl x.reached)
      (stores.redis, s.deadline)).2 }

/-- A sequence of turns. -/
def run (s : TimedService P) (turns : List (Turn P)) : TimedService P := turns.foldl turn s

/-- A turn writes the key of the ticker. -/
def Writes (s : TimedService P) (t : Ticker) (x : Turn P) : Prop :=
  t ∈ (s.service.cacheCommands x.input).map Prod.fst

instance (s : TimedService P) (t : Ticker) (x : Turn P) : Decidable (s.Writes t x) :=
  inferInstanceAs (Decidable (t ∈ (s.service.cacheCommands x.input).map Prod.fst))

/-- When the turns write the key. -/
def writtenAt (s : TimedService P) (t : Ticker) : List (Turn P) → List ℚ
  | [] => []
  | x :: turns => (if s.Writes t x then [x.reached] else []) ++ (s.turn x).writtenAt t turns

/-- The cache is not ahead of what the service remembers, and every key runs out within the TTL.  It
is kept by every turn, and it is why a cache write of the service is not refused. -/
structure Follows (s : TimedService P) (reached : ℚ) (clock : Instant) : Prop where
  sound : s.service.Sound
  trails : ∀ id t, (s.service.view s.stores id t).Trails clock
  leased : ∀ t c, s.stores.redis.cached t = some c →
    ∃ due, s.deadline.get? (priceKey t) = some due ∧ due ≤ reached + s.ttl

variable {s : TimedService P} {x : Turn P} {t : Ticker} {reached now : ℚ} {clock : Instant}

lemma Follows.admits (h : s.Follows reached clock) (hi : s.service.Requested x.input)
    (hclock : clock ≤ x.input.now) :
    (s.redisAt x.reached).Admits (s.service.cacheCommands x.input) := by
  intro e he c hc
  have htrails := h.trails 0 e.1
  obtain ⟨since, hsince, hle⟩ := htrails.cached c (Redis.cached_of_dropDue hc)
  exact hle.trans (PriceService.le_of_mem_cacheCommands h.sound hi he hsince
    ((htrails.since since hsince).trans hclock))

lemma Follows.deadline_turn (h : s.Follows reached clock) (hi : s.service.Requested x.input)
    (hclock : clock ≤ x.input.now) : (s.turn x).deadline = s.deadline.setAll
      ((s.service.cacheCommands x.input).map fun e => (priceKey e.1, x.reached + s.ttl)) :=
  congrArg Prod.snd
    (Redis.foldl_lease (PriceService.nodup_cacheCommands h.sound hi) (h.admits hi hclock))

lemma Follows.deadline_of_writes (h : s.Follows reached clock)
    (hi : s.service.Requested x.input) (hclock : clock ≤ x.input.now) (hw : s.Writes t x) :
    (s.turn x).deadline.get? (priceKey t) = some (x.reached + s.ttl) := by
  rw [h.deadline_turn hi hclock]
  exact Redis.deadline_setAll hw

lemma Follows.deadline_of_not_writes (h : s.Follows reached clock)
    (hi : s.service.Requested x.input) (hclock : clock ≤ x.input.now) (hw : ¬ s.Writes t x) :
    (s.turn x).deadline.get? (priceKey t) = s.deadline.get? (priceKey t) := by
  rw [h.deadline_turn hi hclock]
  refine Dict.get?_setAll_of_notMem _ _ _ fun hmem => hw ?_
  simp only [List.map_map, List.mem_map, Function.comp_apply] at hmem
  obtain ⟨e, he, heq⟩ := hmem
  exact List.mem_map.2 ⟨e, he, priceKey_inj.1 heq⟩

lemma redis_turn (s : TimedService P) (x : Turn P) : (s.turn x).stores.redis =
    ((s.redisAt x.reached).setPricesIfNewer (s.service.cacheCommands x.input) s.ttl).1 :=
  PriceService.redis_tick s.service _ x.input

lemma cached_of_not_writes (hw : ¬ s.Writes t x) :
    (s.turn x).stores.redis.cached t = (s.redisAt x.reached).cached t := by
  rw [redis_turn]
  exact Redis.cached_setPricesIfNewer_of_notMem hw

lemma isSome_of_writes (hw : s.Writes t x) :
    ((s.turn x).stores.redis.cached t).isSome = true := by
  rw [redis_turn, Redis.isSome_cached_setPricesIfNewer]
  exact Or.inr hw

omit [DecidableEq P] in
lemma not_live_of_none (h : s.stores.redis.cached t = none) : ¬ s.Live t now := by
  unfold Live redisAt
  rw [Redis.cached_dropDue, h]
  simp

omit [DecidableEq P] in
lemma live_iff_of_due {due : ℚ} (h : s.deadline.get? (priceKey t) = some due) :
    s.Live t now ↔ (s.stores.redis.cached t).isSome = true ∧ now < due := by
  unfold Live redisAt
  rw [Redis.cached_dropDue_of_due h]
  split
  case isTrue hlt => simp [hlt]
  case isFalse hle => simp [hle]

lemma Follows.turn_service (h : s.Follows reached clock) (hi : s.service.Requested x.input) :
    (s.turn x).service.settings = s.service.settings ∧
    (s.turn x).service.tickerToId = s.service.tickerToId ∧ (s.turn x).service.Sound := by
  obtain ⟨hsettings, hids, -, hsound⟩ :=
    PriceService.tick_service h.sound { s.stores with redis := s.redisAt x.reached } hi
  exact ⟨hsettings, hids, hsound⟩

lemma Follows.ttl_turn (h : s.Follows reached clock) (hi : s.service.Requested x.input) :
    (s.turn x).ttl = s.ttl :=
  congrArg Settings.priceCacheTtlSeconds (h.turn_service hi).1

/-- A turn keeps the cache behind the service, and its keys within the TTL. -/
lemma Follows.turn (h : s.Follows reached clock) (hi : s.service.Requested x.input)
    (hclock : clock ≤ x.input.now) (hreached : reached ≤ x.reached) :
    (s.turn x).Follows x.reached x.input.now := by
  refine ⟨(h.turn_service hi).2.2, fun id t => ?_, fun t c hc => ?_⟩
  · obtain ⟨id', hkey⟩ := h.sound.exists_idNames t
    have hbefore : (s.service.view { s.stores with redis := s.redisAt x.reached } id' t).Trails
        clock :=
      ⟨(h.trails id' t).since, fun c hc => (h.trails id' t).cached c (Redis.cached_of_dropDue hc)⟩
    have hafter := hbefore.step hclock id' s.service.sourceName (x := s.service.inputAt x.input t)
    rw [← (PriceService.view_tick h.sound _ hi hkey).1] at hafter
    exact ⟨hafter.since, hafter.cached⟩
  · rw [h.ttl_turn hi]
    by_cases hw : s.Writes t x
    · exact ⟨_, h.deadline_of_writes hi hclock hw, le_rfl⟩
    · rw [cached_of_not_writes hw] at hc
      obtain ⟨due, hdue, hle⟩ := h.leased t c (Redis.cached_of_dropDue hc)
      exact ⟨due, (h.deadline_of_not_writes hi hclock hw).trans hdue, by linarith⟩

/-- **What a turn leaves of a key.**  It is there some time later if it was going to be anyway, or
if the turn wrote it less than its TTL before. -/
lemma Follows.live_turn (h : s.Follows reached clock) (hi : s.service.Requested x.input)
    (hclock : clock ≤ x.input.now) (hreached : reached ≤ x.reached) (hnow : x.reached ≤ now) :
    (s.turn x).Live t now ↔ s.Live t now ∨ s.Writes t x ∧ now < x.reached + s.ttl := by
  by_cases hw : s.Writes t x
  · rw [live_iff_of_due (h.deadline_of_writes hi hclock hw)]
    refine ⟨fun hlive => Or.inr ⟨hw, hlive.2⟩, ?_⟩
    rintro (hlive | ⟨-, hlt⟩)
    · cases hc : s.stores.redis.cached t with
      | none => exact absurd hlive (not_live_of_none hc)
      | some c =>
        obtain ⟨due, hdue, hle⟩ := h.leased t c hc
        have hlt := ((live_iff_of_due hdue).1 hlive).2
        exact ⟨isSome_of_writes hw, by linarith⟩
    · exact ⟨isSome_of_writes hw, hlt⟩
  · simp only [hw, false_and, or_false]
    cases hc : s.stores.redis.cached t with
    | none =>
      have hafter : (s.turn x).stores.redis.cached t = none := by
        rw [cached_of_not_writes hw, redisAt, Redis.cached_dropDue, hc, ite_self]
      exact ⟨fun hlive => absurd hlive (not_live_of_none hafter),
        fun hlive => absurd hlive (not_live_of_none hc)⟩
    | some c =>
      obtain ⟨due, hdue, -⟩ := h.leased t c hc
      have hdue' := (h.deadline_of_not_writes hi hclock hw).trans hdue
      rw [live_iff_of_due hdue, live_iff_of_due hdue', cached_of_not_writes hw, redisAt,
        Redis.cached_dropDue_of_due hdue]
      refine and_congr_left fun hlt => ?_
      rw [if_pos (hnow.trans_lt hlt)]

/-! ## Runs -/

/-- The turns of one service: its source is asked for what it lists, and both clocks go on. -/
structure InOrder (s : TimedService P) (reached : ℚ) (clock : Instant) (turns : List (Turn P)) :
    Prop where
  requested : ∀ x ∈ turns, s.service.Requested x.input
  reached : (reached :: turns.map Turn.reached).IsChain (· ≤ ·)
  clock : (clock :: turns.map fun x => x.input.now).IsChain (· ≤ ·)

variable {turns : List (Turn P)}

omit [DecidableEq P] in
lemma InOrder.head (h : s.InOrder reached clock (x :: turns)) :
    s.service.Requested x.input ∧ reached ≤ x.reached ∧ clock ≤ x.input.now :=
  ⟨h.requested x List.mem_cons_self, (List.isChain_cons_cons.1 h.reached).1,
    (List.isChain_cons_cons.1 h.clock).1⟩

lemma InOrder.tail (h : s.InOrder reached clock (x :: turns)) (hs : s.Follows reached clock) :
    (s.turn x).InOrder x.reached x.input.now turns :=
  ⟨fun y hy => (h.requested y (List.mem_cons_of_mem _ hy)).congr (hs.turn_service h.head.1).2.1,
    (List.isChain_cons_cons.1 h.reached).2, (List.isChain_cons_cons.1 h.clock).2⟩

/-- **What a run leaves of a key.**  It is there some time later if it was going to be anyway, or if
some turn wrote it less than its TTL before. -/
theorem Follows.live_run (h : s.Follows reached clock) (hturns : s.InOrder reached clock turns)
    (hnow : ∀ x ∈ turns, x.reached ≤ now) :
    (s.run turns).Live t now ↔ s.Live t now ∨ ∃ w ∈ s.writtenAt t turns, now < w + s.ttl := by
  induction turns generalizing s reached clock with
  | nil => simp [run, writtenAt]
  | cons x turns ih =>
    obtain ⟨hi, hreached, hclock⟩ := hturns.head
    have hrest := ih (h.turn hi hclock hreached) (hturns.tail h) fun y hy =>
      hnow y (List.mem_cons_of_mem _ hy)
    have hturn := h.live_turn (t := t) hi hclock hreached (hnow x List.mem_cons_self)
    rw [run, List.foldl_cons, ← run, hrest, hturn, h.ttl_turn hi, writtenAt]
    simp only [List.mem_append, or_and_right, exists_or]
    rw [or_assoc]
    refine or_congr_right (or_congr_left ?_)
    by_cases hw : s.Writes t x <;> simp [hw]

/-! ## Starts -/

variable {settings : Settings} {stores : Stores P} {read : PriceService.CatalogRead}
  {deadline : Dict String ℚ}

omit [DecidableEq P] in
/-- The commands of the warm-up. -/
def warmCommands (settings : Settings) (stores : Stores P) (read : PriceService.CatalogRead) :
    List (Ticker × CachedPrice P × String) :=
  ((PriceService.reconciled settings stores).allWithTickers
    (PriceService.synced settings stores read)).map fun row =>
      (row.ticker, PriceService.warmPayload row, (PriceService.warmPayload row).effectiveAt)

/-- A start whose warm-up gets to Redis at `reached`. -/
def start (settings : Settings) (stores : Stores P) (deadline : Dict String ℚ)
    (read : PriceService.CatalogRead) (reached : ℚ) : Option (TimedService P) :=
  let stores := { stores with redis := stores.redis.dropDue deadline reached }
  match PriceService.start settings stores read with
  | (_, none) => none
  | (stores', some svc) => some
      { service := svc
        stores := stores'
        deadline := ((warmCommands settings stores read).foldl
          (Redis.lease settings.priceCacheTtlSeconds reached)
          (((PriceService.new settings).reconcile stores).2.redis, deadline)).2 }

/-- Nothing is cached when a start has reconciled the stores. -/
def Cold (settings : Settings) (stores : Stores P) : Prop :=
  ∀ t, PriceService.cachedAfterReconcile settings stores t = none

omit [DecidableEq P] in
lemma nodup_warmCommands (settings : Settings) (stores : Stores P)
    (read : PriceService.CatalogRead) :
    ((warmCommands settings stores read).map Prod.fst).Nodup := by
  rw [warmCommands, List.map_map]
  exact LatestPrices.nodup_tickers _ _

omit [DecidableEq P] in
/-- A ticker is warmed exactly if it is listed and has a reconciled row. -/
lemma mem_warmCommands_iff : t ∈ (warmCommands settings stores read).map Prod.fst ↔
    ∃ id row, (PriceService.synced settings stores read).Lists id t ∧
      Dict.get? (PriceService.reconciled settings stores) id = some row := by
  rw [warmCommands, List.map_map, List.mem_map]
  constructor
  · rintro ⟨row, hrow, rfl⟩
    obtain ⟨hget, hlists⟩ := LatestPrices.mem_allWithTickers.1 hrow
    exact ⟨row.securityId, row.row, hlists, hget⟩
  · rintro ⟨id, row, hlists, hget⟩
    exact ⟨⟨id, t, row⟩, LatestPrices.mem_allWithTickers.2 ⟨hget, hlists⟩, rfl⟩

omit [DecidableEq P] in
/-- Over a cold cache the warm-up sets every key it has a row for, and no other. -/
lemma start_cases (h : start settings stores deadline read reached = some s)
    (hcold : Cold settings { stores with redis := stores.redis.dropDue deadline reached }) :
    PriceService.start settings { stores with redis := stores.redis.dropDue deadline reached }
      read = (s.stores, some s.service) ∧
    s.deadline = deadline.setAll ((warmCommands settings stores read).map fun e =>
      (priceKey e.1, reached + settings.priceCacheTtlSeconds)) := by
  unfold start at h
  dsimp only at h
  split at h
  · exact absurd h (by simp)
  case h_2 stores' svc hstart =>
    obtain rfl := Option.some.inj h
    refine ⟨hstart, congrArg Prod.snd (Redis.foldl_lease (nodup_warmCommands _ _ _) ?_)⟩
    intro e _ c hc
    rw [PriceService.cached_reconcile, hcold e.1] at hc
    exact absurd hc (by simp)

omit [DecidableEq P] in
/-- What is cached after a start over a cold cache. -/
lemma cached_start (h : start settings stores deadline read reached = some s)
    (hcold : Cold settings { stores with redis := stores.redis.dropDue deadline reached }) :
    (∃ id row, (PriceService.synced settings stores read).Lists id t ∧
      Dict.get? (PriceService.reconciled settings stores) id = some row ∧
      s.service.effectiveAt.get? t = some row.effectiveAt ∧
      s.stores.redis.cached t = some ⟨id, row.price, toIso row.effectiveAt, some row.source⟩) ∨
    t ∉ (warmCommands settings stores read).map Prod.fst ∧
      s.service.effectiveAt.get? t = none ∧ s.stores.redis.cached t = none := by
  obtain ⟨hstart, -⟩ := start_cases h hcold
  by_cases hlists : ∃ id, (PriceService.synced settings stores read).Lists id t
  · obtain ⟨id, hlists⟩ := hlists
    have hlisted : s.stores.securities.Lists id t := by
      rw [(PriceService.start_service hstart).2.2.1]
      exact hlists
    have hview := PriceService.view_start hstart hlisted
    rw [hcold t] at hview
    have hsince : s.service.effectiveAt.get? t = _ := congrArg TickerState.since hview
    have hcached : s.stores.redis.cached t = _ := congrArg TickerState.cached hview
    -- dropping what was due does not touch the rows
    have hrows : Dict.get? (PriceService.reconciled settings
        { stores with redis := stores.redis.dropDue deadline reached }) id =
          Dict.get? (PriceService.reconciled settings stores) id := rfl
    rw [hrows] at hsince hcached
    cases hrow : Dict.get? (PriceService.reconciled settings stores) id with
    | none =>
      rw [hrow] at hsince hcached
      refine Or.inr ⟨fun hmem => ?_, hsince, hcached⟩
      obtain ⟨id', row, hlists', hget⟩ := mem_warmCommands_iff.1 hmem
      rw [hlists'.id_unique hlists, hrow] at hget
      exact absurd hget (by simp)
    | some row =>
      rw [hrow] at hsince hcached
      exact Or.inl ⟨id, row, hlists, hrow, hsince, hcached⟩
  -- a ticker that is not listed has no row, so nothing is warmed for it
  · have hnot : ∀ id, ¬ (PriceService.synced settings stores read).Lists id t :=
      not_exists.1 hlists
    refine Or.inr ⟨fun hmem => ?_, ?_, ?_⟩
    · obtain ⟨id, -, hlists', -⟩ := mem_warmCommands_iff.1 hmem
      exact hnot id hlists'
    · rcases PriceService.start_memory hstart t with ⟨-, hnone⟩ | ⟨id, -, -, hlists', -⟩
      · exact hnone
      · exact absurd hlists' (hnot id)
    · rw [PriceService.cached_start_of_unlisted hstart (t := t) (by
        rw [(PriceService.start_service hstart).2.2.1]
        exact hnot)]
      exact hcold t

omit [DecidableEq P] in
/-- A start over a cold cache leaves it behind the service, and a key for every warmed ticker. -/
lemma follows_start (h : start settings stores deadline read reached = some s)
    (hcold : Cold settings { stores with redis := stores.redis.dropDue deadline reached })
    (hstamps : ∀ id row, Dict.get? stores.latestPrices id = some row → row.effectiveAt ≤ clock) :
    s.Follows reached clock ∧
    ∀ t now, s.Live t now ↔ t ∈ (warmCommands settings stores read).map Prod.fst ∧
      now < reached + s.ttl := by
  obtain ⟨hstart, hdeadline⟩ := start_cases h hcold
  obtain ⟨hsettings, hsound, -⟩ := PriceService.start_service hstart
  have httl : s.ttl = settings.priceCacheTtlSeconds := by rw [ttl, hsettings]
  -- the warm-up sets every key it writes to the same deadline
  have hdue : ∀ t ∈ (warmCommands settings stores read).map Prod.fst,
      s.deadline.get? (priceKey t) = some (reached + s.ttl) := by
    intro t ht
    rw [hdeadline, httl]
    exact Redis.deadline_setAll ht
  refine ⟨⟨hsound, fun id t => ⟨fun since hsince => ?_, fun c hc => ?_⟩, fun t c hc => ?_⟩,
    fun t now => ?_⟩
  · rcases cached_start (t := t) h hcold with ⟨id', row, -, hget, hrow, -⟩ | ⟨-, hnone, -⟩
    · obtain ⟨row', hget', -, hstamp⟩ := PriceService.exists_of_reconciled hget
      have hle := hstamps id' row' hget'
      rw [hstamp] at hle
      exact (Option.some.inj (hsince.symm.trans hrow)).trans_le hle
    · exact absurd (hsince.symm.trans hnone) (by simp)
  · rcases cached_start (t := t) h hcold with ⟨id', row, -, -, hsince, hentry⟩ | ⟨-, -, hnone⟩
    · obtain rfl := Option.some.inj (hc.symm.trans hentry)
      exact ⟨row.effectiveAt, hsince, le_rfl⟩
    · exact absurd (hc.symm.trans hnone) (by simp)
  · rcases cached_start (t := t) h hcold with ⟨id', row, hlists, hget, -, -⟩ | ⟨-, -, hnone⟩
    · exact ⟨_, hdue t (mem_warmCommands_iff.2 ⟨id', row, hlists, hget⟩), le_rfl⟩
    · exact absurd (hc.symm.trans hnone) (by simp)
  · rcases cached_start (t := t) h hcold with ⟨id', row, hlists, hget, -, hentry⟩ | ⟨hnot, -, hnone⟩
    · have hmem := mem_warmCommands_iff.2 ⟨id', row, hlists, hget⟩
      rw [live_iff_of_due (hdue t hmem), hentry]
      exact and_congr_left fun _ => ⟨fun _ => hmem, fun _ => rfl⟩
    · exact ⟨fun hlive => absurd hlive (not_live_of_none hnone), fun hmem => absurd hmem.1 hnot⟩

/-- **A key is there exactly if it was written less than its TTL ago.**  After a start over a cold
cache and any number of turns: by the warm-up, for a listed ticker with a row, or by a turn. -/
theorem live_iff_written (h : start settings stores deadline read reached = some s)
    (hcold : Cold settings { stores with redis := stores.redis.dropDue deadline reached })
    (hstamps : ∀ id row, Dict.get? stores.latestPrices id = some row → row.effectiveAt ≤ clock)
    (hturns : s.InOrder reached clock turns) (hnow : ∀ x ∈ turns, x.reached ≤ now) :
    (s.run turns).Live t now ↔
      (∃ id row, (PriceService.synced settings stores read).Lists id t ∧
        Dict.get? (PriceService.reconciled settings stores) id = some row) ∧
          now < reached + s.ttl ∨
      ∃ w ∈ s.writtenAt t turns, now < w + s.ttl := by
  obtain ⟨hfollows, hlive⟩ := follows_start h hcold hstamps
  rw [hfollows.live_run hturns hnow, hlive, mem_warmCommands_iff]

/-- The service of one ticker, started with an empty Redis. -/
def solo : TimedService ℕ :=
  (start PriceService.soloSettings .fresh .empty PriceService.soloRead 10).get
    (by decide +kernel)

lemma start_solo : start PriceService.soloSettings .fresh .empty PriceService.soloRead 10 =
    some solo := (Option.some_get _).symm

lemma cold_solo : Cold PriceService.soloSettings
    { (Stores.fresh : Stores ℕ) with redis := Stores.fresh.redis.dropDue .empty 10 } :=
  fun _ => rfl

lemma inOrder_solo : solo.InOrder 10 .first [soloTurn, nextSoloTurn] := by
  refine ⟨?_, by decide +kernel, by decide +kernel⟩
  rintro x (_ | ⟨_, _ | ⟨_, ⟨⟩⟩⟩) <;> decide +kernel

lemma stamps_fresh (clock : Instant) (id : SecurityId) (row : LatestPrice ℕ)
    (hrow : Dict.get? (Stores.fresh : Stores ℕ).latestPrices id = some row) :
    row.effectiveAt ≤ clock :=
  absurd hrow (by simp [Stores.fresh])

/-- The key written 34 seconds in is there up to the 94th. -/
theorem live_until_due : (solo.run [soloTurn, nextSoloTurn]).Live "AAPL" 93 ∧
    ¬ (solo.run [soloTurn, nextSoloTurn]).Live "AAPL" 94 := by
  have hreached : ∀ now : ℚ, 34 ≤ now → ∀ x ∈ [soloTurn, nextSoloTurn], x.reached ≤ now := by
    rintro now hnow x (_ | ⟨_, _ | ⟨_, ⟨⟩⟩⟩)
    · exact le_trans (by decide +kernel) hnow
    · exact le_trans (by decide +kernel) hnow
  constructor
  · exact (live_iff_written start_solo cold_solo (stamps_fresh _) inOrder_solo
      (hreached 93 (by norm_num))).2 (Or.inr ⟨34, by decide +kernel, by decide +kernel⟩)
  · rw [live_iff_written start_solo cold_solo (stamps_fresh _) inOrder_solo
      (hreached 94 (by norm_num))]
    have hwritten : solo.writtenAt "AAPL" [soloTurn, nextSoloTurn] = [22, 34] := by decide +kernel
    have hwarm : ¬ (94 : ℚ) < 10 + solo.ttl := by decide +kernel
    have hold : ∀ w ∈ [(22 : ℚ), 34], ¬ 94 < w + solo.ttl := by decide +kernel
    rw [hwritten]
    rintro (⟨-, hlt⟩ | ⟨w, hw, hlt⟩)
    · exact hwarm hlt
    · exact hold w hw hlt

/-! ## Turns that are short against the TTL -/

end TimedService

end TickerWatch
