import TickerWatch.PriceService.CacheCoherence
import TickerWatch.PriceService.Escapes

/-!
# Price versions

A version is what a ticker cost since when.  Rows, cache entries and publications all carry one; the
client drops an event that is no newer than what it shows, and Redis rewrites an entry under an equal
stamp, so both need a stamp to identify a price.

A `Journal` is a world with every version that was ever stored or delivered.  It also records for
which tickers the service remembers the stamp of a price that it does not remember as published,
because an exception left the tick that read it, while that price went out (`astray`).  A stamp
identifies a price exactly as long as no such ticker is written back to Redis at its old price
(`one_price_iff`).
-/

namespace TickerWatch

universe u

variable {P : Type u}

/-- What a ticker cost since when, in the form both stores and a publication can be read in: the
stamp is the ISO text of it. -/
structure Version (P : Type u) where
  ticker : Ticker
  effectiveAt : String
  price : P
  deriving DecidableEq, Repr

/-- A stamp identifies the price of a ticker. -/
def OnePrice (vs : List (Version P)) : Prop :=
  ∀ v ∈ vs, ∀ v' ∈ vs, v.ticker = v'.ticker → v.effectiveAt = v'.effectiveAt → v.price = v'.price

lemma OnePrice.subset {vs vs' : List (Version P)} (h : OnePrice vs) (hsub : vs' ⊆ vs) :
    OnePrice vs' := fun v hv v' hv' => h v (hsub hv) v' (hsub hv')

/-- The version a publication carries. -/
def Publication.version (m : Publication P) : Version P := ⟨m.ticker, m.effectiveAt, m.price⟩

/-- The versions in the stores: the rows and the cache entries of the listed securities. -/
def Stores.versions (stores : Stores P) : List (Version P) :=
  stores.securities.rows.entries.flatMap fun e =>
    ((Dict.get? stores.latestPrices e.1).map fun row =>
      (⟨e.2.ticker, toIso row.effectiveAt, row.price⟩ : Version P)).toList ++
    ((stores.redis.cached e.2.ticker).map fun c =>
      (⟨e.2.ticker, c.effectiveAt, c.price⟩ : Version P)).toList

/-! ## The versions of one ticker -/

/-- A row or a cache entry carries the price under the stamp. -/
def Carries (row : Option (LatestPrice P)) (cached : Option (CachedPrice P)) (stamp : String)
    (p : P) : Prop :=
  (∃ r, row = some r ∧ toIso r.effectiveAt = stamp ∧ r.price = p) ∨
    ∃ c, cached = some c ∧ c.effectiveAt = stamp ∧ c.price = p

lemma Stores.mem_versions {stores : Stores P} {t : Ticker} {stamp : String} {p : P} :
    ⟨t, stamp, p⟩ ∈ stores.versions ↔ ∃ id, stores.securities.Lists id t ∧
      Carries (Dict.get? stores.latestPrices id) (stores.redis.cached t) stamp p := by
  simp only [Stores.versions, List.mem_flatMap, List.mem_append, Option.mem_toList,
    Option.map_eq_some_iff, Version.mk.injEq]
  constructor
  · rintro ⟨⟨id, s⟩, hmem, ⟨r, hr, rfl, hstamp, hprice⟩ | ⟨c, hc, rfl, hstamp, hprice⟩⟩
    · exact ⟨id, ⟨s, Dict.get?_eq_some_iff.2 hmem, rfl⟩, Or.inl ⟨r, hr, hstamp, hprice⟩⟩
    · exact ⟨id, ⟨s, Dict.get?_eq_some_iff.2 hmem, rfl⟩, Or.inr ⟨c, hc, hstamp, hprice⟩⟩
  · rintro ⟨id, ⟨s, hs, rfl⟩, ⟨r, hr, hstamp, hprice⟩ | ⟨c, hc, hstamp, hprice⟩⟩
    · exact ⟨(id, s), Dict.get?_eq_some_iff.1 hs, Or.inl ⟨r, hr, rfl, hstamp, hprice⟩⟩
    · exact ⟨(id, s), Dict.get?_eq_some_iff.1 hs, Or.inr ⟨c, hc, rfl, hstamp, hprice⟩⟩

variable [DecidableEq P]

namespace TickerState

/-- One of the writes of the tick that is made for the price read takes effect. -/
def Writes (s : TickerState P) (x : TickerInput P) (p : P) : Prop :=
  x.cacheWritten = true ∨ s.last ≠ some p ∧ (x.rowWritten = true ∨ x.delivered = true)

variable {s : TickerState P} {x : TickerInput P} {id : SecurityId} {t : Ticker} {source : String}
  {stamp : String} {p : P}

/-- What is stored after a tick was stored before, or is the price read under its stamp. -/
lemma carries_step (h : Carries (s.step id source x).row (s.step id source x).cached stamp p) :
    Carries s.row s.cached stamp p ∨
      x.reading = some p ∧ stamp = toIso (s.stamp x.now p) ∧ s.Writes x p := by
  rcases h with ⟨r, hr, hstamp, hprice⟩ | ⟨c, hc, hstamp, hprice⟩
  · cases hw : x.rowWritten with
    | false =>
      rw [step_row_of_lost hw] at hr
      exact Or.inl (Or.inl ⟨r, hr, hstamp, hprice⟩)
    | true =>
      rcases step_row_cases hr with hold | ⟨q, hx, hlast, rfl⟩
      · exact Or.inl (Or.inl ⟨r, hold, hstamp, hprice⟩)
      · obtain rfl : q = p := hprice
        refine Or.inr ⟨hx, ?_, Or.inr ⟨hlast, Or.inl hw⟩⟩
        rw [stamp_of_ne hlast]
        exact hstamp.symm
  · cases hw : x.cacheWritten with
    | false =>
      rw [step_cached_of_lost hw] at hc
      exact Or.inl (Or.inr ⟨c, hc, hstamp, hprice⟩)
    | true =>
      rcases step_cached_cases hc with hold | ⟨q, hx, rfl⟩
      · exact Or.inl (Or.inr ⟨c, hold, hstamp, hprice⟩)
      · obtain rfl : q = p := hprice
        exact Or.inr ⟨hx, hstamp.symm, Or.inl hw⟩

/-- What a tick delivers is the price read under its stamp. -/
lemma publication_eq_some {m : Publication P} (h : s.publication id t source x = some m) :
    m.ticker = t ∧ x.reading = some m.price ∧ m.effectiveAt = toIso (s.stamp x.now m.price) ∧
      s.Writes x m.price := by
  unfold publication at h
  cases hx : x.reading with
  | none => simp [hx] at h
  | some p =>
    rw [hx] at h
    dsimp only at h
    split at h
    · rename_i hsent
      obtain rfl := Option.some.inj h
      exact ⟨rfl, rfl, rfl, Or.inr ⟨hsent.1, Or.inr hsent.2⟩⟩
    · exact absurd h (by simp)

/-- A price that is not the one last published goes out under the stamp of its tick, when a write
takes effect. -/
lemma exists_of_writes (hx : x.reading = some p) (hlast : s.last ≠ some p) (hw : s.Writes x p)
    (hrow : ∀ r, s.row = some r → r.effectiveAt < x.now)
    (hcached : ∀ c, s.cached = some c → c.effectiveAt ≤ toIso x.now) :
    Carries (s.step id source x).row (s.step id source x).cached (toIso x.now) p ∨
      s.publication id t source x = some ⟨id, t, p, toIso x.now, source⟩ := by
  rcases hw with hw | ⟨-, hw | hw⟩
  · have hnew : (s.step id source x).cached = some ⟨id, p, toIso x.now, some source⟩ := by
      rw [step_cached hx hw, stamp_of_ne hlast]
      exact offerCached_takes hcached
    exact Or.inl (Or.inr ⟨_, hnew, rfl, rfl⟩)
  · have hnew : (s.step id source x).row = some ⟨p, x.now, source⟩ := by
      rw [step_row_of_ne hx hlast hw]
      exact offerRow_takes hrow
    exact Or.inl (Or.inl ⟨_, hnew, rfl, rfl⟩)
  · refine Or.inr ?_
    unfold publication
    rw [hx]
    dsimp only
    rw [if_pos ⟨hlast, hw⟩, stamp_of_ne hlast]

/-- A price that is the one last published goes to the cache under the stamp the service
remembers. -/
lemma carries_of_last {since : Instant} (hx : x.reading = some p) (hlast : s.last = some p)
    (hsince : s.since = some since) (hw : x.cacheWritten = true)
    (hcached : ∀ c, s.cached = some c → c.effectiveAt ≤ toIso since) :
    Carries (s.step id source x).row (s.step id source x).cached (toIso since) p := by
  have hnew : (s.step id source x).cached = some ⟨id, p, toIso since, some source⟩ := by
    rw [step_cached hx hw, stamp_of_last hlast, hsince, Option.getD_some]
    exact offerCached_takes hcached
  exact Or.inr ⟨_, hnew, rfl, rfl⟩

end TickerState

/-! ## Journals -/

/-- A world, every version that was ever stored or delivered, and the tickers that are astray: the
stamp the service remembers is that of a price that went out without counting as published. -/
structure Journal (P : Type u) where
  world : World P
  seen : List (Version P)
  astray : Ticker → Bool

/-- What an event delivers. -/
def World.delivered (w : World P) (e : FaultEvent P) : List (Publication P) :=
  match e, w.service with
  | .event (.tick i), some svc | .event (.crashTick i), some svc => (svc.tick w.stores i).delivered
  | .tickWith i escapes, some svc => (svc.tickWith escapes w.stores i).delivered
  | _, _ => []

/-- Which tickers are astray after a tick: those it stamped for a price that a write let out, if it
raised, and of those it read no new price for the ones that were. -/
def PriceService.astrayAfter (svc : PriceService P) (stores : Stores P) (i : TickInput P)
    (escapes : Escapes) (astray : Ticker → Bool) (t : Ticker) : Bool :=
  match (svc.inputAt i t).reading with
  | none => astray t
  | some p =>
    if svc.lastPublished.get? t = some p then astray t
    else decide ((svc.tickWith escapes stores i).status = .raised) &&
      ((svc.inputAt i t).cacheWritten || (svc.inputAt i t).rowWritten ||
        (svc.inputAt i t).delivered)

namespace Journal

/-- Which tickers are astray after an event.  A service that starts remembers the rows. -/
def astrayAfter (j : Journal P) (e : FaultEvent P) : Ticker → Bool :=
  match e, j.world.service with
  | .event (.tick i), some svc => svc.astrayAfter j.world.stores i .none j.astray
  | .tickWith i escapes, some svc => svc.astrayAfter j.world.stores i escapes j.astray
  | .event (.expire _), _ => j.astray
  | _, _ => fun _ => false

/-- One event. -/
def step (j : Journal P) (e : FaultEvent P) : Option (Journal P) :=
  (j.world.faultStep e).map fun w =>
    { world := w
      seen := w.stores.versions ++ ((j.world.delivered e).map Publication.version ++ j.seen)
      astray := j.astrayAfter e }

/-- The system, from stores in which a stamp identifies a price. -/
def system : System (Journal P) (FaultEvent P) where
  init j := World.faultSystem.init j.world ∧ j.seen = j.world.stores.versions ∧ OnePrice j.seen ∧
    ∀ t, j.astray t = false
  step := step

/-- The clock strictly increases and the source returns only tickers it was asked for. -/
def Honest (j : Journal P) (e : FaultEvent P) : Prop := World.FaultHonest j.world e

instance (j : Journal P) (e : FaultEvent P) : Decidable (Honest j e) :=
  inferInstanceAs (Decidable (World.FaultHonest j.world e))

/-- No tick writes to the cache a ticker that is astray and that it reads at its old price. -/
def Unspoiled (j : Journal P) (e : FaultEvent P) : Prop :=
  ∀ i ∈ World.tickOf e, ∀ svc ∈ j.world.service, ∀ t p, (svc.inputAt i t).reading = some p →
    svc.lastPublished.get? t = some p → j.astray t = true → i.cache.applies t = false

omit [DecidableEq P] in
lemma unspoiled_iff {j : Journal P} {e : FaultEvent P} : j.Unspoiled e ↔
    ∀ i ∈ World.tickOf e, ∀ svc ∈ j.world.service, ∀ prices ∈ svc.reading i, ∀ x ∈ prices.entries,
      svc.lastPublished.get? x.1 = some x.2 → j.astray x.1 = true →
        i.cache.applies x.1 = false := by
  constructor
  · intro h i hi svc hsvc prices hprices x hx
    refine h i hi svc hsvc x.1 x.2 ?_
    have hread : svc.reading i = some prices := hprices
    rw [PriceService.inputAt, hread]
    exact Dict.get?_eq_some_iff.2 hx
  · intro h i hi svc hsvc t p hx
    obtain ⟨prices, hprices, hp⟩ := Option.bind_eq_some_iff.1 hx
    exact h i hi svc hsvc prices hprices (t, p) (Dict.get?_eq_some_iff.1 hp)

instance (j : Journal P) (e : FaultEvent P) : Decidable (j.Unspoiled e) :=
  decidable_of_iff' _ unspoiled_iff

/-- What the service remembers of a ticker against what was seen: the stamp of its price, or, when
the ticker is astray, of another price that went out, with nothing cached since. -/
def Remembers (j : Journal P) (t : Ticker) (p : P) (since : Instant) : Prop :=
  if j.astray t then (∃ q, q ≠ p ∧ ⟨t, toIso since, q⟩ ∈ j.seen) ∧
    ∀ c, j.world.stores.redis.cached t = some c → c.effectiveAt ≤ toIso since
  else ∀ q, ⟨t, toIso since, q⟩ ∈ j.seen → q = p

/-- What holds of every journal a run without spoilt writes reaches: the stores show versions that
were seen, and what the service remembers of a price is a version under a stamp of its clock. -/
structure Identified (j : Journal P) : Prop where
  wellFormed : j.world.WellFormed
  covered : j.world.stores.versions ⊆ j.seen
  stamped : ∀ v ∈ j.seen, ∃ since ≤ j.world.clock, v.effectiveAt = toIso since
  memory : ∀ svc, j.world.service = some svc → ∀ t p since, svc.lastPublished.get? t = some p →
    svc.effectiveAt.get? t = some since → j.Remembers t p since

variable {j j' : Journal P} {e : FaultEvent P} {w' : World P} {stores stores' : Stores P}
  {clock : Instant} {svc : PriceService P} {i : TickInput P} {seen : List (Version P)} {t : Ticker}
  {stamp : String} {p : P}

/-! ## Starts -/

omit [DecidableEq P] in
/-- A start brings no version that was not stored before. -/
lemma versions_startLeaves (h : World.StartLeaves stores stores') (hl : World.Listed stores) :
    stores'.versions ⊆ stores.versions := by
  rintro ⟨t, stamp, p⟩ hv
  obtain ⟨id, hid, hc⟩ := Stores.mem_versions.1 hv
  have hback : ∀ id row, Dict.get? stores.latestPrices id = some row →
      stores'.securities.Lists id t → stores.securities.Lists id t := by
    intro id row hrow hlists
    obtain ⟨t', ht'⟩ := hl.row id row hrow
    rwa [hlists.ticker_unique (h.lists id t' ht')]
  rcases hc with ⟨r, hr, hstamp, hprice⟩ | ⟨c, hc, hstamp, hprice⟩
  · obtain ⟨r', hr', hprice', hstamp'⟩ := h.row id r hr
    refine Stores.mem_versions.2 ⟨id, hback id r' hr' hid, Or.inl ⟨r', hr', ?_, ?_⟩⟩
    · rw [hstamp', hstamp]
    · rw [hprice', hprice]
  · rcases h.cached t c hc with hold | ⟨id', row, hrow, hlists, hprice', hstamp'⟩
    · obtain ⟨id', hid'⟩ := hl.cached t c hold
      exact Stores.mem_versions.2 ⟨id', hid', Or.inr ⟨c, hold, hstamp, hprice⟩⟩
    · refine Stores.mem_versions.2 ⟨id', hback id' row hrow hlists, Or.inl ⟨row, hrow, ?_, ?_⟩⟩
      · rw [← hstamp', hstamp]
      · rw [← hprice', hprice]

omit [DecidableEq P] in
/-- What a service that started remembers is a version that was stored before. -/
lemma mem_versions_of_start {settings : Settings} {read : PriceService.CatalogRead}
    (h : PriceService.start settings stores read = (stores', some svc)) (hl : World.Listed stores)
    {since : Instant} (hlast : svc.lastPublished.get? t = some p)
    (hsince : svc.effectiveAt.get? t = some since) : ⟨t, toIso since, p⟩ ∈ stores.versions := by
  rcases PriceService.start_memory h t with ⟨hnone, -⟩ | ⟨id, row, hrow, hlists, hlast', hsince'⟩
  · rw [hnone] at hlast
    exact absurd hlast (by simp)
  · obtain rfl := Option.some.inj (hlast'.symm.trans hlast)
    obtain rfl := Option.some.inj (hsince'.symm.trans hsince)
    have hleaves := World.startLeaves_start settings stores read
    rw [h] at hleaves
    refine versions_startLeaves hleaves hl (Stores.mem_versions.2 ⟨id, ?_, Or.inl ⟨row, ?_, rfl,
      rfl⟩⟩)
    · rw [(PriceService.start_service h).2.2.1]
      exact hlists
    · dsimp only
      rw [(PriceService.start_service h).2.2.2.1]
      exact hrow

/-! ## Ticks -/

section

variable (hr : World.Running stores clock svc) (hi : svc.Requested i)

include hr hi

/-- A version after a tick was seen before, or is the price the tick read under its stamp. -/
lemma mem_seen_of_tick (hcov : stores.versions ⊆ seen)
    (h : ⟨t, stamp, p⟩ ∈ (svc.tick stores i).stores.versions ++
      ((svc.tick stores i).delivered.map Publication.version ++ seen)) :
    ⟨t, stamp, p⟩ ∈ seen ∨ ∃ id, (svc.inputAt i t).reading = some p ∧
      stamp = toIso ((svc.view stores id t).stamp i.now p) ∧
      (svc.view stores id t).Writes (svc.inputAt i t) p := by
  rcases List.mem_append.1 h with hv | h
  · obtain ⟨id, hid, hc⟩ := Stores.mem_versions.1 hv
    rw [(PriceService.tick_service hr.sound stores hi).2.2.1] at hid
    have hview := (PriceService.view_tick hr.sound stores hi (hr.idNames hid)).1
    have hrow := congrArg TickerState.row hview
    have hcached := congrArg TickerState.cached hview
    dsimp only [PriceService.view] at hrow hcached
    rw [hrow, hcached] at hc
    rcases TickerState.carries_step hc with hold | hnew
    · exact Or.inl (hcov (Stores.mem_versions.2 ⟨id, hid, hold⟩))
    · exact Or.inr ⟨id, hnew⟩
  · rcases List.mem_append.1 h with hm | hseen
    · obtain ⟨m, hm, hversion⟩ := List.mem_map.1 hm
      obtain ⟨hticker, hstamp, hprice⟩ := Version.mk.injEq .. ▸ hversion
      obtain ⟨id, hkey⟩ := hr.sound.exists_idNames t
      have hfilter := (PriceService.view_tick hr.sound stores hi hkey).2
      have hmem : m ∈ ((svc.view stores id t).publication id t svc.sourceName
          (svc.inputAt i t)).toList := by
        rw [← hfilter, List.mem_filter]
        exact ⟨hm, by simpa using hticker⟩
      obtain ⟨-, hx, hstamp', hw⟩ := TickerState.publication_eq_some (Option.mem_toList.1 hmem)
      subst hprice
      exact Or.inr ⟨id, hx, hstamp.symm.trans hstamp', hw⟩
    · exact Or.inl hseen

/-- What is stored at a listed ticker after a tick is a version of it. -/
lemma mem_seen_of_carries {id : SecurityId} (hid : stores.securities.Lists id t)
    (h : Carries ((svc.view stores id t).step id svc.sourceName (svc.inputAt i t)).row
      ((svc.view stores id t).step id svc.sourceName (svc.inputAt i t)).cached stamp p) :
    ⟨t, stamp, p⟩ ∈ (svc.tick stores i).stores.versions ++
      ((svc.tick stores i).delivered.map Publication.version ++ seen) := by
  rw [← (PriceService.view_tick hr.sound stores hi (hr.idNames hid)).1] at h
  refine List.mem_append_left _ (Stores.mem_versions.2 ⟨id, ?_, h⟩)
  rw [(PriceService.tick_service hr.sound stores hi).2.2.1]
  exact hid

/-- A price that is not the one last published is seen under the stamp of its tick, when a write
takes effect. -/
lemma mem_seen_of_writes (hs : World.StampedUpTo stores clock) (hclock : clock < i.now)
    (hx : (svc.inputAt i t).reading = some p) (hlast : svc.lastPublished.get? t ≠ some p)
    {id : SecurityId} (hw : (svc.view stores id t).Writes (svc.inputAt i t) p) :
    ⟨t, toIso i.now, p⟩ ∈ (svc.tick stores i).stores.versions ++
      ((svc.tick stores i).delivered.map Publication.version ++ seen) := by
  obtain ⟨id, hget⟩ := Dict.mem_keys_iff.1 (World.mem_keys_of_reading hr.sound hi hx)
  have hid := hr.lists t id hget
  have hcached : ∀ c, (svc.view stores id t).cached = some c → c.effectiveAt ≤ toIso i.now := by
    intro c hc
    obtain ⟨since, hle, hstamp⟩ := hs.cached t c hc
    rw [hstamp]
    exact toIso_le_iff.2 (hle.trans hclock.le)
  rcases TickerState.exists_of_writes (s := svc.view stores id t) (t := t) hx hlast hw
    (fun r hrow => (hs.row id r hrow).trans_lt hclock) hcached with hstored | hsent
  · exact mem_seen_of_carries hr hi hid hstored
  · have hmem := Option.mem_toList.2 hsent
    rw [← (PriceService.view_tick hr.sound stores hi (hr.idNames hid)).2, List.mem_filter] at hmem
    exact List.mem_append_right _ (List.mem_append_left _ (List.mem_map.2 ⟨_, hmem.1, rfl⟩))

end

omit [DecidableEq P] in
lemma Identified.not_mem_of_lt (h : j.Identified) {now : Instant} (hlt : j.world.clock < now) :
    ⟨t, toIso now, p⟩ ∉ j.seen := by
  intro hmem
  obtain ⟨since, hle, hstamp⟩ := h.stamped _ hmem
  rw [toIso_inj.1 hstamp] at hlt
  exact absurd hlt (not_lt.2 hle)

/-- What a tick adds to what was seen. -/
def seenAfterTick (j : Journal P) (svc : PriceService P) (i : TickInput P) : List (Version P) :=
  (svc.tick j.world.stores i).stores.versions ++
    ((svc.tick j.world.stores i).delivered.map Publication.version ++ j.seen)

section

variable (h : j.Identified) (hsvc : j.world.service = some svc) (hclock : j.world.clock < i.now)
  (hi : svc.Requested i)

include h hsvc hclock hi

/-- A version after a tick, under the stamp of the tick. -/
lemma eq_of_mem_seenAfterTick {q : P} (hx : (svc.inputAt i t).reading = some q)
    (hv : ⟨t, toIso i.now, p⟩ ∈ j.seenAfterTick svc i) :
    p = q ∧ ∃ id, (svc.view j.world.stores id t).Writes (svc.inputAt i t) q := by
  rcases mem_seen_of_tick (h.wellFormed.running svc hsvc) hi h.covered hv with
    hold | ⟨id, hx', -, hw⟩
  · exact absurd hold (h.not_mem_of_lt hclock)
  · obtain rfl := Option.some.inj (hx'.symm.trans hx)
    exact ⟨rfl, id, hw⟩

omit hclock in
/-- A version after a tick, of a ticker the tick reads at no new price. -/
lemma mem_or_of_mem_seenAfterTick {since : Instant} {q : P}
    (hx : ∀ q', (svc.inputAt i t).reading = some q' → q' = q)
    (hlast : svc.lastPublished.get? t = some q) (hsince : svc.effectiveAt.get? t = some since)
    (hv : ⟨t, stamp, p⟩ ∈ j.seenAfterTick svc i) :
    ⟨t, stamp, p⟩ ∈ j.seen ∨ p = q ∧ (svc.inputAt i t).reading = some q ∧ stamp = toIso since ∧
      i.cache.applies t = true := by
  rcases mem_seen_of_tick (h.wellFormed.running svc hsvc) hi h.covered hv with
    hold | ⟨id, hx', hstamp, hw⟩
  · exact Or.inl hold
  · obtain rfl := hx p hx'
    have hview : (svc.view j.world.stores id t).last = some p := hlast
    have hmemory : (svc.view j.world.stores id t).since = some since := hsince
    rw [TickerState.stamp_of_last hview, hmemory, Option.getD_some] at hstamp
    refine Or.inr ⟨rfl, hx', hstamp, ?_⟩
    rcases hw with hw | ⟨hne, -⟩
    · exact hw
    · exact absurd hview hne

/-- **A tick keeps stamps unambiguous exactly when it does not write an astray ticker back.** -/
lemma onePrice_tick_iff (hone : OnePrice j.seen) :
    OnePrice (j.seenAfterTick svc i) ↔ ∀ t p, (svc.inputAt i t).reading = some p →
      svc.lastPublished.get? t = some p → j.astray t = true → i.cache.applies t = false := by
  have hr := h.wellFormed.running svc hsvc
  constructor
  · intro hafter t p hx hlast hastray
    by_contra hw
    have hw' : i.cache.applies t = true := by simpa using hw
    obtain ⟨since, hsince⟩ := hr.sound.last_stamped t p hlast
    have hmemory := h.memory svc hsvc t p since hlast hsince
    rw [Remembers, if_pos hastray] at hmemory
    obtain ⟨⟨q, hne, hq⟩, hcached⟩ := hmemory
    obtain ⟨id, hget⟩ := Dict.mem_keys_iff.1 (World.mem_keys_of_reading hr.sound hi hx)
    have hp : ⟨t, toIso since, p⟩ ∈ j.seenAfterTick svc i :=
      mem_seen_of_carries hr hi (hr.lists t id hget)
        (TickerState.carries_of_last (s := svc.view j.world.stores id t) hx hlast hsince hw' hcached)
    exact hne (hafter _ (List.mem_append_right _ (List.mem_append_right _ hq)) _ hp rfl rfl)
  · rintro hunspoiled ⟨t, stamp, p⟩ hv ⟨t', stamp', p'⟩ hv' ht hstamp
    obtain rfl : t = t' := ht
    obtain rfl : stamp = stamp' := hstamp
    -- a version that is new at this tick against one that was seen
    have hmixed : ∀ p p', ⟨t, stamp, p⟩ ∈ j.seen → (∃ id, (svc.inputAt i t).reading = some p' ∧
        stamp = toIso ((svc.view j.world.stores id t).stamp i.now p') ∧
        (svc.view j.world.stores id t).Writes (svc.inputAt i t) p') → p = p' := by
      rintro p p' hold ⟨id, hx, rfl, hw⟩
      by_cases hlast : svc.lastPublished.get? t = some p'
      · obtain ⟨since, hsince⟩ := hr.sound.last_stamped t p' hlast
        have hview : (svc.view j.world.stores id t).last = some p' := hlast
        have hstamp : (svc.view j.world.stores id t).since = some since := hsince
        rw [TickerState.stamp_of_last hview, hstamp, Option.getD_some] at hold
        have happlies : i.cache.applies t = true := by
          rcases hw with hw | ⟨hne, -⟩
          · exact hw
          · exact absurd hview hne
        have hnot : ¬ j.astray t = true := fun hastray => by
          rw [hunspoiled t p' hx hlast hastray] at happlies
          exact absurd happlies (by simp)
        have hmemory := h.memory svc hsvc t p' since hlast hsince
        rw [Remembers, if_neg hnot] at hmemory
        exact hmemory p hold
      · have hview : (svc.view j.world.stores id t).last ≠ some p' := hlast
        rw [TickerState.stamp_of_ne hview] at hold
        exact absurd hold (h.not_mem_of_lt hclock)
    rcases mem_seen_of_tick hr hi h.covered hv with hold | hnew
    · rcases mem_seen_of_tick hr hi h.covered hv' with hold' | hnew'
      · exact hone _ hold _ hold' rfl rfl
      · exact hmixed p p' hold hnew'
    · rcases mem_seen_of_tick hr hi h.covered hv' with hold' | hnew'
      · exact (hmixed p' p hold' hnew).symm
      · obtain ⟨-, hx, -⟩ := hnew
        obtain ⟨-, hx', -⟩ := hnew'
        exact Option.some.inj (hx.symm.trans hx')

end

omit [DecidableEq P] in
/-- What the service remembers fits what was seen as long as nothing is added that contradicts it. -/
lemma Remembers.mono {since : Instant} (h : j.Remembers t p since) (hseen : j.seen ⊆ j'.seen)
    (hback : ∀ q, ⟨t, toIso since, q⟩ ∈ j'.seen → ⟨t, toIso since, q⟩ ∈ j.seen ∨ q = p)
    (hastray : j'.astray t = j.astray t)
    (hcached : j.astray t = true → ∀ c, j'.world.stores.redis.cached t = some c →
      j.world.stores.redis.cached t = some c) : j'.Remembers t p since := by
  unfold Remembers at h ⊢
  rw [hastray]
  split at h
  · rename_i hlost
    obtain ⟨⟨q, hne, hq⟩, hle⟩ := h
    rw [if_pos hlost]
    exact ⟨⟨q, hne, hseen hq⟩, fun c hc => hle c (hcached hlost c hc)⟩
  · rename_i hkept
    rw [if_neg hkept]
    intro q hq
    rcases hback q hq with hold | heq
    · exact h q hold
    · exact heq

/-- The journal after a tick with exceptions. -/
def afterTick (j : Journal P) (svc : PriceService P) (i : TickInput P) (escapes : Escapes) :
    Journal P where
  world := ⟨(svc.tickWith escapes j.world.stores i).stores,
    some (svc.tickWith escapes j.world.stores i).service, i.now⟩
  seen := j.seenAfterTick svc i
  astray := svc.astrayAfter j.world.stores i escapes j.astray

section

variable (h : j.Identified) (hsvc : j.world.service = some svc) (hi : svc.Requested i)
  (escapes : Escapes) {since : Instant}
  (hlast : (svc.tickWith escapes j.world.stores i).service.lastPublished.get? t = some p)
  (hsince : (svc.tickWith escapes j.world.stores i).service.effectiveAt.get? t = some since)

include h hsvc hi hlast hsince

/-- A ticker that is read at no new price is remembered as before. -/
lemma remembers_of_same (hx : ∀ q, (svc.inputAt i t).reading = some q →
      svc.lastPublished.get? t = some q)
    (hcached : j.astray t = true → ∀ q, (svc.inputAt i t).reading = some q →
      i.cache.applies t = false) :
    (j.afterTick svc i escapes).Remembers t p since := by
  have hr := h.wellFormed.running svc hsvc
  obtain ⟨id, hkey⟩ := hr.sound.exists_idNames t
  have hview := PriceService.view_tickWith hr.sound j.world.stores hi hkey escapes
  have hlast' := (congrArg TickerState.last hview).symm.trans hlast
  have hsince' := (congrArg TickerState.since hview).symm.trans hsince
  dsimp only at hlast' hsince'
  -- a ticker read at the price it had keeps its price and stamp in memory
  have hsame : ((svc.view j.world.stores id t).step id svc.sourceName (svc.inputAt i t)).last =
      svc.lastPublished.get? t := by
    cases hq : (svc.inputAt i t).reading with
    | none => rw [TickerState.step_none hq]; rfl
    | some q => rw [TickerState.step_last hq, hx q hq]
  have hold : svc.lastPublished.get? t = some p := by
    rw [hsame, ite_self] at hlast'
    exact hlast'
  obtain ⟨since', hstamp⟩ := hr.sound.last_stamped t p hold
  obtain rfl : since' = since := by
    cases hq : (svc.inputAt i t).reading with
    | none =>
      rw [TickerState.step_none hq] at hsince'
      exact Option.some.inj (hstamp.symm.trans hsince')
    | some q =>
      have hviewq : (svc.view j.world.stores id t).last = some q := hx q hq
      have hviewsince : (svc.view j.world.stores id t).since = some since' := hstamp
      rw [TickerState.step_since hq, TickerState.stamp_of_last hviewq, hviewsince] at hsince'
      exact Option.some.inj hsince'
  refine (h.memory svc hsvc t p since' hold hstamp).mono
    (fun v hv => List.mem_append_right _ (List.mem_append_right _ hv)) (fun q hq => ?_) ?_
    fun hastray c hc => ?_
  -- and what the tick adds under this stamp is that price
  · rcases mem_or_of_mem_seenAfterTick h hsvc hi
      (fun q' hq' => Option.some.inj ((hx q' hq').symm.trans hold)) hold hstamp hq with
        hseen | ⟨heq, -⟩
    · exact Or.inl hseen
    · exact Or.inr heq
  · cases hq : (svc.inputAt i t).reading with
    | none => simp only [afterTick, PriceService.astrayAfter, hq]
    | some q => simp only [afterTick, PriceService.astrayAfter, hq, hx q hq, if_true]
  · have hentry : ((svc.view j.world.stores id t).step id svc.sourceName
        (svc.inputAt i t)).cached = some c := (congrArg TickerState.cached hview).symm.trans hc
    cases hq : (svc.inputAt i t).reading with
    | none =>
      rw [TickerState.step_none hq] at hentry
      exact hentry
    | some q =>
      rw [TickerState.step_cached_of_lost (hcached hastray q hq)] at hentry
      exact hentry

/-- A ticker that is read at a new price is remembered with it, or is astray if that went out and
the tick raised. -/
lemma remembers_of_new (hclock : j.world.clock < i.now) {q : P}
    (hx : (svc.inputAt i t).reading = some q) (hq : svc.lastPublished.get? t ≠ some q) :
    (j.afterTick svc i escapes).Remembers t p since := by
  have hr := h.wellFormed.running svc hsvc
  obtain ⟨id, hkey⟩ := hr.sound.exists_idNames t
  have hview := PriceService.view_tickWith hr.sound j.world.stores hi hkey escapes
  have hlast' := (congrArg TickerState.last hview).symm.trans hlast
  have hsince' := (congrArg TickerState.since hview).symm.trans hsince
  dsimp only at hlast' hsince'
  have hviewq : (svc.view j.world.stores id t).last ≠ some q := hq
  rw [TickerState.step_last hx] at hlast'
  rw [TickerState.step_since hx, TickerState.stamp_of_ne hviewq] at hsince'
  obtain rfl : i.now = since := Option.some.inj hsince'
  have hastray : (j.afterTick svc i escapes).astray t =
      (decide ((svc.tickWith escapes j.world.stores i).status = .raised) &&
        ((svc.inputAt i t).cacheWritten || (svc.inputAt i t).rowWritten ||
          (svc.inputAt i t).delivered)) := by
    simp only [afterTick, PriceService.astrayAfter, hx, hq, if_false]
  -- under the new stamp only `q` was seen, and only if one of the writes took effect
  have hnew : ∀ q', ⟨t, toIso i.now, q'⟩ ∈ (j.afterTick svc i escapes).seen → q' = q ∧
      ∃ id, (svc.view j.world.stores id t).Writes (svc.inputAt i t) q := fun q' hq' =>
    eq_of_mem_seenAfterTick h hsvc hclock hi hx hq'
  -- a tick that raises has stamped the price and not remembered it
  by_cases hraised : (svc.tickWith escapes j.world.stores i).status = .raised
  · rw [if_pos hraised] at hlast'
    have hne : q ≠ p := fun heq => hq (heq ▸ hlast')
    rw [decide_eq_true hraised, Bool.true_and] at hastray
    -- if a write took effect the ticker is astray, and otherwise nobody has seen the stamp
    by_cases hw : (svc.view j.world.stores id t).Writes (svc.inputAt i t) q
    · have hlost : (j.afterTick svc i escapes).astray t = true := by
        rw [hastray]
        rcases hw with hw | ⟨-, hw | hw⟩ <;> simp [hw]
      rw [Remembers, if_pos hlost]
      refine ⟨⟨q, hne, mem_seen_of_writes hr hi h.wellFormed.stamped hclock hx hq hw⟩, ?_⟩
      intro c hc
      have hstores := (PriceService.tickWith_cases escapes svc j.world.stores i).1
      have hstamped := World.stamped_tick hr h.wellFormed.stamped hclock.le hi
      rw [← hstores] at hstamped
      obtain ⟨since, hle, hstamp⟩ := hstamped.cached t c hc
      rw [hstamp]
      exact toIso_le_iff.2 hle
    · have hkept : ¬ (j.afterTick svc i escapes).astray t = true := by
        rw [hastray]
        intro hany
        simp only [Bool.or_eq_true] at hany
        rcases hany with (hc | hc) | hc
        · exact hw (Or.inl hc)
        · exact hw (Or.inr ⟨hviewq, Or.inl hc⟩)
        · exact hw (Or.inr ⟨hviewq, Or.inr hc⟩)
      rw [Remembers, if_neg hkept]
      intro q' hq'
      obtain ⟨-, id', hw'⟩ := hnew q' hq'
      exact absurd hw' hw
  -- a tick that completes remembers the price it stamped
  · rw [if_neg hraised] at hlast'
    obtain rfl := Option.some.inj hlast'
    have hkept : ¬ (j.afterTick svc i escapes).astray t = true := by simp [hastray, hraised]
    rw [Remembers, if_neg hkept]
    exact fun q' hq' => (hnew q' hq').1

end

/-! ## Runs -/

/-- A tick keeps a journal identified unless it writes an astray ticker back. -/
lemma Identified.afterTick (h : j.Identified) (hsvc : j.world.service = some svc)
    (hclock : j.world.clock < i.now) (hi : svc.Requested i) (escapes : Escapes)
    (hunspoiled : ∀ t p, (svc.inputAt i t).reading = some p → svc.lastPublished.get? t = some p →
      j.astray t = true → i.cache.applies t = false) :
    (j.afterTick svc i escapes).Identified := by
  have hr := h.wellFormed.running svc hsvc
  have hstores := (PriceService.tickWith_cases escapes svc j.world.stores i).1
  refine ⟨⟨?_, ?_, ?_⟩, ?_, ?_, ?_⟩
  · dsimp only [Journal.afterTick]
    rw [hstores]
    exact World.listed_tick hr hi h.wellFormed.listed
  · dsimp only [Journal.afterTick]
    rw [hstores]
    exact World.stamped_tick hr h.wellFormed.stamped hclock.le hi
  · rintro svc' ⟨⟩
    exact World.running_tickWith hr h.wellFormed.stamped hclock.le hi escapes
  · dsimp only [Journal.afterTick]
    rw [hstores]
    exact List.subset_append_left _ _
  · rintro ⟨t, stamp, p⟩ hv
    rcases mem_seen_of_tick hr hi h.covered hv with hold | ⟨id, -, hstamp, -⟩
    · obtain ⟨since, hle, hstamp⟩ := h.stamped _ hold
      exact ⟨since, hle.trans hclock.le, hstamp⟩
    · have hupTo : (svc.view j.world.stores id t).UpTo (svc.inputAt i t).now :=
        (hr.view_upTo h.wellFormed.stamped id t).mono hclock.le
      exact ⟨_, TickerState.stamp_le hupTo p, hstamp⟩
  · rintro svc' ⟨⟩ t p since hlast hsince
    -- the ticker is read at its old price, or not at all, or at a new one
    by_cases hx : ∀ q, (svc.inputAt i t).reading = some q → svc.lastPublished.get? t = some q
    · exact remembers_of_same h hsvc hi escapes hlast hsince hx
        fun hastray q hq => hunspoiled t q hq (hx q hq) hastray
    · push Not at hx
      obtain ⟨q, hq, hne⟩ := hx
      exact remembers_of_new h hsvc hi escapes hlast hsince hclock hq hne

omit [DecidableEq P] in
lemma Identified.quiet (h : j.Identified) (hw : w'.WellFormed) (hclock : w'.clock = j.world.clock)
    (hversions : w'.stores.versions ⊆ j.seen) {astray : Ticker → Bool}
    (hmemory : ∀ svc, w'.service = some svc → ∀ t p since, svc.lastPublished.get? t = some p →
      svc.effectiveAt.get? t = some since →
      (⟨w', w'.stores.versions ++ j.seen, astray⟩ : Journal P).Remembers t p since) :
    (⟨w', w'.stores.versions ++ j.seen, astray⟩ : Journal P).Identified := by
  refine ⟨hw, List.subset_append_left _ _, fun v hv => ?_, hmemory⟩
  dsimp only
  rw [hclock]
  rcases List.mem_append.1 hv with hv | hv
  · exact h.stamped v (hversions hv)
  · exact h.stamped v hv

omit [DecidableEq P] in
lemma onePrice_quiet (hversions : w'.stores.versions ⊆ j.seen) :
    OnePrice (w'.stores.versions ++ j.seen) ↔ OnePrice j.seen :=
  ⟨fun h => h.subset (List.subset_append_right _ _),
    fun h => h.subset (List.append_subset.2 ⟨hversions, List.Subset.refl _⟩)⟩

omit [DecidableEq P] in
lemma remembers_quiet (hone : OnePrice j.seen) (hversions : w'.stores.versions ⊆ j.seen)
    {since : Instant} (hp : ⟨t, toIso since, p⟩ ∈ j.seen) :
    (⟨w', w'.stores.versions ++ j.seen, fun _ => false⟩ : Journal P).Remembers t p since := by
  rw [Remembers, if_neg Bool.false_ne_true]
  intro q hq
  exact (onePrice_quiet hversions).2 hone _ hq _ (List.mem_append_right _ hp) rfl rfl

/-- What one event does to a journal: a tick, whatever ends it, or nothing that adds a version. -/
lemma step_cases (hstep : j.step e = some j') :
    (∃ svc i escapes service astray, j.world.service = some svc ∧ World.tickOf e = some i ∧
      (service = none ∨ service = some (svc.tickWith escapes j.world.stores i).service ∧
        astray = svc.astrayAfter j.world.stores i escapes j.astray) ∧
      j' = ⟨⟨(svc.tick j.world.stores i).stores, service, i.now⟩, j.seenAfterTick svc i,
        astray⟩) ∨
    (World.tickOf e = none ∧ ∃ w', j.world.faultStep e = some w' ∧
      j' = ⟨w', w'.stores.versions ++ j.seen, j.astrayAfter e⟩) := by
  obtain ⟨w', hw', rfl⟩ := Option.map_eq_some_iff.1 hstep
  cases htick : World.tickOf e with
  | none =>
    have hdelivered : j.world.delivered e = [] := by
      cases e with
      | tickWith i escapes => exact absurd htick (by simp [World.tickOf])
      | event e => cases e <;> first | rfl | exact absurd htick (by simp [World.tickOf])
    refine Or.inr ⟨rfl, w', hw', ?_⟩
    rw [hdelivered]
    rfl
  | some i =>
    refine Or.inl ?_
    cases e with
    -- the three events that are a tick: left by an exception, completed, and cut off by a crash
    | tickWith k escapes =>
      obtain rfl : k = i := Option.some.inj htick
      obtain ⟨svc, hsvc, -⟩ := World.tickOf_cases hw' htick
      obtain ⟨hstores, hdelivered, -⟩ := PriceService.tickWith_cases escapes svc j.world.stores k
      simp only [World.faultStep, hsvc] at hw'
      obtain rfl := Option.some.inj hw'
      refine ⟨svc, k, escapes, _, _, hsvc, rfl, Or.inr ⟨rfl, rfl⟩, ?_⟩
      simp only [World.delivered, astrayAfter, seenAfterTick, hsvc, hstores, hdelivered]
    | event e =>
      cases e with
      | tick k =>
        obtain rfl : k = i := Option.some.inj htick
        obtain ⟨svc, hsvc, -⟩ := World.tickOf_cases hw' htick
        simp only [World.faultStep, World.step, hsvc] at hw'
        obtain rfl := Option.some.inj hw'
        refine ⟨svc, k, .none, _, _, hsvc, rfl, Or.inr ⟨rfl, rfl⟩, ?_⟩
        simp only [World.delivered, astrayAfter, seenAfterTick, hsvc, PriceService.tickWith_none]
      | crashTick k =>
        obtain rfl : k = i := Option.some.inj htick
        obtain ⟨svc, hsvc, -⟩ := World.tickOf_cases hw' htick
        simp only [World.faultStep, World.step, hsvc] at hw'
        obtain rfl := Option.some.inj hw'
        refine ⟨svc, k, .none, none, fun _ => false, hsvc, rfl, Or.inl rfl, ?_⟩
        simp only [World.delivered, astrayAfter, seenAfterTick, hsvc]
      | start settings read => exact absurd htick (by simp [World.tickOf])
      | cutStart settings read cut => exact absurd htick (by simp [World.tickOf])
      | stop => exact absurd htick (by simp [World.tickOf])
      | expire key => exact absurd htick (by simp [World.tickOf])

omit [DecidableEq P] in
lemma Identified.stopped (h : j.Identified) (astray : Ticker → Bool) :
    (⟨⟨j.world.stores, none, j.world.clock⟩, j.seen, astray⟩ : Journal P).Identified :=
  ⟨World.wellFormed_of_stopped rfl h.wellFormed.listed h.wellFormed.stamped, h.covered, h.stamped,
    fun _ hsvc => absurd hsvc (by simp)⟩

/-- Whatever an event that contains no tick does, it adds no version and leaves a service that fits
what was seen. -/
lemma Identified.of_quiet (h : j.Identified) (hone : OnePrice j.seen)
    (hnone : World.tickOf e = none) (hw' : j.world.faultStep e = some w') :
    w'.stores.versions ⊆ j.seen ∧
      (⟨w', w'.stores.versions ++ j.seen, j.astrayAfter e⟩ : Journal P).Identified := by
  have hwf : w'.WellFormed := h.wellFormed.faultStep (fun i hi => by
    rw [hnone] at hi
    exact absurd hi (by simp)) hw'
  cases e with
  | tickWith i escapes => exact absurd hnone (by simp [World.tickOf])
  | event e =>
    cases e with
    | tick i => exact absurd hnone (by simp [World.tickOf])
    | crashTick i => exact absurd hnone (by simp [World.tickOf])
    | start settings read =>
      obtain ⟨hstores, hservice, hclock⟩ : w'.stores =
          (PriceService.start settings j.world.stores read).1 ∧
          w'.service = (PriceService.start settings j.world.stores read).2 ∧
          w'.clock = j.world.clock := by
        rw [← Option.some.inj hw']
        exact ⟨rfl, rfl, rfl⟩
      have hsub : w'.stores.versions ⊆ j.seen := by
        rw [hstores]
        exact List.Subset.trans (versions_startLeaves
          (World.startLeaves_start settings j.world.stores read) h.wellFormed.listed) h.covered
      refine ⟨hsub, h.quiet hwf hclock hsub fun svc hsvc t p since hlast hsince => ?_⟩
      have hstart : PriceService.start settings j.world.stores read =
          ((PriceService.start settings j.world.stores read).1, some svc) :=
        Prod.ext rfl (hservice.symm.trans hsvc)
      -- what the service remembers it has read from the rows
      have hp := mem_versions_of_start hstart h.wellFormed.listed hlast hsince
      exact remembers_quiet hone hsub (h.covered hp)
    | cutStart settings read cut =>
      obtain rfl := Option.some.inj hw'
      have hsub := List.Subset.trans (versions_startLeaves
        (World.startLeaves_cutStart settings j.world.stores read cut) h.wellFormed.listed) h.covered
      exact ⟨hsub, h.quiet hwf rfl hsub fun _ hsvc => absurd hsvc (by simp)⟩
    -- without a service nothing is remembered
    | stop =>
      obtain rfl := Option.some.inj hw'
      exact ⟨h.covered, h.quiet hwf rfl h.covered fun _ hsvc => absurd hsvc (by simp)⟩
    -- an entry less
    | expire key =>
      obtain rfl := Option.some.inj hw'
      have hsub : ({ j.world.stores with redis := j.world.stores.redis.expire key } :
          Stores P).versions ⊆ j.seen := by
        rintro ⟨t, stamp, p⟩ hv
        obtain ⟨id, hid, hc⟩ := Stores.mem_versions.1 hv
        refine h.covered (Stores.mem_versions.2 ⟨id, hid, hc.imp_right ?_⟩)
        rintro ⟨c, hc, hcarried⟩
        exact ⟨c, Redis.cached_of_expire hc, hcarried⟩
      refine ⟨hsub, h.quiet hwf rfl hsub fun svc hsvc t p since hlast hsince => ?_⟩
      refine (h.memory svc hsvc t p since hlast hsince).mono (List.subset_append_right _ _)
        (fun q hq => Or.inl ?_) rfl fun _ c hc => Redis.cached_of_expire hc
      rcases List.mem_append.1 hq with hq | hq
      · exact hsub hq
      · exact hq

/-- An event keeps a stamp identifying a price exactly when it spoils nothing. -/
lemma onePrice_step_iff (h : j.Identified) (hone : OnePrice j.seen) (he : Honest j e)
    (hstep : j.step e = some j') : OnePrice j'.seen ↔ j.Unspoiled e := by
  rcases step_cases hstep with ⟨svc, i, escapes, service, astray, hsvc, hi, -, rfl⟩ |
    ⟨hnone, w', hw', rfl⟩
  · obtain ⟨hclock, hreq⟩ := he i hi
    rw [onePrice_tick_iff h hsvc hclock (hreq svc hsvc) hone, Unspoiled, hi, hsvc]
    simp
  · obtain ⟨hsub, -⟩ := h.of_quiet hone hnone hw'
    rw [onePrice_quiet hsub]
    refine iff_of_true hone fun i hi => ?_
    rw [hnone] at hi
    exact absurd hi (by simp)

lemma Identified.step (h : j.Identified) (hone : OnePrice j.seen) (he : Honest j e)
    (hunspoiled : j.Unspoiled e) (hstep : j.step e = some j') : j'.Identified := by
  rcases step_cases hstep with ⟨svc, i, escapes, service, astray, hsvc, hi, hafter, rfl⟩ |
    ⟨hnone, w', hw', rfl⟩
  · obtain ⟨hclock, hreq⟩ := he i hi
    have hticked := h.afterTick hsvc hclock (hreq svc hsvc) escapes (hunspoiled i hi svc hsvc)
    rw [Journal.afterTick, (PriceService.tickWith_cases escapes svc j.world.stores i).1] at hticked
    rcases hafter with rfl | ⟨rfl, rfl⟩
    · exact hticked.stopped astray
    · exact hticked
  · exact (h.of_quiet hone hnone hw').2

/-- **`effective_at` identifies a price version exactly as long as no astray ticker is written
back.**  In a run with a strictly increasing clock, whatever fails, raises, crashes, restarts,
switches or expires, any two versions ever stored or delivered that name one ticker and carry one
stamp carry one price, if and only if no tick writes to the cache, at the price last published, a
ticker whose remembered stamp is that of another price that went out. -/
theorem one_price_iff {j₀ j : Journal P} (hinit : system.init j₀)
    (hrun : system.RunWhere Honest j₀ j) :
    OnePrice j.seen ↔ system.RunWhere (fun j e => Honest j e ∧ j.Unspoiled e) j₀ j := by
  obtain ⟨⟨hstopped, hlisted, hstamped⟩, hseen, hone, -⟩ := hinit
  refine hrun.good_iff (I := Identified) (G := fun j => OnePrice j.seen) ?_ hone ?_ ?_ ?_
  · refine ⟨World.wellFormed_of_stopped hstopped hlisted hstamped, hseen ▸ List.Subset.refl _,
      ?_, fun svc hsvc => ?_⟩
    · rintro ⟨t, stamp, p⟩ hv
      rw [hseen] at hv
      obtain ⟨id, -, ⟨r, hr, hstamp, -⟩ | ⟨c, hc, hstamp, -⟩⟩ := Stores.mem_versions.1 hv
      · exact ⟨r.effectiveAt, hstamped.row id r hr, hstamp.symm⟩
      · obtain ⟨since, hle, hsince⟩ := hstamped.cached t c hc
        exact ⟨since, hle, hstamp.symm.trans hsince⟩
    · rw [hstopped] at hsvc
      exact absurd hsvc (by simp)
  · exact fun j e j' he hcond h hone hstep => h.step hone he hcond hstep
  · exact fun j e j' he h hone hstep => onePrice_step_iff h hone he hstep
  · intro j e j' hstep hone
    obtain ⟨w', -, rfl⟩ := Option.map_eq_some_iff.1 hstep
    exact hone.subset fun v hv => List.mem_append_right _ (List.mem_append_right _ hv)

lemma versions_subset_seen {ok : Journal P → FaultEvent P → Prop} (h : system.ReachableWhere ok j) :
    j.world.stores.versions ⊆ j.seen := by
  refine h.invariant (I := fun j => j.world.stores.versions ⊆ j.seen) ?_ ?_
  · rintro j ⟨-, hseen, -⟩
    rw [hseen]
    exact List.Subset.refl _
  · intro j e j' _ _ hstep
    obtain ⟨w', -, rfl⟩ := Option.map_eq_some_iff.1 hstep
    exact List.subset_append_left _ _

/-! ## Ticks that no exception leaves -/

/-- A tick that reads prices the service asked for does not raise by itself. -/
lemma status_tick (hs : svc.Sound) (hi : svc.Requested i)
    (hx : (svc.inputAt i t).reading = some p) : (svc.tick stores i).status ≠ .raised := by
  obtain ⟨upstream, fetchedAt, stats, hup, hcases⟩ := PriceService.tick_cases svc stores i
  rcases hcases with ⟨hread, -⟩ | ⟨-, -, htick⟩ | ⟨hread, -, htick⟩
  · rw [PriceService.inputAt, hread] at hx
    exact absurd hx (by simp)
  · rw [htick]
    simp
  · have hids := PriceService.reading_requested hs hi hread
    have hids' : ∀ t ∈ upstream.keys, t ∈ (svc.afterRead upstream fetchedAt stats).tickerToId.keys :=
      hids
    obtain ⟨stats', heq⟩ := PriceService.applyPrices_eq stores i hids' hs.ids_injective
    rw [htick, heq]
    simp

/-- No exception leaves a tick. -/
def Silent (e : FaultEvent P) : Prop := ∀ i escapes, e = .tickWith i escapes → escapes = .none

/-- No ticker goes astray in a tick that no exception leaves. -/
lemma astray_of_silent (h : j.world.WellFormed) (hastray : ∀ t, j.astray t = false)
    (he : Honest j e) (hsilent : Silent e) (t : Ticker) : j.astrayAfter e t = false := by
  -- a tick that no exception leaves does not end as raised, so it leaves no ticker astray
  have htick : ∀ svc i, j.world.service = some svc → i ∈ World.tickOf e →
      svc.astrayAfter j.world.stores i .none j.astray t = false := by
    intro svc i hsvc hi
    have hr := h.running svc hsvc
    unfold PriceService.astrayAfter
    split
    · exact hastray t
    · rename_i p hx
      split
      · exact hastray t
      · rw [PriceService.tickWith_none,
          decide_eq_false (status_tick hr.sound ((he i hi).2 svc hsvc) hx), Bool.false_and]
  cases hsvc : j.world.service with
  | none =>
    cases e with
    | tickWith i escapes => simp only [Journal.astrayAfter, hsvc]
    | event e => cases e <;> simp [Journal.astrayAfter, hsvc, hastray]
  | some svc =>
    cases e with
    | tickWith i escapes =>
      obtain rfl := hsilent i escapes rfl
      simp only [Journal.astrayAfter, hsvc]
      exact htick svc i hsvc rfl
    | event e =>
      cases e with
      | tick i =>
        simp only [Journal.astrayAfter, hsvc]
        exact htick svc i hsvc rfl
      | crashTick i => rfl
      | start settings read => rfl
      | cutStart settings read cut => rfl
      | stop => rfl
      | expire key => exact hastray t

/-- **Failed writes alone never share a stamp between two prices.**  It takes an exception that
leaves a tick: in a run without one, whatever is lost, crashes, restarts, switches or expires, a
stamp identifies a price. -/
theorem one_price_of_silent {j₀ j : Journal P} (hinit : system.init j₀)
    (hrun : system.RunWhere (fun j e => Honest j e ∧ Silent e) j₀ j) : OnePrice j.seen := by
  have hall : j.world.WellFormed ∧ (∀ t, j.astray t = false) ∧
      system.RunWhere (fun j e => Honest j e ∧ j.Unspoiled e) j₀ j := by
    refine hrun.invariant (I := fun j => j.world.WellFormed ∧ (∀ t, j.astray t = false) ∧
      system.RunWhere (fun j e => Honest j e ∧ j.Unspoiled e) j₀ j) ?_ ?_
    · obtain ⟨⟨hstopped, hlisted, hstamped⟩, -, -, hastray⟩ := hinit
      exact ⟨World.wellFormed_of_stopped hstopped hlisted hstamped, hastray,
        System.RunWhere.refl j₀⟩
    · rintro j e j' ⟨he, hsilent⟩ ⟨hw, hastray, hreach⟩ hstep
      have hunspoiled : j.Unspoiled e := fun i _ svc _ t p _ _ hlost => by
        rw [hastray t] at hlost
        exact absurd hlost (by simp)
      refine ⟨?_, ?_, hreach.tail ⟨he, hunspoiled⟩ hstep⟩
      all_goals obtain ⟨w', hw', rfl⟩ := Option.map_eq_some_iff.1 hstep
      · exact hw.faultStep he.steady hw'
      · exact astray_of_silent hw hastray he hsilent
  exact (one_price_iff hinit (hrun.mono fun _ _ h => h.1)).2 hall.2.2

/-! ## A price that is written back -/

/-- Nothing stored and nothing seen. -/
def fresh : Journal ℕ := ⟨World.fresh, [], fun _ => false⟩

lemma init_fresh : system.init fresh :=
  ⟨World.init_fresh, rfl, fun _ hv => absurd hv List.not_mem_nil, fun _ => rfl⟩

/-- A tick with all writes done that an exception leaves while it publishes. -/
def publishRaises (n : Fin 1000) (price : ℕ) : FaultEvent ℕ :=
  .tickWith (PriceService.soloTick n price .ok .ok (.replied fun _ => false)) ⟨false, false, true⟩

/-- The first tick that an exception leaves identifies the price it stored. -/
theorem one_price_first_raise : ∃ j : Journal ℕ,
    system.execWhere (fun j e => Honest j e ∧ j.Unspoiled e) fresh
      [.event (.start PriceService.soloSettings PriceService.soloRead),
        publishRaises PriceService.firstReading 101] = some j ∧
    (∃ v ∈ j.seen, v.ticker = "AAPL" ∧ v.price = 101) ∧ OnePrice j.seen := by
  have hrun : ((system.execWhere (fun j e => Honest j e ∧ j.Unspoiled e) fresh
      [.event (.start PriceService.soloSettings PriceService.soloRead),
        publishRaises PriceService.firstReading 101]).map fun j =>
          decide (∃ v ∈ j.seen, v.ticker = "AAPL" ∧ v.price = 101)) = some true := by
    decide +kernel
  obtain ⟨j, hj, hseen⟩ := Option.map_eq_some_iff.1 hrun
  have hgood := System.runWhere_of_execWhere hj
  exact ⟨j, hj, of_decide_eq_true hseen,
    (one_price_iff init_fresh (hgood.mono fun _ _ h => h.1)).2 hgood⟩

/-- A tick at 101; a tick that moves the price to 102 and is left by an exception once everything is
written; a tick that reads 101 again. -/
def pricesBack : List (FaultEvent ℕ) :=
  [.event (.start PriceService.soloSettings PriceService.soloRead),
    .event (World.writtenTick PriceService.firstReading 101),
    publishRaises PriceService.secondReading 102,
    .event (World.writtenTick PriceService.thirdReading 101)]

/-- **One stamp, two prices.**  After `pricesBack` Redis holds 101 and `latest_prices` 102 under the
same `effective_at`. -/
theorem stamp_of_two_prices : ∃ (j : Journal ℕ) (c : CachedPrice ℕ) (row : LatestPrice ℕ),
    system.init fresh ∧ system.execWhere Honest fresh pricesBack = some j ∧
    j.world.stores.securities.Lists 1 "AAPL" ∧ j.world.stores.redis.cached "AAPL" = some c ∧
    Dict.get? j.world.stores.latestPrices 1 = some row ∧
    c.effectiveAt = toIso row.effectiveAt ∧ c.price = 101 ∧ row.price = 102 ∧
    ¬ OnePrice j.seen := by
  have hrun : ((system.execWhere Honest fresh pricesBack).bind fun j =>
      (j.world.stores.redis.cached "AAPL").bind fun c =>
        (Dict.get? j.world.stores.latestPrices 1).map fun row =>
          (c.price, row.price, decide (c.effectiveAt = toIso row.effectiveAt),
            (j.world.stores.securities.rows.get? 1).map Security.ticker)) =
      some (101, 102, true, some "AAPL") := by
    decide +kernel
  obtain ⟨j, hj, hrun⟩ := Option.bind_eq_some_iff.1 hrun
  obtain ⟨c, hc, hrun⟩ := Option.bind_eq_some_iff.1 hrun
  obtain ⟨row, hrow, hrun⟩ := Option.map_eq_some_iff.1 hrun
  simp only [Prod.mk.injEq, decide_eq_true_eq, Option.map_eq_some_iff] at hrun
  obtain ⟨hcached, hstored, hstamp, hlists⟩ := hrun
  refine ⟨j, c, row, init_fresh, hj, hlists, hc, hrow, hstamp, hcached, hstored, fun hone => ?_⟩
  have hcovered := versions_subset_seen ⟨fresh, init_fresh, System.runWhere_of_execWhere hj⟩
  have heq : c.price = row.price :=
    hone _ (hcovered (Stores.mem_versions.2 ⟨1, hlists, Or.inr ⟨c, hc, rfl, rfl⟩⟩)) _
      (hcovered (Stores.mem_versions.2 ⟨1, hlists, Or.inl ⟨row, hrow, rfl, rfl⟩⟩)) rfl hstamp
  rw [hcached, hstored] at heq
  exact absurd heq (by decide)

end Journal
end TickerWatch
