import TickerWatch.Prices.Controller
import TickerWatch.Shared.Cache

/-!
# The snapshot read path

`prices_handler.py`: the read of one watchlist, Redis first and `latest_prices` behind it, and the
reconciliation of the stored rows with the source about to write.

`SnapshotReader.get?_read` says what a snapshot holds for every requested security.  It needs only
that the request is functional, ids and tickers naming each other, which every list of catalog
pairs is.
-/

namespace TickerWatch

universe u

/-- `settings.latest_price_source`. -/
inductive LatestPriceSource
  | redis
  | postgres
  deriving DecidableEq, Repr

/-- The setting as text. -/
def LatestPriceSource.text : LatestPriceSource → String
  | .redis => "redis"
  | .postgres => "postgres"

/-- `settings.price_source`. -/
inductive PriceSource
  | api
  | simulated
  deriving DecidableEq, Repr

/-- The `name` of the source, which is also the setting as text. -/
def PriceSource.name : PriceSource → String
  | .api => "api"
  | .simulated => "simulated"

/-- One price of a snapshot. -/
structure Price (P : Type u) where
  securityId : SecurityId
  price : P
  effectiveAt : String
  source : String
  deriving DecidableEq

/-- What a read returned, and how it was served: how many securities the cache had, how many were
asked of the table, and the setting or the note that the metrics label the read with. -/
structure PriceSnapshot (P : Type u) where
  prices : Dict SecurityId (Price P)
  cacheHits : ℕ
  cacheMisses : ℕ
  readPath : String

section

variable {P : Type u}

/-- The price a cached payload becomes under the security that asked for it. -/
def CachedPrice.toPrice (c : CachedPrice P) (id : SecurityId) : Price P :=
  ⟨id, c.price, c.effectiveAt, c.source.getD "unknown"⟩

/-- The price a `latest_prices` row becomes. -/
def LatestPrice.toPrice (r : LatestPrice P) (id : SecurityId) : Price P :=
  ⟨id, r.price, toIso r.effectiveAt, r.source⟩

namespace SnapshotReader

/-- The state of a read: what was found, how many of it in the cache, and the path taken. -/
structure Progress (P : Type u) where
  found : Dict SecurityId (Price P)
  cacheHits : ℕ
  readPath : String

/-- `_from_cache`.  A cache that cannot be reached leaves a note in the read path. -/
def fromCache (r : Redis P) (reachable : Bool) (securities : List (SecurityId × Ticker))
    (s : Progress P) : Progress P :=
  let byTicker : Dict Ticker SecurityId := Dict.ofList (securities.map Prod.swap)
  if reachable then
    let cached := r.getPrices byTicker.keys
    let found := s.found.setAll <| cached.entries.filterMap fun e =>
      (byTicker.get? e.1).map fun sid => (sid, e.2.toPrice sid)
    { s with found := found, cacheHits := found.size }
  else { s with readPath := "postgres (redis unavailable)" }

/-- `_from_database`. -/
def fromDatabase (tbl : LatestPrices P) (ids : List SecurityId) (s : Progress P) : Progress P :=
  { s with found := s.found.setAll <| (tbl.getMany ids).map fun e => (e.1, e.2.toPrice e.1) }

/-- `SnapshotReader.read`. -/
def read (setting : LatestPriceSource) (r : Redis P) (reachable : Bool) (tbl : LatestPrices P)
    (securities : List (SecurityId × Ticker)) : PriceSnapshot P :=
  let s₀ : Progress P := ⟨Dict.empty, 0, setting.text⟩
  if securities = [] then ⟨s₀.found, 0, 0, s₀.readPath⟩
  else
    let s₁ := if setting = .redis then fromCache r reachable securities s₀ else s₀
    let missing := (securities.map Prod.fst).filter fun sid => !s₁.found.contains sid
    let s₂ := if missing = [] then s₁ else fromDatabase tbl missing s₁
    ⟨s₂.found, s₂.cacheHits, missing.length, s₂.readPath⟩

/-- Ids and tickers of a request name each other. -/
def Functional (securities : List (SecurityId × Ticker)) : Prop :=
  ∀ p ∈ securities, ∀ q ∈ securities, p.1 = q.1 ↔ p.2 = q.2

/-- Whether a read looks at the cache. -/
def UsesCache (setting : LatestPriceSource) (reachable : Bool) : Prop :=
  setting = .redis ∧ reachable = true

instance (setting : LatestPriceSource) (reachable : Bool) :
    Decidable (UsesCache setting reachable) := inferInstanceAs (Decidable (_ ∧ _))

/-- What a read should return for one requested pair. -/
def answer (setting : LatestPriceSource) (r : Redis P) (reachable : Bool) (tbl : LatestPrices P)
    (id : SecurityId) (t : Ticker) : Option (Price P) :=
  if UsesCache setting reachable then
    ((r.cached t).map fun c => c.toPrice id).or ((tbl.get? id).map fun row => row.toPrice id)
  else (tbl.get? id).map fun row => row.toPrice id

variable {r : Redis P} {tbl : LatestPrices P} {securities : List (SecurityId × Ticker)}
  {id : SecurityId} {t : Ticker}

lemma functional_of_lists {c : Catalog} (h : ∀ p ∈ securities, c.Lists p.1 p.2) :
    Functional securities := by
  intro p hp q hq
  constructor
  · intro heq
    exact (h p hp).ticker_unique (heq ▸ h q hq)
  · intro heq
    exact (h p hp).id_unique (heq ▸ h q hq)

lemma get?_byTicker (hfun : Functional securities) (h : (id, t) ∈ securities) :
    (Dict.ofList (securities.map Prod.swap)).get? t = some id := by
  apply Dict.get?_ofList_of_unique
  · exact List.mem_map.2 ⟨(id, t), h, rfl⟩
  · intro id' h'
    obtain ⟨⟨i, t'⟩, hmem, heq⟩ := List.mem_map.1 h'
    obtain ⟨rfl, rfl⟩ := Prod.mk.inj heq
    exact (hfun _ hmem _ h).2 rfl

lemma get?_byTicker_some (h : (Dict.ofList (securities.map Prod.swap)).get? t = some id)
    (hfun : Functional securities) : (id, t) ∈ securities := by
  have hmem : t ∈ (securities.map Prod.swap).map Prod.fst := by
    by_contra hnot
    rw [Dict.get?_ofList_of_notMem hnot] at h
    exact absurd h (by simp)
  obtain ⟨_, hswap, rfl⟩ := List.mem_map.1 hmem
  obtain ⟨⟨i, t'⟩, hin, rfl⟩ := List.mem_map.1 hswap
  have hget := get?_byTicker hfun hin
  obtain rfl := Option.some.inj (h.symm.trans hget)
  exact hin

lemma get?_fromCache (hfun : Functional securities) (s : Progress P) (hs : s.found = Dict.empty)
    (id : SecurityId) (p : Price P) :
    (fromCache r true securities s).found.get? id = some p ↔
      ∃ t c, (id, t) ∈ securities ∧ r.cached t = some c ∧ c.toPrice id = p := by
  unfold fromCache
  simp only [if_true, hs]
  generalize hby : Dict.ofList (securities.map Prod.swap) = byTicker
  -- `by_ticker` is the inverse of the pairs, which name each other
  have hget : ∀ t id, byTicker.get? t = some id ↔ (id, t) ∈ securities := by
    intro t id
    rw [← hby]
    exact ⟨fun h => get?_byTicker_some h hfun, get?_byTicker hfun⟩
  have hpairs : ∀ id p, (id, p) ∈ ((r.getPrices byTicker.keys).entries.filterMap fun e =>
      (byTicker.get? e.1).map fun sid => (sid, e.2.toPrice sid)) ↔
      ∃ t c, (id, t) ∈ securities ∧ r.cached t = some c ∧ c.toPrice id = p := by
    intro id p
    simp only [List.mem_filterMap, Option.map_eq_some_iff, Prod.exists, Prod.mk.injEq,
      ← Dict.get?_eq_some_iff, Redis.get?_getPrices]
    constructor
    · rintro ⟨t, c, hc, id', hid, rfl, rfl⟩
      rw [if_pos (Dict.mem_keys_iff.2 ⟨id', hid⟩)] at hc
      exact ⟨t, c, (hget t id').1 hid, hc, rfl⟩
    · rintro ⟨t, c, hin, hc, rfl⟩
      have hid := (hget t id).2 hin
      exact ⟨t, c, by rw [if_pos (Dict.mem_keys_iff.2 ⟨id, hid⟩), hc], id, hid, rfl, rfl⟩
  -- so a security has one entry at most
  have huniq : ∀ p p', (∃ t c, (id, t) ∈ securities ∧ r.cached t = some c ∧ c.toPrice id = p) →
      (∃ t c, (id, t) ∈ securities ∧ r.cached t = some c ∧ c.toPrice id = p') → p = p' := by
    rintro p p' ⟨t, c, hin, hc, rfl⟩ ⟨t', c', hin', hc', rfl⟩
    obtain rfl : t = t' := (hfun _ hin _ hin').1 rfl
    rw [Option.some.inj (hc.symm.trans hc')]
  constructor
  · intro h
    rw [← hpairs]
    by_contra hnot
    by_cases hex : ∃ p', (id, p') ∈ ((r.getPrices byTicker.keys).entries.filterMap fun e =>
        (byTicker.get? e.1).map fun sid => (sid, e.2.toPrice sid))
    · obtain ⟨p', hp'⟩ := hex
      have h' := Dict.get?_setAll_of_unique Dict.empty _ hp' fun q hq =>
        huniq q p' ((hpairs _ _).1 hq) ((hpairs _ _).1 hp')
      rw [h] at h'
      exact hnot (Option.some.inj h' ▸ hp')
    · rw [Dict.get?_setAll_of_notMem] at h
      · exact absurd h (by simp)
      · intro hmem
        obtain ⟨⟨i, q⟩, hq, rfl⟩ := List.mem_map.1 hmem
        exact hex ⟨q, hq⟩
  · intro h
    exact Dict.get?_setAll_of_unique _ _ ((hpairs _ _).2 h) fun q hq =>
      huniq q p ((hpairs _ _).1 hq) h

/-- What the database pass adds: the rows of the ids asked for. -/
lemma get?_fromDatabase (ids : List SecurityId) (s : Progress P) (id : SecurityId) :
    (fromDatabase tbl ids s).found.get? id =
      if id ∈ ids then ((tbl.get? id).map fun row => row.toPrice id).or (s.found.get? id)
      else s.found.get? id := by
  unfold fromDatabase
  have hkeys : ∀ {q}, (id, q) ∈ (tbl.getMany ids).map (fun e => (e.1, e.2.toPrice e.1)) →
      ∃ row, tbl.get? id = some row ∧ id ∈ ids ∧ row.toPrice id = q := by
    intro q hq
    obtain ⟨⟨i, row⟩, hmem, heq⟩ := List.mem_map.1 hq
    obtain ⟨rfl, rfl⟩ := Prod.mk.inj heq
    obtain ⟨hrow, hin⟩ := LatestPrices.mem_getMany.1 hmem
    exact ⟨row, hrow, hin, rfl⟩
  -- what is not asked for, or has no row, stays as the cache pass left it
  have hskip : (id ∉ ids ∨ tbl.get? id = none) →
      (s.found.setAll ((tbl.getMany ids).map fun e => (e.1, e.2.toPrice e.1))).get? id =
        s.found.get? id := by
    intro h
    apply Dict.get?_setAll_of_notMem
    intro hmem
    obtain ⟨⟨i, q⟩, hq, rfl⟩ := List.mem_map.1 hmem
    obtain ⟨row, hrow, hin, -⟩ := hkeys hq
    rcases h with h | h
    · exact h hin
    · rw [h] at hrow
      exact absurd hrow (by simp)
  by_cases hin : id ∈ ids
  · rw [if_pos hin]
    cases hrow : tbl.get? id with
    | none => exact hskip (Or.inr hrow)
    | some row =>
      apply Dict.get?_setAll_of_unique
      · exact List.mem_map.2 ⟨(id, row), LatestPrices.mem_getMany.2 ⟨hrow, hin⟩, rfl⟩
      · intro q hq
        obtain ⟨row', hrow', -, rfl⟩ := hkeys hq
        rw [Option.some.inj (hrow'.symm.trans hrow)]
  · rw [if_neg hin]
    exact hskip (Or.inl hin)

/-- What the first pass of a read finds, whether or not it looks at the cache. -/
lemma get?_cachePass (setting : LatestPriceSource) (reachable : Bool)
    (hfun : Functional securities) (id : SecurityId) (p : Price P) :
    (if setting = .redis then fromCache r reachable securities ⟨Dict.empty, 0, setting.text⟩
      else ⟨Dict.empty, 0, setting.text⟩ : Progress P).found.get? id = some p ↔
      UsesCache setting reachable ∧
        ∃ t c, (id, t) ∈ securities ∧ r.cached t = some c ∧ c.toPrice id = p := by
  by_cases hset : setting = .redis
  · rw [if_pos hset]
    cases reachable with
    | true => simp [get?_fromCache hfun, UsesCache, hset]
    | false => simp [fromCache, UsesCache]
  · simp [UsesCache, hset]

/-- What the second pass leaves: what was found, and the rows of the requested ids that were not. -/
lemma get?_missingPass (s : Progress P) (id : SecurityId) (p : Price P) :
    (if (securities.map Prod.fst).filter (fun sid => !s.found.contains sid) = [] then s
      else fromDatabase tbl ((securities.map Prod.fst).filter fun sid => !s.found.contains sid)
        s).found.get? id = some p ↔
      s.found.get? id = some p ∨ (s.found.get? id = none ∧ (∃ t, (id, t) ∈ securities) ∧
        (tbl.get? id).map (fun row => row.toPrice id) = some p) := by
  have hmem : id ∈ (securities.map Prod.fst).filter (fun sid => !s.found.contains sid) ↔
      s.found.get? id = none ∧ ∃ t, (id, t) ∈ securities := by
    rw [List.mem_filter, Bool.not_eq_true', Dict.contains_eq_false_iff]
    simp [and_comm]
  split
  · rename_i hempty
    have hnot : ¬ (s.found.get? id = none ∧ ∃ t, (id, t) ∈ securities) := by
      rw [← hmem, hempty]
      exact List.not_mem_nil
    grind
  · rw [get?_fromDatabase]
    split
    · rename_i hin
      obtain ⟨hnone, hex⟩ := hmem.1 hin
      simp [hnone, hex]
    · rename_i hout
      rw [hmem] at hout
      grind

/-- **A snapshot is the merge of cache over table.**  A requested security gets its cached price
when the read uses the cache and finds one, else its row; nothing else is in the snapshot. -/
theorem get?_read (setting : LatestPriceSource) (reachable : Bool)
    (hfun : Functional securities) (id : SecurityId) (p : Price P) :
    (read setting r reachable tbl securities).prices.get? id = some p ↔
      ∃ t, (id, t) ∈ securities ∧ answer setting r reachable tbl id t = some p := by
  unfold read
  by_cases hnil : securities = []
  · simp [hnil]
  rw [if_neg hnil]
  have hcache := fun q => get?_cachePass (r := r) setting reachable hfun id q
  dsimp only
  rw [get?_missingPass]
  revert hcache
  generalize (if setting = .redis then fromCache r reachable securities
    ⟨Dict.empty, 0, setting.text⟩ else ⟨Dict.empty, 0, setting.text⟩ : Progress P) = s₁
  intro hcache
  unfold answer
  -- the cache pass finds what it holds, and the missing pass asks for the rest
  by_cases huse : UsesCache setting reachable
  · rw [hcache]
    simp only [huse, true_and, if_true]
    constructor
    · rintro (⟨t, c, ht, hc, rfl⟩ | ⟨hnone, ⟨t, ht⟩, hrow⟩)
      · exact ⟨t, ht, by simp [hc]⟩
      · have hmiss : r.cached t = none := by
          by_contra hsome
          obtain ⟨c, hc⟩ := Option.ne_none_iff_exists'.1 hsome
          rw [(hcache (c.toPrice id)).2 ⟨huse, t, c, ht, hc, rfl⟩] at hnone
          exact absurd hnone (by simp)
        exact ⟨t, ht, by rw [hmiss, Option.map_none, Option.none_or, hrow]⟩
    · rintro ⟨t, ht, hans⟩
      cases hc : r.cached t with
      | some c =>
        rw [hc] at hans
        exact Or.inl ⟨t, c, ht, hc, by simpa using hans⟩
      | none =>
        rw [hc, Option.map_none, Option.none_or] at hans
        refine Or.inr ⟨?_, ⟨t, ht⟩, hans⟩
        rw [Option.eq_none_iff_forall_ne_some]
        intro q hq
        obtain ⟨-, t', c, ht', hc', -⟩ := (hcache q).1 hq
        obtain rfl : t = t' := (hfun _ ht _ ht').1 rfl
        rw [hc] at hc'
        exact absurd hc' (by simp)
  · simp only [huse, if_false]
    -- without the cache everything is missing
    have hnone : s₁.found.get? id = none := by
      rw [Option.eq_none_iff_forall_ne_some]
      intro q hq
      exact huse ((hcache q).1 hq).1
    simp [hnone]

end SnapshotReader

/-! ## Reconciliation -/

/-- The three things a start can do to the stored rows. -/
inductive ReconcileAction
  | clean
  | wipedSimulated
  | adoptedApi
  deriving DecidableEq, Repr

/-- What starting a price source against the existing rows had to do. -/
structure SourceReconciliation where
  action : ReconcileAction
  rows : ℕ
  deriving DecidableEq, Repr

/-- `reconcile_source`. -/
def reconcileSource (tbl : LatestPrices P) (configured : PriceSource) :
    LatestPrices P × SourceReconciliation :=
  let foreign := tbl.distinctSources.filter fun source => decide (source ≠ configured.name)
  if foreign = [] then (tbl, ⟨.clean, 0⟩)
  else if configured = .api then
    let out := tbl.deleteBySource "simulated"
    (out.1, ⟨.wipedSimulated, out.2⟩)
  else
    let out := tbl.relabelSource "api" "simulated"
    (out.1, ⟨.adoptedApi, out.2⟩)

/-- Every stored source is one of the two a price service can run with. -/
def LatestPrices.SourcesKnown (tbl : LatestPrices P) : Prop :=
  ∀ id row, tbl.get? id = some row → row.source = "api" ∨ row.source = "simulated"

/-- Every row carries the configured source. -/
def LatestPrices.SourcesAre (tbl : LatestPrices P) (configured : PriceSource) : Prop :=
  ∀ id row, tbl.get? id = some row → row.source = configured.name

/-- A reconciliation leaves only rows of the configured source. -/
lemma reconcileSource_sourcesAre {tbl : LatestPrices P} (h : tbl.SourcesKnown)
    (configured : PriceSource) : (reconcileSource tbl configured).1.SourcesAre configured := by
  intro id row hrow
  unfold reconcileSource at hrow
  simp only at hrow
  split at hrow
  · rename_i hforeign
    by_contra hne
    have hmem : row.source ∈ tbl.distinctSources :=
      LatestPrices.mem_distinctSources.2 ⟨id, row, hrow, rfl⟩
    have := List.filter_eq_nil_iff.1 hforeign _ hmem
    simp [hne] at this
  · split at hrow
    · rename_i hapi
      rw [LatestPrices.get?_deleteBySource, Option.filter_eq_some_iff] at hrow
      obtain ⟨hrow, hne⟩ := hrow
      subst hapi
      exact (h id row hrow).resolve_right (by simpa using hne)
    · rename_i hapi
      rw [LatestPrices.get?_relabelSource, Option.map_eq_some_iff] at hrow
      obtain ⟨row', hrow', rfl⟩ := hrow
      have hsim : configured = .simulated := by
        cases configured with
        | api => exact absurd rfl hapi
        | simulated => rfl
      subst hsim
      rcases h id row' hrow' with hs | hs <;> simp [hs, PriceSource.name]

end

end TickerWatch
