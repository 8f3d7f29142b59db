import TickerWatch.Watchlist.Handler

/-!
# The snapshot of a watchlist

What `SnapshotReader.read` returns for a list of pairs: the merge of the cache over the table, how
many of the pairs each of the two was asked for, and what `WatchlistView` shows of it.

The read keys what it finds by security.  Its counts are counts of pairs as long as no security is
asked for under two tickers, which no watchlist does.
-/

namespace TickerWatch

universe u

namespace SnapshotReader

variable {P : Type u} {r : Redis P} {tbl : LatestPrices P} {securities : List (SecurityId × Ticker)}
  {id : SecurityId} {t : Ticker}

lemma functional_of_nodup (hids : (securities.map Prod.fst).Nodup)
    (htickers : (securities.map Prod.snd).Nodup) : Functional securities := by
  intro p hp q hq
  constructor
  · intro heq
    rw [List.inj_on_of_nodup_map hids hp hq heq]
  · intro heq
    rw [List.inj_on_of_nodup_map htickers hp hq heq]

/-- The cache hits of a read are what its first pass found. -/
lemma cacheHits_cachePass (setting : LatestPriceSource) (reachable : Bool)
    (securities : List (SecurityId × Ticker)) :
    (if setting = .redis then fromCache r reachable securities ⟨Dict.empty, 0, setting.text⟩
      else ⟨Dict.empty, 0, setting.text⟩ : Progress P).cacheHits =
    (if setting = .redis then fromCache r reachable securities ⟨Dict.empty, 0, setting.text⟩
      else ⟨Dict.empty, 0, setting.text⟩ : Progress P).found.size := by
  split
  · unfold fromCache
    cases reachable <;> rfl
  · rfl

/-- **Hits and misses are counted per pair.** -/
theorem cacheHits_add_cacheMisses (setting : LatestPriceSource) (reachable : Bool)
    (hids : (securities.map Prod.fst).Nodup) (htickers : (securities.map Prod.snd).Nodup) :
    (read setting r reachable tbl securities).cacheHits +
      (read setting r reachable tbl securities).cacheMisses = securities.length := by
  unfold read
  by_cases hnil : securities = []
  · rw [if_pos hnil, hnil]
    rfl
  rw [if_neg hnil]
  have hhits := cacheHits_cachePass (r := r) setting reachable securities
  have hfound := get?_cachePass (r := r) setting reachable (functional_of_nodup hids htickers)
  dsimp only
  revert hhits hfound
  generalize (if setting = .redis then fromCache r reachable securities
    ⟨Dict.empty, 0, setting.text⟩ else ⟨Dict.empty, 0, setting.text⟩ : Progress P) = s
  intro hhits hfound
  have hsub : ∀ id ∈ s.found.keys, id ∈ securities.map Prod.fst := by
    intro id hid
    obtain ⟨p, hp⟩ := Dict.mem_keys_iff.1 hid
    obtain ⟨-, t, -, hmem, -⟩ := (hfound id p).1 hp
    exact List.mem_map_of_mem hmem
  have hcount := Dict.size_add_length_filter hids hsub
  rw [List.length_map] at hcount
  -- the second pass leaves the hits alone
  have hkept : (if (securities.map Prod.fst).filter (fun sid => !s.found.contains sid) = [] then s
      else fromDatabase tbl ((securities.map Prod.fst).filter fun sid => !s.found.contains sid)
        s).cacheHits = s.cacheHits := by
    split <;> rfl
  rw [hkept, hhits]
  exact hcount

/-- What a read returns for a pair that was asked for. -/
lemma get?_read_of_mem (setting : LatestPriceSource) (reachable : Bool)
    (hfun : Functional securities) (h : (id, t) ∈ securities) :
    (read setting r reachable tbl securities).prices.get? id =
      answer setting r reachable tbl id t := by
  apply Option.ext
  intro p
  rw [get?_read setting reachable hfun]
  constructor
  · rintro ⟨t', h', hp⟩
    obtain rfl : t = t' := (hfun _ h _ h').1 rfl
    exact hp
  · exact fun hp => ⟨t, h, hp⟩

/-- The answer for a pair names its security. -/
lemma securityId_of_answer {setting : LatestPriceSource} {reachable : Bool} {p : Price P}
    (h : answer setting r reachable tbl id t = some p) : p.securityId = id := by
  have hrow : ∀ {q}, (tbl.get? id).map (fun row => row.toPrice id) = some q →
      q.securityId = id := by
    intro q hq
    obtain ⟨row, -, rfl⟩ := Option.map_eq_some_iff.1 hq
    rfl
  unfold answer at h
  split at h
  · cases hc : r.cached t with
    | some c =>
      rw [hc] at h
      obtain rfl : c.toPrice id = p := by simpa using h
      rfl
    | none =>
      rw [hc, Option.map_none, Option.none_or] at h
      exact hrow h
  · exact hrow h

/-- There is no answer for a pair exactly if no store the read may look at has a price. -/
lemma answer_eq_none_iff {setting : LatestPriceSource} {reachable : Bool} :
    answer setting r reachable tbl id t = none ↔
      (UsesCache setting reachable → r.cached t = none) ∧ tbl.get? id = none := by
  unfold answer
  split
  next huse => simp [huse]
  next huse => simp [huse]

/-- **A snapshot read is the merge of cache over table.**  Over distinct securities with distinct
tickers it answers every pair from the cache, if it may use it and finds the ticker there, else from
the table; it answers nothing else, under the key it answers for; hits and misses make up the pairs;
and the watchlist shows a dash only for what neither store it may read has. -/
theorem read_merge (setting : LatestPriceSource) (r : Redis P) (reachable : Bool)
    (tbl : LatestPrices P) (securities : List (SecurityId × Ticker))
    (hids : (securities.map Prod.fst).Nodup) (htickers : (securities.map Prod.snd).Nodup) :
    (∀ id t, (id, t) ∈ securities → (read setting r reachable tbl securities).prices.get? id =
      answer setting r reachable tbl id t) ∧
    (∀ id ∈ (read setting r reachable tbl securities).prices.keys,
      id ∈ securities.map Prod.fst) ∧
    (∀ id p, (read setting r reachable tbl securities).prices.get? id = some p →
      p.securityId = id) ∧
    (read setting r reachable tbl securities).cacheHits +
      (read setting r reachable tbl securities).cacheMisses = securities.length ∧
    ∀ (members : List MemberRow) (asOf : String),
      members.map (fun row => (row.id, row.ticker)) = securities →
      ∀ item ∈ (Watchlist.build members (read setting r reachable tbl securities) asOf).items,
        item.price = none ↔
          (UsesCache setting reachable → r.cached item.ticker = none) ∧ tbl.get? item.id = none := by
  have hfun := functional_of_nodup hids htickers
  -- what is found is the answer to an id that was asked for, and nothing else
  have hget : ∀ id p, (read setting r reachable tbl securities).prices.get? id = some p ↔
      ∃ t, (id, t) ∈ securities ∧ answer setting r reachable tbl id t = some p :=
    get?_read setting reachable hfun
  refine ⟨fun id t h => get?_read_of_mem setting reachable hfun h, fun id hid => ?_,
    fun id p hp => ?_, cacheHits_add_cacheMisses setting reachable hids htickers, ?_⟩
  · obtain ⟨p, hp⟩ := Dict.mem_keys_iff.1 hid
    obtain ⟨t, hmem, -⟩ := (hget id p).1 hp
    exact List.mem_map_of_mem hmem
  · obtain ⟨t, -, hans⟩ := (hget id p).1 hp
    exact securityId_of_answer hans
  -- an item is null if neither store has its price
  · rintro members asOf rfl item hitem
    obtain ⟨row, hrow, rfl⟩ := List.mem_map.1 hitem
    have hmem : (row.id, row.ticker) ∈ members.map fun row => (row.id, row.ticker) :=
      List.mem_map_of_mem hrow
    show Option.map Price.price _ = none ↔ _
    rw [get?_read_of_mem setting reachable hfun hmem, Option.map_eq_none_iff, answer_eq_none_iff]
    rfl

/-! ## One security under two tickers -/

/-- Two tickers cached, as the guarded writer leaves them. -/
def twoCached : Redis ℕ :=
  (Redis.setPricesIfNewer Dict.empty
    [("A", ⟨1, 10, "2026-09-21T12:00:00.000000Z", some "api"⟩, "2026-09-21T12:00:00.000000Z"),
     ("B", ⟨2, 20, "2026-09-21T12:00:00.000000Z", some "api"⟩, "2026-09-21T12:00:00.000000Z")]
    60).1

/-- **Two pairs of one security are counted as one hit.** -/
theorem hits_of_one_security : ¬ ∀ (setting : LatestPriceSource) (r : Redis ℕ) (reachable : Bool)
    (tbl : LatestPrices ℕ) (securities : List (SecurityId × Ticker)), securities.Nodup →
    (securities.map Prod.snd).Nodup →
    (read setting r reachable tbl securities).cacheHits +
      (read setting r reachable tbl securities).cacheMisses = securities.length := by
  intro h
  have hcount := h .redis twoCached true .empty [(1, "A"), (1, "B")] (by decide) (by decide)
  exact absurd hcount (by decide +kernel)

/-- One row. -/
def oneRow : LatestPrices ℕ := ⟨[(5, ⟨50, .first, "api"⟩)], by decide⟩

/-- A hit, a miss with a row and a miss without one: the cached price, the row's, and none. -/
theorem read_merge_partial_hit :
    (read .redis twoCached true oneRow [(1, "A"), (5, "E"), (6, "F")]).prices.get? 1 =
      some ⟨1, 10, "2026-09-21T12:00:00.000000Z", "api"⟩ ∧
    (read .redis twoCached true oneRow [(1, "A"), (5, "E"), (6, "F")]).prices.get? 5 =
      some ⟨5, 50, toIso .first, "api"⟩ ∧
    (read .redis twoCached true oneRow [(1, "A"), (5, "E"), (6, "F")]).prices.get? 6 = none ∧
    (read .redis twoCached true oneRow [(1, "A"), (5, "E"), (6, "F")]).cacheHits +
      (read .redis twoCached true oneRow [(1, "A"), (5, "E"), (6, "F")]).cacheMisses = 3 := by
  obtain ⟨hanswer, -, -, hcount, -⟩ := read_merge .redis twoCached true oneRow
    [(1, "A"), (5, "E"), (6, "F")] (by decide) (by decide)
  refine ⟨?_, ?_, ?_, hcount⟩
  · exact (hanswer 1 "A" (by decide)).trans (by decide +kernel)
  · exact (hanswer 5 "E" (by decide)).trans (by decide +kernel)
  · exact (hanswer 6 "F" (by decide)).trans (by decide +kernel)

end SnapshotReader
end TickerWatch
