import TickerWatch.PriceService.Startup

/-!
# The vendor's listings

The vendor answers 400 for a whole request when one ticker in it is unknown, so the api source asks
for the rows that are not flagged synthetic.  What that is depends on three things: the upsert of
`_sync_catalog`, which changes names only, the flag, which the seeding tool sets, and the rows that
are already there.  `flag_upsertMany` says what the upsert makes of a ticker's flag.
-/

namespace TickerWatch

universe u

namespace Catalog

/-- The flag of a ticker; `none` when the table does not have it. -/
def flag (c : Catalog) (t : Ticker) : Option Bool :=
  (c.findTicker t).map fun e => e.2.isSynthetic

/-- The rows that are not flagged are the rows of the vendor's listings. -/
def FlagsMatch (c : Catalog) (listings : List Ticker) : Prop :=
  ∀ id row, c.rows.get? id = some row → (row.isSynthetic = false ↔ row.ticker ∈ listings)

variable {c : Catalog} {id : SecurityId} {t : Ticker} {row : Security} {b : Bool}

lemma findTicker_eq_some_iff :
    c.findTicker t = some (id, row) ↔ c.rows.get? id = some row ∧ row.ticker = t := by
  refine ⟨findTicker_some, fun ⟨hrow, ht⟩ => ?_⟩
  cases hfind : c.findTicker t with
  | none => exact absurd ⟨row, hrow, ht⟩ (findTicker_none hfind)
  | some e =>
    obtain ⟨id', row'⟩ := e
    obtain ⟨hrow', ht'⟩ := findTicker_some hfind
    obtain rfl := c.ticker_unique id' id row' row hrow' hrow (ht'.trans ht.symm)
    rw [Option.some.inj (hrow'.symm.trans hrow)]

lemma flag_eq_some_iff :
    c.flag t = some b ↔ ∃ id row, c.rows.get? id = some row ∧ row.ticker = t ∧
      row.isSynthetic = b := by
  rw [flag, Option.map_eq_some_iff]
  constructor
  · rintro ⟨⟨id, row⟩, hfind, hb⟩
    obtain ⟨hrow, ht⟩ := findTicker_some hfind
    exact ⟨id, row, hrow, ht, hb⟩
  · rintro ⟨id, row, hrow, ht, hb⟩
    exact ⟨(id, row), findTicker_eq_some_iff.2 ⟨hrow, ht⟩, hb⟩

/-- The flag under a ticker is that of any row with it. -/
lemma flag_of_get? (h : c.rows.get? id = some row) : c.flag row.ticker = some row.isSynthetic :=
  flag_eq_some_iff.2 ⟨id, row, h, rfl, rfl⟩

/-- An upsert inserts a ticker unflagged and never changes a flag. -/
lemma flag_upsert (c : Catalog) (t : Ticker) (name : String) (t' : Ticker) :
    (c.upsert t name).flag t' = if t' = t then some ((c.flag t).getD false) else c.flag t' := by
  have hrows : ∃ id row, (c.upsert t name).rows = c.rows.set id row ∧ row.ticker = t ∧
      row.isSynthetic = (c.flag t).getD false ∧
      ∀ old, c.rows.get? id = some old → old.ticker = t := by
    unfold upsert
    split
    · rename_i id row hfind
      obtain ⟨hrow, ht⟩ := findTicker_some hfind
      refine ⟨id, _, rfl, ht, ?_, fun old hold => ?_⟩
      · rw [flag, hfind]
        rfl
      · rwa [Option.some.inj (hold.symm.trans hrow)]
    · rename_i hfind
      refine ⟨c.nextId, _, rfl, rfl, ?_, fun old hold => ?_⟩
      · rw [flag, hfind]
        rfl
      · exact absurd (c.id_lt _ _ hold) (lt_irrefl _)
  obtain ⟨id, row, hset, hticker, hflag, hold⟩ := hrows
  split
  · rename_i heq
    subst heq
    rw [← hflag, flag_eq_some_iff]
    exact ⟨id, row, by rw [hset, Dict.get?_set_self], hticker, rfl⟩
  · rename_i hne
    -- the row that was written belongs to another ticker, before and after
    ext b
    rw [flag_eq_some_iff, flag_eq_some_iff, hset]
    constructor
    · rintro ⟨id', row', hrow', rfl, hb⟩
      by_cases hid : id' = id
      · rw [hid, Dict.get?_set_self] at hrow'
        obtain rfl := Option.some.inj hrow'
        exact absurd hticker hne
      · rw [Dict.get?_set_ne _ _ hid] at hrow'
        exact ⟨id', row', hrow', rfl, hb⟩
    · rintro ⟨id', row', hrow', rfl, hb⟩
      have hid : id' ≠ id := fun heq => hne (hold row' (heq ▸ hrow'))
      exact ⟨id', row', by rw [Dict.get?_set_ne _ _ hid, hrow'], rfl, hb⟩

/-- What the upsert of a whole catalog makes of the flags. -/
theorem flag_upsertMany (c : Catalog) (rows : List (Ticker × String)) (t : Ticker) :
    (c.upsertMany rows).flag t =
      if t ∈ rows.map Prod.fst then some ((c.flag t).getD false) else c.flag t := by
  induction rows generalizing c with
  | nil => rfl
  | cons r rows ih =>
    have hcons : c.upsertMany (r :: rows) = (c.upsert r.1 r.2).upsertMany rows := rfl
    rw [hcons, ih, flag_upsert, List.map_cons]
    by_cases ht : t = r.1
    · subst ht
      simp
    · rw [if_neg ht]
      exact if_congr (by simp only [List.mem_cons, ht, false_or]) rfl rfl

/-- The tickers that are priced are those that are not flagged. -/
lemma mem_tickers_iff : (∃ id, (id, t) ∈ c.allTickers false) ↔ c.flag t = some false := by
  rw [flag_eq_some_iff]
  simp only [allTickers, List.mem_map, List.mem_filter]
  constructor
  · rintro ⟨id, ⟨id', row⟩, ⟨hmem, hflag⟩, heq⟩
    obtain ⟨rfl, rfl⟩ := Prod.mk.injEq .. ▸ heq
    exact ⟨id', row, Dict.get?_eq_some_iff.2 hmem, rfl, by simpa using hflag⟩
  · rintro ⟨id, row, hrow, rfl, hflag⟩
    exact ⟨id, (id, row), ⟨Dict.get?_eq_some_iff.1 hrow, by simp [hflag]⟩, rfl⟩

end Catalog

/-- `VendorMock.prices`: the reply, `null` for what the price book does not have, or `none` for the
400 that answers the whole request. -/
def VendorMock.prices {P : Type u} (catalog : Dict Ticker String) (book : Ticker → Option P)
    (tickers : List Ticker) : Option (Dict Ticker (Option P)) :=
  let unknown := tickers.filter fun t => !catalog.contains t
  if unknown = [] then some (.ofList (tickers.map fun t => (t, book t))) else none

lemma VendorMock.prices_eq_none_iff {P : Type u} {catalog : Dict Ticker String}
    {book : Ticker → Option P} {tickers : List Ticker} :
    VendorMock.prices catalog book tickers = none ↔ ∃ t ∈ tickers, t ∉ catalog.keys := by
  unfold VendorMock.prices
  simp [← Dict.contains_iff]

namespace PriceService

variable {P : Type u} {svc : PriceService P} {stores : Stores P} {read : CatalogRead}
  {catalog : Dict Ticker String} {t : Ticker}

lemma mem_catalogRows (hvendor : read.vendor = some catalog.entries) (hne : catalog.entries ≠ []) :
    t ∈ (catalogRows .api read).map Prod.fst ↔ t ∈ catalog.keys := by
  have hrows : catalogRows .api read =
      catalog.entries.mergeSort fun a b => decide (a.1 ≤ b.1) := by
    unfold catalogRows
    rw [hvendor]
    exact if_neg hne
  rw [hrows]
  exact ((List.mergeSort_perm _ _).map Prod.fst).mem_iff

/-- The api source asks for the tickers of the vendor that are not flagged, and for those stored
before that are not flagged. -/
lemma mem_batch_iff (hapi : svc.settings.priceSource = .api)
    (hvendor : read.vendor = some catalog.entries) (hne : catalog.entries ≠ []) :
    t ∈ (svc.syncCatalog stores read).1.tickerToId.keys ↔
      if t ∈ catalog.keys then stores.securities.flag t ≠ some true
      else stores.securities.flag t = some false := by
  have hids : (svc.syncCatalog stores read).1.tickerToId =
      Dict.ofList (((stores.securities.upsertMany (catalogRows .api read)).allTickers false).map
        Prod.swap) := by
    unfold syncCatalog syncStores
    rw [hapi]
    rfl
  rw [hids, ← Dict.contains_iff, Dict.contains_ofList_iff, List.map_map]
  -- the query takes the rows that are not flagged, after the upsert of the vendor's listings
  have hpriced : (∃ id, (id, t) ∈ (stores.securities.upsertMany (catalogRows .api read)).allTickers
      false) ↔ _ := Catalog.mem_tickers_iff
  rw [Catalog.flag_upsertMany] at hpriced
  simp only [mem_catalogRows hvendor hne] at hpriced
  rw [List.mem_map]
  constructor
  · rintro ⟨⟨id, t'⟩, hmem, rfl⟩
    have hflag := hpriced.1 ⟨id, hmem⟩
    split
    · rename_i hin
      rw [if_pos hin] at hflag
      intro htrue
      rw [htrue] at hflag
      exact absurd hflag (by simp)
    · rename_i hout
      rwa [if_neg hout] at hflag
  · intro h
    have hflag : (if t ∈ catalog.keys then some ((stores.securities.flag t).getD false)
        else stores.securities.flag t) = some false := by
      split
      · rename_i hin
        rw [if_pos hin] at h
        -- the upsert never touches the flag, so a padded ticker the vendor lists stays out
        cases hf : stores.securities.flag t with
        | none => rfl
        | some b =>
          cases b with
          | false => rfl
          | true => exact absurd hf h
      · rename_i hout
        rwa [if_neg hout] at h
    obtain ⟨id, hmem⟩ := hpriced.2 hflag
    exact ⟨(id, t), hmem, rfl⟩

/-- **The api source requests exactly the vendor's listings when the flags match them.**  After
`_sync_catalog` with a non-empty catalog of the vendor, the tickers every tick asks for are those of
the catalog if and only if, among the rows that were stored before, the unflagged ones are those the
catalog lists; the vendor answers the request if and only if every unflagged row is listed, and
every listing is asked for if and only if no listed row is flagged. -/
theorem batch_eq_listings_iff (hapi : svc.settings.priceSource = .api)
    (hvendor : read.vendor = some catalog.entries) (hne : catalog.entries ≠ [])
    (book : Ticker → Option P) :
    ((∀ t, t ∈ (svc.syncCatalog stores read).1.tickerToId.keys ↔ t ∈ catalog.keys) ↔
      stores.securities.FlagsMatch catalog.keys) ∧
    ((VendorMock.prices catalog book (svc.syncCatalog stores read).1.tickerToId.keys ≠ none) ↔
      ∀ id row, stores.securities.rows.get? id = some row → row.isSynthetic = false →
        row.ticker ∈ catalog.keys) ∧
    ((∀ t ∈ catalog.keys, t ∈ (svc.syncCatalog stores read).1.tickerToId.keys) ↔
      ∀ id row, stores.securities.rows.get? id = some row → row.ticker ∈ catalog.keys →
        row.isSynthetic = false) := by
  have hbatch : ∀ t, t ∈ (svc.syncCatalog stores read).1.tickerToId.keys ↔
      if t ∈ catalog.keys then stores.securities.flag t ≠ some true
      else stores.securities.flag t = some false := fun _ => mem_batch_iff hapi hvendor hne
  -- the vendor answers when all it is asked for is listed: no unflagged row is delisted
  have hanswered : (∀ t ∈ (svc.syncCatalog stores read).1.tickerToId.keys, t ∈ catalog.keys) ↔
      ∀ id row, stores.securities.rows.get? id = some row → row.isSynthetic = false →
        row.ticker ∈ catalog.keys := by
    constructor
    · intro h id row hrow hflag
      by_contra hout
      refine hout (h _ ((hbatch _).2 ?_))
      rw [if_neg hout, Catalog.flag_of_get? hrow, hflag]
    · intro h t ht
      by_contra hout
      rw [hbatch, if_neg hout, Catalog.flag_eq_some_iff] at ht
      obtain ⟨id, row, hrow, rfl, hflag⟩ := ht
      exact hout (h id row hrow hflag)
  -- all that is listed is asked for: no listed row is flagged
  have hasked : (∀ t ∈ catalog.keys, t ∈ (svc.syncCatalog stores read).1.tickerToId.keys) ↔
      ∀ id row, stores.securities.rows.get? id = some row → row.ticker ∈ catalog.keys →
        row.isSynthetic = false := by
    constructor
    · intro h id row hrow hin
      have hflag := (hbatch _).1 (h _ hin)
      rw [if_pos hin, Catalog.flag_of_get? hrow] at hflag
      simpa using hflag
    · intro h t hin
      rw [hbatch, if_pos hin]
      intro htrue
      obtain ⟨id, row, hrow, rfl, hflag⟩ := Catalog.flag_eq_some_iff.1 htrue
      exact absurd ((h id row hrow hin).symm.trans hflag) (by simp)
  refine ⟨?_, ?_, hasked⟩
  · constructor
    · intro h id row hrow
      exact ⟨hanswered.1 (fun t => (h t).1) id row hrow, hasked.1 (fun t => (h t).2) id row hrow⟩
    · intro h t
      exact ⟨hanswered.2 (fun id row hrow => (h id row hrow).1) t,
        hasked.2 (fun id row hrow => (h id row hrow).2) t⟩
  · rw [← hanswered, Ne, VendorMock.prices_eq_none_iff]
    push Not
    rfl

/-- A service that prices from the vendor. -/
def vendorService : PriceService ℕ := new ⟨.api, 5, 60, .push⟩

/-- A vendor that lists one security. -/
def vendorCatalog : Dict Ticker String := ⟨[("AAPL", "Apple Inc.")], by simp⟩

/-- What `_sync_catalog` reads from that vendor. -/
def vendorRead : CatalogRead := ⟨some vendorCatalog.entries, []⟩

theorem batch_eq_listings_first_sync :
    "AAPL" ∈ (vendorService.syncCatalog .fresh vendorRead).1.tickerToId.keys ∧
      "TWTR" ∉ (vendorService.syncCatalog .fresh vendorRead).1.tickerToId.keys := by
  have hmatch : (Stores.fresh : Stores ℕ).securities.FlagsMatch vendorCatalog.keys := by
    intro id row hrow
    exact absurd hrow (by simp [Stores.fresh, Catalog.empty])
  have hall : ∀ t, t ∈ (vendorService.syncCatalog .fresh vendorRead).1.tickerToId.keys ↔
      t ∈ vendorCatalog.keys :=
    (batch_eq_listings_iff rfl rfl (by decide) fun _ => none).1.2 hmatch
  exact ⟨(hall "AAPL").2 (by decide), fun hin => absurd ((hall "TWTR").1 hin) (by decide)⟩

/-- The stores once an older catalog of the vendor, with a security it has since dropped, was
synced. -/
def afterOlderCatalog : Stores ℕ :=
  { Stores.fresh with
    securities := Catalog.empty.upsertMany [("AAPL", "Apple Inc."), ("TWTR", "Twitter Inc.")] }

/-- **A delisted security stays in the batch.**  A row of an older catalog of the vendor is not
flagged synthetic, so after the next sync it is still asked for, and the vendor answers no request. -/
theorem delisted_in_batch :
    "TWTR" ∈ (vendorService.syncCatalog afterOlderCatalog vendorRead).1.tickerToId.keys ∧
    "TWTR" ∉ vendorCatalog.keys ∧
    ∀ book : Ticker → Option ℕ, VendorMock.prices vendorCatalog book
      (vendorService.syncCatalog afterOlderCatalog vendorRead).1.tickerToId.keys = none := by
  have hout : "TWTR" ∉ vendorCatalog.keys := by decide
  have hin : "TWTR" ∈ (vendorService.syncCatalog afterOlderCatalog vendorRead).1.tickerToId.keys :=
    (mem_batch_iff rfl rfl (by decide)).2 (by decide +kernel)
  exact ⟨hin, hout, fun book => VendorMock.prices_eq_none_iff.2 ⟨"TWTR", hin, hout⟩⟩

end PriceService
end TickerWatch
