import TickerWatch.Foundations.Csv
import TickerWatch.PriceService.VendorMock

/-!
# Capturing the vendor

`tools/seed/capture_prices.py` writes the catalog and the prices of the vendor to two files, which
`_sync_catalog` falls back to, the simulator starts from, and the vendor stand-in serves.

`repr` of a float and `float` of a text undo each other, and JSON carries texts and numbers.  A file
carries a text unless it has a carriage return, which the reader takes for a newline, or is longer
than the reader accepts (`Csv.Plain`).
-/

namespace TickerWatch

universe u v

/-- The files of `seed/`, as far as they exist. -/
structure SeedFiles where
  securities : Option String
  prices : Option String

namespace CapturePrices

variable {F : Type u}

/-- `sorted(catalog)`. -/
def sortedTickers (catalog : Dict Ticker String) : List Ticker :=
  catalog.keys.mergeSort fun a b => decide (a ≤ b)

/-- `(t, catalog[t]) for t in tickers`. -/
def listed (catalog : Dict Ticker String) : List (Ticker × String) :=
  (sortedTickers catalog).filterMap fun t => (catalog.get? t).map fun name => (t, name)

/-- `priced`, and what each of them costs. -/
def priced (catalog : Dict Ticker String) (prices : Dict Ticker (Option F)) : List (Ticker × F) :=
  (sortedTickers catalog).filterMap fun t => (prices.get? t).join.map fun price => (t, price)

/-- The files `main` writes for what the vendor answered. -/
def capture (repr : F → String) (catalog : Dict Ticker String) (prices : Dict Ticker (Option F))
    (capturedAt : String) : SeedFiles where
  securities := some (Csv.write (["ticker", "name"] :: (listed catalog).map fun e => [e.1, e.2]))
  prices := some (Csv.write (["ticker", "price", "captured_at"] ::
    (priced catalog prices).map fun e => [e.1, repr e.2, capturedAt]))

end CapturePrices

/-! ## Who reads the files -/

namespace SeedFiles

variable {F : Type u} {R : Type v}

/-- `r[name]`, unless the row has no such field. -/
def field (row : Dict String (Option String)) (name : String) : Option String :=
  (row.get? name).join

/-- The pairs of `securities.csv`. -/
def readCatalog (text : String) : Option (List (Ticker × String)) :=
  (Csv.readDicts text).bind fun rows => rows.mapM fun row =>
    (field row "ticker").bind fun t => (field row "name").map fun name => (t, name)

/-- `{r["ticker"]: float(r["price"]) for r in csv.DictReader(fh)}`. -/
def readPrices (py : Floats F) (text : String) : Option (Dict Ticker F) :=
  (Csv.readDicts text).bind fun rows => (rows.mapM fun row =>
    (field row "ticker").bind fun t =>
      ((field row "price").bind py.ofStr).map fun price => (t, price)).map Dict.ofList

/-- `_catalog_from_seed`. -/
def catalogFromSeed (seed : SeedFiles) : Option (List (Ticker × String)) :=
  seed.securities.elim (some []) readCatalog

/-- `_starting_prices`: the rows of `latest_prices` first, then the file, then `hundred`. -/
def startingPrices (py : Floats F) (hundred : F) (seed : SeedFiles) (stored : List (Ticker × F))
    (tickers : List Ticker) : Option (Dict Ticker F) :=
  if stored ≠ [] then some (.ofList stored)
  else seed.prices.elim (some (.ofList (tickers.map fun t => (t, hundred)))) (readPrices py)

/-- `VendorMock()`. -/
def vendorMock (py : Floats F) (volatility changeRatio : F) (rng : R) (seed : SeedFiles) :
    Option (VendorMock F R) :=
  (seed.securities.bind readCatalog).bind fun catalog =>
    (seed.prices.bind (readPrices py)).map fun starting =>
      ⟨.ofList catalog, ⟨starting, volatility, changeRatio, rng⟩⟩

end SeedFiles

/-- `self.unpriced`. -/
def VendorMock.unpriced {F : Type u} {R : Type v} (vendor : VendorMock F R) : List Ticker :=
  (vendor.catalog.keys.filter fun t => !vendor.book.last.contains t).mergeSort
    fun a b => decide (a ≤ b)

namespace CapturePrices

variable {F : Type u} {R : Type v} {py : Floats F} {repr : F → String} {catalog : Dict Ticker String}
  {prices : Dict Ticker (Option F)} {capturedAt : String} {t : Ticker}

/-- What the vendor answered can be written to a file and read again: the dialect of the writer
quotes what it has to, but a carriage return comes back as a line feed, and a field has a limit. -/
structure Capturable (repr : F → String) (catalog : Dict Ticker String)
    (prices : Dict Ticker (Option F)) (capturedAt : String) : Prop where
  tickers : ∀ t ∈ catalog.keys, Csv.Plain t
  names : ∀ name ∈ catalog.values, Csv.Plain name
  numerals : ∀ answer ∈ prices.values, ∀ price ∈ answer, Csv.Plain (repr price)
  capturedAt : Csv.Plain capturedAt

lemma mem_sortedTickers : t ∈ sortedTickers catalog ↔ t ∈ catalog.keys :=
  (List.mergeSort_perm _ _).mem_iff

lemma listed_eq : listed catalog = catalog.entries.mergeSort fun a b => decide (a.1 ≤ b.1) := by
  have hkeys : sortedTickers catalog =
      (catalog.entries.mergeSort fun a b => decide (a.1 ≤ b.1)).map Prod.fst := by
    rw [List.map_mergeSort (s := fun a b => decide (a ≤ b)) fun _ _ _ _ => rfl]
    rfl
  have hget : ∀ e ∈ catalog.entries.mergeSort fun a b => decide (a.1 ≤ b.1),
      (catalog.get? e.1).map (fun name => (e.1, name)) = some e := by
    intro e he
    have hmem : (e.1, e.2) ∈ catalog.entries := (List.mergeSort_perm _ _).mem_iff.1 he
    rw [Dict.get?_eq_some_iff.2 hmem, Option.map_some]
  rw [listed, hkeys, List.filterMap_map]
  exact (List.filterMap_congr hget).trans List.filterMap_some

/-- The dictionary of the rows of `securities.csv`: they are the entries in another order. -/
lemma get?_listed (t : Ticker) : (Dict.ofList (listed catalog)).get? t = catalog.get? t := by
  have hmem {name : String} : (t, name) ∈ listed catalog ↔ catalog.get? t = some name := by
    rw [listed_eq, (List.mergeSort_perm _ _).mem_iff, Dict.get?_eq_some_iff]
  cases hname : catalog.get? t with
  | some name =>
    exact Dict.get?_ofList_of_unique (hmem.2 hname) fun name' hname' =>
      Option.some.inj ((hmem.1 hname').symm.trans hname)
  | none =>
    refine Dict.get?_ofList_of_notMem fun ht => ?_
    obtain ⟨⟨t', name⟩, he, rfl⟩ := List.mem_map.1 ht
    exact absurd ((hmem.1 he).symm.trans hname) (by simp)

lemma sorted_mergeSort (l : List Ticker) :
    (l.mergeSort fun a b => decide (a ≤ b)).Pairwise (· ≤ ·) := by
  refine (List.pairwise_mergeSort ?_ ?_ l).imp of_decide_eq_true
  · exact fun a b c hab hbc => decide_eq_true ((of_decide_eq_true hab).trans (of_decide_eq_true hbc))
  · intro a b
    rcases le_total a b with h | h <;> simp [h]

/-- A sorted list is the sorted list of what is in it. -/
lemma eq_mergeSort {l l' : List Ticker} (hl : l.Nodup) (hsorted : l.Pairwise (· ≤ ·)) (hl' : l'.Nodup)
    (hmem : ∀ t, t ∈ l ↔ t ∈ l') : l = l'.mergeSort fun a b => decide (a ≤ b) :=
  (((List.perm_ext_iff_of_nodup hl hl').2 hmem).trans
    (List.mergeSort_perm _ _).symm).eq_of_pairwise' hsorted (sorted_mergeSort l')

lemma mem_priced {price : F} :
    (t, price) ∈ priced catalog prices ↔ t ∈ catalog.keys ∧ (prices.get? t).join = some price := by
  rw [priced, List.mem_filterMap]
  constructor
  · rintro ⟨t', ht', hprice⟩
    obtain ⟨price', hprice', heq⟩ := Option.map_eq_some_iff.1 hprice
    obtain ⟨rfl, rfl⟩ := Prod.mk.inj heq
    exact ⟨mem_sortedTickers.1 ht', hprice'⟩
  · rintro ⟨ht, hprice⟩
    exact ⟨t, mem_sortedTickers.2 ht, by rw [hprice, Option.map_some]⟩

/-- The dictionary of the rows of `prices.csv`. -/
lemma get?_priced (t : Ticker) : (Dict.ofList (priced catalog prices)).get? t =
    if t ∈ catalog.keys then (prices.get? t).join else none := by
  cases hget : (Dict.ofList (priced catalog prices)).get? t with
  | some price =>
    obtain ⟨ht, hprice⟩ := mem_priced.1 (Dict.mem_of_get?_ofList hget)
    rw [if_pos ht, hprice]
  | none =>
    split
    · next ht =>
      cases hprice : (prices.get? t).join with
      | none => rfl
      | some price =>
        have hmem : (t, price) ∈ priced catalog prices := mem_priced.2 ⟨ht, hprice⟩
        rw [Dict.get?_ofList_of_unique hmem fun price' hmem' =>
          Option.some.inj ((mem_priced.1 hmem').2.symm.trans hprice)] at hget
        exact absurd hget (by simp)
    · rfl

/-- The header and the rows of `securities.csv`. -/
lemma readCatalog_write (h : Capturable repr catalog prices capturedAt) :
    SeedFiles.readCatalog
        (Csv.write (["ticker", "name"] :: (listed catalog).map fun e => [e.1, e.2])) =
      some (listed catalog) := by
  have hplain : ∀ row ∈ ["ticker", "name"] :: (listed catalog).map (fun e => [e.1, e.2]),
      ∀ field ∈ row, Csv.Plain field := by
    rintro row (_ | ⟨_, hrow⟩) field hfield
    · rcases List.mem_cons.1 hfield with rfl | hfield
      · decide +kernel
      · obtain rfl := List.mem_singleton.1 hfield
        decide +kernel
    · obtain ⟨e, he, rfl⟩ := List.mem_map.1 hrow
      rw [listed_eq] at he
      have hmem : e ∈ catalog.entries := (List.mergeSort_perm _ _).mem_iff.1 he
      rcases List.mem_cons.1 hfield with rfl | hfield
      · exact h.tickers e.1 (Dict.mem_keys.2 ⟨e.2, hmem⟩)
      · obtain rfl := List.mem_singleton.1 hfield
        exact h.names e.2 (List.mem_map_of_mem hmem)
  have hne : ∀ row ∈ (listed catalog).map fun e => [e.1, e.2], row ≠ [] := by
    rintro row hrow rfl
    obtain ⟨e, -, he⟩ := List.mem_map.1 hrow
    exact absurd he (by simp)
  rw [SeedFiles.readCatalog, Csv.readDicts_write hplain hne, Option.bind_some, List.map_map,
    List.mapM_map]
  exact (Dict.mapM_eq_some_map fun e _ => rfl).trans (congrArg some (List.map_id _))

/-- The header and the rows of `prices.csv`. -/
lemma readPrices_write (h : Capturable repr catalog prices capturedAt)
    (hfloat : ∀ price, py.ofStr (repr price) = some price) :
    SeedFiles.readPrices py (Csv.write (["ticker", "price", "captured_at"] ::
      (priced catalog prices).map fun e => [e.1, repr e.2, capturedAt])) =
        some (.ofList (priced catalog prices)) := by
  have hplain : ∀ row ∈ ["ticker", "price", "captured_at"] ::
      (priced catalog prices).map (fun e => [e.1, repr e.2, capturedAt]),
      ∀ field ∈ row, Csv.Plain field := by
    rintro row (_ | ⟨_, hrow⟩) field hfield
    · simp only [List.mem_cons, List.not_mem_nil, or_false] at hfield
      obtain rfl | rfl | rfl := hfield <;> decide +kernel
    · obtain ⟨e, he, rfl⟩ := List.mem_map.1 hrow
      simp only [List.mem_cons, List.not_mem_nil, or_false] at hfield
      obtain rfl | rfl | rfl := hfield
      · exact h.tickers e.1 (mem_priced.1 he).1
      · have hprice := Option.join_eq_some_iff.1 (mem_priced.1 he).2
        have hmem : (e.1, some e.2) ∈ prices.entries := Dict.get?_eq_some_iff.1 hprice
        exact h.numerals (some e.2) (List.mem_map_of_mem hmem) e.2 rfl
      · exact h.capturedAt
  have hne : ∀ row ∈ (priced catalog prices).map fun e => [e.1, repr e.2, capturedAt], row ≠ [] := by
    rintro row hrow rfl
    obtain ⟨e, -, he⟩ := List.mem_map.1 hrow
    exact absurd he (by simp)
  have hrow : ∀ e ∈ priced catalog prices,
      (SeedFiles.field (Csv.record ["ticker", "price", "captured_at"] [e.1, repr e.2, capturedAt])
        "ticker").bind (fun t => ((SeedFiles.field
          (Csv.record ["ticker", "price", "captured_at"] [e.1, repr e.2, capturedAt]) "price").bind
            py.ofStr).map fun price => (t, price)) = some e := by
    intro e _
    show ((some (repr e.2)).bind py.ofStr).map (fun price => (e.1, price)) = some e
    rw [Option.bind_some, hfloat, Option.map_some]
  rw [SeedFiles.readPrices, Csv.readDicts_write hplain hne, Option.bind_some, List.map_map,
    List.mapM_map]
  exact congrArg (Option.map Dict.ofList)
    ((Dict.mapM_eq_some_map (g := id) hrow).trans (congrArg some (List.map_id _)))

/-! ## A start without the vendor -/

section Offline

variable {P : Type v} {svc : PriceService P} {stores : Stores P}

/-- The call that is counted. -/
def countCall (svc : PriceService P) : PriceService P :=
  { svc with stats.upstreamCalls := svc.stats.upstreamCalls + 1 }

lemma warm_countCall (svc : PriceService P) (redis : Redis P) (rows : List (TickerPrice P)) :
    (countCall svc).warm redis rows =
      (countCall (svc.warm redis rows).1, (svc.warm redis rows).2) := by
  induction rows generalizing svc redis with
  | nil => rfl
  | cons row rows ih =>
    let acc := PriceService.warmRow svc.settings.priceCacheTtlSeconds (svc, redis) row
    exact ih acc.1 acc.2

lemma syncCatalog_offline (hapi : svc.settings.priceSource = .api)
    {rows seed : List (Ticker × String)}
    {listings : List (Ticker × String)}
    (hrows : PriceService.catalogRows .api ⟨none, rows⟩ =
      PriceService.catalogRows .api ⟨some listings, seed⟩) :
    svc.syncCatalog stores ⟨some listings, seed⟩ =
      (countCall (svc.syncCatalog stores ⟨none, rows⟩).1,
        (svc.syncCatalog stores ⟨none, rows⟩).2) := by
  simp only [PriceService.syncCatalog, PriceService.syncStores, countCall, hapi, hrows]
  rfl

/-- **A start without the vendor**: from the captured files it leaves the stores, and the service,
that a start with the vendor leaves, but for the call that is not counted. -/
theorem offline_start (h : Capturable repr catalog prices capturedAt) (hne : catalog.entries ≠ []) :
    ∃ rows, (capture repr catalog prices capturedAt).catalogFromSeed = some rows ∧
      ∀ (settings : Settings) (stores : Stores P) (seed : List (Ticker × String)),
        settings.priceSource = .api →
        let offline := PriceService.start settings stores ⟨none, rows⟩
        let online := PriceService.start settings stores ⟨some catalog.entries, seed⟩
        offline.1 = online.1 ∧ offline.2.map countCall = online.2 := by
  refine ⟨listed catalog, readCatalog_write h, fun settings stores seed hapi => ?_⟩
  have hrows : PriceService.catalogRows .api ⟨none, listed catalog⟩ =
      PriceService.catalogRows .api ⟨some catalog.entries, seed⟩ := by
    show listed catalog = if catalog.entries = [] then seed else _
    rw [if_neg hne, listed_eq]
  dsimp only [PriceService.start]
  cases hreconciled : (PriceService.new settings : PriceService P).reconcile stores with
  | mk svc₀ stores₀ =>
  have hsettings : svc₀.settings = settings := (congrArg (fun out => out.1.settings) hreconciled).symm
  have hsync := @syncCatalog_offline _ svc₀ stores₀ (hsettings ▸ hapi) _ _ _ hrows
  rw [hsync]
  cases svc₀.syncCatalog stores₀ ⟨none, listed catalog⟩ with
  | mk svc₁ stores₁ =>
  dsimp only
  by_cases hempty : svc₁.tickerToId.entries.isEmpty = true
  · rw [if_pos hempty, if_pos (show (countCall svc₁).tickerToId.entries.isEmpty = true from hempty)]
    exact ⟨rfl, rfl⟩
  · rw [if_neg hempty, if_neg (show ¬ (countCall svc₁).tickerToId.entries.isEmpty = true from hempty),
      warm_countCall]
    exact ⟨rfl, rfl⟩

end Offline

/-- A catalog with a name that has to be quoted. -/
def smallCatalog : Dict Ticker String :=
  .ofList [("BRK", "Berkshire, \"B\""), ("ATVI", "Activision")]

/-- ATVI is delisted. -/
def smallPrices : Dict Ticker (Option ℤ) := .ofList [("BRK", some 512), ("ATVI", none)]

lemma capturable_small : Capturable (toString : ℤ → String) smallCatalog smallPrices "2026-09-21" :=
  ⟨by decide +kernel, by decide +kernel, by decide +kernel, by decide +kernel⟩

/-- A service that starts on an empty database while the vendor is down has the vendor's rows. -/
theorem small_offline : ∃ rows,
    (capture toString smallCatalog smallPrices "2026-09-21").catalogFromSeed = some rows ∧
      (PriceService.start ⟨.api, 60, 60, .push⟩ (.fresh : Stores ℤ) ⟨none, rows⟩).1 =
        (PriceService.start ⟨.api, 60, 60, .push⟩ .fresh ⟨some smallCatalog.entries, []⟩).1 := by
  obtain ⟨rows, hrows, hstart⟩ := offline_start (P := ℤ) capturable_small (by decide +kernel)
  exact ⟨rows, hrows, (hstart ⟨.api, 60, 60, .push⟩ .fresh [] rfl).1⟩

/-! ## The vendor stand-in -/

/-- **The stand-in serves what was captured**: the catalog, the prices it starts from, and as unpriced
the tickers the vendor had no price for; a simulator with an empty table starts from the same
prices. -/
theorem standIn_spec (h : Capturable repr catalog prices capturedAt)
    (hfloat : ∀ price, py.ofStr (repr price) = some price) (volatility changeRatio hundred : F)
    (rng : R) (tickers : List Ticker) :
    ∃ vendor : VendorMock F R,
      (capture repr catalog prices capturedAt).vendorMock py volatility changeRatio rng = some vendor ∧
      (∀ t, vendor.catalog.get? t = catalog.get? t) ∧
      (∀ t, vendor.book.last.get? t = if t ∈ catalog.keys then (prices.get? t).join else none) ∧
      vendor.unpriced = (sortedTickers catalog).filter (fun t => (prices.get? t).join.isNone) ∧
      (capture repr catalog prices capturedAt).startingPrices py hundred [] tickers =
        some vendor.book.last := by
  refine ⟨⟨.ofList (listed catalog), ⟨.ofList (priced catalog prices), volatility, changeRatio, rng⟩⟩,
    ?_, fun t => ?_, get?_priced, ?_, readPrices_write h hfloat⟩
  · have hcatalog := readCatalog_write h
    have hprices := readPrices_write h hfloat
    rw [SeedFiles.vendorMock, capture, Option.bind_some, hcatalog, Option.bind_some, Option.bind_some,
      hprices, Option.map_some]
  · exact get?_listed t
  · refine (eq_mergeSort ?_ ((sorted_mergeSort catalog.keys).filter _) ?_ fun t => ?_).symm
    · exact ((List.mergeSort_perm _ _).nodup_iff.2 catalog.nodup_keys).filter _
    · exact (Dict.nodup_keys _).filter _
    · rw [List.mem_filter, List.mem_filter, (List.mergeSort_perm _ _).mem_iff, Dict.mem_keys_iff,
        Dict.mem_keys_iff, get?_listed, Bool.not_eq_true', Dict.contains_eq_false_iff, get?_priced]
      refine and_congr_right fun ht => ?_
      rw [if_pos (Dict.mem_keys_iff.2 ht), Option.isNone_iff_eq_none]

/-- Floats that are whole. -/
def integers : Floats ℤ where
  ofBool b := b.toNat
  ofInt := some
  ofStr := Text.parseInt

lemma sortedTickers_small : sortedTickers smallCatalog = ["ATVI", "BRK"] :=
  (eq_mergeSort (by decide) (by decide +kernel) (by decide +kernel) fun t => by
    rw [show smallCatalog.keys = ["BRK", "ATVI"] from by decide +kernel, List.mem_pair, List.mem_pair]
    exact or_comm).symm

/-- The stand-in prices BRK and has ATVI delisted. -/
theorem small_standIn : ∃ vendor : VendorMock ℤ ℕ,
    (capture toString smallCatalog smallPrices "2026-09-21").vendorMock integers 0 0 42 = some vendor ∧
      vendor.catalog.get? "BRK" = some "Berkshire, \"B\"" ∧ vendor.unpriced = ["ATVI"] := by
  obtain ⟨vendor, hvendor, hcatalog, -, hunpriced, -⟩ :=
    @standIn_spec ℤ ℕ integers _ _ _ _ capturable_small Text.parseInt_toString 0 0 100 42 []
  refine ⟨vendor, hvendor, ?_, ?_⟩
  · rw [hcatalog]
    decide +kernel
  · rw [hunpriced, sortedTickers_small]
    decide +kernel

end CapturePrices
end TickerWatch
