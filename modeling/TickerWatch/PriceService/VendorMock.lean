import TickerWatch.Foundations.Text
import TickerWatch.PriceService.Listings
import TickerWatch.PriceService.VendorAnswer

/-!
# The vendor stand-in and its adapter

`vendor_mock/main.py` answers what `VendorSource.fetch` asks.  The two meet in the wire format: a
comma-separated list one way, an object of numbers and nulls the other.

Behind the stand-in is `SimulatedSource`, whose book walks on every call, once for each time a
ticker is listed.  The catalog is checked before the walk begins, so a refused batch moves nothing,
and what an accepted one returns is the book after it (`fetchFrom_spec`).  HTTP and JSON carry texts
and numbers unchanged, and both sides read the same settings.
-/

namespace TickerWatch

universe u v

/-! ## The walk -/

/-- The generator a walk draws from and the float arithmetic it does, as parameters.  Only what
keeps a price at a cent or above needs to know anything about them. -/
structure Walk (F : Type u) (R : Type v) where
  random : R → F × R
  gauss : F → F → R → F × R
  add : F → F → F
  mul : F → F → F
  round2 : F → F
  lt : F → F → Bool
  zero : F
  one : F
  cent : F

/-- `max(a, b)`: the first unless the second is greater. -/
def Walk.max {F : Type u} {R : Type v} (walk : Walk F R) (a b : F) : F :=
  if walk.lt a b then b else a

/-- The state of `SimulatedSource`: the last price it gave of each ticker, its two settings, and the
generator, which each draw moves on. -/
structure SimulatedSource (F : Type u) (R : Type v) where
  last : Dict Ticker F
  volatility : F
  changeRatio : F
  rng : R

namespace SimulatedSource

variable {F : Type u} {R : Type v}

/-- One pass of the loop in `fetch`: the price it puts out. -/
def visit (walk : Walk F R) (src : SimulatedSource F R) (ticker : Ticker) :
    SimulatedSource F R × Option F :=
  match src.last.get? ticker with
  | none => (src, none)
  | some last =>
    let (drawn, rng) := walk.random src.rng
    if walk.lt drawn src.changeRatio then
      let (noise, rng) := walk.gauss walk.zero src.volatility rng
      let moved := walk.mul last (walk.add walk.one noise)
      let last := walk.max (walk.round2 moved) walk.cent
      ({ src with last := src.last.set ticker last, rng := rng }, some last)
    else ({ src with rng := rng }, some last)

/-- `out[ticker] = last`, if the pass came to it. -/
def put (out : Dict Ticker F) (ticker : Ticker) (price : Option F) : Dict Ticker F :=
  price.elim out (out.set ticker)

/-- `SimulatedSource.fetch`. -/
def fetch (walk : Walk F R) (src : SimulatedSource F R) (tickers : List Ticker) :
    SimulatedSource F R × Dict Ticker F :=
  tickers.foldl (fun acc ticker =>
    let pass := acc.1.visit walk ticker
    (pass.1, put acc.2 ticker pass.2)) (src, .empty)

variable {walk : Walk F R} {src : SimulatedSource F R} {ticker t : Ticker}

/-- A pass moves no other price, and puts out the one the book has after it. -/
lemma visit_spec (walk : Walk F R) (src : SimulatedSource F R) (ticker : Ticker) :
    (src.visit walk ticker).1.last.keys = src.last.keys ∧
    (src.visit walk ticker).1.last.get? ticker = (src.visit walk ticker).2 ∧
    ∀ t, t ≠ ticker → (src.visit walk ticker).1.last.get? t = src.last.get? t := by
  unfold visit
  split
  case h_1 hnone => exact ⟨rfl, hnone, fun _ _ => rfl⟩
  case h_2 last hlast =>
    have hmem : ticker ∈ src.last.keys := Dict.mem_keys_iff.2 ⟨last, hlast⟩
    dsimp only
    split
    · exact ⟨Dict.keys_set_of_mem _ hmem, Dict.get?_set_self _ _ _,
        fun t ht => Dict.get?_set_ne _ _ ht⟩
    · exact ⟨rfl, hlast, fun _ _ => rfl⟩

/-- What `fetch` has put out so far: the book's price of every ticker it has visited. -/
structure Quoted (start : SimulatedSource F R) (seen : List Ticker)
    (acc : SimulatedSource F R × Dict Ticker F) : Prop where
  keys : acc.1.last.keys = start.last.keys
  out : ∀ t, acc.2.get? t = if t ∈ seen then acc.1.last.get? t else none

lemma get?_put (out : Dict Ticker F) (ticker : Ticker) (price : Option F) (t : Ticker) :
    (put out ticker price).get? t =
      if t = ticker then price.or (out.get? t) else out.get? t := by
  cases price with
  | none => simp [put]
  | some p =>
    rw [put, Option.elim_some, Dict.get?_set]
    split <;> simp_all

lemma Quoted.visit {start : SimulatedSource F R} {seen : List Ticker}
    {acc : SimulatedSource F R × Dict Ticker F} (h : Quoted start seen acc) (ticker : Ticker) :
    Quoted start (seen ++ [ticker])
      ((acc.1.visit walk ticker).1, put acc.2 ticker (acc.1.visit walk ticker).2) := by
  obtain ⟨hkeys, hself, hother⟩ := visit_spec walk acc.1 ticker
  refine ⟨hkeys.trans h.keys, fun t => ?_⟩
  dsimp only
  rw [get?_put, h.out]
  by_cases ht : t = ticker
  · subst ht
    have hseen : t ∈ seen ++ [t] := by simp
    rw [if_pos rfl, if_pos hseen, hself]
    cases hprice : (acc.1.visit walk t).2 with
    | some price => rfl
    | none =>
      -- the ticker has no price now, so it had none in an earlier pass
      have hfree : acc.1.last.get? t = none := by
        rw [Dict.get?_eq_none_iff, ← hkeys, ← Dict.get?_eq_none_iff, hself, hprice]
      rw [hfree, ite_self]
      rfl
  · rw [if_neg ht, hother t ht]
    simp [ht]

/-- **What `fetch` returns is the book after it**, for the tickers it was asked for. -/
theorem fetch_spec (walk : Walk F R) (src : SimulatedSource F R) (tickers : List Ticker) :
    Quoted src tickers (src.fetch walk tickers) := by
  have hfold (rest : List Ticker) : ∀ (seen : List Ticker) (acc), Quoted src seen acc →
      Quoted src (seen ++ rest) (rest.foldl (fun acc ticker =>
        ((acc.1.visit walk ticker).1, put acc.2 ticker (acc.1.visit walk ticker).2)) acc) := by
    induction rest with
    | nil =>
      intro seen acc h
      rwa [List.append_nil]
    | cons ticker rest ih =>
      intro seen acc h
      rw [List.append_cons]
      exact ih _ _ (h.visit ticker)
  exact hfold tickers [] (src, .empty) ⟨rfl, fun t => by simp⟩

end SimulatedSource

/-! ## The stand-in -/

/-- The settings of the vendor's interface. -/
structure VendorSettings where
  vendorApiKey : String := "dev-only-vendor-key"
  vendorApiKeyHeader : String := "X-API-Key"

/-- `GET /stock/prices/`. -/
structure PricesRequest where
  headers : Dict String String
  tickers : String

/-- `HTTPException`. -/
structure HttpError where
  statusCode : ℕ
  detail : String
  deriving DecidableEq, Repr

/-- `VendorMock`: the names of the catalog by ticker, and the book behind it. -/
structure VendorMock (F : Type u) (R : Type v) where
  catalog : Dict Ticker String
  book : SimulatedSource F R

namespace VendorMock

variable {F : Type u} {R : Type v}

/-- `VendorMock.prices` with the walk behind it. -/
def walkPrices (walk : Walk F R) (vendor : VendorMock F R) (tickers : List Ticker) :
    VendorMock F R × Except HttpError (Dict Ticker (Option F)) :=
  let unknown := tickers.filter fun t => !vendor.catalog.contains t
  if unknown = [] then
    let priced := vendor.book.fetch walk tickers
    ({ vendor with book := priced.1 },
      .ok (.ofList (tickers.map fun t => (t, priced.2.get? t))))
  else (vendor, .error ⟨400, "Invalid ticker"⟩)

/-- `[t.strip() for t in tickers.split(",") if t.strip()]`. -/
def wanted (tickers : String) : List Ticker :=
  ((Text.split ',' tickers).map (Text.strip Text.pySpace)).filter fun t => decide (t ≠ "")

/-- The endpoint behind `require_key`. -/
def serve (walk : Walk F R) (cfg : VendorSettings) (vendor : VendorMock F R)
    (request : PricesRequest) : VendorMock F R × Except HttpError (Dict Ticker (Option F)) :=
  if request.headers.get? cfg.vendorApiKeyHeader ≠ some cfg.vendorApiKey then
    (vendor, .error ⟨403, "Invalid API key"⟩)
  else vendor.walkPrices walk (wanted request.tickers)

/-- The body of the answer. -/
def toJson (body : Dict Ticker (Option F)) : JsonValue F :=
  .obj (body.entries.map fun e => (e.1, e.2.elim .null .float))

variable {walk : Walk F R} {vendor : VendorMock F R} {tickers : List Ticker}

lemma unknown_eq_nil_iff : (tickers.filter fun t => !vendor.catalog.contains t) = [] ↔
    ∀ t ∈ tickers, t ∈ vendor.catalog.keys := by
  rw [List.filter_eq_nil_iff]
  simp

/-- The reply is the one to these tickers of a vendor with the walked book. -/
theorem walkPrices_reply (walk : Walk F R) (vendor : VendorMock F R) (tickers : List Ticker) :
    (vendor.walkPrices walk tickers).2 =
      (VendorMock.prices vendor.catalog (vendor.book.fetch walk tickers).2.get? tickers).elim
        (.error ⟨400, "Invalid ticker"⟩) .ok := by
  unfold walkPrices VendorMock.prices
  dsimp only
  split <;> rfl

lemma walkPrices_of_listed (h : ∀ t ∈ tickers, t ∈ vendor.catalog.keys) :
    vendor.walkPrices walk tickers = ({ vendor with book := (vendor.book.fetch walk tickers).1 },
      .ok (.ofList (tickers.map fun t => (t, (vendor.book.fetch walk tickers).2.get? t)))) :=
  if_pos (unknown_eq_nil_iff.2 h)

lemma walkPrices_of_unknown (h : ¬ ∀ t ∈ tickers, t ∈ vendor.catalog.keys) :
    vendor.walkPrices walk tickers = (vendor, .error ⟨400, "Invalid ticker"⟩) :=
  if_neg fun hnil => h (unknown_eq_nil_iff.1 hnil)

end VendorMock

/-! ## The adapter -/

/-- What `fetch` raises: `raise_for_status` on an answer that is an error, or what it raises on the
body. -/
inductive VendorError
  | status (e : HttpError)
  | body (e : FetchError)
  deriving DecidableEq, Repr

namespace VendorSource

variable {F : Type u} {R : Type v}

/-- The request of `fetch`. -/
def request (cfg : VendorSettings) (tickers : List Ticker) : PricesRequest where
  headers := Dict.empty.set cfg.vendorApiKeyHeader cfg.vendorApiKey
  tickers := Text.join ',' tickers

/-- `VendorSource.fetch` against the stand-in, with the state it leaves that in. -/
def fetchFrom (py : Floats F) (walk : Walk F R) (cfg : VendorSettings) (vendor : VendorMock F R)
    (tickers : List Ticker) : VendorMock F R × Except VendorError (Dict Ticker F) :=
  if tickers = [] then (vendor, .ok .empty)
  else
    let response := vendor.serve walk cfg (request cfg tickers)
    (response.1, (response.2.mapError .status).bind fun body =>
      (fetch py tickers (VendorMock.toJson body)).mapError .body)

/-- What the list format carries: a text with something in it, no comma, and no white space around
it. -/
def WireSafe (t : Ticker) : Prop := t ≠ "" ∧ ',' ∉ t.toList ∧ Text.strip Text.pySpace t = t

instance (t : Ticker) : Decidable (WireSafe t) :=
  inferInstanceAs (Decidable (t ≠ "" ∧ ',' ∉ t.toList ∧ Text.strip Text.pySpace t = t))

variable {py : Floats F} {walk : Walk F R} {cfg : VendorSettings} {vendor : VendorMock F R}
  {tickers : List Ticker} {t : Ticker}

lemma wanted_join (hne : tickers ≠ []) (hsafe : ∀ t ∈ tickers, WireSafe t) :
    VendorMock.wanted (Text.join ',' tickers) = tickers := by
  have hstrip : tickers.map (Text.strip Text.pySpace) = tickers := by
    refine (List.map_congr_left fun t ht => (hsafe t ht).2.2).trans ?_
    exact List.map_id' tickers
  rw [VendorMock.wanted, Text.split_join hne fun t ht => (hsafe t ht).2.1, hstrip]
  exact List.filter_eq_self.2 fun t ht => decide_eq_true (hsafe t ht).1

lemma serve_request (hne : tickers ≠ []) (hsafe : ∀ t ∈ tickers, WireSafe t) :
    vendor.serve walk cfg (request cfg tickers) = vendor.walkPrices walk tickers := by
  rw [VendorMock.serve, request, Dict.get?_set_self, if_neg (by simp), wanted_join hne hsafe]

/-- Numbers and nulls are taken as they are. -/
lemma priced_floats (py : Floats F) {entries : List (Ticker × JsonValue F)}
    (h : ∀ e ∈ entries, e.2 = .null ∨ ∃ x, e.2 = .float x) :
    ∃ out, priced py entries = .ok out ∧ ∀ t x, (t, x) ∈ out ↔ (t, .float x) ∈ entries := by
  induction entries with
  | nil => exact ⟨[], rfl, by simp⟩
  | cons e rest ih =>
    obtain ⟨he, hrest⟩ := List.forall_mem_cons.1 h
    obtain ⟨out, hout, hmem⟩ := ih hrest
    obtain ⟨ticker, v⟩ := e
    rcases he with rfl | ⟨x, rfl⟩
    · refine ⟨out, hout, fun t x => ?_⟩
      simp [hmem]
    · refine ⟨(ticker, x) :: out, ?_, fun t y => ?_⟩
      · rw [priced, hout]
        rfl
      · simp [hmem]

/-- The adapter reads the numbers that were sent, without the nulls. -/
lemma fetch_toJson (py : Floats F) (hne : tickers ≠ []) (body : Dict Ticker (Option F)) :
    ∃ prices, fetch py tickers (VendorMock.toJson body) = .ok prices ∧
      ∀ t, prices.get? t = (body.get? t).join := by
  let json : Dict Ticker (JsonValue F) :=
    Dict.ofList (body.entries.map fun e => (e.1, e.2.elim .null .float))
  -- the body has one member for each ticker of the answer
  have hjson (t : Ticker) (v : JsonValue F) :
      (t, v) ∈ json.entries ↔ ∃ p, body.get? t = some p ∧ p.elim .null .float = v := by
    rw [← Dict.get?_eq_some_iff]
    constructor
    · intro hv
      obtain ⟨e, he, heq⟩ := List.mem_map.1 (Dict.mem_of_get?_ofList hv)
      obtain ⟨rfl, rfl⟩ := Prod.mk.inj heq
      exact ⟨e.2, Dict.get?_eq_some_iff.2 he, rfl⟩
    · rintro ⟨p, hp, rfl⟩
      refine Dict.get?_ofList_of_unique (List.mem_map_of_mem (Dict.get?_eq_some_iff.1 hp)) ?_
      intro w hw
      obtain ⟨e, he, heq⟩ := List.mem_map.1 hw
      obtain ⟨rfl, rfl⟩ := Prod.mk.inj heq
      rw [Dict.value_unique he (Dict.get?_eq_some_iff.1 hp)]
  -- each of them is a float or null
  have hfloats : ∀ e ∈ json.entries, e.2 = .null ∨ ∃ x, e.2 = .float x := by
    intro e he
    obtain ⟨p, -, hp⟩ := (hjson e.1 e.2).1 he
    cases p with
    | none => exact Or.inl hp.symm
    | some x => exact Or.inr ⟨x, hp.symm⟩
  obtain ⟨out, hout, hmem⟩ := priced_floats py hfloats
  -- what the adapter puts into its dictionary has one price for a ticker
  have hget (t : Ticker) (x : F) : (Dict.ofList out).get? t = some x ↔ (t, x) ∈ out := by
    refine ⟨Dict.mem_of_get?_ofList, fun hx => Dict.get?_ofList_of_unique hx fun y hy => ?_⟩
    exact JsonValue.float.inj (Dict.value_unique ((hmem t y).1 hy) ((hmem t x).1 hx))
  refine ⟨Dict.ofList out, ?_, fun t => Option.ext fun x => ?_⟩
  · rw [fetch_of_items hne (show items (VendorMock.toJson body) = .ok json.entries from rfl), hout]
    rfl
  · rw [hget, hmem, hjson, Option.join_eq_some_iff]
    constructor
    · rintro ⟨p, hp, hx⟩
      cases p with
      | none => exact absurd hx (by simp)
      | some y => rw [hp, JsonValue.float.inj hx]
    · exact fun hx => ⟨some x, hx, rfl⟩

/-- A batch of listed tickers is answered with the book's prices. -/
lemma fetchFrom_of_listed (py : Floats F) (walk : Walk F R) (cfg : VendorSettings)
    (hsafe : ∀ t ∈ tickers, WireSafe t)
    (hlisted : ∀ t ∈ tickers, t ∈ vendor.catalog.keys) :
    (fetchFrom py walk cfg vendor tickers).1.book = (vendor.book.fetch walk tickers).1 ∧
    ∃ prices, (fetchFrom py walk cfg vendor tickers).2 = .ok prices ∧
      ∀ t, prices.get? t = (vendor.book.fetch walk tickers).2.get? t := by
  by_cases hne : tickers = []
  · subst hne
    exact ⟨rfl, .empty, rfl, fun _ => rfl⟩
  · obtain ⟨prices, hprices, hget⟩ := fetch_toJson py hne
      (Dict.ofList (tickers.map fun t => (t, (vendor.book.fetch walk tickers).2.get? t)))
    rw [fetchFrom, if_neg hne, serve_request hne hsafe, VendorMock.walkPrices_of_listed hlisted]
    refine ⟨rfl, prices, ?_, fun t => ?_⟩
    · show (fetch py tickers _).mapError VendorError.body = _
      rw [hprices]
      rfl
    · rw [hget, Dict.get?_ofList_map]
      split
      case isTrue => rfl
      case isFalse ht =>
        rw [(SimulatedSource.fetch_spec walk vendor.book tickers).out, if_neg ht]
        rfl

/-- A batch with an unknown ticker is refused before the walk. -/
lemma fetchFrom_of_unknown (hsafe : ∀ t ∈ tickers, WireSafe t)
    (hunknown : ¬ ∀ t ∈ tickers, t ∈ vendor.catalog.keys) :
    fetchFrom py walk cfg vendor tickers =
      (vendor, .error (.status ⟨400, "Invalid ticker"⟩)) := by
  have hne : tickers ≠ [] := by
    rintro rfl
    exact hunknown (by simp)
  rw [fetchFrom, if_neg hne, serve_request hne hsafe, VendorMock.walkPrices_of_unknown hunknown]
  rfl

/-- **The adapter and the stand-in agree.**  For tickers the format carries, `fetch` succeeds
exactly if all are in the catalog; it then has the listed tickers the book prices, each with its
price after the call; and a call that fails has moved neither the book nor the random stream. -/
theorem fetchFrom_spec (py : Floats F) (walk : Walk F R) (cfg : VendorSettings)
    (vendor : VendorMock F R) (tickers : List Ticker) (hsafe : ∀ t ∈ tickers, WireSafe t) :
    ((∃ prices, (fetchFrom py walk cfg vendor tickers).2 = .ok prices) ↔
      ∀ t ∈ tickers, t ∈ vendor.catalog.keys) ∧
    (∀ prices, (fetchFrom py walk cfg vendor tickers).2 = .ok prices →
      (∀ t, t ∈ prices.keys ↔ t ∈ tickers ∧ t ∈ vendor.book.last.keys) ∧
      ∀ t ∈ prices.keys,
        prices.get? t = (fetchFrom py walk cfg vendor tickers).1.book.last.get? t) ∧
    ∀ err, (fetchFrom py walk cfg vendor tickers).2 = .error err →
      (fetchFrom py walk cfg vendor tickers).1 = vendor := by
  by_cases hlisted : ∀ t ∈ tickers, t ∈ vendor.catalog.keys
  · obtain ⟨hbook, prices, hprices, hget⟩ :=
      fetchFrom_of_listed py walk cfg hsafe hlisted
    obtain ⟨hkeys, hout⟩ := SimulatedSource.fetch_spec walk vendor.book tickers
    rw [hprices, hbook]
    refine ⟨iff_of_true ⟨prices, rfl⟩ hlisted, fun prices' hok => ?_, fun err herr => ?_⟩
    · obtain rfl := Except.ok.inj hok
      have hkey (t : Ticker) : t ∈ prices.keys ↔ t ∈ tickers ∧ t ∈ vendor.book.last.keys := by
        rw [Dict.mem_keys_iff, ← hkeys, Dict.mem_keys_iff]
        simp [hget, hout]
      refine ⟨hkey, fun t ht => ?_⟩
      rw [hget, hout, if_pos ((hkey t).1 ht).1]
    · exact absurd herr (by simp)
  · rw [fetchFrom_of_unknown hsafe hlisted]
    exact ⟨iff_of_false (by simp) hlisted, fun prices hok => absurd hok (by simp), fun _ _ => rfl⟩

/-- A walk over whole prices whose stream counts up. -/
def countingWalk : Walk ℕ ℕ where
  random r := (r % 10, r + 1)
  gauss mean deviation r := (mean + r % (deviation + 1), r + 1)
  add := (· + ·)
  mul := (· * ·)
  round2 := id
  lt a b := decide (a < b)
  zero := 0
  one := 1
  cent := 1

/-- A stand-in that lists two tickers and prices one. -/
def smallVendor : VendorMock ℕ ℕ where
  catalog := .ofList [("AAPL", "Apple"), ("ATVI", "Activision Blizzard")]
  book := ⟨.ofList [("AAPL", 7)], 4, 3, 1⟩

/-- A batch that lists a ticker twice, and one without a price. -/
theorem batch_is_priced : ∃ prices,
    (fetchFrom VendorTick.wholeFloats countingWalk {} smallVendor ["AAPL", "ATVI", "AAPL"]).2 =
      .ok prices ∧ ∀ t, t ∈ prices.keys ↔ t ∈ ["AAPL", "ATVI", "AAPL"] ∧ t ∈ ["AAPL"] := by
  obtain ⟨⟨-, hok⟩, hkeys, -⟩ := fetchFrom_spec VendorTick.wholeFloats countingWalk {} smallVendor
    ["AAPL", "ATVI", "AAPL"] (by decide +kernel)
  obtain ⟨prices, hprices⟩ := hok (by decide +kernel)
  exact ⟨prices, hprices, (hkeys prices hprices).1⟩

end VendorSource
end TickerWatch
