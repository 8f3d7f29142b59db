import TickerWatch.Foundations.FixedWidth
import TickerWatch.PriceService.CallBudget

/-!
# What the vendor answers

`VendorSource.fetch` on a JSON value, and what becomes of the answer in the tick that asked for it.

`fetch` takes `items()` of whatever `response.json()` returned and `float` of every value that is
not null, in order.  `_current_prices` catches a `ValueError`, which is what `float` raises on a text
that is no number, and serves the previous read.  A nested value is a `TypeError`, an integer too
large an `OverflowError`, and a value without `items` an `AttributeError`; none of them is caught.
Nor is the `KeyError` of a ticker that was not asked for, which stops `_write_cache` before its
`try`.  The answers a service withstands are the others (`withstands_iff`).

Floats are a parameter: what counts of them is which texts and integers `float` takes.
-/

namespace TickerWatch

universe u

/-- A decoded JSON value; the members of an object as they were sent. -/
inductive JsonValue (F : Type u)
  | null
  | bool (b : Bool)
  | int (n : ℤ)
  | float (x : F)
  | str (s : String)
  | arr (items : List (JsonValue F))
  | obj (members : List (String × JsonValue F))

/-- `float` on what is not a float.  `none` is `OverflowError` for an integer and `ValueError` for a
text. -/
structure Floats (F : Type u) where
  ofBool : Bool → F
  ofInt : ℤ → Option F
  ofStr : String → Option F

/-- What `fetch` raises on an answer. -/
inductive FetchError
  | value
  | type
  | overflow
  | attribute
  deriving DecidableEq, Repr

/-- `except (httpx.HTTPError, OSError, ValueError)`. -/
def FetchError.caught : FetchError → Bool
  | .value => true
  | _ => false

namespace JsonValue

variable {F : Type u}

/-- `v is None`. -/
def isNull : JsonValue F → Bool
  | .null => true
  | _ => false

/-- `float(v)`. -/
def toFloat (py : Floats F) : JsonValue F → Except FetchError F
  | .bool b => .ok (py.ofBool b)
  | .int n => (py.ofInt n).elim (.error .overflow) .ok
  | .float x => .ok x
  | .str s => (py.ofStr s).elim (.error .value) .ok
  | .null | .arr _ | .obj _ => .error .type

/-- A text that is no number. -/
def NotNumeric (py : Floats F) : JsonValue F → Prop
  | .str s => py.ofStr s = none
  | _ => False

/-- A nested value, or an integer that no float holds. -/
def Unfit (py : Floats F) : JsonValue F → Prop
  | .arr _ | .obj _ => True
  | .int n => py.ofInt n = none
  | _ => False

variable {py : Floats F} {v : JsonValue F}

lemma toFloat_of_notNumeric (h : v.NotNumeric py) :
    v.isNull = false ∧ v.toFloat py = .error .value := by
  cases v with
  | str s =>
    refine ⟨rfl, ?_⟩
    rw [toFloat, show py.ofStr s = none from h]
    rfl
  | _ => exact absurd h id

lemma toFloat_of_unfit (h : v.Unfit py) :
    v.isNull = false ∧ ∃ err, v.toFloat py = .error err ∧ err.caught = false := by
  cases v with
  | arr items => exact ⟨rfl, .type, rfl, rfl⟩
  | obj members => exact ⟨rfl, .type, rfl, rfl⟩
  | int n =>
    refine ⟨rfl, .overflow, ?_, rfl⟩
    rw [toFloat, show py.ofInt n = none from h]
    rfl
  | _ => exact absurd h id

/-- Any other value that is not null is a price. -/
lemma exists_toFloat (hnull : v.isNull = false) (hnumeric : ¬ v.NotNumeric py)
    (hfit : ¬ v.Unfit py) : ∃ x, v.toFloat py = .ok x := by
  cases v with
  | null => exact absurd hnull (by simp [isNull])
  | bool b => exact ⟨py.ofBool b, rfl⟩
  | int n =>
    obtain ⟨x, hx⟩ := Option.ne_none_iff_exists'.1 hfit
    refine ⟨x, ?_⟩
    rw [toFloat, hx]
    rfl
  | float x => exact ⟨x, rfl⟩
  | str s =>
    obtain ⟨x, hx⟩ := Option.ne_none_iff_exists'.1 hnumeric
    refine ⟨x, ?_⟩
    rw [toFloat, hx]
    rfl
  | arr items => exact absurd True.intro hfit
  | obj members => exact absurd True.intro hfit

end JsonValue

namespace VendorSource

variable {F : Type u}

/-- `{t: float(v) for t, v in payload.items() if v is not None}`, as a list. -/
def priced (py : Floats F) : List (Ticker × JsonValue F) → Except FetchError (List (Ticker × F))
  | [] => .ok []
  | e :: rest =>
    if e.2.isNull then priced py rest
    else (e.2.toFloat py).bind fun x => (priced py rest).map fun out => (e.1, x) :: out

/-- `payload.items()`. -/
def items : JsonValue F → Except FetchError (List (Ticker × JsonValue F))
  | .obj members => .ok (Dict.ofList members).entries
  | _ => .error .attribute

/-- `VendorSource.fetch` on an answer with status 200. -/
def fetch (py : Floats F) (tickers : List Ticker) (payload : JsonValue F) :
    Except FetchError (Dict Ticker F) :=
  if tickers = [] then .ok .empty
  else (items payload).bind fun entries => (priced py entries).map Dict.ofList

/-- What `_current_prices` sees of it. -/
def outcome : Except FetchError (Dict Ticker F) → FetchOutcome F
  | .ok prices => .returned prices
  | .error err => .raised err.caught

/-! ## Which answers are usable -/

/-- No entry stops the conversion. -/
def Clean (py : Floats F) (entries : List (Ticker × JsonValue F)) : Prop :=
  ∀ e ∈ entries, ¬ e.2.NotNumeric py ∧ ¬ e.2.Unfit py

/-- An object of numbers and nulls whose numbers are for tickers of `ids`. -/
def Accepted (py : Floats F) (ids : List Ticker) (payload : JsonValue F) : Prop :=
  ∃ entries, items payload = .ok entries ∧ Clean py entries ∧
    ∀ e ∈ entries, e.2.isNull = false → e.1 ∈ ids

/-- An object whose first entry that stops the conversion is a text that is no number. -/
def Refused (py : Floats F) (payload : JsonValue F) : Prop :=
  ∃ before e after, items payload = .ok (before ++ e :: after) ∧ Clean py before ∧
    e.2.NotNumeric py

variable {py : Floats F} {e : Ticker × JsonValue F} {payload : JsonValue F} {tickers : List Ticker}
  {entries before after : List (Ticker × JsonValue F)}

/-- Either nothing stops the conversion, or something is the first to. -/
lemma clean_or_first (py : Floats F) (entries : List (Ticker × JsonValue F)) :
    Clean py entries ∨ ∃ before e after, entries = before ++ e :: after ∧ Clean py before ∧
      (e.2.NotNumeric py ∨ e.2.Unfit py) := by
  induction entries with
  | nil => exact Or.inl fun e he => absurd he List.not_mem_nil
  | cons e rest ih =>
    by_cases he : e.2.NotNumeric py ∨ e.2.Unfit py
    · exact Or.inr ⟨[], e, rest, rfl, fun e he => absurd he List.not_mem_nil, he⟩
    · have he' := not_or.1 he
      rcases ih with hclean | ⟨before, b, after, rfl, hclean, hb⟩
      · exact Or.inl (List.forall_mem_cons.2 ⟨he', hclean⟩)
      · exact Or.inr ⟨e :: before, b, after, rfl, List.forall_mem_cons.2 ⟨he', hclean⟩, hb⟩

/-- What nothing stops prices every entry that is not null. -/
lemma priced_of_clean (h : Clean py entries) : ∃ out, priced py entries = .ok out ∧
    ∀ t, t ∈ out.map Prod.fst ↔ ∃ e ∈ entries, e.2.isNull = false ∧ e.1 = t := by
  induction entries with
  | nil => exact ⟨[], rfl, by simp⟩
  | cons e rest ih =>
    obtain ⟨⟨hnumeric, hfit⟩, hrest⟩ := List.forall_mem_cons.1 h
    obtain ⟨out, hout, hkeys⟩ := ih hrest
    unfold priced
    cases hnull : e.2.isNull with
    | true =>
      refine ⟨out, by rw [if_pos rfl, hout], fun t => ?_⟩
      simp [hkeys, hnull]
    | false =>
      obtain ⟨x, hx⟩ := JsonValue.exists_toFloat hnull hnumeric hfit
      refine ⟨(e.1, x) :: out, by rw [if_neg (by simp), hx, hout]; rfl, fun t => ?_⟩
      rw [List.map_cons, List.mem_cons, List.exists_mem_cons_iff, hkeys]
      exact or_congr ⟨fun h => ⟨hnull, h.symm⟩, fun h => h.2.symm⟩ Iff.rfl

lemma priced_of_first {err : FetchError} (h : Clean py before) (hnull : e.2.isNull = false)
    (he : e.2.toFloat py = .error err) : priced py (before ++ e :: after) = .error err := by
  induction before with
  | nil =>
    rw [List.nil_append, priced, hnull, if_neg (by simp), he]
    rfl
  | cons b before ih =>
    obtain ⟨⟨hnumeric, hfit⟩, hbefore⟩ := List.forall_mem_cons.1 h
    rw [List.cons_append, priced, ih hbefore]
    cases hb : b.2.isNull with
    | true => rw [if_pos rfl]
    | false =>
      obtain ⟨x, hx⟩ := JsonValue.exists_toFloat hb hnumeric hfit
      rw [if_neg (by simp), hx]
      rfl

lemma fetch_of_items (htickers : tickers ≠ []) (h : items payload = .ok entries) :
    fetch py tickers payload = (priced py entries).map Dict.ofList := by
  rw [fetch, if_neg htickers, h]
  rfl

lemma fetch_of_clean (htickers : tickers ≠ []) (h : items payload = .ok entries)
    (hclean : Clean py entries) : ∃ prices, fetch py tickers payload = .ok prices ∧
      ∀ t, t ∈ prices.keys ↔ ∃ e ∈ entries, e.2.isNull = false ∧ e.1 = t := by
  obtain ⟨out, hout, hkeys⟩ := priced_of_clean hclean
  refine ⟨Dict.ofList out, ?_, fun t => ?_⟩
  · rw [fetch_of_items htickers h, hout]
    rfl
  · rw [← Dict.contains_iff, Dict.contains_ofList_iff, hkeys]

lemma fetch_of_refused (htickers : tickers ≠ []) (h : Refused py payload) :
    fetch py tickers payload = .error .value := by
  obtain ⟨before, e, after, hitems, hclean, he⟩ := h
  obtain ⟨hnull, herr⟩ := JsonValue.toFloat_of_notNumeric he
  rw [fetch_of_items htickers hitems, priced_of_first hclean hnull herr]
  rfl

/-- `fetch` on any answer: a clean object, a refused one, or an exception that is not caught. -/
lemma fetch_cases (py : Floats F) (htickers : tickers ≠ []) (payload : JsonValue F) :
    (∃ entries, items payload = .ok entries ∧ Clean py entries) ∨ Refused py payload ∨
      ∃ err, fetch py tickers payload = .error err ∧ err.caught = false := by
  cases hitems : items payload with
  | error err =>
    refine Or.inr (Or.inr ⟨err, ?_, ?_⟩)
    · rw [fetch, if_neg htickers, hitems]
      rfl
    · cases payload with
      | obj members => exact absurd hitems (by simp [items])
      | _ =>
        obtain rfl := Except.error.inj hitems
        rfl
  | ok entries =>
    rcases clean_or_first py entries with hclean | ⟨before, e, after, rfl, hclean, hstop | hstop⟩
    · exact Or.inl ⟨entries, rfl, hclean⟩
    · exact Or.inr (Or.inl ⟨before, e, after, hitems, hclean, hstop⟩)
    · obtain ⟨hnull, err, herr, hcaught⟩ := JsonValue.toFloat_of_unfit hstop
      refine Or.inr (Or.inr ⟨err, ?_, hcaught⟩)
      rw [fetch_of_items htickers hitems, priced_of_first hclean hnull herr]
      rfl

/-- An answer is accepted exactly if `fetch` returns prices of `ids` only. -/
lemma accepted_iff (htickers : tickers ≠ []) {ids : List Ticker} : Accepted py ids payload ↔
    ∃ prices, fetch py tickers payload = .ok prices ∧ ∀ t ∈ prices.keys, t ∈ ids := by
  constructor
  · rintro ⟨entries, hitems, hclean, hids⟩
    obtain ⟨prices, hprices, hkeys⟩ := fetch_of_clean htickers hitems hclean
    refine ⟨prices, hprices, fun t ht => ?_⟩
    obtain ⟨e, he, hnull, rfl⟩ := (hkeys t).1 ht
    exact hids e he hnull
  · rintro ⟨prices, hprices, hids⟩
    rcases fetch_cases py htickers payload with ⟨entries, hitems, hclean⟩ | hrefused |
      ⟨err, herr, -⟩
    · obtain ⟨prices', hprices', hkeys⟩ := fetch_of_clean htickers hitems hclean
      obtain rfl := Except.ok.inj (hprices.symm.trans hprices')
      exact ⟨entries, hitems, hclean, fun e he hnull =>
        hids e.1 ((hkeys e.1).2 ⟨e, he, hnull, rfl⟩)⟩
    · rw [fetch_of_refused htickers hrefused] at hprices
      exact absurd hprices (by simp)
    · rw [herr] at hprices
      exact absurd hprices (by simp)

/-- An answer is refused exactly if `fetch` raises what `_current_prices` catches. -/
lemma refused_iff (htickers : tickers ≠ []) : Refused py payload ↔
    ∃ err, fetch py tickers payload = .error err ∧ err.caught = true := by
  refine ⟨fun h => ⟨.value, fetch_of_refused htickers h, rfl⟩, ?_⟩
  rintro ⟨err, herr, hcaught⟩
  rcases fetch_cases py htickers payload with ⟨entries, hitems, hclean⟩ | hrefused |
    ⟨err', herr', huncaught⟩
  · obtain ⟨prices, hprices, -⟩ := fetch_of_clean htickers hitems hclean
    rw [hprices] at herr
    exact absurd herr (by simp)
  · exact hrefused
  · obtain rfl := Except.error.inj (herr.symm.trans herr')
    rw [hcaught] at huncaught
    exact absurd huncaught (by simp)

end VendorSource

/-! ## A tick and its answer -/

/-- What became of the price request: an answer with status 200, whose JSON `response.json()`
returned, or an exception. -/
inductive VendorReply (F : Type u)
  | answered (payload : JsonValue F)
  | failed (caught : Bool)

/-- What `_current_prices` sees of it. -/
def VendorReply.fetched {F : Type u} (py : Floats F) (tickers : List Ticker) :
    VendorReply F → FetchOutcome F
  | .answered payload => VendorSource.outcome (VendorSource.fetch py tickers payload)
  | .failed caught => .raised caught

namespace PriceService

section Tick

variable {P : Type u}

/-- The new read, or the previous one when no usable one came. -/
def servedRead (svc : PriceService P) (i : TickInput P) : Dict Ticker P :=
  if svc.callsUpstream i.monotonic then
    match i.fetch with
    | .returned prices => prices
    | .raised _ => svc.upstreamPrices
  else svc.upstreamPrices

variable {svc : PriceService P} {stores : Stores P} {i : TickInput P} {prices : Dict Ticker P}
  {t : Ticker}

lemma reading_of_serves (h : svc.callsUpstream i.monotonic = false) :
    svc.reading i = some svc.upstreamPrices := by
  rw [reading, currentPrices_of_serves h]

lemma reading_of_returned (h : svc.callsUpstream i.monotonic = true)
    (hfetch : i.fetch = .returned prices) : svc.reading i = some prices := by
  unfold reading currentPrices
  dsimp only
  rw [not_serves_of_calls h, hfetch]
  rfl

lemma reading_of_raised {caught : Bool} (h : svc.callsUpstream i.monotonic = true)
    (hfetch : i.fetch = .raised caught) :
    svc.reading i = if caught then some svc.upstreamPrices else none := by
  unfold reading currentPrices
  dsimp only
  rw [not_serves_of_calls h, hfetch]
  cases caught <;> rfl

/-- A read that returns, returns what is served. -/
lemma servedRead_of_reading (h : svc.reading i = some prices) : svc.servedRead i = prices := by
  unfold servedRead
  cases hcalls : svc.callsUpstream i.monotonic with
  | false =>
    rw [reading_of_serves hcalls] at h
    exact Option.some.inj h
  | true =>
    rw [if_pos rfl]
    cases hfetch : i.fetch with
    | returned prices' =>
      rw [reading_of_returned hcalls hfetch] at h
      exact Option.some.inj h
    | raised caught =>
      rw [reading_of_raised hcalls hfetch] at h
      cases caught with
      | true => exact Option.some.inj h
      | false => exact absurd h (by simp)

variable [DecidableEq P]

/-- The entries a tick hands to `set_prices_if_newer`. -/
def handedToCache (svc : PriceService P) (i : TickInput P) :
    List (Ticker × CachedPrice P × String) :=
  match svc.reading i with
  | none => []
  | some prices =>
    if prices.entries.isEmpty then []
    else ((svc.restamp prices i.now).cacheEntries prices).getD []

/-- The tick does not raise, and it hands every price served for a ticker of `_ticker_to_id` to the
cache. -/
def Contained (svc : PriceService P) (stores : Stores P) (i : TickInput P) : Prop :=
  (svc.tick stores i).status ≠ .raised ∧
  ∀ t ∈ svc.tickerToId.keys, ∀ p, (svc.servedRead i).get? t = some p →
    ∃ e ∈ svc.handedToCache i, e.1 = t ∧ e.2.1.price = p

omit [DecidableEq P] in
/-- A price without an id stops the cache write before its `try`. -/
lemma cacheEntries_of_notMem (ht : t ∈ prices.keys) (hid : t ∉ svc.tickerToId.keys) :
    svc.cacheEntries prices = none := by
  cases hentries : svc.cacheEntries prices with
  | none => rfl
  | some out =>
    obtain ⟨p, hmem⟩ := Dict.mem_keys.1 ht
    obtain ⟨entry, hentry⟩ := Dict.exists_of_mapM_eq_some hentries hmem
    obtain ⟨since, -, hmap⟩ := Option.bind_eq_some_iff.1 hentry
    obtain ⟨id, hget, -⟩ := Option.map_eq_some_iff.1 hmap
    exact absurd (Dict.mem_keys_iff.2 ⟨id, hget⟩) hid

/-- **What a tick leaves in the cache** is what the pipeline makes of the entries it was handed,
where it got to them. -/
theorem redis_tick (svc : PriceService P) (stores : Stores P) (i : TickInput P) :
    (svc.tick stores i).stores.redis = (stores.redis.setPricesIfNewer
      ((svc.handedToCache i).filter fun e => i.cache.applies e.1)
        svc.settings.priceCacheTtlSeconds).1 := by
  obtain ⟨upstream, fetchedAt, stats, -, hcases⟩ := tick_cases svc stores i
  unfold handedToCache
  rcases hcases with ⟨hread, htick⟩ | ⟨hread, hempty, htick⟩ | ⟨hread, hne, htick⟩
  · rw [htick, hread]
    rfl
  · rw [htick, hread]
    dsimp only
    rw [hempty]
    rfl
  -- some price was read: the cache write is the first of the three
  · have hheld : upstream.entries.isEmpty = false := by simpa using hne
    -- the counters have no part in what is handed to the cache
    have hentries : ((svc.afterRead upstream fetchedAt stats).restamp upstream
        i.now).cacheEntries upstream = (svc.restamp upstream i.now).cacheEntries upstream := rfl
    have hredis : ((svc.afterRead upstream fetchedAt stats).applyPrices stores i
        upstream).stores.redis = (((svc.afterRead upstream fetchedAt stats).restamp upstream
          i.now).writeCache upstream i.cache stores.redis).store := by
      unfold applyPrices
      dsimp only
      split <;> rfl
    rw [htick, hread, hredis]
    dsimp only
    rw [hheld, if_neg (by simp)]
    unfold writeCache
    rw [hentries]
    -- a ticker without an id raises before anything is sent
    cases (svc.restamp upstream i.now).cacheEntries upstream with
    | none => rfl
    | some entries =>
      cases i.cache with
      | ok =>
        rw [Option.getD_some, show entries.filter (fun e => CacheOutcome.ok.applies e.1) = entries
          from List.filter_true entries]
        rfl
      | error applied => rfl

lemma applyPrices_status (svc : PriceService P) (stores : Stores P) (i : TickInput P)
    (hids : ∀ t ∈ prices.keys, t ∈ svc.tickerToId.keys)
    (hinj : ∀ t t' id, svc.tickerToId.get? t = some id → svc.tickerToId.get? t' = some id →
      t = t') : (svc.applyPrices stores i prices).status = .completed := by
  obtain ⟨stats, heq⟩ := applyPrices_eq stores i hids hinj
  rw [heq]

/-- **When a tick raises**: exactly if its read does, or returns a ticker without id. -/
lemma tick_status_iff (stores : Stores P)
    (hinj : ∀ t t' id, svc.tickerToId.get? t = some id → svc.tickerToId.get? t' = some id →
      t = t') : (svc.tick stores i).status ≠ .raised ↔
    ∃ prices, svc.reading i = some prices ∧ ∀ t ∈ prices.keys, t ∈ svc.tickerToId.keys := by
  obtain ⟨upstream, fetchedAt, stats, -, hcases⟩ := tick_cases svc stores i
  rcases hcases with ⟨hread, htick⟩ | ⟨hread, hempty, htick⟩ | ⟨hread, -, htick⟩
  · rw [htick, hread]
    simp
  · rw [htick]
    refine ⟨fun _ => ⟨upstream, hread, fun t ht => ?_⟩, fun _ => by simp⟩
    rw [Dict.keys, hempty] at ht
    exact absurd ht List.not_mem_nil
  · rw [htick, hread]
    constructor
    · intro hstatus
      refine ⟨upstream, rfl, fun t ht => ?_⟩
      by_contra hid
      -- a price of a ticker that was not asked for has no id to be stored under
      have hentries : ((svc.afterRead upstream fetchedAt stats).restamp upstream
          i.now).cacheEntries upstream = none := cacheEntries_of_notMem ht hid
      have hraised : (((svc.afterRead upstream fetchedAt stats).restamp upstream
          i.now).writeCache upstream i.cache stores.redis).raised = true := by
        rw [writeCache, hentries]
      refine hstatus ?_
      unfold applyPrices
      dsimp only
      rw [hraised]
      rfl
    -- with ids for all of them the three writes go through
    · rintro ⟨prices, hprices, hids⟩
      obtain rfl := Option.some.inj hprices
      rw [applyPrices_status (svc.afterRead upstream fetchedAt stats) stores i hids hinj]
      simp

/-- A tick is contained exactly if its read returns tickers with ids only. -/
lemma contained_iff (stores : Stores P)
    (hinj : ∀ t t' id, svc.tickerToId.get? t = some id → svc.tickerToId.get? t' = some id →
      t = t') : svc.Contained stores i ↔
    ∃ prices, svc.reading i = some prices ∧ ∀ t ∈ prices.keys, t ∈ svc.tickerToId.keys := by
  refine ⟨fun h => (tick_status_iff stores hinj).1 h.1, fun h => ?_⟩
  refine ⟨(tick_status_iff stores hinj).2 h, ?_⟩
  obtain ⟨prices, hread, hids⟩ := h
  intro t _ p hp
  rw [servedRead_of_reading hread] at hp
  have hmem := Dict.get?_eq_some_iff.1 hp
  refine ⟨(t, (svc.restamp prices i.now).payloadOf i.now (t, p),
    ((svc.restamp prices i.now).payloadOf i.now (t, p)).effectiveAt), ?_, rfl, rfl⟩
  unfold handedToCache
  rw [hread]
  dsimp only
  rw [if_neg (by simpa using List.ne_nil_of_mem hmem),
    (ready_restamp hids i.now).cacheEntries_eq i.now, Option.getD_some]
  exact List.mem_map_of_mem (List.mem_map_of_mem hmem)

end Tick

section Vendor

variable {F : Type u} {svc : PriceService F} {i : TickInput F} {py : Floats F}
  {payload : JsonValue F}

/-- The input of a tick whose price request, if it makes one, gets this reply. -/
def vendorInput (py : Floats F) (svc : PriceService F) (i : TickInput F) (reply : VendorReply F) :
    TickInput F :=
  { i with fetch := reply.fetched py svc.tickerToId.keys }

/-- The previous read has prices for tickers of `_ticker_to_id` only. -/
def HoldsListed (svc : PriceService F) : Prop :=
  ∀ t ∈ svc.upstreamPrices.keys, t ∈ svc.tickerToId.keys

/-- What holds of every started service, whatever it has read since. -/
structure Keyed (svc : PriceService F) : Prop where
  asks : svc.tickerToId.keys ≠ []
  ids_injective : ∀ t t' id, svc.tickerToId.get? t = some id → svc.tickerToId.get? t' = some id →
    t = t'

variable [DecidableEq F]

/-- **One tick and its answer.**  A tick that asks the vendor is contained exactly if the answer is
accepted, or is refused while the previous read is listed. -/
theorem contained_answer_iff (hs : svc.Keyed) (stores : Stores F)
    (hcalls : svc.callsUpstream i.monotonic = true) :
    svc.Contained stores (svc.vendorInput py i (.answered payload)) ↔
      VendorSource.Accepted py svc.tickerToId.keys payload ∨
        VendorSource.Refused py payload ∧ svc.HoldsListed := by
  rw [contained_iff stores hs.ids_injective, VendorSource.accepted_iff hs.asks,
    VendorSource.refused_iff hs.asks]
  cases hfetch : VendorSource.fetch py svc.tickerToId.keys payload with
  | ok prices =>
    have hread : svc.reading (svc.vendorInput py i (.answered payload)) = some prices :=
      reading_of_returned hcalls (congrArg VendorSource.outcome hfetch)
    rw [hread]
    simp
  | error err =>
    have hread : svc.reading (svc.vendorInput py i (.answered payload)) =
        if err.caught then some svc.upstreamPrices else none :=
      reading_of_raised hcalls (congrArg VendorSource.outcome hfetch)
    rw [hread]
    cases hcaught : err.caught with
    | true => simp [HoldsListed, hcaught]
    | false => simp [hcaught]

/-- A tick that serves the previous read is contained exactly if that read is listed. -/
lemma contained_serves_iff (hs : svc.Keyed) (stores : Stores F)
    (hserves : svc.callsUpstream i.monotonic = false) (reply : VendorReply F) :
    svc.Contained stores (svc.vendorInput py i reply) ↔ svc.HoldsListed := by
  have hread : svc.reading (svc.vendorInput py i reply) = some svc.upstreamPrices :=
    reading_of_serves hserves
  rw [contained_iff stores hs.ids_injective, hread]
  simp [HoldsListed]

end Vendor

end PriceService

/-! ## Runs against the vendor -/

/-- A tick of a service whose source is the vendor: the stores it finds, what the vendor replies if
it is asked, and what else can leave the tick. -/
structure VendorTick (F : Type u) where
  stores : Stores F
  input : TickInput F
  reply : VendorReply F
  escapes : Escapes

namespace VendorTick

variable {F : Type u} [DecidableEq F] {svc svc' : PriceService F} {e : VendorTick F} {py : Floats F}

/-- The ticks of a service that was started with the vendor source. -/
def system (py : Floats F) : System (PriceService F) (VendorTick F) where
  init svc := ∃ settings before read stores, settings.priceSource = .api ∧
    PriceService.start settings before read = (stores, some svc)
  step svc e :=
    some (svc.tickWith e.escapes e.stores (svc.vendorInput py e.input e.reply)).service

/-- Unless its request failed, the tick is contained. -/
def Withstood (py : Floats F) (svc : PriceService F) (e : VendorTick F) : Prop :=
  (svc.callsUpstream e.input.monotonic = true → ∃ payload, e.reply = .answered payload) →
    svc.Contained e.stores (svc.vendorInput py e.input e.reply)

/-- If the tick asks the vendor, the answer is accepted or refused. -/
def Usable (py : Floats F) (svc : PriceService F) (e : VendorTick F) : Prop :=
  svc.callsUpstream e.input.monotonic = true → ∀ payload, e.reply = .answered payload →
    VendorSource.Accepted py svc.tickerToId.keys payload ∨ VendorSource.Refused py payload

omit [DecidableEq F] in
lemma keyed_of_start {settings : Settings} {before stores : Stores F}
    {read : PriceService.CatalogRead}
    (h : PriceService.start settings before read = (stores, some svc)) :
    svc.Keyed ∧ svc.HoldsListed :=
  ⟨⟨PriceService.start_asks h, (PriceService.start_service h).2.1.ids_injective⟩,
    (PriceService.start_service h).2.1.upstream_requested⟩

/-- A tick keeps the ids, and holds what was held before or what the vendor answered. -/
lemma step_cases (h : (system py).step svc e = some svc') :
    svc'.tickerToId = svc.tickerToId ∧
    (svc'.upstreamPrices = svc.upstreamPrices ∨
      svc.callsUpstream e.input.monotonic = true ∧
        e.reply.fetched py svc.tickerToId.keys = .returned svc'.upstreamPrices) := by
  obtain rfl := Option.some.inj h
  obtain ⟨-, hids, -, hupstream⟩ := PriceService.tickWith_read e.escapes svc e.stores
    (svc.vendorInput py e.input e.reply)
  obtain ⟨upstream, fetchedAt, stats, hread, hfrom, -⟩ := PriceService.currentPrices_cases
    { svc with stats.ticks := svc.stats.ticks + 1 } (svc.vendorInput py e.input e.reply)
  rw [hread] at hids hupstream
  refine ⟨hids, ?_⟩
  cases hcalls : svc.callsUpstream e.input.monotonic with
  | false =>
    have hserves := PriceService.currentPrices_of_serves (show
      { svc with stats.ticks := svc.stats.ticks + 1 }.callsUpstream e.input.monotonic = false
        from hcalls) (svc.vendorInput py e.input e.reply).fetch
    have hheld : upstream = svc.upstreamPrices :=
      congrArg PriceService.upstreamPrices (hread.symm.trans (congrArg Prod.fst hserves))
    exact Or.inl (hupstream.trans hheld)
  | true =>
    rcases hfrom with hheld | hfetch
    · exact Or.inl (hupstream.trans hheld)
    · exact Or.inr ⟨rfl, hfetch.trans (congrArg FetchOutcome.returned hupstream.symm)⟩

/-- A service that holds listed prices withstands exactly the usable answers. -/
lemma withstood_iff (hs : svc.Keyed ∧ svc.HoldsListed) : Withstood py svc e ↔ Usable py svc e := by
  obtain ⟨hkeyed, hlisted⟩ := hs
  unfold Withstood Usable
  cases hcalls : svc.callsUpstream e.input.monotonic with
  | false =>
    rw [PriceService.contained_serves_iff hkeyed e.stores hcalls e.reply]
    simp [hlisted]
  | true =>
    cases e.reply with
    | answered payload =>
      rw [PriceService.contained_answer_iff hkeyed e.stores hcalls]
      simp [hlisted]
    | failed caught => simp

/-- A tick keeps the service keyed, and after a usable answer it holds listed prices. -/
lemma listed_step (hs : svc.Keyed ∧ svc.HoldsListed) (hu : Usable py svc e)
    (h : (system py).step svc e = some svc') : svc'.Keyed ∧ svc'.HoldsListed := by
  obtain ⟨hkeyed, hlisted⟩ := hs
  obtain ⟨hids, hheld⟩ := step_cases h
  refine ⟨⟨by rw [hids]; exact hkeyed.asks, by rw [hids]; exact hkeyed.ids_injective⟩, ?_⟩
  unfold PriceService.HoldsListed
  rw [hids]
  rcases hheld with hheld | ⟨hcalls, hfetched⟩
  · rw [hheld]
    exact hlisted
  · cases hreply : e.reply with
    | failed caught =>
      rw [hreply] at hfetched
      exact absurd hfetched (by simp [VendorReply.fetched])
    | answered payload =>
      rw [hreply] at hfetched
      rcases hu hcalls payload hreply with haccepted | hrefused
      · obtain ⟨prices, hprices, hkeys⟩ := (VendorSource.accepted_iff hkeyed.asks).1 haccepted
        rw [VendorReply.fetched, hprices] at hfetched
        rw [← FetchOutcome.returned.inj hfetched]
        exact hkeys
      · rw [VendorReply.fetched, VendorSource.fetch_of_refused hkeyed.asks hrefused] at hfetched
        exact absurd hfetched (by simp [VendorSource.outcome])

/-- **The answers a service withstands.**  Over any run of a service with the vendor source, no tick
is aborted and every price served reaches the cache write exactly if every answer is accepted or
refused. -/
theorem withstands_iff (hinit : (system py).init svc) (es : List (VendorTick F)) :
    (system py).Along (Withstood py) svc es ↔ (system py).Along (Usable py) svc es := by
  obtain ⟨settings, before, read, stores, -, hstart⟩ := hinit
  exact System.along_iff (fun _ _ _ hs hu h => listed_step hs hu h) (fun _ _ hs => withstood_iff hs)
    es (keyed_of_start hstart)

/-! ## An answer that aborts a tick -/

/-- Whole prices, written in digits. -/
def wholeFloats : Floats ℕ where
  ofBool := Bool.toNat
  ofInt n := some n.toNat
  ofStr s := if s = "" then none else FixedWidth.unpad s.toList

/-- A tick at `now` that is answered `payload`. -/
def answeredTick (now : ℚ) (payload : JsonValue ℕ) : VendorTick ℕ where
  stores := .fresh
  input := (Metered.minuteTick now (.raised false)).1
  reply := .answered payload
  escapes := .none

lemma init_minuteService (py : Floats ℕ) : (system py).init Metered.minuteService := by
  have hstart : PriceService.start Metered.minuteSettings .fresh PriceService.soloRead =
      (Metered.minuteStart.stores, some Metered.minuteService) :=
    Prod.ext rfl (Option.some_get _).symm
  exact ⟨_, _, _, _, rfl, hstart⟩

/-- **One nested price aborts the tick** that asked for it. -/
theorem nested_price_aborts : ¬ ∀ (py : Floats ℕ) (svc : PriceService ℕ) (es : List (VendorTick ℕ)),
    (system py).init svc → (system py).Along (Withstood py) svc es := by
  intro h
  have haborts : (Metered.minuteService.tick .fresh (Metered.minuteService.vendorInput wholeFloats
      (answeredTick 100 (.obj [("AAPL", .arr [])])).input
        (.answered (.obj [("AAPL", .arr [])])))).status = .raised := by
    decide +kernel
  have hwithstood := (h wholeFloats _ [answeredTick 100 (.obj [("AAPL", .arr [])])]
    (init_minuteService _)).1
  exact (hwithstood fun _ => ⟨_, rfl⟩).1 haborts

/-- A null for a ticker that was not asked for, and a minute later a text that is no number, abort
nothing. -/
theorem unpriced_answers_withstood : (system wholeFloats).Along (Withstood wholeFloats)
    Metered.minuteService [answeredTick 100 (.obj [("AAPL", .int 7), ("ATVI", .null)]),
      answeredTick 160 (.obj [("AAPL", .str "n/a")])] := by
  refine (withstands_iff (init_minuteService _) _).2 ⟨?_, fun svc _ => ⟨?_, fun _ _ => trivial⟩⟩
  · rintro - payload ⟨rfl⟩
    refine Or.inl ⟨[("AAPL", .int 7), ("ATVI", .null)], rfl, ?_, ?_⟩
    · simp [VendorSource.Clean, JsonValue.NotNumeric, JsonValue.Unfit, wholeFloats]
    · have hasked : "AAPL" ∈ Metered.minuteService.tickerToId.keys := by decide +kernel
      simpa [JsonValue.isNull] using hasked
  · rintro - payload ⟨rfl⟩
    have htext : wholeFloats.ofStr "n/a" = none := by decide +kernel
    exact Or.inr ⟨[], ("AAPL", .str "n/a"), [], rfl, fun e he => absurd he List.not_mem_nil, htext⟩

end VendorTick
end TickerWatch
