import Mathlib.Data.List.Induction
import Mathlib.Data.String.Basic
import TickerWatch.Foundations.Register
import TickerWatch.Securities.Controller

/-!
# The Redis price cache

`shared/cache.py`: the keyspace, the Lua compare-and-set, the two guarded writers and the reads.
A value is kept decoded (the JSON object the writers store), so the branch of the script for a
value that is not JSON does not arise: nothing in the repository stores one under a price key.

Expiry is not a function of the store.  `EX` is recorded on the entry and a key may be dropped at
any time (`expire`), which is what a reader of the cache can rely on.
-/

namespace TickerWatch

universe u

/-- The JSON object stored under a price key.  `source` is optional because `get_prices` callers
read it with a default. -/
structure CachedPrice (P : Type u) where
  securityId : SecurityId
  price : P
  effectiveAt : String
  source : Option String
  deriving DecidableEq

/-- A stored value with the expiry it was set with. -/
structure CacheEntry (P : Type u) where
  payload : CachedPrice P
  ttlSeconds : ℤ
  deriving DecidableEq

/-- The keyspace of the cache database. -/
abbrev Redis (P : Type u) := Dict String (CacheEntry P)

/-- `price_key`. -/
def priceKey (t : Ticker) : String := "price:" ++ t

/-- The key matches the pattern `price:*`. -/
def isPriceKey (key : String) : Bool := "price:".toList.isPrefixOf key.toList

lemma priceKey_inj {t t' : Ticker} : priceKey t = priceKey t' ↔ t = t' := by
  unfold priceKey
  rw [← String.toList_inj, String.toList_append, String.toList_append, List.append_cancel_left_eq,
    String.toList_inj]

lemma isPriceKey_priceKey (t : Ticker) : isPriceKey (priceKey t) = true := by
  unfold isPriceKey priceKey
  rw [String.toList_append, List.isPrefixOf_iff_prefix]
  exact List.prefix_append _ _

/-- Lua's `>` on strings. -/
def luaGt (a b : String) : Bool := decide (b < a)

namespace Redis

variable {P : Type u}

/-- What is cached for a ticker. -/
def cached (r : Redis P) (t : Ticker) : Option (CachedPrice P) :=
  (Dict.get? r (priceKey t)).map CacheEntry.payload

/-- `_CAS_SCRIPT`: rejects only a strictly older write. -/
def casScript (r : Redis P) (key : String) (payload : CachedPrice P) (effectiveAtIso : String)
    (ttlSeconds : ℤ) : Redis P × Bool :=
  match Dict.get? r key with
  | some existing =>
    if luaGt existing.payload.effectiveAt effectiveAtIso then (r, false)
    else (Dict.set r key ⟨payload, ttlSeconds⟩, true)
  | none => (Dict.set r key ⟨payload, ttlSeconds⟩, true)

/-- `set_price_if_newer`. -/
def setPriceIfNewer (r : Redis P) (t : Ticker) (payload : CachedPrice P) (effectiveAtIso : String)
    (ttlSeconds : ℤ) : Redis P × Bool :=
  casScript r (priceKey t) payload effectiveAtIso ttlSeconds

/-- One queued command of the pipeline, counting what it did. -/
def pipelineStep (ttlSeconds : ℤ) (acc : Redis P × ℕ × ℕ) (e : Ticker × CachedPrice P × String) :
    Redis P × ℕ × ℕ :=
  let out := setPriceIfNewer acc.1 e.1 e.2.1 e.2.2 ttlSeconds
  (out.1, if out.2 then (acc.2.1 + 1, acc.2.2) else (acc.2.1, acc.2.2 + 1))

/-- `set_prices_if_newer`: the store after the pipeline, and how many were written and rejected. -/
def setPricesIfNewer (r : Redis P) (entries : List (Ticker × CachedPrice P × String))
    (ttlSeconds : ℤ) : Redis P × ℕ × ℕ :=
  entries.foldl (pipelineStep ttlSeconds) (r, 0, 0)

/-- `get_prices`: the tickers that are cached, with what is cached for them. -/
def getPrices (r : Redis P) (tickers : List Ticker) : Dict Ticker (CachedPrice P) :=
  Dict.ofList (tickers.filterMap fun t => (cached r t).map fun c => (t, c))

/-- `flush_prices`: the store without its price keys, and how many there were. -/
def flushPrices (r : Redis P) : Redis P × ℕ :=
  (Dict.filter (fun k _ => !isPriceKey k) r,
    (Dict.filter (fun k _ => isPriceKey k) r).size)

/-- A key runs out. -/
def expire (r : Redis P) (key : String) : Redis P := Dict.erase r key

/-! ## What each operation does to the cached prices -/

/-- The register of a ticker: its cached payload under the stamp the script compares. -/
def register (r : Redis P) (t : Ticker) : Option (String × CachedPrice P) :=
  (cached r t).map fun c => (c.effectiveAt, c)

lemma cached_eq_map_register (r : Redis P) (t : Ticker) :
    cached r t = (register r t).map Prod.snd := by
  simp [register, Function.comp_def]

/-- A guarded write touches the register of its ticker only, and there it is an offer that
accepts ties. -/
lemma register_setPriceIfNewer (r : Redis P) (t t' : Ticker) (c : CachedPrice P) (ttl : ℤ) :
    register (setPriceIfNewer r t c c.effectiveAt ttl).1 t' =
      if t = t' then Register.offer .accept (register r t') (c.effectiveAt, c)
      else register r t' := by
  by_cases h : t = t'
  · subst h
    rw [if_pos rfl]
    unfold register setPriceIfNewer casScript cached
    cases hget : Dict.get? r (priceKey t) with
    | none => simp
    | some e =>
      by_cases hgt : luaGt e.payload.effectiveAt c.effectiveAt = true
      · have hlt : c.effectiveAt < e.payload.effectiveAt := of_decide_eq_true hgt
        have hnot : ¬ Register.Admits .accept e.payload.effectiveAt c.effectiveAt := not_le.2 hlt
        simp only [hgt, if_true, hget, Option.map_some]
        rw [Register.offer_some_of_not_admits hnot]
      · have hle : e.payload.effectiveAt ≤ c.effectiveAt :=
          not_lt.1 fun hlt => hgt (decide_eq_true hlt)
        have hadm : Register.Admits .accept e.payload.effectiveAt c.effectiveAt := hle
        simp only [hgt, if_false, Bool.false_eq_true, Dict.get?_set_self, Option.map_some]
        rw [Register.offer_some_of_admits hadm]
  · rw [if_neg h]
    have hkey : priceKey t' ≠ priceKey t := fun heq => h (priceKey_inj.1 heq).symm
    unfold register setPriceIfNewer casScript cached
    split
    · split
      · rfl
      · rw [Dict.get?_set_ne _ _ hkey]
    · rw [Dict.get?_set_ne _ _ hkey]

/-- The counters do not influence the store: the pipeline is its commands in order. -/
lemma setPricesIfNewer_fst (r : Redis P) (entries : List (Ticker × CachedPrice P × String))
    (ttl : ℤ) :
    (setPricesIfNewer r entries ttl).1 =
      entries.foldl (fun r e => (setPriceIfNewer r e.1 e.2.1 e.2.2 ttl).1) r := by
  unfold setPricesIfNewer
  generalize (0, 0) = n
  induction entries generalizing r n with
  | nil => rfl
  | cons e es ih => exact ih _ _

/-- A pipeline of payloads under their own stamps offers to each ticker the payloads queued for
it. -/
lemma register_setPricesIfNewer (r : Redis P) (ws : List (Ticker × CachedPrice P)) (ttl : ℤ)
    (t : Ticker) :
    register (setPricesIfNewer r (ws.map fun w => (w.1, w.2, w.2.effectiveAt)) ttl).1 t =
      Register.offerAll .accept (register r t)
        ((ws.filter fun w => decide (w.1 = t)).map fun w => (w.2.effectiveAt, w.2)) := by
  rw [setPricesIfNewer_fst, List.foldl_map]
  exact Register.view_foldl (fun r w t => register_setPriceIfNewer r w.1 t w.2 ttl) r ws t

lemma cached_flushPrices (r : Redis P) (t : Ticker) : cached (flushPrices r).1 t = none := by
  unfold cached flushPrices
  rw [Dict.get?_filter]
  simp [isPriceKey_priceKey]

lemma cached_expire (r : Redis P) (key : String) (t : Ticker) :
    cached (expire r key) t = if priceKey t = key then none else cached r t := by
  unfold cached expire
  rw [Dict.get?_erase]
  split <;> rfl

/-- An entry that is there after an expiry was there before. -/
lemma cached_of_expire {r : Redis P} {key : String} {t : Ticker} {c : CachedPrice P}
    (h : cached (expire r key) t = some c) : cached r t = some c := by
  rw [cached_expire] at h
  split at h
  · exact absurd h (by simp)
  · exact h

lemma cached_empty (t : Ticker) : cached (Dict.empty : Redis P) t = none := rfl

/-- Reading a list of tickers returns what is cached for those of the list. -/
lemma get?_getPrices (r : Redis P) (tickers : List Ticker) (t : Ticker) :
    (getPrices r tickers).get? t = if t ∈ tickers then cached r t else none := by
  unfold getPrices Dict.ofList
  induction tickers using List.reverseRecOn with
  | nil => simp [Dict.setAll]
  | append_singleton ts t' ih =>
    rw [List.filterMap_append, Dict.setAll_append]
    cases hc : cached r t' with
    | none =>
      have hnil : [t'].filterMap (fun t => (cached r t).map fun c => (t, c)) = [] := by simp [hc]
      rw [hnil, Dict.setAll_nil, ih]
      by_cases h : t = t' <;> simp [h, hc]
    | some c =>
      have hone : [t'].filterMap (fun t => (cached r t).map fun c => (t, c)) = [(t', c)] := by
        simp [hc]
      rw [hone, Dict.setAll_singleton, Dict.get?_set, ih]
      by_cases h : t = t' <;> simp [h, hc]

end Redis
end TickerWatch
