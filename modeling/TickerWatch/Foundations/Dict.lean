import Mathlib.Data.List.Nodup
import Mathlib.Data.List.Basic
import Mathlib.Data.List.Induction
import Mathlib.Data.List.MinMax

/-!
# Finite dictionaries

A dictionary is a list of key-value pairs with distinct keys, kept in insertion order.  It
stands for the three keyed collections a small service is made of: an in-memory dictionary,
a key-value store, and a database table under its primary key.

The distinctness of the keys is a field, so `get?` and membership of a pair are the same fact
(`get?_eq_some_iff`), and every operation is described by what `get?` returns after it.
-/

namespace TickerWatch

universe u v w

/-- Key-value pairs with distinct keys, in insertion order. -/
@[ext] structure Dict (κ : Type u) (ν : Type v) where
  entries : List (κ × ν)
  nodup_keys : (entries.map Prod.fst).Nodup

namespace Dict

variable {κ : Type u} {ν : Type v} {μ : Type w}

instance [DecidableEq κ] [DecidableEq ν] : DecidableEq (Dict κ ν) :=
  fun _ _ => decidable_of_iff _ Dict.ext_iff.symm

/-- The dictionary without entries. -/
def empty : Dict κ ν := ⟨[], List.nodup_nil⟩

/-- The keys, oldest first. -/
def keys (d : Dict κ ν) : List κ := d.entries.map Prod.fst

/-- The values, in the order of their keys. -/
def values (d : Dict κ ν) : List ν := d.entries.map Prod.snd

/-- How many keys there are. -/
def size (d : Dict κ ν) : ℕ := d.entries.length

/-- Keep the entries that satisfy `p`. -/
def filter (p : κ → ν → Bool) (d : Dict κ ν) : Dict κ ν where
  entries := d.entries.filter fun e => p e.1 e.2
  nodup_keys := d.nodup_keys.sublist (List.filter_sublist.map Prod.fst)

/-- Replace every value by a function of its key and itself. -/
def mapValues (f : κ → ν → μ) (d : Dict κ ν) : Dict κ μ where
  entries := d.entries.map fun e => (e.1, f e.1 e.2)
  nodup_keys := by simpa [List.map_map, Function.comp_def] using d.nodup_keys

@[simp] lemma keys_empty : (empty : Dict κ ν).keys = [] := rfl

@[simp] lemma keys_mapValues (f : κ → ν → μ) (d : Dict κ ν) : (d.mapValues f).keys = d.keys := by
  simp [keys, mapValues, List.map_map, Function.comp_def]

lemma mem_keys {d : Dict κ ν} {k : κ} : k ∈ d.keys ↔ ∃ v, (k, v) ∈ d.entries := by
  simp [keys]

lemma value_unique {d : Dict κ ν} {k : κ} {a b : ν} (ha : (k, a) ∈ d.entries)
    (hb : (k, b) ∈ d.entries) : a = b := by
  have h := List.inj_on_of_nodup_map d.nodup_keys ha hb rfl
  exact congrArg Prod.snd h

lemma mapM_eq_some_map {α β : Type*} {l : List α} {f : α → Option β} {g : α → β}
    (h : ∀ a ∈ l, f a = some (g a)) : l.mapM f = some (l.map g) := by
  induction l with
  | nil => rfl
  | cons a l ih =>
    rw [List.mapM_cons, h a List.mem_cons_self, ih fun b hb => h b (List.mem_cons_of_mem _ hb)]
    rfl

lemma exists_of_mem_mapM {α β : Type*} {l : List α} {f : α → Option β} {out : List β} {b : β}
    (h : l.mapM f = some out) (hb : b ∈ out) : ∃ a ∈ l, f a = some b := by
  induction l generalizing out with
  | nil =>
    obtain rfl : [] = out := by simpa using h
    exact absurd hb List.not_mem_nil
  | cons a l ih =>
    rw [List.mapM_cons] at h
    obtain ⟨b', hb', hrest⟩ := Option.bind_eq_some_iff.1 h
    obtain ⟨out', hout', heq⟩ := Option.bind_eq_some_iff.1 hrest
    obtain rfl := Option.some.inj heq
    rcases List.mem_cons.1 hb with rfl | hb
    · exact ⟨a, List.mem_cons_self, hb'⟩
    · obtain ⟨a', ha', hf⟩ := ih hout' hb
      exact ⟨a', List.mem_cons_of_mem _ ha', hf⟩

lemma exists_of_mapM_eq_some {α β : Type*} {l : List α} {f : α → Option β} {out : List β}
    (h : l.mapM f = some out) {a : α} (ha : a ∈ l) : ∃ b, f a = some b := by
  induction l generalizing out with
  | nil => exact absurd ha List.not_mem_nil
  | cons a' l ih =>
    rw [List.mapM_cons] at h
    obtain ⟨b, hb, hrest⟩ := Option.bind_eq_some_iff.1 h
    obtain ⟨out', hout', -⟩ := Option.bind_eq_some_iff.1 hrest
    rcases List.mem_cons.1 ha with rfl | ha
    · exact ⟨b, hb⟩
    · exact ih hout' ha

variable [DecidableEq κ]

/-- The value stored under `k`. -/
def get? (d : Dict κ ν) (k : κ) : Option ν :=
  (d.entries.find? fun e => decide (e.1 = k)).map Prod.snd

/-- Whether `k` has a value. -/
def contains (d : Dict κ ν) (k : κ) : Bool := (d.get? k).isSome

/-- Remove the entry under `k`. -/
def erase (d : Dict κ ν) (k : κ) : Dict κ ν := d.filter fun k' _ => decide (k' ≠ k)

/-- Store `v` under `k`: an existing key keeps its place, a new one goes last. -/
def set (d : Dict κ ν) (k : κ) (v : ν) : Dict κ ν :=
  if h : k ∈ d.keys then
    d.mapValues fun k' v' => if k' = k then v else v'
  else
    ⟨d.entries ++ [(k, v)], by
      rw [List.map_append]
      refine List.nodup_append.2 ⟨d.nodup_keys, by simp, ?_⟩
      intro a ha b hb hab
      simp only [List.map_cons, List.map_nil, List.mem_singleton] at hb
      exact h (by rw [← hb, ← hab]; exact ha)⟩

/-- Store `v` under `k` unless `k` already has a value. -/
def setDefault (d : Dict κ ν) (k : κ) (v : ν) : Dict κ ν :=
  if k ∈ d.keys then d else d.set k v

/-- Store every pair of a list, later pairs over earlier ones. -/
def setAll (d : Dict κ ν) (l : List (κ × ν)) : Dict κ ν :=
  l.foldl (fun d e => d.set e.1 e.2) d

/-- Store every entry of `e`, over those already there. -/
def update (d e : Dict κ ν) : Dict κ ν := d.setAll e.entries

/-- The dictionary of a list of pairs, later pairs over earlier ones. -/
def ofList (l : List (κ × ν)) : Dict κ ν := empty.setAll l

/-! ## Lookups -/

/-- Looking a key up and having the pair as an entry are one fact. -/
theorem get?_eq_some_iff {d : Dict κ ν} {k : κ} {v : ν} :
    d.get? k = some v ↔ (k, v) ∈ d.entries := by
  unfold get?
  constructor
  · intro h
    obtain ⟨⟨k', v'⟩, hfind, rfl⟩ := Option.map_eq_some_iff.1 h
    have hk : k' = k := by simpa using List.find?_some hfind
    exact hk ▸ List.mem_of_find?_eq_some hfind
  · intro h
    cases hf : d.entries.find? fun e => decide (e.1 = k) with
    | none => exact absurd (List.find?_eq_none.1 hf (k, v) h) (by simp)
    | some e =>
      obtain ⟨k', v'⟩ := e
      have hk : k' = k := by simpa using List.find?_some hf
      have hmem : (k, v') ∈ d.entries := hk ▸ List.mem_of_find?_eq_some hf
      simp [value_unique hmem h]

lemma get?_eq_none_iff {d : Dict κ ν} {k : κ} : d.get? k = none ↔ k ∉ d.keys := by
  rw [mem_keys, Option.eq_none_iff_forall_ne_some]
  simp only [ne_eq, get?_eq_some_iff, not_exists]

lemma mem_keys_iff {d : Dict κ ν} {k : κ} : k ∈ d.keys ↔ ∃ v, d.get? k = some v := by
  simp only [mem_keys, get?_eq_some_iff]

/-- A check of all values is a check of all lookups. -/
lemma all_values_iff {d : Dict κ ν} {p : ν → Bool} :
    d.values.all p = true ↔ ∀ k v, d.get? k = some v → p v = true := by
  rw [values, List.all_map, List.all_eq_true]
  constructor
  · intro h k v hv
    exact h (k, v) (get?_eq_some_iff.1 hv)
  · rintro h ⟨k, v⟩ hmem
    exact h k v (get?_eq_some_iff.2 hmem)

@[simp] lemma contains_iff {d : Dict κ ν} {k : κ} : d.contains k = true ↔ k ∈ d.keys := by
  rw [contains, Option.isSome_iff_exists, mem_keys_iff]

lemma contains_eq_false_iff {d : Dict κ ν} {k : κ} : d.contains k = false ↔ d.get? k = none := by
  rw [contains, Option.isSome_eq_false_iff, Option.isNone_iff_eq_none]

@[simp] lemma get?_empty (k : κ) : (empty : Dict κ ν).get? k = none := rfl

/-- A key without a value is not one with a value. -/
lemma ne_of_get? {d : Dict κ ν} {k k' : κ} {v : ν} (h : d.get? k = none)
    (h' : d.get? k' = some v) : k' ≠ k := by
  rintro rfl
  exact absurd (h.symm.trans h') (by simp)

lemma get?_filter (p : κ → ν → Bool) (d : Dict κ ν) (k : κ) :
    (d.filter p).get? k = (d.get? k).filter (p k) := by
  ext v
  rw [get?_eq_some_iff, Option.filter_eq_some_iff, get?_eq_some_iff]
  simp [filter]

@[simp] lemma get?_mapValues (f : κ → ν → μ) (d : Dict κ ν) (k : κ) :
    (d.mapValues f).get? k = (d.get? k).map (f k) := by
  ext v
  rw [get?_eq_some_iff, Option.map_eq_some_iff]
  simp only [mapValues, List.mem_map, get?_eq_some_iff]
  constructor
  · rintro ⟨⟨k', v'⟩, hmem, heq⟩
    obtain ⟨rfl, rfl⟩ := Prod.mk.inj heq
    exact ⟨v', hmem, rfl⟩
  · rintro ⟨v', hmem, rfl⟩
    exact ⟨(k, v'), hmem, rfl⟩

lemma get?_erase (d : Dict κ ν) (k k' : κ) :
    (d.erase k).get? k' = if k' = k then none else d.get? k' := by
  rw [erase, get?_filter]
  cases d.get? k' <;> by_cases h : k' = k <;> simp [h]

lemma get?_set (d : Dict κ ν) (k : κ) (v : ν) (k' : κ) :
    (d.set k v).get? k' = if k' = k then some v else d.get? k' := by
  unfold set
  split
  · rename_i hk
    rw [get?_mapValues]
    by_cases h : k' = k
    · obtain ⟨v', hv'⟩ := mem_keys_iff.1 hk
      simp [h, hv']
    · simp [h]
  · rename_i hk
    by_cases h : k' = k
    · subst h
      rw [if_pos rfl, get?_eq_some_iff]
      simp
    · rw [if_neg h]
      ext w
      rw [get?_eq_some_iff, get?_eq_some_iff]
      simp [h]

@[simp] lemma get?_set_self (d : Dict κ ν) (k : κ) (v : ν) : (d.set k v).get? k = some v := by
  rw [get?_set, if_pos rfl]

lemma get?_set_ne (d : Dict κ ν) {k k' : κ} (v : ν) (h : k' ≠ k) :
    (d.set k v).get? k' = d.get? k' := by
  rw [get?_set, if_neg h]

lemma mem_keys_set {d : Dict κ ν} {k k' : κ} {v : ν} :
    k' ∈ (d.set k v).keys ↔ k' = k ∨ k' ∈ d.keys := by
  simp only [mem_keys_iff, get?_set]
  by_cases h : k' = k <;> simp [h]

lemma mem_keys_erase {d : Dict κ ν} {k k' : κ} :
    k' ∈ (d.erase k).keys ↔ k' ∈ d.keys ∧ k' ≠ k := by
  simp only [mem_keys_iff, get?_erase]
  by_cases h : k' = k <;> simp [h]

lemma keys_set_of_notMem {d : Dict κ ν} {k : κ} (v : ν) (h : k ∉ d.keys) :
    (d.set k v).keys = d.keys ++ [k] := by
  unfold set
  rw [dif_neg h, keys, List.map_append]
  rfl

lemma keys_set_of_mem {d : Dict κ ν} {k : κ} (v : ν) (h : k ∈ d.keys) :
    (d.set k v).keys = d.keys := by
  unfold set
  rw [dif_pos h, keys_mapValues]

lemma keys_erase (d : Dict κ ν) (k : κ) :
    (d.erase k).keys = d.keys.filter fun k' => decide (k' ≠ k) := by
  rw [keys, keys, List.filter_map]
  rfl

lemma get?_setDefault (d : Dict κ ν) (k : κ) (v : ν) (k' : κ) :
    (d.setDefault k v).get? k' = if k' = k then some ((d.get? k).getD v) else d.get? k' := by
  unfold setDefault
  split
  · rename_i hk
    obtain ⟨w, hw⟩ := mem_keys_iff.1 hk
    by_cases h : k' = k <;> simp [h, hw]
  · rename_i hk
    have hnone := get?_eq_none_iff.2 hk
    rw [get?_set, hnone, Option.getD_none]

lemma setAll_append (d : Dict κ ν) (l l' : List (κ × ν)) :
    d.setAll (l ++ l') = (d.setAll l).setAll l' := List.foldl_append

@[simp] lemma setAll_nil (d : Dict κ ν) : d.setAll [] = d := rfl

@[simp] lemma setAll_singleton (d : Dict κ ν) (e : κ × ν) : d.setAll [e] = d.set e.1 e.2 := rfl

/-- The pairs stored last win; a key that is not among them keeps its value. -/
lemma get?_setAll_of_notMem (d : Dict κ ν) (l : List (κ × ν)) (k : κ)
    (h : k ∉ l.map Prod.fst) : (d.setAll l).get? k = d.get? k := by
  induction l generalizing d with
  | nil => rfl
  | cons e l ih =>
    simp only [List.map_cons, List.mem_cons, not_or] at h
    rw [setAll, List.foldl_cons, ← setAll, ih _ h.2, get?_set_ne _ _ h.1]

lemma mem_keys_setAll {d : Dict κ ν} {l : List (κ × ν)} {k : κ} :
    k ∈ (d.setAll l).keys ↔ k ∈ l.map Prod.fst ∨ k ∈ d.keys := by
  induction l generalizing d with
  | nil => simp
  | cons e l ih =>
    rw [setAll, List.foldl_cons, ← setAll, ih, mem_keys_set, List.map_cons, List.mem_cons]
    tauto

lemma mem_or_of_get?_setAll {d : Dict κ ν} {l : List (κ × ν)} {k : κ} {v : ν}
    (h : (d.setAll l).get? k = some v) : (k, v) ∈ l ∨ d.get? k = some v := by
  induction l generalizing d with
  | nil => exact Or.inr h
  | cons e l ih =>
    rcases ih h with hmem | hset
    · exact Or.inl (List.mem_cons_of_mem _ hmem)
    · rw [get?_set] at hset
      split at hset
      · rename_i hk
        rw [hk, ← Option.some.inj hset]
        exact Or.inl List.mem_cons_self
      · exact Or.inr hset

/-- A key all of whose pairs in the list carry one value gets that value. -/
lemma get?_setAll_of_unique (d : Dict κ ν) (l : List (κ × ν)) {k : κ} {v : ν} (h : (k, v) ∈ l)
    (huniq : ∀ w, (k, w) ∈ l → w = v) : (d.setAll l).get? k = some v := by
  induction l using List.reverseRecOn with
  | nil => simp at h
  | append_singleton l e ih =>
    rw [setAll_append, setAll_singleton, get?_set]
    by_cases he : k = e.1
    · have hlast : (k, e.2) ∈ l ++ [e] := by rw [he]; simp
      rw [if_pos he, huniq _ hlast]
    · rw [if_neg he]
      have hmem : (k, v) ∈ l := by
        rcases List.mem_append.1 h with hmem | hmem
        · exact hmem
        · exact absurd (congrArg Prod.fst (List.mem_singleton.1 hmem)) he
      exact ih hmem fun w hw => huniq w (List.mem_append_left _ hw)

lemma get?_setAll_of_mem (d : Dict κ ν) (l : List (κ × ν)) {k : κ} {v : ν}
    (hl : (l.map Prod.fst).Nodup) (h : (k, v) ∈ l) : (d.setAll l).get? k = some v := by
  refine get?_setAll_of_unique d l h fun w hw => ?_
  have heq := List.inj_on_of_nodup_map hl hw h rfl
  exact congrArg Prod.snd heq

lemma get?_foldl_set (d : Dict κ ν) (ks : List κ) (v : ν) (k : κ) :
    (ks.foldl (fun d k => d.set k v) d).get? k = if k ∈ ks then some v else d.get? k := by
  induction ks generalizing d with
  | nil => simp
  | cons k' ks ih =>
    rw [List.foldl_cons, ih, get?_set]
    by_cases h : k = k' <;> by_cases h' : k ∈ ks <;> simp [h, h']

lemma get?_foldl_setDefault (d : Dict κ ν) (ks : List κ) (v : ν) (k : κ) :
    (ks.foldl (fun d k => d.setDefault k v) d).get? k =
      if k ∈ ks then some ((d.get? k).getD v) else d.get? k := by
  induction ks generalizing d with
  | nil => simp
  | cons k' ks ih =>
    rw [List.foldl_cons, ih, get?_setDefault]
    by_cases h : k = k' <;> by_cases h' : k ∈ ks <;> simp [h, h']

/-- A key has at most one entry. -/
lemma filter_entries_key (d : Dict κ ν) (k : κ) :
    d.entries.filter (fun e => decide (e.1 = k)) = (d.get? k).toList.map fun v => (k, v) := by
  obtain ⟨l, hl⟩ := d
  unfold get?
  induction l with
  | nil => rfl
  | cons e l ih =>
    rw [List.map_cons, List.nodup_cons] at hl
    by_cases h : e.1 = k
    · have hrest : l.filter (fun e => decide (e.1 = k)) = [] := by
        rw [List.filter_eq_nil_iff]
        intro e' he' heq
        exact hl.1 (h.trans (of_decide_eq_true heq).symm ▸ List.mem_map_of_mem he')
      have hfst : e = (k, e.2) := by rw [← h]
      rw [List.filter_cons_of_pos (by simpa using h), hrest,
        List.find?_cons_of_pos (by simpa using h)]
      exact congrArg (fun x => [x]) hfst
    · rw [List.filter_cons_of_neg (by simpa using h), List.find?_cons_of_neg (by simpa using h)]
      exact ih hl.2

/-- Of the things built from the entries, those that belong to one key. -/
lemma filter_map_entries {β κ' : Type*} [DecidableEq κ'] (d : Dict κ ν) (g : κ × ν → β)
    (key : β → κ') (k' : κ') (k : κ) (hkey : ∀ e ∈ d.entries, key (g e) = k' ↔ e.1 = k) :
    (d.entries.map g).filter (fun b => decide (key b = k')) =
      (d.get? k).toList.map fun v => g (k, v) := by
  have hsame : d.entries.filter ((fun b => decide (key b = k')) ∘ g) =
      d.entries.filter fun e => decide (e.1 = k) := by
    refine List.filter_congr fun e he => ?_
    rw [Function.comp_apply, decide_eq_decide]
    exact hkey e he
  rw [List.filter_map, hsame, filter_entries_key, List.map_map]
  rfl

@[simp] lemma get?_update (d e : Dict κ ν) (k : κ) :
    (d.update e).get? k = (e.get? k).or (d.get? k) := by
  unfold update
  cases he : e.get? k with
  | none => simpa using get?_setAll_of_notMem d e.entries k (get?_eq_none_iff.1 he)
  | some v => simpa using get?_setAll_of_mem d e.entries e.nodup_keys (get?_eq_some_iff.1 he)

lemma get?_ofList_of_unique {l : List (κ × ν)} {k : κ} {v : ν} (h : (k, v) ∈ l)
    (huniq : ∀ w, (k, w) ∈ l → w = v) : (ofList l).get? k = some v :=
  get?_setAll_of_unique _ _ h huniq

lemma get?_ofList_of_notMem {l : List (κ × ν)} {k : κ} (h : k ∉ l.map Prod.fst) :
    (ofList l).get? k = none := get?_setAll_of_notMem _ _ _ h

lemma mem_of_get?_ofList {l : List (κ × ν)} {k : κ} {v : ν} (h : (ofList l).get? k = some v) :
    (k, v) ∈ l := (mem_or_of_get?_setAll h).resolve_right (by simp)

/-- The dictionary of a function on a list of keys, in which a key may stand twice. -/
lemma get?_ofList_map (ks : List κ) (f : κ → ν) (k : κ) :
    (ofList (ks.map fun k => (k, f k))).get? k = if k ∈ ks then some (f k) else none := by
  split
  case isTrue hk =>
    refine get?_ofList_of_unique (List.mem_map.2 ⟨k, hk, rfl⟩) fun w hw => ?_
    obtain ⟨k', -, heq⟩ := List.mem_map.1 hw
    obtain ⟨rfl, rfl⟩ := Prod.mk.inj heq
    rfl
  case isFalse hk => exact get?_ofList_of_notMem (by simpa using hk)

lemma contains_ofList_iff {l : List (κ × ν)} {k : κ} :
    (ofList l).contains k = true ↔ k ∈ l.map Prod.fst := by
  rw [contains_iff, ofList, mem_keys_setAll]
  simp

/-- Of a list without duplicates that covers the keys, what is not a key makes up the rest. -/
lemma size_add_length_filter {d : Dict κ ν} {l : List κ} (hl : l.Nodup)
    (hsub : ∀ k ∈ d.keys, k ∈ l) :
    d.size + (l.filter fun k => !d.contains k).length = l.length := by
  have hperm : (l.filter fun k => d.contains k).Perm d.keys := by
    refine (List.perm_ext_iff_of_nodup (hl.filter _) d.nodup_keys).2 fun k => ?_
    rw [List.mem_filter, contains_iff]
    exact ⟨fun h => h.2, fun h => ⟨hsub k h, h⟩⟩
  have hsize : d.size = (l.filter fun k => d.contains k).length := by
    rw [hperm.length_eq, keys, List.length_map, size]
  rw [hsize]
  exact (List.length_eq_length_filter_add _).symm

lemma map_keys_get? (d : Dict κ ν) :
    d.keys.map (fun k => (k, d.get? k)) = d.entries.map fun e => (e.1, some e.2) := by
  rw [keys, List.map_map]
  refine List.map_congr_left fun e he => ?_
  show (e.1, d.get? e.1) = (e.1, some e.2)
  rw [get?_eq_some_iff.2 he]

/-- Dictionaries with the same keys in the same order that map them to the same values are equal. -/
lemma ext_get? {d e : Dict κ ν} (hkeys : d.keys = e.keys) (hget : ∀ k ∈ d.keys, d.get? k = e.get? k) :
    d = e := by
  have hentries : d.entries.map (fun e => (e.1, some e.2)) =
      e.entries.map fun e => (e.1, some e.2) := by
    rw [← map_keys_get?, ← map_keys_get?, ← hkeys]
    exact List.map_congr_left fun k hk => by rw [hget k hk]
  refine Dict.ext (List.map_injective_iff.2 (fun a b hab => ?_) hentries)
  obtain ⟨hk, hv⟩ := Prod.mk.inj hab
  exact Prod.ext hk (Option.some.inj hv)

lemma mem_values_iff {d : Dict κ ν} {v : ν} : v ∈ d.values ↔ ∃ k, d.get? k = some v := by
  simp only [values, List.mem_map, Prod.exists, exists_eq_right, get?_eq_some_iff]

/-! ## The largest key -/

section Latest

variable {κ : Type u} [LinearOrder κ] {d : Dict κ ν} {k k' : κ} {v v' : ν}

/-- `k` is the largest key, and `v` is under it. -/
def Latest (d : Dict κ ν) (k : κ) (v : ν) : Prop := d.get? k = some v ∧ ∀ k' ∈ d.keys, k' ≤ k

lemma Latest.unique (h : d.Latest k v) (h' : d.Latest k' v') : k = k' ∧ v = v' := by
  obtain rfl : k = k' :=
    le_antisymm (h'.2 k (mem_keys_iff.2 ⟨v, h.1⟩)) (h.2 k' (mem_keys_iff.2 ⟨v', h'.1⟩))
  exact ⟨rfl, Option.some.inj (h.1.symm.trans h'.1)⟩

lemma latest_set_of_lt (v : ν) (h : ∀ k' ∈ d.keys, k' < k) : (d.set k v).Latest k v := by
  refine ⟨get?_set_self d k v, fun k' hk' => ?_⟩
  rcases mem_keys_set.1 hk' with rfl | hk'
  · exact le_rfl
  · exact (h k' hk').le

lemma Latest.set_of_lt (h : d.Latest k v) (v' : ν) (hlt : k' < k) : (d.set k' v').Latest k v := by
  refine ⟨(get?_set_ne d v' hlt.ne').trans h.1, fun k'' hk'' => ?_⟩
  rcases mem_keys_set.1 hk'' with rfl | hk''
  · exact hlt.le
  · exact h.2 k'' hk''

lemma exists_latest (d : Dict κ ν) : d.keys = [] ∨ ∃ k v, d.Latest k v := by
  cases hmax : d.keys.maximum with
  | bot => exact Or.inl (List.maximum_eq_bot.1 hmax)
  | coe k =>
    obtain ⟨v, hv⟩ := mem_keys_iff.1 (List.maximum_mem hmax)
    exact Or.inr ⟨k, v, hv, fun k' hk' => List.le_maximum_of_mem hk' hmax⟩

end Latest

end Dict

end TickerWatch
