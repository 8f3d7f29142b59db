import TickerWatch.Foundations.Like
import TickerWatch.Foundations.Ranking
import TickerWatch.Foundations.Text
import TickerWatch.Watchlist.Controller

/-!
# Search

`GET /securities/search`: `securities_handler.search` over the ranked `ILIKE` query of
`securities_controller.py`.

What a locale does to texts is a parameter.  Postgres lowers pattern and text before it compares
them, and the rank compares upper-case texts, so the two need not agree on what is equal.

The query is put into the patterns as it is: a `%`, a `_` or a backslash in it acts as it does in a
pattern.  No query can make a pattern that is refused, since each ends in `%`.
-/

namespace TickerWatch

/-- What the locale of the database decides, character by character, and its deterministic
collation.  The wildcards of a pattern and its escape are no letters: lowering a text neither makes
one nor takes one away. -/
structure Locale where
  lower : Char → Char
  upper : Char → Char
  collation : Collation
  lower_wildcard : ∀ c m, m = '%' ∨ m = '_' ∨ m = '\\' → (lower c = m ↔ c = m)
  deterministic : ∀ a b, collation.le a b = true → collation.le b a = true → a = b

namespace Locale

/-- `lower` of a text. -/
def lowerText (loc : Locale) (s : String) : List Char := s.toList.map loc.lower

/-- `upper` of a text. -/
def upperText (loc : Locale) (s : String) : List Char := s.toList.map loc.upper

/-- `text ILIKE pattern`, where the pattern has been lowered and read. -/
def ilike (loc : Locale) (text : String) (ps : List Like.Piece) : Bool :=
  Like.accepts ps (loc.lowerText text)

lemma lower_percent (loc : Locale) : loc.lower '%' = '%' :=
  (loc.lower_wildcard '%' '%' (Or.inl rfl)).2 rfl

lemma ilike_iff {loc : Locale} {text : String} {ps : List Like.Piece} :
    loc.ilike text ps = true ↔ loc.lowerText text ∈ Like.language ps := Like.accepts_iff

end Locale

/-- `securities_schema.Security`. -/
structure SecuritiesSchema.Security where
  id : SecurityId
  ticker : Ticker
  name : String
  exchange : Option String
  deriving DecidableEq, Repr

namespace Catalog

/-! ## The query -/

/-- The patterns of the query: `$1 || '%'` and `'%' || $1 || '%'`. -/
structure SearchPatterns where
  starts : List Like.Piece
  holds : List Like.Piece
  deriving DecidableEq, Repr

/-- The patterns as Postgres reads them. -/
def searchPatterns (loc : Locale) (query : String) : Option SearchPatterns :=
  (Like.parse ((query.toList ++ ['%']).map loc.lower)).bind fun starts =>
    (Like.parse (('%' :: query.toList ++ ['%']).map loc.lower)).map fun holds => ⟨starts, holds⟩

/-- The `WHERE` clause. -/
def searchWhere (loc : Locale) (ps : SearchPatterns) (row : Security) : Bool :=
  loc.ilike row.ticker ps.starts || loc.ilike row.name ps.holds

/-- The `CASE` of the `ORDER BY` clause. -/
def searchRank (loc : Locale) (query : String) (ps : SearchPatterns) (row : Security) : ℕ :=
  if loc.upperText row.ticker = loc.upperText query then 0
  else if loc.ilike row.ticker ps.starts then 1
  else if loc.ilike row.name ps.starts then 2
  else 3

/-- The order of two rows by the last key, `ticker`. -/
def TickerBefore (coll : Collation) (a b : SecurityId × Security) : Prop :=
  coll.le a.2.ticker b.2.ticker = true

instance (coll : Collation) : DecidableRel (TickerBefore coll) :=
  fun a b => inferInstanceAs (Decidable (coll.le a.2.ticker b.2.ticker = true))

instance (coll : Collation) : Std.Total (TickerBefore coll) :=
  ⟨fun a b => Bool.or_eq_true_iff.1 (coll.total a.2.ticker b.2.ticker)⟩

instance (coll : Collation) : IsTrans (SecurityId × Security) (TickerBefore coll) :=
  ⟨fun a b c => coll.trans a.2.ticker b.2.ticker c.2.ticker⟩

/-- The `ORDER BY` clause. -/
abbrev SearchBefore (loc : Locale) (query : String) (ps : SearchPatterns) :
    SecurityId × Security → SecurityId × Security → Prop :=
  ThenBy (fun e => searchRank loc query ps e.2) <|
    ThenBy (fun e => e.2.ticker.length) (TickerBefore loc.collation)

/-- `search`.  Postgres takes no text with a NUL. -/
def search (loc : Locale) (c : Catalog) (query : String) (limit : ℕ) :
    Option (List (SecurityId × Security)) :=
  if Char.ofNat 0 ∈ query.toList then none
  else (searchPatterns loc query).map fun ps =>
    firstN (SearchBefore loc query ps) limit <|
      c.rows.entries.filter fun e => searchWhere loc ps e.2

end Catalog

namespace SecuritiesHandler

/-- `Security(id=..., ticker=..., name=..., exchange=...)`. -/
def toSecurity (e : SecurityId × Security) : SecuritiesSchema.Security :=
  ⟨e.1, e.2.ticker, e.2.name, e.2.exchange⟩

/-- `query.strip()`. -/
def stripped (query : String) : String := Text.strip Text.pySpace query

/-- `search`; `none` is an exception of the database. -/
def search (loc : Locale) (c : Catalog) (query : String) (limit : ℕ) :
    Option (List SecuritiesSchema.Security) :=
  (c.search loc (stripped query) limit).map (List.map toSecurity)

end SecuritiesHandler

namespace Catalog

variable {loc : Locale} {c c' : Catalog} {query query' : String} {ps ps' : SearchPatterns}
  {limit limit' : ℕ} {id : SecurityId} {row : Security} {res res' : List (SecurityId × Security)}

/-! ## What it returns -/

lemma searchPatterns_of_starts {starts : List Like.Piece}
    (h : Like.parse (loc.lowerText query ++ ['%']) = some starts) :
    searchPatterns loc query = some ⟨starts, .any :: starts⟩ := by
  have hstarts : Like.parse ((query.toList ++ ['%']).map loc.lower) = some starts := by
    rw [List.map_append, List.map_singleton, loc.lower_percent]
    exact h
  have hholds : Like.parse (('%' :: query.toList ++ ['%']).map loc.lower) =
      some (.any :: starts) := by
    rw [List.cons_append, List.map_cons, loc.lower_percent, Like.parse_cons_of_ne (by decide),
      hstarts]
    rfl
  rw [searchPatterns, hstarts, Option.bind_some, hholds]
  rfl

/-- **The patterns of a query are always read.** -/
lemma exists_searchPatterns (loc : Locale) (query : String) :
    ∃ ps, searchPatterns loc query = some ps := by
  obtain ⟨starts, hstarts⟩ := Like.exists_parse_percent (loc.lowerText query)
  exact ⟨_, searchPatterns_of_starts hstarts⟩

lemma nodup_entries (c : Catalog) : c.rows.entries.Nodup :=
  List.Nodup.of_map Prod.fst c.rows.nodup_keys

/-- Two rows that are equal in the order are the same row. -/
lemma eq_of_searchBefore {a b : SecurityId × Security} (ha : a ∈ c.rows.entries)
    (hb : b ∈ c.rows.entries) (h : SearchBefore loc query ps a b)
    (h' : SearchBefore loc query ps b a) : a = b := by
  obtain ⟨hrest, hrest'⟩ := ThenBy.both h h'
  obtain ⟨htick, htick'⟩ := ThenBy.both hrest hrest'
  have hget := Dict.get?_eq_some_iff.2 ha
  have hget' := Dict.get?_eq_some_iff.2 hb
  have hid := c.ticker_unique _ _ _ _ hget hget' (loc.deterministic _ _ htick htick')
  rw [← hid] at hget'
  exact Prod.ext hid (Option.some.inj (hget.symm.trans hget'))

lemma search_eq_some (c : Catalog) (limit : ℕ) (hps : searchPatterns loc query = some ps)
    (hnul : Char.ofNat 0 ∉ query.toList) : c.search loc query limit =
      some (firstN (SearchBefore loc query ps) limit
        (c.rows.entries.filter fun e => searchWhere loc ps e.2)) := by
  rw [search, if_neg hnul, hps]
  rfl

/-- What the statement returns is the first `limit` of the rows that match. -/
lemma isFirst_search (hps : searchPatterns loc query = some ps)
    (h : c.search loc query limit = some res) : IsFirst (SearchBefore loc query ps) limit
      (c.rows.entries.filter fun e => searchWhere loc ps e.2) res := by
  unfold search at h
  split at h
  case isTrue => exact absurd h (by simp)
  case isFalse =>
    rw [hps] at h
    obtain rfl := Option.some.inj h
    exact isFirst_firstN _ _

lemma search_of_isFirst (hps : searchPatterns loc query = some ps)
    (hnul : Char.ofNat 0 ∉ query.toList) (h : IsFirst (SearchBefore loc query ps) limit
      (c.rows.entries.filter fun e => searchWhere loc ps e.2) res) :
    c.search loc query limit = some res := by
  have hsearch := search_eq_some c limit hps hnul
  rw [hsearch]
  refine congrArg some ((isFirst_search hps hsearch).unique (c.nodup_entries.filter _) ?_ h)
  intro a ha b hb
  exact eq_of_searchBefore (List.mem_of_mem_filter ha) (List.mem_of_mem_filter hb)

/-- The order in which the rows lie in the table does not matter. -/
lemma search_congr (hsame : ∀ id, c'.rows.get? id = c.rows.get? id) :
    c'.search loc query limit = c.search loc query limit := by
  obtain ⟨ps, hps⟩ := exists_searchPatterns loc query
  by_cases hnul : Char.ofNat 0 ∈ query.toList
  · rw [search, search, if_pos hnul, if_pos hnul]
  · have hperm : c.rows.entries.Perm c'.rows.entries := by
      rw [List.perm_ext_iff_of_nodup c.nodup_entries c'.nodup_entries]
      rintro ⟨id, row⟩
      rw [← Dict.get?_eq_some_iff, ← Dict.get?_eq_some_iff, hsame]
    have hsearch := search_eq_some c limit hps hnul
    rw [hsearch]
    exact search_of_isFirst hps hnul ((isFirst_search hps hsearch).of_perm (hperm.filter _))

/-! ## What a row has to do with the query -/

lemma searchWhere_iff : searchWhere loc ps row = true ↔
    loc.lowerText row.ticker ∈ Like.language ps.starts ∨
      loc.lowerText row.name ∈ Like.language ps.holds := by
  rw [searchWhere, Bool.or_eq_true, Locale.ilike_iff, Locale.ilike_iff]

/-- When the query is read by itself, it stands before a `%`, and between two. -/
lemma searchPatterns_of_parse {q : List Like.Piece} (h : Like.parse (loc.lowerText query) = some q) :
    searchPatterns loc query = some ⟨q ++ [.any], .any :: q ++ [.any]⟩ :=
  searchPatterns_of_starts (Like.parse_append h)

/-- A row that the query finds, if it has no wildcards. -/
def Meant (loc : Locale) (query : String) (row : Security) : Prop :=
  loc.lowerText query <+: loc.lowerText row.ticker ∨ loc.lowerText query <:+: loc.lowerText row.name

/-- Exact ticker, then ticker prefix, then name prefix, then any part of the name. -/
def meantRank (loc : Locale) (query : String) (row : Security) : ℕ :=
  if loc.upperText row.ticker = loc.upperText query then 0
  else if loc.lowerText query <+: loc.lowerText row.ticker then 1
  else if loc.lowerText query <+: loc.lowerText row.name then 2
  else 3

instance (loc : Locale) (query : String) : DecidablePred (Meant loc query) :=
  fun _ => inferInstanceAs (Decidable (_ ∨ _))

lemma plain_lowerText (h : Like.Plain query.toList) : Like.Plain (loc.lowerText query) := by
  intro c hc
  obtain ⟨d, hd, rfl⟩ := List.mem_map.1 hc
  obtain ⟨hany, hone, hesc⟩ := h d hd
  have hwild (m : Char) (hm : m = '%' ∨ m = '_' ∨ m = '\\') (hd : d ≠ m) : loc.lower d ≠ m :=
    mt (loc.lower_wildcard d m hm).1 hd
  exact ⟨hwild _ (Or.inl rfl) hany, hwild _ (Or.inr (Or.inl rfl)) hone,
    hwild _ (Or.inr (Or.inr rfl)) hesc⟩

lemma searchPatterns_of_plain (h : Like.Plain query.toList) : searchPatterns loc query =
    some ⟨(loc.lowerText query).map .char ++ [.any],
      .any :: (loc.lowerText query).map .char ++ [.any]⟩ :=
  searchPatterns_of_parse (plain_lowerText h).parse

lemma ilike_starts_of_plain {text : String} (h : Like.Plain query.toList)
    (hps : searchPatterns loc query = some ps) :
    loc.ilike text ps.starts = true ↔ loc.lowerText query <+: loc.lowerText text := by
  rw [searchPatterns_of_plain h] at hps
  obtain rfl := Option.some.inj hps
  simp [Locale.ilike_iff, Like.mem_language_append_any, Like.mem_language_map_char]

lemma ilike_holds_of_plain {text : String} (h : Like.Plain query.toList)
    (hps : searchPatterns loc query = some ps) :
    loc.ilike text ps.holds = true ↔ loc.lowerText query <:+: loc.lowerText text := by
  rw [searchPatterns_of_plain h] at hps
  obtain rfl := Option.some.inj hps
  rw [Locale.ilike_iff, Like.mem_language_any_append_any]
  simp [Like.mem_language_map_char]

lemma searchWhere_of_plain (h : Like.Plain query.toList)
    (hps : searchPatterns loc query = some ps) (row : Security) :
    searchWhere loc ps row = decide (Meant loc query row) := by
  rw [Bool.eq_iff_iff, decide_eq_true_iff, searchWhere, Bool.or_eq_true,
    ilike_starts_of_plain h hps, ilike_holds_of_plain h hps, Meant]

lemma searchRank_of_plain (h : Like.Plain query.toList)
    (hps : searchPatterns loc query = some ps) (row : Security) :
    searchRank loc query ps row = meantRank loc query row := by
  unfold searchRank meantRank
  simp only [ilike_starts_of_plain h hps]

lemma searchRank_eq_zero_iff :
    searchRank loc query ps row = 0 ↔ loc.upperText row.ticker = loc.upperText query := by
  unfold searchRank
  constructor
  · intro h
    by_contra hne
    rw [if_neg hne] at h
    split at h
    · exact absurd h (by decide)
    · split at h <;> exact absurd h (by decide)
  · intro h
    exact if_pos h

lemma searchWhere_of_spelled (hesc : '\\' ∉ query.toList)
    (hps : searchPatterns loc query = some ps)
    (hlower : loc.lowerText row.ticker = loc.lowerText query) : searchWhere loc ps row = true := by
  have hesc' : '\\' ∉ loc.lowerText query := by
    intro hmem
    obtain ⟨c, hc, heq⟩ := List.mem_map.1 hmem
    exact hesc ((loc.lower_wildcard c '\\' (Or.inr (Or.inr rfl))).1 heq ▸ hc)
  obtain ⟨q, hq, hself⟩ := Like.exists_parse_self hesc'
  obtain rfl := Option.some.inj (hps.symm.trans (searchPatterns_of_parse hq))
  refine searchWhere_iff.2 (Or.inl (Like.mem_language_append_any.2 ⟨_, hself, ?_⟩))
  rw [hlower]

lemma searchWhere_of_prefix (hclosed : (Like.parse query.toList).isSome = true)
    (hext : query.toList <+: query'.toList) (hps : searchPatterns loc query = some ps)
    (hps' : searchPatterns loc query' = some ps') (h : searchWhere loc ps' row = true) :
    searchWhere loc ps row = true := by
  obtain ⟨q, hq⟩ : ∃ q, Like.parse (loc.lowerText query) = some q := by
    obtain ⟨q, hq⟩ := Option.isSome_iff_exists.1 hclosed
    exact ⟨_, by rw [Locale.lowerText, Like.parse_map loc.lower_wildcard, hq]; rfl⟩
  obtain ⟨e, he⟩ := hext
  have hlower : loc.lowerText query' = loc.lowerText query ++ e.map loc.lower := by
    rw [Locale.lowerText, ← he, List.map_append]
    rfl
  -- what follows the shorter query in the patterns of the longer one is the same in both
  obtain ⟨es, hes⟩ := Like.exists_parse_percent (e.map loc.lower)
  have hlong : searchPatterns loc query' = some ⟨q ++ es, .any :: q ++ es⟩ := by
    refine searchPatterns_of_starts ?_
    rw [hlower, List.append_assoc, Like.parse_append hq, hes]
    rfl
  obtain rfl := Option.some.inj (hps.symm.trans (searchPatterns_of_parse hq))
  obtain rfl := Option.some.inj (hps'.symm.trans hlong)
  rw [searchWhere_iff] at h ⊢
  refine h.imp (fun hticker => ?_) fun hname => ?_
  · obtain ⟨a, ha, b, -, hab⟩ := Like.mem_language_append.1 hticker
    exact Like.mem_language_append_any.2 ⟨a, ha, b, hab⟩
  · obtain ⟨a, ha, b, -, hab⟩ := Like.mem_language_append.1 hname
    exact Like.mem_language_append_any.2 ⟨a, ha, b, hab⟩

end Catalog

lemma toNat_toLower_of_upper {c : Char} (h : 'A'.val ≤ c.val ∧ c.val ≤ 'Z'.val) :
    97 ≤ c.toLower.toNat := by
  have hlow : (65 : ℕ) ≤ c.val.toNat := UInt32.le_iff_toNat_le.1 h.1
  have hhigh : c.val.toNat ≤ 90 := UInt32.le_iff_toNat_le.1 h.2
  have hshift : ('a'.val - 'A'.val).toNat = 32 := by decide
  have hlower : c.toLower.val = c.val + ('a'.val - 'A'.val) := congrArg Char.val (dif_pos h)
  rw [Char.toNat, hlower, UInt32.toNat_add]
  omega

/-- The locale that knows the letters A to Z only and orders by code points. -/
def Locale.ascii : Locale where
  lower := Char.toLower
  upper := Char.toUpper
  collation := .codePoint
  lower_wildcard c m hm := by
    by_cases hupper : 'A'.val ≤ c.val ∧ c.val ≤ 'Z'.val
    · have hlow := toNat_toLower_of_upper hupper
      constructor
      · rintro rfl
        rcases hm with h | h | h <;> rw [h] at hlow <;> exact absurd hlow (by decide)
      · rintro rfl
        rcases hm with rfl | rfl | rfl <;> exact absurd hupper (by decide)
    · have hsame : c.toLower = c := dif_neg hupper
      rw [hsame]
  deterministic a b h h' := le_antisymm (of_decide_eq_true h) (of_decide_eq_true h')

namespace SecuritiesHandler

variable {loc : Locale} {c : Catalog} {query query' : String} {limit limit' : ℕ} {id : SecurityId}
  {row : Security} {res res' : List SecuritiesSchema.Security}

lemma nul_notMem_stripped (h : Char.ofNat 0 ∉ query.toList) :
    Char.ofNat 0 ∉ (stripped query).toList := fun hmem => h (Text.mem_of_mem_strip hmem)

/-- **A search returns the first matching rows.** No query without a NUL character makes a pattern
that is refused; the rows that match are those in the language of the patterns, their first `limit`
by rank, length and ticker are determined, and the order in which the table is read does not matter.
-/
theorem search_spec (loc : Locale) (c : Catalog) (query : String) (limit : ℕ)
    (hnul : Char.ofNat 0 ∉ query.toList) :
    ∃ ps, Catalog.searchPatterns loc (stripped query) = some ps ∧
      (∀ row, Catalog.searchWhere loc ps row = true ↔
        loc.lowerText row.ticker ∈ Like.language ps.starts ∨
          loc.lowerText row.name ∈ Like.language ps.holds) ∧
      ∃ rows, IsFirst (Catalog.SearchBefore loc (stripped query) ps) limit
          (c.rows.entries.filter fun e => Catalog.searchWhere loc ps e.2) rows ∧
        (∀ rows', IsFirst (Catalog.SearchBefore loc (stripped query) ps) limit
          (c.rows.entries.filter fun e => Catalog.searchWhere loc ps e.2) rows' → rows' = rows) ∧
        ∀ c' : Catalog, (∀ id, c'.rows.get? id = c.rows.get? id) →
          search loc c' query limit = some (rows.map toSecurity) := by
  obtain ⟨ps, hps⟩ := Catalog.exists_searchPatterns loc (stripped query)
  have hnul' := nul_notMem_stripped hnul
  have hsearch := Catalog.search_eq_some c limit hps hnul'
  refine ⟨ps, hps, fun _ => Catalog.searchWhere_iff, _, Catalog.isFirst_search hps hsearch,
    fun rows' hrows' => ?_, fun c' hsame => ?_⟩
  · exact Option.some.inj ((Catalog.search_of_isFirst hps hnul' hrows').symm.trans hsearch)
  · rw [search, Catalog.search_congr hsame, hsearch]
    rfl

/-- Three listings. -/
def listings : Catalog :=
  Catalog.empty.upsertMany [("NVAX", "Novavax"), ("NVDA", "NVIDIA"), ("NVR", "NVR Inc")]

/-- A search for a wildcard has an answer. -/
theorem search_percent_answers : ∃ rows, search .ascii listings " % " 2 = some rows := by
  obtain ⟨ps, -, -, rows, -, -, hanswer⟩ := search_spec .ascii listings " % " 2 (by decide)
  exact ⟨_, hanswer listings fun _ => rfl⟩

/-- **A query without wildcards means what it says.** A row is found if its ticker starts with the
query or its name has the query in it, whatever the case of the letters, and the rows come by how
well they match. -/
theorem search_plain_iff (loc : Locale) (c : Catalog) (query : String) (limit : ℕ)
    (hnul : Char.ofNat 0 ∉ query.toList) (hplain : Like.Plain (stripped query).toList)
    (res : List SecuritiesSchema.Security) :
    search loc c query limit = some res ↔ ∃ rows, res = rows.map toSecurity ∧
      IsFirst (ThenBy (fun e => Catalog.meantRank loc (stripped query) e.2) <|
          ThenBy (fun e => e.2.ticker.length) (Catalog.TickerBefore loc.collation)) limit
        (c.rows.entries.filter fun e => decide (Catalog.Meant loc (stripped query) e.2)) rows := by
  obtain ⟨ps, hps⟩ := Catalog.exists_searchPatterns loc (stripped query)
  have hwhere := funext fun e : SecurityId × Security =>
    Catalog.searchWhere_of_plain hplain hps e.2
  have hrank := funext fun e : SecurityId × Security =>
    Catalog.searchRank_of_plain hplain hps e.2
  rw [← hwhere, ← hrank]
  constructor
  · intro h
    obtain ⟨rows, hrows, rfl⟩ := Option.map_eq_some_iff.1 h
    exact ⟨rows, rfl, Catalog.isFirst_search hps hrows⟩
  · rintro ⟨rows, rfl, hrows⟩
    rw [search, Catalog.search_of_isFirst hps (nul_notMem_stripped hnul) hrows]
    rfl

/-- A search for `nvidia` returns the first of what it means. -/
theorem search_nvidia_means : ∃ rows,
    [⟨2, "NVDA", "NVIDIA", none⟩] = rows.map toSecurity ∧
      IsFirst (ThenBy (fun e => Catalog.meantRank .ascii (stripped "nvidia") e.2) <|
          ThenBy (fun e => e.2.ticker.length) (Catalog.TickerBefore Locale.ascii.collation)) 20
        (listings.rows.entries.filter fun e =>
          decide (Catalog.Meant .ascii (stripped "nvidia") e.2)) rows := by
  have hnul : Char.ofNat 0 ∉ "nvidia".toList := by decide +kernel
  have hplain : Like.Plain (stripped "nvidia").toList := by decide +kernel
  exact (search_plain_iff .ascii listings "nvidia" 20 hnul hplain _).1 (by decide +kernel)

/-- **An exact ticker comes first**, unless the query has an escape in it.  The first rank compares
the upper-cased texts and no pattern, so a wildcard in the query does no harm. -/
theorem search_exact_first (hnul : Char.ofNat 0 ∉ query.toList)
    (hesc : '\\' ∉ (stripped query).toList) (hrow : c.rows.get? id = some row)
    (hlower : loc.lowerText row.ticker = loc.lowerText (stripped query))
    (hupper : loc.upperText row.ticker = loc.upperText (stripped query)) (hlimit : 0 < limit) :
    ∃ first rest, search loc c query limit = some (first :: rest) ∧
      loc.upperText first.ticker = loc.upperText (stripped query) := by
  obtain ⟨ps, hps⟩ := Catalog.exists_searchPatterns loc (stripped query)
  have hsearch := Catalog.search_eq_some c limit hps (nul_notMem_stripped hnul)
  have hmem : (id, row) ∈ c.rows.entries.filter fun e => Catalog.searchWhere loc ps e.2 :=
    List.mem_filter.2 ⟨Dict.get?_eq_some_iff.1 hrow, Catalog.searchWhere_of_spelled hesc hps hlower⟩
  obtain ⟨first, rest, hres, -, hfirst⟩ :=
    (Catalog.isFirst_search hps hsearch).exists_head hlimit (List.ne_nil_of_mem hmem)
  have hrank := (hfirst _ hmem).le
  rw [hres] at hsearch
  refine ⟨toSecurity first, rest.map toSecurity, by rw [search, hsearch]; rfl, ?_⟩
  rw [Catalog.searchRank_eq_zero_iff.2 hupper] at hrank
  exact Catalog.searchRank_eq_zero_iff.1 (Nat.le_zero.1 hrank)

/-- `nvr` finds `NVR` first. -/
theorem search_nvr_first : ∃ first rest, search .ascii listings "nvr" 20 = some (first :: rest) ∧
    Locale.ascii.upperText first.ticker = Locale.ascii.upperText (stripped "nvr") :=
  @search_exact_first .ascii listings "nvr" 20 3 ⟨"NVR", "NVR Inc", none, false⟩ (by decide)
    (by decide +kernel) (by decide +kernel) (by decide +kernel) (by decide +kernel) (by decide)

/-- **Typing on narrows the search.**  When a query that does not end inside an escape has an answer
below its limit, whatever a longer query finds is in that answer. -/
theorem search_narrows (hclosed : (Like.parse (stripped query).toList).isSome = true)
    (hext : (stripped query).toList <+: (stripped query').toList)
    (hres : search loc c query limit = some res) (hlt : res.length < limit)
    (hres' : search loc c query' limit' = some res') {s : SecuritiesSchema.Security}
    (hs : s ∈ res') : s ∈ res := by
  obtain ⟨ps, hps⟩ := Catalog.exists_searchPatterns loc (stripped query)
  obtain ⟨ps', hps'⟩ := Catalog.exists_searchPatterns loc (stripped query')
  obtain ⟨rows, hrows, rfl⟩ := Option.map_eq_some_iff.1 hres
  obtain ⟨rows', hrows', rfl⟩ := Option.map_eq_some_iff.1 hres'
  obtain ⟨e, he, rfl⟩ := List.mem_map.1 hs
  rw [List.length_map] at hlt
  obtain ⟨hentry, hwhere⟩ := List.mem_filter.1 ((Catalog.isFirst_search hps' hrows').subset he)
  refine List.mem_map_of_mem ((Catalog.isFirst_search hps hrows).mem_of_lt hlt ?_)
  exact List.mem_filter.2
    ⟨hentry, Catalog.searchWhere_of_prefix hclosed hext hps hps' hwhere⟩

/-- What `nvd` finds, `nv` found. -/
theorem search_nvd_narrows : (⟨2, "NVDA", "NVIDIA", none⟩ : SecuritiesSchema.Security) ∈
    (search .ascii listings "nv" 20).getD [] :=
  @search_narrows .ascii listings "nv" "nvd" 20 20 _ [⟨2, "NVDA", "NVIDIA", none⟩]
    (by decide +kernel) (by decide +kernel) (by decide +kernel) (by decide +kernel)
    (by decide +kernel) _ List.mem_cons_self

end SecuritiesHandler
end TickerWatch
