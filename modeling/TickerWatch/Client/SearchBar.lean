import TickerWatch.Foundations.Dict
import TickerWatch.Foundations.System
import TickerWatch.Foundations.Text

/-!
# The search bar

`SearchBar.jsx`.  Typing, the debounce timer and the answers of `api.search` come in any order.  A
search is numbered when its timer is set, and an answer is listed if no search has been numbered
since.

Clearing the box empties the list and numbers nothing, so the last search still counts as the
latest one: its answer is dropped when another query came after it, and listed when the box was
cleared after it.  Without such answers the list belongs to the query in the box
(`results_belong`), and each of them can be left standing (`late_answer_stands`).

An edit, the render and the effect that follow it are one step: nothing that comes between them
would end otherwise than just before.
-/

namespace TickerWatch

universe u

/-- A call of `api.search`. -/
structure Search where
  token : String
  trimmed : String
  deriving DecidableEq, Repr

/-- The state of a mounted `SearchBar` over securities `S`.  `latest` is the number of the search
that may still change the list; an answer with another number is dropped. -/
structure SearchBar (S : Type u) where
  token : String
  query : String
  results : List S
  error : Option String
  latest : ℕ
  /-- The timer that is set, with the search it starts. -/
  timer : Option (ℕ × Search)
  /-- The searches that wait for an answer. -/
  inFlight : Dict ℕ Search
  /-- History: the answers that have arrived. -/
  answers : Dict ℕ (Search × Except String (List S))

/-- What can happen: the box is edited, `Add` is clicked, the context has a new token, the timer
fires, a search is answered or fails. -/
inductive SearchEvent (S : Type u)
  | edit (query : String)
  | add
  | token (token : String)
  | fire
  | answer (id : ℕ) (outcome : Except String (List S))

namespace SearchBar

variable {S : Type u}

/-- `query.trim()`. -/
def trimmed (s : SearchBar S) : String := Text.strip Text.jsSpace s.query

/-- The search of the query in the box. -/
def search (s : SearchBar S) : Search := ⟨s.token, s.trimmed⟩

/-- The effect on `[query, token]`, after the cleanup of the one before. -/
def effect (s : SearchBar S) : SearchBar S :=
  if s.trimmed = "" then { s with results := [], timer := none }
  else { s with latest := s.latest + 1, timer := some (s.latest + 1, s.search) }

/-- `setQuery`; a query that is already there renders nothing. -/
def setQuery (s : SearchBar S) (query : String) : SearchBar S :=
  if query = s.query then s else { s with query := query }.effect

/-- The context hands down a token. -/
def setToken (s : SearchBar S) (token : String) : SearchBar S :=
  if token = s.token then s else { s with token := token }.effect

/-- The timer's callback up to `await`. -/
def startSearch (s : SearchBar S) (id : ℕ) (search : Search) : SearchBar S :=
  { s with timer := none, inFlight := s.inFlight.set id search }

/-- `if (requestId === latest.current) setResults(found)`. -/
def listed (s : SearchBar S) (id : ℕ) : Except String (List S) → List S
  | .ok found => if id = s.latest then found else s.results
  | .error _ => s.results

/-- `setError(err.message)` in the `catch`. -/
def reported (s : SearchBar S) : Except String (List S) → Option String
  | .ok _ => s.error
  | .error message => some message

/-- The callback from `await` on. -/
def receive (s : SearchBar S) (id : ℕ) (search : Search) (outcome : Except String (List S)) :
    SearchBar S :=
  { s with
    results := s.listed id outcome
    error := s.reported outcome
    inFlight := s.inFlight.erase id
    answers := s.answers.set id (search, outcome) }

/-- One event.  The list has an `Add` button when it has results. -/
def step (s : SearchBar S) : SearchEvent S → Option (SearchBar S)
  | .edit query => some (s.setQuery query)
  | .add => if s.results.isEmpty then none else some (s.setQuery "")
  | .token token => some (s.setToken token)
  | .fire => s.timer.map fun timer => s.startSearch timer.1 timer.2
  | .answer id outcome => (s.inFlight.get? id).map fun search => s.receive id search outcome

/-- The bar when it is mounted. -/
def mounted (token : String) : SearchBar S := ⟨token, "", [], none, 0, none, .empty, .empty⟩

/-- The runs of a search bar. -/
def system : System (SearchBar S) (SearchEvent S) where
  init s := ∃ token, s = mounted token
  step := step

/-! ## What should be listed -/

/-- No timer is pending and no search is in flight. -/
def Settled (s : SearchBar S) : Prop := s.timer = none ∧ s.inFlight.keys = []

/-- The latest search is that of the query in the box, and what it found is listed; of a blank query
nothing is. -/
def Belongs (s : SearchBar S) : Prop :=
  (s.trimmed ≠ "" → ∃ outcome, s.answers.get? s.latest = some (s.search, outcome) ∧
    ∀ found, outcome = .ok found → s.results = found) ∧
  (s.trimmed = "" → s.results = [])

/-- What an event brings to the search `id`. -/
def found (id : ℕ) : SearchEvent S → List S
  | .answer id' (.ok found) => if id' = id then found else []
  | _ => []

/-- While the box is blank, the last search does not find anything. -/
def Timely (s : SearchBar S) (e : SearchEvent S) : Prop := s.trimmed = "" → found s.latest e = []

instance [DecidableEq S] (s : SearchBar S) (e : SearchEvent S) : Decidable (Timely s e) :=
  inferInstanceAs (Decidable (s.trimmed = "" → found s.latest e = []))

/-- How far the search of a query has come: its timer is set, it is in flight, or its answer has
arrived and is what the list shows, unless it was an error. -/
inductive Asked (s : SearchBar S) : Prop
  | pending (htimer : s.timer = some (s.latest, s.search))
      (hidle : s.inFlight.get? s.latest = none)
  | searching (htimer : s.timer = none) (hflight : s.inFlight.get? s.latest = some s.search)
  | answered (htimer : s.timer = none) (hidle : s.inFlight.get? s.latest = none)
      (outcome : Except String (List S))
      (hanswer : s.answers.get? s.latest = some (s.search, outcome))
      (hlisted : ∀ found, outcome = .ok found → s.results = found)

/-- A query that is not blank has been asked for under the latest number; a blank one sets no
timer. -/
structure Tracked (s : SearchBar S) : Prop where
  asked : s.trimmed ≠ "" → s.Asked
  idle : s.trimmed = "" → s.timer = none
  numbered : ∀ id ∈ s.inFlight.keys, id ≤ s.latest

/-- Of a blank query nothing is listed. -/
def Cleared (s : SearchBar S) : Prop := s.trimmed = "" → s.results = []

variable {s t : SearchBar S} {e : SearchEvent S} {id : ℕ} {search : Search}
  {outcome : Except String (List S)}

/-! ## What a step preserves -/

lemma effect_of_blank (h : s.trimmed = "") :
    s.effect = { s with results := [], timer := none } := if_pos h

lemma effect_of_query (h : s.trimmed ≠ "") :
    s.effect = { s with latest := s.latest + 1, timer := some (s.latest + 1, s.search) } :=
  if_neg h

lemma get?_of_lt (h : ∀ id ∈ s.inFlight.keys, id ≤ s.latest) (hlt : s.latest < id) :
    s.inFlight.get? id = none := by
  refine Dict.get?_eq_none_iff.2 fun hmem => ?_
  have hle := h id hmem
  omega

lemma Tracked.effect (h : ∀ id ∈ s.inFlight.keys, id ≤ s.latest) : s.effect.Tracked := by
  by_cases hblank : s.trimmed = ""
  · rw [effect_of_blank hblank]
    exact ⟨fun hne => absurd hblank hne, fun _ => rfl, h⟩
  · rw [effect_of_query hblank]
    refine ⟨fun _ => .pending rfl ?_, fun heq => absurd heq hblank, fun id hid => ?_⟩
    · exact get?_of_lt (s := s) h (Nat.lt_succ_self _)
    · exact (h id hid).trans (Nat.le_succ _)

lemma cleared_effect (s : SearchBar S) : s.effect.Cleared := by
  by_cases hblank : s.trimmed = ""
  · rw [effect_of_blank hblank]
    exact fun _ => rfl
  · rw [effect_of_query hblank]
    exact fun heq => absurd heq hblank

lemma Tracked.fire (hs : s.Tracked) (htimer : s.timer = some (id, search)) :
    (s.startSearch id search).Tracked := by
  by_cases hblank : s.trimmed = ""
  · rw [hs.idle hblank] at htimer
    exact absurd htimer (by simp)
  · rcases hs.asked hblank with ⟨hpending, -⟩ | ⟨hnone, -⟩ | ⟨hnone, -⟩
    · obtain ⟨rfl, rfl⟩ := Prod.mk.inj (Option.some.inj (htimer.symm.trans hpending))
      refine ⟨fun _ => .searching rfl (Dict.get?_set_self _ _ _), fun _ => rfl, fun id hid => ?_⟩
      rcases Dict.mem_keys_set.1 hid with rfl | hid
      · exact le_refl _
      · exact hs.numbered id hid
    · exact absurd (hnone.symm.trans htimer) (by simp)
    · exact absurd (hnone.symm.trans htimer) (by simp)

lemma receive_of_ne (search : Search) (outcome : Except String (List S)) (h : id ≠ s.latest) :
    (s.receive id search outcome).results = s.results ∧
    (s.receive id search outcome).inFlight.get? s.latest = s.inFlight.get? s.latest ∧
    (s.receive id search outcome).answers.get? s.latest = s.answers.get? s.latest := by
  refine ⟨?_, ?_, Dict.get?_set_ne _ _ h.symm⟩
  · show s.listed id outcome = s.results
    cases outcome with
    | ok found => exact if_neg h
    | error message => rfl
  · show (s.inFlight.erase id).get? s.latest = _
    rw [Dict.get?_erase, if_neg h.symm]

lemma Tracked.receive (hs : s.Tracked) (hflight : s.inFlight.get? id = some search)
    (outcome : Except String (List S)) : (s.receive id search outcome).Tracked := by
  refine ⟨fun hblank => ?_, hs.idle, fun id' hid => hs.numbered id' (Dict.mem_keys_erase.1 hid).1⟩
  by_cases hid : id = s.latest
  · subst hid
    rcases hs.asked hblank with ⟨-, hidle⟩ | ⟨hnone, hsearch⟩ | ⟨-, hidle⟩
    · exact absurd (hidle.symm.trans hflight) (by simp)
    · obtain rfl := Option.some.inj (hsearch.symm.trans hflight)
      refine .answered hnone ?_ outcome (Dict.get?_set_self _ _ _) ?_
      · show (s.inFlight.erase s.latest).get? s.latest = none
        rw [Dict.get?_erase, if_pos rfl]
      · rintro found rfl
        exact if_pos rfl
    · exact absurd (hidle.symm.trans hflight) (by simp)
  · obtain ⟨hresults, hget, hanswers⟩ := receive_of_ne search outcome hid
    rcases hs.asked hblank with ⟨htimer, hidle⟩ | ⟨hnone, hsearch⟩ | ⟨hnone, hidle, o, ho, hlisted⟩
    · exact .pending htimer (hget.trans hidle)
    · exact .searching hnone (hget.trans hsearch)
    · exact .answered hnone (hget.trans hidle) o (hanswers.trans ho) fun found hfound =>
        hresults.trans (hlisted found hfound)

lemma setQuery_cases (s : SearchBar S) (query : String) :
    s.setQuery query = s ∨ s.setQuery query = { s with query := query }.effect := by
  by_cases heq : query = s.query
  · exact Or.inl (if_pos heq)
  · exact Or.inr (if_neg heq)

lemma setToken_cases (s : SearchBar S) (token : String) :
    s.setToken token = s ∨ s.setToken token = { s with token := token }.effect := by
  by_cases heq : token = s.token
  · exact Or.inl (if_pos heq)
  · exact Or.inr (if_neg heq)

/-- An event changes nothing, runs the effect after an edit or with another token, starts the search
of the timer, or is an answer. -/
lemma step_cases (h : s.step e = some t) :
    ((∀ id, found id e = []) ∧ (t = s ∨
      (∃ query, t = { s with query := query }.effect) ∨
      (∃ token, t = { s with token := token }.effect) ∨
      ∃ id search, s.timer = some (id, search) ∧ t = s.startSearch id search)) ∨
    ∃ id search outcome, e = .answer id outcome ∧ s.inFlight.get? id = some search ∧
      t = s.receive id search outcome := by
  cases e with
  | edit query =>
    obtain rfl := Option.some.inj h
    exact Or.inl ⟨fun _ => rfl, (setQuery_cases s query).imp_right fun h => Or.inl ⟨query, h⟩⟩
  | add =>
    obtain ⟨-, h⟩ := Option.ite_none_left_eq_some.1 h
    obtain rfl := Option.some.inj h
    exact Or.inl ⟨fun _ => rfl, (setQuery_cases s "").imp_right fun h => Or.inl ⟨"", h⟩⟩
  | token token =>
    obtain rfl := Option.some.inj h
    exact Or.inl ⟨fun _ => rfl,
      (setToken_cases s token).imp_right fun h => Or.inr (Or.inl ⟨token, h⟩)⟩
  | fire =>
    obtain ⟨⟨id, search⟩, htimer, rfl⟩ := Option.map_eq_some_iff.1 h
    exact Or.inl ⟨fun _ => rfl, Or.inr (Or.inr (Or.inr ⟨id, search, htimer, rfl⟩))⟩
  | answer id outcome =>
    obtain ⟨search, hflight, rfl⟩ := Option.map_eq_some_iff.1 h
    exact Or.inr ⟨id, search, outcome, rfl, hflight, rfl⟩

lemma Tracked.step (hs : s.Tracked) (h : s.step e = some t) : t.Tracked := by
  rcases step_cases h with ⟨-, rfl | ⟨query, rfl⟩ | ⟨token, rfl⟩ | ⟨id, search, htimer, rfl⟩⟩ |
    ⟨id, search, outcome, -, hflight, rfl⟩
  · exact hs
  · exact Tracked.effect hs.numbered
  · exact Tracked.effect hs.numbered
  · exact hs.fire htimer
  · exact hs.receive hflight outcome

/-- A timely event lists nothing under a blank query. -/
lemma Cleared.step (hs : s.Cleared) (htimely : s.Timely e) (h : s.step e = some t) :
    t.Cleared := by
  rcases step_cases h with ⟨-, rfl | ⟨query, rfl⟩ | ⟨token, rfl⟩ | ⟨id, search, -, rfl⟩⟩ |
    ⟨id, search, outcome, rfl, -, rfl⟩
  · exact hs
  · exact cleared_effect _
  · exact cleared_effect _
  · exact hs
  · intro hblank
    have hnothing := htimely hblank
    have hempty := hs hblank
    cases outcome with
    | error message => exact hempty
    | ok found =>
      show (if id = s.latest then found else s.results) = []
      rw [hempty]
      exact hnothing

lemma tracked_mounted (token : String) : (mounted token : SearchBar S).Tracked :=
  ⟨fun hne => absurd rfl hne, fun _ => rfl, fun _ hid => absurd hid List.not_mem_nil⟩

lemma tracked_of_reachable (h : system.Reachable s) : s.Tracked := by
  refine h.invariant ?_ fun _ _ _ hs hstep => hs.step hstep
  rintro s ⟨token, rfl⟩
  exact tracked_mounted token

/-- **The list belongs to the query in the box.**  In a run in which the last search finds nothing
while the box is blank, a settled bar lists what the search of its query found, and nothing under a
blank query. -/
theorem results_belong (h : system.ReachableWhere Timely s) (hsettled : s.Settled) :
    s.Belongs := by
  obtain ⟨htracked, hcleared⟩ : s.Tracked ∧ s.Cleared := by
    refine h.invariant (I := fun s => s.Tracked ∧ s.Cleared) ?_ fun _ _ _ htimely hs hstep =>
      ⟨hs.1.step hstep, hs.2.step htimely hstep⟩
    rintro s ⟨token, rfl⟩
    exact ⟨tracked_mounted token, fun _ => rfl⟩
  refine ⟨fun hne => ?_, hcleared⟩
  obtain ⟨hnone, hidle⟩ := hsettled
  rcases htracked.asked hne with ⟨htimer, -⟩ | ⟨-, hflight⟩ | ⟨-, -, outcome, hanswer, hlisted⟩
  · exact absurd (hnone.symm.trans htimer) (by simp)
  · have hmem : s.latest ∈ s.inFlight.keys := Dict.mem_keys_iff.2 ⟨_, hflight⟩
    rw [hidle] at hmem
    exact absurd hmem List.not_mem_nil
  · exact ⟨outcome, hanswer, hlisted⟩

/-! ## Answers that come too late -/

/-- Searches in flight can all fail, which leaves the list alone. -/
lemma exists_settle (ids : List ℕ) : ∀ s : SearchBar S, s.timer = none → s.inFlight.keys = ids →
    ∃ es t, system.exec s es = some t ∧ t.Settled ∧ t.query = s.query ∧ t.results = s.results := by
  induction ids with
  | nil => exact fun s htimer hkeys => ⟨[], s, rfl, ⟨htimer, hkeys⟩, rfl, rfl⟩
  | cons id ids ih =>
    intro s htimer hkeys
    obtain ⟨search, hflight⟩ : ∃ search, s.inFlight.get? id = some search :=
      Dict.mem_keys_iff.1 (by rw [hkeys]; exact List.mem_cons_self)
    have hnodup : (id :: ids).Nodup := hkeys ▸ s.inFlight.nodup_keys
    have hrest : (s.receive id search (.error "")).inFlight.keys = ids := by
      show (s.inFlight.erase id).keys = ids
      rw [Dict.keys_erase, hkeys, List.filter_cons_of_neg (by simp)]
      refine List.filter_eq_self.2 fun id' hid' => decide_eq_true ?_
      rintro rfl
      exact (List.nodup_cons.1 hnodup).1 hid'
    obtain ⟨es, t, hexec, hsettled, hquery, hresults⟩ :=
      ih (s.receive id search (.error "")) htimer hrest
    refine ⟨.answer id (.error "") :: es, t, System.exec_cons_eq_some.2 ⟨_, ?_, hexec⟩, hsettled,
      hquery, hresults⟩
    exact Option.map_eq_some_iff.2 ⟨search, hflight, rfl⟩

/-- Whatever the last search finds while the box is blank can be left standing. -/
theorem late_answer_stands (hs : system.Reachable s) (hlate : ¬ s.Timely e)
    (h : system.step s e = some t) :
    ∃ es r, system.exec t es = some r ∧ r.Settled ∧ ¬ r.Belongs := by
  obtain ⟨hblank, hfound⟩ := Classical.not_imp.1 hlate
  have htracked := tracked_of_reachable hs
  have hlisted : t.timer = none ∧ t.query = s.query ∧ t.results = found s.latest e := by
    rcases step_cases h with ⟨hnothing, -⟩ | ⟨id, search, outcome, rfl, -, rfl⟩
    · exact absurd (hnothing s.latest) hfound
    · refine ⟨htracked.idle hblank, rfl, ?_⟩
      cases outcome with
      | error message => exact absurd rfl hfound
      | ok found =>
        by_cases hid : id = s.latest
        · show (if id = s.latest then found else s.results) = if id = s.latest then found else []
          rw [if_pos hid, if_pos hid]
        · exact absurd (if_neg hid) hfound
  obtain ⟨htimer, hquery, hresults⟩ := hlisted
  obtain ⟨es, r, hexec, hsettled, hquery', hresults'⟩ := exists_settle _ t htimer rfl
  refine ⟨es, r, hexec, hsettled, fun hbelongs => hfound ?_⟩
  have hblank' : r.trimmed = "" := by
    rw [trimmed, hquery', hquery]
    exact hblank
  rw [← hresults, ← hresults', hbelongs.2 hblank']

/-! ## An answer before and after the box is cleared -/

/-- A search that another overtakes: its answer arrives second and is dropped. -/
def overtaken : List (SearchEvent ℕ) :=
  [.edit "NV", .fire, .edit "AM ", .fire, .answer 2 (.ok [3]), .answer 1 (.ok [7])]

/-- A search that is answered after the box was cleared. -/
def clearedBefore : List (SearchEvent ℕ) := [.edit "NV", .fire, .edit "", .answer 1 (.ok [7])]

/-- The bar that a list of events leads to. -/
def after (es : List (SearchEvent ℕ)) : SearchBar ℕ :=
  (system.exec (mounted "token") es).getD (mounted "token")

/-- What is listed of two searches is what the second found. -/
theorem overtaken_belongs : (after overtaken).Belongs ∧ (after overtaken).results = [3] := by
  have hrun : system.execWhere Timely (mounted "token") overtaken = some (after overtaken) := rfl
  exact ⟨results_belong ⟨_, ⟨_, rfl⟩, System.runWhere_of_execWhere hrun⟩ ⟨rfl, rfl⟩, rfl⟩

/-- **A cleared box lists a late answer.** -/
theorem late_answer_listed :
    ¬ ∀ s : SearchBar ℕ, system.Reachable s → s.Settled → s.Belongs := by
  intro h
  have hexec : system.exec (mounted "token") clearedBefore = some (after clearedBefore) := rfl
  have hbelongs := h (after clearedBefore) ⟨_, ⟨_, rfl⟩, System.run_of_exec hexec⟩ ⟨rfl, rfl⟩
  have hlisted : (after clearedBefore).results = [7] := rfl
  rw [hbelongs.2 rfl] at hlisted
  exact absurd hlisted (by simp)

end SearchBar
end TickerWatch
