import TickerWatch.Watchlist.Handler

/-!
# The poll client

`usePollWatchlist`: a timer and every added or removed ticker call `refresh`, which is two steps,
the request and what its answer does.

`meta` is left out, which only the status bar reads, and so are the delays of the timer: it calls
`refresh` when it likes.
-/

namespace TickerWatch

universe u

/-- What the status bar shows of the connection. -/
inductive ConnectionStatus
  | connecting
  | live
  | reconnecting
  | offline
  deriving DecidableEq, Repr

/-- The state of the hook and its `previous` ref, which a load compares with to say which securities
changed. -/
structure PollClient (P : Type u) where
  items : List (WatchlistItem P)
  /-- The price of each security when it was last loaded. -/
  previous : Dict SecurityId (Option P)
  changed : List SecurityId
  status : ConnectionStatus
  error : Option String

namespace PollClient

variable {P : Type u}

/-- The hook before its effect has run. -/
def initial : PollClient P := ⟨[], .empty, [], .connecting, none⟩

/-- `refresh` when its request fails. -/
def failRefresh (s : PollClient P) (message : String) : PollClient P :=
  { s with status := .offline, error := some message }

variable [DecidableEq P]

/-- `before !== undefined && before !== item.price`. -/
def moved (previous : Dict SecurityId (Option P)) (it : WatchlistItem P) : Bool :=
  (previous.get? it.id).any fun before => decide (before ≠ it.price)

/-- The loop of `refresh`: the prices it remembers and the securities that moved. -/
def compare (previous : Dict SecurityId (Option P)) (items : List (WatchlistItem P)) :
    Dict SecurityId (Option P) × List SecurityId :=
  items.foldl (fun acc it => (acc.1.set it.id it.price,
    if moved acc.1 it then acc.2 ++ [it.id] else acc.2)) (previous, [])

/-- `refresh` from its answer on. -/
def finishRefresh (s : PollClient P) (items : List (WatchlistItem P)) : PollClient P :=
  { s with
    items := items
    previous := (compare s.previous items).1
    changed := (compare s.previous items).2
    status := .live
    error := none }

/-! ## What the loop finds -/

variable {previous : Dict SecurityId (Option P)} {items : List (WatchlistItem P)} {id : SecurityId}

/-- The loop over what is left of the items, from what it has found so far. -/
lemma foldl_compare (items : List (WatchlistItem P)) (hids : (items.map WatchlistItem.id).Nodup)
    (previous : Dict SecurityId (Option P)) (found : List SecurityId) :
    (items.foldl (fun acc it => (acc.1.set it.id it.price,
      if moved acc.1 it then acc.2 ++ [it.id] else acc.2)) (previous, found)).2 =
      found ++ (items.filter (moved previous)).map WatchlistItem.id := by
  induction items generalizing previous found with
  | nil => simp
  | cons it items ih =>
    rw [List.map_cons, List.nodup_cons] at hids
    rw [List.foldl_cons, ih hids.2]
    -- the prices stored on the way belong to other securities
    have hsame : items.filter (moved (previous.set it.id it.price)) =
        items.filter (moved previous) := by
      refine List.filter_congr fun it' hit' => ?_
      have hne : it'.id ≠ it.id := fun h => hids.1 (h ▸ List.mem_map_of_mem hit')
      rw [moved, Dict.get?_set_ne _ _ hne, ← moved]
    rw [hsame]
    cases hmoved : moved previous it with
    | true => simp [hmoved]
    | false => simp [hmoved]

/-- **What flashes**: the securities of the answer that had another price when they were last
loaded. -/
theorem mem_changed_finishRefresh (s : PollClient P) (hids : (items.map WatchlistItem.id).Nodup) :
    id ∈ (s.finishRefresh items).changed ↔
      ∃ it ∈ items, it.id = id ∧
        ∃ before, s.previous.get? id = some before ∧ before ≠ it.price := by
  have hchanged := foldl_compare items hids s.previous []
  rw [List.nil_append] at hchanged
  show id ∈ (compare s.previous items).2 ↔ _
  rw [compare, hchanged, List.mem_map]
  simp only [List.mem_filter, moved, Option.any_eq_true, decide_eq_true_eq]
  constructor
  · rintro ⟨it, ⟨hit, before, hbefore, hne⟩, rfl⟩
    exact ⟨it, hit, rfl, before, hbefore, hne⟩
  · rintro ⟨it, hit, rfl, before, hbefore, hne⟩
    exact ⟨it, ⟨hit, before, hbefore, hne⟩, rfl⟩

end PollClient
end TickerWatch
