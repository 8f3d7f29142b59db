import TickerWatch.Watchlist.Isolation

/-!
# Concurrent watchlist calls are linearizable

Whatever the interleaving, the `watchlist_items` statements in the order of their execution are a
legal history of the map from users to sets (`RefinesSets.legal`), the tables hold the map that
history leads to (`RefinesSets.sets`), and every call is in it once, when its statement is executed,
with the result its caller gets (`RefinesSets.recorded`).  The rest is read off that: what a call
returns or raises depends on the set at its place in the history.

There is one exception.  A call whose id has more than 64 bits fails where it passes that id to the
database: an `add_item` then does not say that there is no such security, and a `remove_item` does not
say that it is not on the watchlist.  So the refinement holds of a run exactly as long as no statement
is passed such an id (`refines_sets_iff`).
-/

namespace TickerWatch

universe u

namespace WatchlistWorld

variable {P : Type u} {coll : Collation} {start w w' w₁ : WatchlistWorld P} {c : WatchlistCallId}
  {call : WatchlistCall P} {ev : WatchlistEvent P} {es es₁ es₂ : List (WatchlistEvent P)}

/-- The store, one set a user. -/
def setsObject (coll : Collation) (start : WatchlistWorld P) :
    SeqObject (UserId → Set SecurityId) (UserId × SetOp) SetResult :=
  (securitySet coll start.db.catalog).pointwise

/-- The sets after the statements of a log. -/
def setsAfter (coll : Collation) (start : WatchlistWorld P)
    (log : List (WatchlistCallId × SetOp × SetResult)) : UserId → Set SecurityId :=
  (setsObject coll start).after start.db.sets (setHistory log)

/-- What a run from `start` has kept when it reaches `w`: the log of its `watchlist_items`
statements is a legal history of the map of sets, it leads to the sets that are stored, and each
call is in it once, with the result the call goes on with. -/
structure Linearized (coll : Collation) (start w : WatchlistWorld P) : Prop where
  consistent : w.Consistent
  catalog : w.db.catalog = start.db.catalog
  legal : (setsObject coll start).Legal start.db.sets (setHistory w.log)
  sets : w.db.sets = setsAfter coll start w.log
  once : (w.log.map Prod.fst).Nodup
  recorded : ∀ c r, (c, r) ∈ w.log ↔ ∃ call, w.calls.get? c = some call ∧ call.record = some r

lemma setHistory_append (log log' : List (WatchlistCallId × SetOp × SetResult)) :
    setHistory (log ++ log') = setHistory log ++ setHistory log' := List.map_append

lemma linearized_of_init (h : (system (P := P) coll).init start) : Linearized coll start start := by
  have hlog : start.log = [] := h.2.1
  refine ⟨consistent_of_init h, rfl, ?_, ?_, ?_, fun c r => ?_⟩
  · rw [hlog]
    exact SeqObject.legal_nil _
  · rw [hlog]
    rfl
  · rw [hlog]
    exact List.nodup_nil
  · rw [hlog, h.1]
    simp

/-- A call that has run no statement has left no record. -/
lemma record_of_start (h : call.isStart = true) : call.record = none := by
  obtain rfl | ⟨security, rfl⟩ | ⟨security, rfl⟩ := WatchlistCall.start_cases h
  · rfl
  · rfl
  · rfl

/-- The records in the log after one call changes: the others stand as they did. -/
lemma Linearized.recorded_set (h : Linearized coll start w) (call' : WatchlistCall P)
    {log : List (WatchlistCallId × SetOp × SetResult)}
    (hself : ∀ r, (c, r) ∈ log ↔ call'.record = some r)
    (hother : ∀ c' r, c' ≠ c → ((c', r) ∈ log ↔ (c', r) ∈ w.log)) (c' : WatchlistCallId)
    (r : SetOp × SetResult) :
    (c', r) ∈ log ↔ ∃ call, (w.calls.set c call').get? c' = some call ∧ call.record = some r := by
  rw [Dict.get?_set]
  split
  · rename_i hc
    subst hc
    simp [hself]
  · rename_i hc
    rw [hother c' r hc]
    exact h.recorded c' r

/-- A call that has left no record is not in the log. -/
lemma Linearized.notMem_log (h : Linearized coll start w) (hcall : w.calls.get? c = some call)
    (hnone : call.record = none) : c ∉ w.log.map Prod.fst := by
  intro hmem
  obtain ⟨⟨c', r⟩, hr, rfl⟩ := List.mem_map.1 hmem
  obtain ⟨call', hcall', hrecord⟩ := (h.recorded c' r).1 hr
  obtain rfl := Option.some.inj (hcall.symm.trans hcall')
  exact absurd (hnone.symm.trans hrecord) (by simp)

/-- **What one event preserves.** -/
theorem Linearized.step (h : Linearized coll start w)
    (hstep : WatchlistWorld.step coll w ev = some w') : Linearized coll start w' := by
  have hw' := h.consistent.step hstep
  obtain ⟨c, call, -, hstart, -, hnone, rfl⟩ | ⟨c, snapshot, asOf, call, e, -, hcall, hrun, rfl⟩ :=
    step_cases hstep
  · refine ⟨hw', h.catalog, h.legal, h.sets, h.once, h.recorded_set call (fun r => ?_) ?_⟩
    -- a call that starts is new, so it has no record yet
    · have habsent : ∀ r, (c, r) ∉ w.log := by
        intro r hr
        obtain ⟨call', hcall', -⟩ := (h.recorded c r).1 hr
        exact absurd (hnone.symm.trans hcall') (by simp)
      simp [habsent r, record_of_start hstart]
    · exact fun c' r _ => Iff.rfl
  · have hspec := h.consistent.spec hcall hrun
    have hcatalog : e.db.catalog = start.db.catalog := hspec.others.catalog.trans h.catalog
    have hsame : ∀ user' ≠ c.user, e.db.sets user' = w.db.sets user' := fun user' hne =>
      congrArg (fun l => {security | security ∈ l}) (hspec.others.members_ne user' hne)
    cases hr : e.record with
    | none =>
      -- a statement that is not the one that counts leaves log and sets as they are
      obtain ⟨hrecord, hmembers⟩ := hspec.silent hr
      have hlog : (w.after c e).log = w.log := by simp [after, hr]
      have hsets : e.db.sets = w.db.sets := by
        funext user'
        by_cases hne : user' = c.user
        · subst hne
          rw [WatchlistDb.sets, hmembers, WatchlistDb.sets]
        · exact hsame user' hne
      refine ⟨hw', hcatalog, by rw [hlog]; exact h.legal, ?_, by rw [hlog]; exact h.once, ?_⟩
      · rw [hlog]
        exact hsets.trans h.sets
      · rw [hlog]
        refine h.recorded_set e.call (fun r => ?_) fun c' r _ => Iff.rfl
        rw [h.recorded, hrecord]
        simp [hcall]
    | some r =>
      -- the statement that counts takes effect at the end of the log
      obtain ⟨hnone, hrecord, hallows, happly⟩ := hspec.recorded r hr
      have hlog : (w.after c e).log = w.log ++ [(c, r)] := by simp [after, hr]
      have hfresh := h.notMem_log hcall hnone
      rw [h.catalog] at hallows happly
      have hsets : e.db.sets = (setsObject coll start).apply w.db.sets (c.user, r.1) := by
        funext user'
        by_cases hne : user' = c.user
        · subst hne
          rw [happly, setsObject, SeqObject.pointwise_apply_self]
        · rw [hsame user' hne, setsObject, SeqObject.pointwise_apply_ne _ _ hne]
      have hafter := h.sets
      refine ⟨hw', hcatalog, ?_, ?_, ?_, ?_⟩
      · rw [hlog, setHistory_append]
        refine h.legal.concat ?_
        rw [setsAfter] at hafter
        rw [← hafter]
        exact hallows
      · rw [hlog, setsAfter, setHistory_append, SeqObject.after_append, ← setsAfter, ← hafter]
        exact hsets
      · rw [hlog, List.map_append, List.map_singleton, ← List.concat_eq_append]
        exact h.once.concat hfresh
      · rw [hlog]
        refine h.recorded_set e.call (fun r' => ?_) fun c' r' hne => ?_
        · have hold : ∀ r', (c, r') ∉ w.log := fun r' hr' => hfresh (List.mem_map_of_mem hr')
          simp [hold r', hrecord, eq_comm]
        · simp [hne]

theorem linearized_of_exec (hstart : (system coll).init start)
    (h : (system coll).exec start es = some w) : Linearized coll start w :=
  System.invariant_of_exec h (linearized_of_init hstart) fun _ _ _ hI hstep => hI.step hstep

lemma log_prefix_of_exec (h : (system coll).exec w es = some w') : w.log <+: w'.log := by
  refine System.invariant_of_exec (I := fun t => w.log <+: t.log) h List.prefix_rfl ?_
  intro s ev t hs hstep
  obtain ⟨c, call, -, -, -, -, rfl⟩ | ⟨c, snapshot, asOf, call, e, -, -, -, rfl⟩ := step_cases hstep
  · exact hs
  · exact hs.trans (List.prefix_append _ _)

/-! ## What the calls return -/

/-- The tables and the calls of `w`, reached from `start`, are those of a map from users to sets. -/
structure RefinesSets (coll : Collation) (start w : WatchlistWorld P) : Prop where
  /-- The calls of a user resolve to one row, and it is the only default watchlist of the user. -/
  one_row : ∀ c call id, w.calls.get? c = some call → call.watchlistId = some id →
    ∀ id', w.db.auth.watchlists.get? id' = some ⟨c.user, "default"⟩ ↔ id' = id
  /-- The `watchlist_items` statements are a legal history of the map. -/
  legal : (setsObject coll start).Legal start.db.sets (setHistory w.log)
  /-- The tables hold the map the history leads to. -/
  sets : w.db.sets = setsAfter coll start w.log
  /-- For one user, the history is that of the user's own calls. -/
  own : ∀ user, (securitySet coll start.db.catalog).Legal (start.db.sets user)
      (SeqObject.part user (setHistory w.log)) ∧
    w.db.sets user = (securitySet coll start.db.catalog).after (start.db.sets user)
      (SeqObject.part user (setHistory w.log))
  /-- A call is in the history once. -/
  once : (w.log.map Prod.fst).Nodup
  /-- It is there as soon as its statement is executed, with the result it goes on with. -/
  recorded : ∀ c r, (c, r) ∈ w.log ↔ ∃ call, w.calls.get? c = some call ∧ call.record = some r
  /-- `add_item` raises exactly when the catalog has no such security. -/
  add_raises : ∀ c security pc o, w.calls.get? c = some (.add security pc) →
    w.outcome c = some o → (o = .securityNotFound ↔ start.db.catalog.get security = none)
  /-- `remove_item` raises exactly when the set does not have the security at that point. -/
  remove_raises : ∀ c security pc o, w.calls.get? c = some (.remove security pc) →
    w.outcome c = some o → ∃ before r rest, w.log = before ++ (c, .delete security, r) :: rest ∧
      (o = .notOnWatchlist ↔ security ∉ setsAfter coll start before c.user)
  /-- `get_watchlist` returns the set at that point: each member once, in the order of tickers. -/
  get_returns : ∀ c response, w.outcome c = some (.watchlist response) →
    ∃ before r rest, w.log = before ++ (c, .read, r) :: rest ∧
      Enumerates coll start.db.catalog (setsAfter coll start before c.user)
        (response.items.map WatchlistItem.row)

/-- A record in the log, at its place: its result is one the set allows there. -/
lemma Linearized.exists_place (h : Linearized coll start w) (hcall : w.calls.get? c = some call)
    {r : SetOp × SetResult} (hrecord : call.record = some r) :
    ∃ before rest, w.log = before ++ (c, r) :: rest ∧ (securitySet coll start.db.catalog).Allows
      (setsAfter coll start before c.user) r.1 r.2 := by
  obtain ⟨before, rest, hlog⟩ := List.append_of_mem ((h.recorded c r).2 ⟨call, hcall, hrecord⟩)
  have hlegal := h.legal
  rw [hlog, setHistory_append] at hlegal
  exact ⟨before, rest, hlog, hlegal.allows⟩

lemma Linearized.remove_raises (h : Linearized coll start w) {security : SecurityId}
    {pc : RemovePc} {o : WatchlistOutcome P} (hcall : w.calls.get? c = some (.remove security pc))
    (hne : o ≠ .error) (ho : w.outcome c = some o) : ∃ before r rest,
      w.log = before ++ (c, .delete security, r) :: rest ∧
        (o = .notOnWatchlist ↔ security ∉ setsAfter coll start before c.user) := by
  rw [outcome, hcall, Option.bind_some] at ho
  cases pc with
  | resolve pc => exact absurd ho (by simp [WatchlistCall.outcome])
  | remove id => exact absurd ho (by simp [WatchlistCall.outcome])
  | returned id =>
    obtain ⟨before, rest, hlog, hallows⟩ := h.exists_place hcall rfl
    obtain rfl := Option.some.inj ho
    exact ⟨before, _, rest, hlog, by simpa using hallows.1 rfl⟩
  | notOnWatchlist id =>
    obtain ⟨before, rest, hlog, hallows⟩ := h.exists_place hcall rfl
    obtain rfl := Option.some.inj ho
    refine ⟨before, _, rest, hlog, iff_of_true rfl fun hmem => ?_⟩
    exact absurd (hallows.2 hmem) (by simp)
  | failed => exact absurd (Option.some.inj ho).symm hne

lemma Linearized.get_returns (h : Linearized coll start w) {response : Watchlist P}
    (ho : w.outcome c = some (.watchlist response)) : ∃ before r rest,
      w.log = before ++ (c, .read, r) :: rest ∧
        Enumerates coll start.db.catalog (setsAfter coll start before c.user)
          (response.items.map WatchlistItem.row) := by
  obtain ⟨call, hcall, ho⟩ := Option.bind_eq_some_iff.1 ho
  obtain ⟨id, rfl⟩ := WatchlistCall.exists_of_outcome_watchlist ho
  obtain ⟨before, rest, hlog, hallows⟩ := h.exists_place hcall rfl
  exact ⟨before, _, rest, hlog, hallows⟩

lemma Linearized.add_raises (h : Linearized coll start w) {security : SecurityId} {pc : AddPc}
    {o : WatchlistOutcome P} (hcall : w.calls.get? c = some (.add security pc))
    (hne : o ≠ .error) (ho : w.outcome c = some o) :
    o = .securityNotFound ↔ start.db.catalog.get security = none := by
  rw [outcome, hcall, Option.bind_some] at ho
  have hok := h.consistent.ok c _ hcall
  rw [← h.catalog]
  cases pc with
  | lookup => exact absurd ho (by simp [WatchlistCall.outcome])
  | resolve pc => exact absurd ho (by simp [WatchlistCall.outcome])
  | add id => exact absurd ho (by simp [WatchlistCall.outcome])
  | returned id =>
    obtain rfl := Option.some.inj ho
    exact iff_of_false (by simp) (hok.isFound rfl (by simp) (by simp) (by simp))
  | securityNotFound =>
    obtain rfl := Option.some.inj ho
    exact iff_of_true rfl ((hok.found security _ rfl (by simp) (by simp)).1 rfl)
  | failed => exact absurd (Option.some.inj ho).symm hne

/-- No call has raised what the database raised. -/
def Unfailed (w : WatchlistWorld P) : Prop :=
  ∀ c call, w.calls.get? c = some call → call.isFailed = false

lemma Unfailed.outcome_ne (hw : w.Unfailed) {o : WatchlistOutcome P} (ho : w.outcome c = some o) :
    o ≠ .error := by
  rintro rfl
  obtain ⟨call, hcall, ho⟩ := Option.bind_eq_some_iff.1 ho
  exact WatchlistCall.outcome_ne_error (hw c call hcall) ho

lemma Linearized.refinesSets (h : Linearized coll start w) (hok : w.Unfailed) :
    RefinesSets coll start w := by
  refine ⟨fun c call id hcall hid id' => ?_, h.legal, h.sets, fun user => ⟨?_, ?_⟩, h.once,
    h.recorded, fun _ _ _ _ hcall ho => h.add_raises hcall (hok.outcome_ne ho) ho,
    fun _ _ _ _ hcall ho => h.remove_raises hcall (hok.outcome_ne ho) ho, fun _ _ => h.get_returns⟩
  · have hselect := (h.consistent.ok c call hcall).resolved id hid
    rw [← AuthDb.selectDefaultWatchlist_eq_some_iff, hselect, Option.some_inj, eq_comm]
  · exact SeqObject.legal_pointwise_iff.1 h.legal user
  · rw [h.sets, setsAfter, setsObject, SeqObject.after_pointwise]

/-- A call that failed says neither that there is no such security nor that it is not on the
watchlist, although both are so. -/
lemma RefinesSets.unfailed (hr : RefinesSets coll start w) (h : Linearized coll start w)
    (hfit : start.db.catalog.IdsFit) : w.Unfailed := by
  intro c call hcall
  by_contra hfailed
  obtain ⟨security, hbigint, rfl | rfl⟩ :=
    (h.consistent.ok c call hcall).failed (Bool.eq_true_of_not_eq_false hfailed)
  · have hraises := hr.add_raises c security .failed .error hcall (by rw [outcome, hcall]; rfl)
    have hmissing : start.db.catalog.get security = none := by
      by_contra hfound
      obtain ⟨row, hrow⟩ := Option.ne_none_iff_exists'.1 hfound
      have hfits := hfit security (Dict.mem_keys_iff.2 ⟨row, hrow⟩)
      rw [hbigint] at hfits
      exact absurd hfits (by simp)
    exact absurd (hraises.2 hmissing) (by simp)
  · obtain ⟨before, r, rest, hlog, -⟩ :=
      hr.remove_raises c security .failed .error hcall (by rw [outcome, hcall]; rfl)
    have hmem : (c, SetOp.delete security, r) ∈ w.log := by
      rw [hlog]
      exact List.mem_append_right _ List.mem_cons_self
    obtain ⟨call', hcall', hrecord⟩ := (h.recorded c _).1 hmem
    obtain rfl := Option.some.inj (hcall.symm.trans hcall')
    exact absurd hrecord (by simp [WatchlistCall.record])

/-- A statement fails a call exactly if it is passed an id of more than 64 bits. -/
lemma unfailed_step_iff (hw : w.Consistent) (hok : w.Unfailed)
    (hstep : WatchlistWorld.step coll w ev = some w') : w'.Unfailed ↔ w.Encodable ev := by
  obtain ⟨c, call, rfl, hstart, -, -, rfl⟩ | ⟨c, snapshot, asOf, call, e, rfl, hcall, hrun, rfl⟩ :=
    step_cases hstep
  · refine iff_of_true (fun c' call' hcall' => ?_) trivial
    rw [Dict.get?_set] at hcall'
    split at hcall'
    · obtain rfl := Option.some.inj hcall'
      obtain rfl | ⟨security, rfl⟩ | ⟨security, rfl⟩ := WatchlistCall.start_cases hstart
      · rfl
      · rfl
      · rfl
    · exact hok c' call' hcall'
  · have hraised := (hw.spec hcall hrun).raised
    have hself : (w.after c e).calls.get? c = some e.call := Dict.get?_set_self _ _ _
    constructor
    · intro hok' call' hcall'
      obtain rfl := Option.some.inj (hcall.symm.trans hcall')
      by_contra hargument
      have hfailed := hraised.2 (Bool.eq_false_of_not_eq_true hargument)
      exact absurd ((hok' c e.call hself).symm.trans hfailed) (by simp)
    · intro hencodable c' call' hcall'
      by_cases hc : c' = c
      · subst hc
        obtain rfl := Option.some.inj (hself.symm.trans hcall')
        by_contra hfailed
        have hargument := hraised.1 (Bool.eq_true_of_not_eq_false hfailed)
        exact absurd ((hencodable call hcall).symm.trans hargument) (by simp)
      · exact hok c' call' ((Dict.get?_set_ne _ _ hc).symm.trans hcall')

/-- A call that has failed stays failed. -/
lemma unfailed_of_step (hstep : WatchlistWorld.step coll w ev = some w') (hok : w'.Unfailed) :
    w.Unfailed := by
  intro c call hcall
  obtain ⟨c', call', -, -, -, hnone, rfl⟩ | ⟨c', snapshot, asOf, call', e, -, hcall', hrun, rfl⟩ :=
    step_cases hstep
  · refine hok c call ((Dict.get?_set_ne _ _ ?_).trans hcall)
    rintro rfl
    exact absurd (hnone.symm.trans hcall) (by simp)
  · by_cases hc : c = c'
    · subst hc
      obtain rfl := Option.some.inj (hcall.symm.trans hcall')
      by_contra hfailed
      have hover := Bool.eq_true_of_not_eq_false hfailed
      unfold WatchlistCall.isFailed at hover
      split at hover
      · exact absurd hrun (by simp [runWatchlistCall, runGet])
      · exact absurd hrun (by simp [runWatchlistCall, runAdd])
      · exact absurd hrun (by simp [runWatchlistCall, runRemove])
      · exact absurd hover (by simp)
    · exact hok c call ((Dict.get?_set_ne _ _ hc).trans hcall)

/-- **The watchlist store refines a map from users to sets exactly as long as the ids it is passed
have at most 64 bits.**  In every interleaving of calls of existing users on any tables: the calls
behave as the history of their `watchlist_items` statements says, a run only adds to that history,
and the calls of one user end as they do in a run without the calls of the others, if and only if no
lookup of an `add_item` and no delete of a `remove_item` is passed a larger id. -/
theorem refines_sets_iff (hstart : (system coll).init start)
    (h : (system coll).exec start es = some w) :
    (RefinesSets coll start w ∧
      (∀ es₁ es₂ w₁, es = es₁ ++ es₂ → (system coll).exec start es₁ = some w₁ →
        w₁.log <+: w.log) ∧
      ∀ user, ∃ w', (system coll).exec start
          (es.filter fun ev => decide (ev.subject.user = user)) = some w' ∧
        ∀ c, c.user = user → w'.outcome c = w.outcome c) ↔
      (system coll).Along Encodable start es := by
  have hlinear := linearized_of_exec hstart h
  have hunfailed : w.Unfailed ↔ (system coll).Along Encodable start es := by
    refine System.good_iff_along (I := Consistent) (fun _ _ _ hw hstep => hw.step hstep)
      (fun _ _ _ hw hok hstep => unfailed_step_iff hw hok hstep)
      (fun _ _ _ hstep hok => unfailed_of_step hstep hok) (consistent_of_init hstart) ?_ h
    intro c call hcall
    rw [hstart.1] at hcall
    exact absurd hcall (by simp)
  rw [← hunfailed]
  constructor
  · exact fun hr => hr.1.unfailed hlinear hstart.2.2
  · intro hok
    refine ⟨hlinear.refinesSets hok, ?_, exists_run_alone hstart h⟩
    rintro es₁ es₂ w₁ rfl h₁
    obtain ⟨r, hr, hrest⟩ := System.exec_append_eq_some.1 h
    obtain rfl := Option.some.inj (h₁.symm.trans hr)
    exact log_prefix_of_exec hrest

/-- Two users without a default watchlist, and two securities. -/
def raceStart : WatchlistWorld ℕ where
  db := {
    auth := (((AuthDb.empty.create ⟨"alice", "", none, "", ""⟩).bind fun e =>
      e.2.create ⟨"bob", "", none, "", ""⟩).map fun e =>
        e.2.setWatchlists .empty (by simp)).getD .empty
    catalog := Catalog.empty.upsertMany [("MSFT", "Microsoft"), ("AAPL", "Apple")]
    items := .empty
    item_watchlist := by simp
    item_security := by simp }
  calls := .empty
  log := []

/-- Two calls of the first user that both miss the row and both insert it, a removal by the second
user in between, and the first user's watchlist after that. -/
def race : List (WatchlistEvent ℕ) :=
  let alice := WatchlistCallId.mk 1
  let bob := WatchlistCallId.mk 2
  let run := fun c => WatchlistEvent.run c ⟨.empty, 0, 2, "redis"⟩ "2026-01-05T14:30:00Z"
  [.spawn (alice 0) (.add 1 .lookup), .spawn (alice 1) (.add 2 .lookup),
    .spawn (bob 0) (.remove 1 (.resolve .select)), run (alice 0), run (alice 1), run (alice 0),
    run (alice 1), run (bob 0), run (alice 0), run (alice 1), run (alice 0), run (bob 0),
    run (bob 0), run (alice 1), .spawn (alice 2) (.get (.resolve .select)), run (alice 2),
    run (alice 2), run (alice 2)]

theorem refines_sets_race : ∃ w, (system .codePoint).exec raceStart race = some w ∧
    RefinesSets .codePoint raceStart w ∧ w.outcome ⟨1, 0⟩ = some .added ∧
    w.outcome ⟨1, 1⟩ = some .added ∧ w.outcome ⟨2, 0⟩ = some .notOnWatchlist ∧
    w.outcome ⟨1, 2⟩ = some (.watchlist ⟨[⟨2, "AAPL", "Apple", none, none, none, none⟩,
      ⟨1, "MSFT", "Microsoft", none, none, none, none⟩], "redis", 0, 2, "2026-01-05T14:30:00Z"⟩) := by
  have hrun : ((system .codePoint).exec raceStart race).any (fun w => decide
      (w.outcome ⟨1, 0⟩ = some .added ∧ w.outcome ⟨1, 1⟩ = some .added ∧
        w.outcome ⟨2, 0⟩ = some .notOnWatchlist ∧
        w.outcome ⟨1, 2⟩ = some (.watchlist ⟨[⟨2, "AAPL", "Apple", none, none, none, none⟩,
          ⟨1, "MSFT", "Microsoft", none, none, none, none⟩], "redis", 0, 2,
          "2026-01-05T14:30:00Z"⟩))) = true := by decide +kernel
  have hencodable : ((system .codePoint).execWhere Encodable raceStart race).isSome = true := by
    decide +kernel
  obtain ⟨w, hw, houtcomes⟩ := Option.any_eq_true _ _ |>.1 hrun
  obtain ⟨w', hw'⟩ := Option.isSome_iff_exists.1 hencodable
  exact ⟨w, hw, ((refines_sets_iff ⟨rfl, rfl, by decide⟩ hw).2 (System.along_of_execWhere hw')).1,
    of_decide_eq_true houtcomes⟩

/-- The first user adds a security with the id 2^63 and removes it. -/
def oversized : List (WatchlistEvent ℕ) :=
  let run := fun c => WatchlistEvent.run ⟨1, c⟩ ⟨.empty, 0, 0, "redis"⟩ "2026-01-05T14:30:00Z"
  [.spawn ⟨1, 0⟩ (.add (2 ^ 63) .lookup), run 0,
    .spawn ⟨1, 1⟩ (.remove (2 ^ 63) (.resolve .select)), run 1, run 1, run 1]

/-- **Neither declared error.**  An `add_item` of an id that is not in the catalog and a `remove_item`
of one that is not on the watchlist both end in what the database raised. -/
theorem oversized_fails : ∃ w : WatchlistWorld ℕ, (system .codePoint).init raceStart ∧
    (system .codePoint).exec raceStart oversized = some w ∧
    raceStart.db.catalog.get (2 ^ 63) = none ∧ w.outcome ⟨1, 0⟩ = some .error ∧
    (2 ^ 63 : SecurityId) ∉ w.db.sets 1 ∧ w.outcome ⟨1, 1⟩ = some .error ∧
    ¬ RefinesSets .codePoint raceStart w := by
  have hrun : ((system .codePoint).exec raceStart oversized).any (fun w => decide
      (raceStart.db.catalog.get (2 ^ 63) = none ∧ w.outcome ⟨1, 0⟩ = some .error ∧
        w.outcome ⟨1, 1⟩ = some .error ∧ w.calls.get? ⟨1, 0⟩ = some (.add (2 ^ 63) .failed) ∧
        (2 ^ 63 : SecurityId) ∉ w.db.userMembers 1)) = true := by
    decide +kernel
  obtain ⟨w, hw, hout⟩ := Option.any_eq_true _ _ |>.1 hrun
  obtain ⟨hmissing, hadd, hremove, hcall, hset⟩ := of_decide_eq_true hout
  refine ⟨w, ⟨rfl, rfl, by decide⟩, hw, hmissing, hadd, hset, hremove, fun hrefines => ?_⟩
  exact absurd ((hrefines.add_raises _ _ _ _ hcall hadd).2 hmissing) (by simp)

end WatchlistWorld

end TickerWatch
