import TickerWatch.Watchlist.Refinement

/-!
# One user's calls do not see another's

What a user's calls can see of the tables is in `SameView`: whether the user has a default
watchlist, and the securities on it.  The id of that row is not part of it, because it comes from a
sequence all users share; calls that differ in the id they resolved to are the same to their callers
(`WatchlistCall.withId`).

A statement of another user leaves the view alone, and a statement of the user does the same to two
tables with the same view.  So the events of one user are a run by themselves, in which every call of
the user ends as it did among the calls of all the others (`exists_run_alone`).
-/

namespace TickerWatch

universe u

/-- The call, resolved to another row. -/
def WatchlistCall.withId {P : Type u} (id : WatchlistId) : WatchlistCall P → WatchlistCall P
  | .get (.loadMembers _) => .get (.loadMembers id)
  | .get (.loadPrices _ members) => .get (.loadPrices id members)
  | .get (.returned _ response) => .get (.returned id response)
  | .add security (.add _) => .add security (.add id)
  | .add security (.returned _) => .add security (.returned id)
  | .remove security (.remove _) => .remove security (.remove id)
  | .remove security (.returned _) => .remove security (.returned id)
  | .remove security (.notOnWatchlist _) => .remove security (.notOnWatchlist id)
  | call => call

/-- Two tables show a user the same: the securities of the user, and whether there is a default
watchlist, but not the ids of rows, which the calls of others use up too. -/
structure SameView (user : UserId) (db db' : WatchlistDb) : Prop where
  users : db'.auth.users = db.auth.users
  catalog : db'.catalog = db.catalog
  created : (db'.auth.selectDefaultWatchlist user).isSome =
    (db.auth.selectDefaultWatchlist user).isSome
  members : db'.userMembers user = db.userMembers user

section

variable {P : Type u} {coll : Collation} {db db' d d' : WatchlistDb} {user user' : UserId}
  {call : WatchlistCall P} {e : StatementEffect P} {snapshot : PriceSnapshot P} {asOf : String}
  {security : SecurityId} {id id' : WatchlistId}

lemma SameView.refl (user : UserId) (db : WatchlistDb) : SameView user db db := ⟨rfl, rfl, rfl, rfl⟩

lemma SameView.of_leavesOthers (h : SameView user db db') (hne : user ≠ user')
    (hd : db.LeavesOthers user' d) : SameView user d db' := by
  refine ⟨h.users.trans hd.users.symm, h.catalog.trans hd.catalog.symm, ?_, ?_⟩
  · rw [h.created, hd.select_ne user hne]
  · rw [h.members, hd.members_ne user hne]

/-- Statements of the user that leave the same set behind keep the views the same. -/
lemma SameView.step (h : SameView user db db') (hd : db.LeavesOthers user d)
    (hd' : db'.LeavesOthers user d') (hselect : d.auth.selectDefaultWatchlist user = some id)
    (hselect' : d'.auth.selectDefaultWatchlist user = some id')
    (hmembers : d'.userMembers user = d.userMembers user) : SameView user d d' := by
  refine ⟨?_, ?_, ?_, hmembers⟩
  · rw [hd'.users, h.users, hd.users]
  · rw [hd'.catalog, h.catalog, hd.catalog]
  · rw [hselect, hselect']
    rfl

lemma SameView.memberIds (h : SameView user db db')
    (hselect : db.auth.selectDefaultWatchlist user = some id)
    (hselect' : db'.auth.selectDefaultWatchlist user = some id') :
    db'.memberIds id' = db.memberIds id := by
  rw [← WatchlistDb.userMembers_of_select hselect', h.members,
    WatchlistDb.userMembers_of_select hselect]

lemma WatchlistCall.outcome_withId (id : WatchlistId) (call : WatchlistCall P) :
    (call.withId id).outcome = call.outcome := by
  unfold withId
  split <;> rfl

lemma WatchlistCall.withId_of_start (h : call.isStart = true) (id : WatchlistId) :
    call.withId id = call := by
  obtain rfl | ⟨security, rfl⟩ | ⟨security, rfl⟩ := start_cases h
  · rfl
  · rfl
  · rfl

/-- `default_watchlist_id` on two tables a user cannot tell apart. -/
lemma runResolve_congr {resolving : ResolvePc → WatchlistCall P}
    {resolved : WatchlistId → WatchlistCall P} {failed : WatchlistCall P} (pc : ResolvePc)
    (huser : (db.auth.users.get? user).isSome = true) (h : SameView user db db')
    (hresolving : ∀ id, (resolving .upsert).withId id = resolving .upsert)
    (hresolved : ∀ id id', (resolved id).withId id' = resolved id') :
    SameView user (runResolve db user resolving resolved failed pc).db
        (runResolve db' user resolving resolved failed pc).db ∧
      ∃ id, (runResolve db' user resolving resolved failed pc).call =
        (runResolve db user resolving resolved failed pc).call.withId id := by
  cases pc with
  | select =>
    have hcreated := h.created
    rw [runResolve, runResolve]
    cases hselect : db.auth.selectDefaultWatchlist user with
    | none =>
      rw [hselect, Option.isSome_none, Option.isSome_eq_false_iff, Option.isNone_iff_eq_none]
        at hcreated
      rw [hcreated]
      exact ⟨h, 0, (hresolving 0).symm⟩
    | some id =>
      rw [hselect, Option.isSome_some, Option.isSome_iff_exists] at hcreated
      obtain ⟨id', hselect'⟩ := hcreated
      rw [hselect']
      exact ⟨h, id', (hresolved id id').symm⟩
  | upsert =>
    obtain ⟨id, d, hupsert⟩ := WatchlistDb.exists_upsertDefaultWatchlist huser
    rw [← h.users] at huser
    obtain ⟨id', d', hupsert'⟩ := WatchlistDb.exists_upsertDefaultWatchlist huser
    -- a watchlist that is made now is empty, and one that is there keeps its items
    have hmembers : d'.userMembers user = d.userMembers user := by
      rw [WatchlistDb.userMembers_upsert hupsert', WatchlistDb.userMembers_upsert hupsert, h.members]
    have hview := h.step (WatchlistDb.leavesOthers_upsert hupsert)
      (WatchlistDb.leavesOthers_upsert hupsert') (WatchlistDb.select_upsert_self hupsert)
      (WatchlistDb.select_upsert_self hupsert') hmembers
    rw [runResolve, runResolve, hupsert, hupsert']
    exact ⟨hview, id', (hresolved id id').symm⟩

/-- `get_watchlist` on two tables a user cannot tell apart. -/
lemma runGet_congr {pc : GetPc P} (hcall : call = .get pc)
    (huser : (db.auth.users.get? user).isSome = true) (h : SameView user db db')
    (hok : CallOk db user call) (hok' : CallOk db' user (call.withId id))
    (hrun : runWatchlistCall coll db user snapshot asOf call = some e) :
    ∃ e', runWatchlistCall coll db' user snapshot asOf (call.withId id) = some e' ∧
      SameView user e.db e'.db ∧ ∃ id', e'.call = e.call.withId id' := by
  subst hcall
  cases pc with
  | resolve pc =>
    obtain rfl := Option.some.inj hrun
    exact ⟨_, rfl, runResolve_congr pc huser h (fun _ => rfl) fun _ _ => rfl⟩
  | loadMembers id₀ =>
    obtain rfl := Option.some.inj hrun
    refine ⟨_, rfl, h, id, ?_⟩
    have hids := h.memberIds (hok.resolved id₀ rfl) (hok'.resolved id rfl)
    rw [WatchlistDb.members_congr hids h.catalog]
    rfl
  | loadPrices id₀ members =>
    obtain rfl := Option.some.inj hrun
    exact ⟨_, rfl, h, id, rfl⟩
  | returned id₀ response => exact absurd hrun (by simp [runWatchlistCall, runGet])
  | failed => exact absurd hrun (by simp [runWatchlistCall, runGet])

lemma runAdd_congr {pc : AddPc} (hcall : call = .add security pc)
    (huser : (db.auth.users.get? user).isSome = true) (h : SameView user db db')
    (hok : CallOk db user call) (hok' : CallOk db' user (call.withId id))
    (hrun : runWatchlistCall coll db user snapshot asOf call = some e) :
    ∃ e', runWatchlistCall coll db' user snapshot asOf (call.withId id) = some e' ∧
      SameView user e.db e'.db ∧ ∃ id', e'.call = e.call.withId id' := by
  subst hcall
  cases pc with
  -- both tables have the same catalog
  | lookup =>
    rw [runWatchlistCall, runAdd] at hrun
    change ∃ e', runAdd db' user security .lookup = some e' ∧ _
    rw [runAdd, h.catalog]
    cases hbigint : isBigint security with
    | false =>
      rw [hbigint, if_neg Bool.false_ne_true] at hrun
      obtain rfl := Option.some.inj hrun
      exact ⟨_, rfl, h, id, rfl⟩
    | true =>
      rw [hbigint, if_pos rfl] at hrun
      rw [if_pos rfl]
      split at hrun
      · obtain rfl := Option.some.inj hrun
        exact ⟨_, rfl, h, id, rfl⟩
      · obtain rfl := Option.some.inj hrun
        exact ⟨_, rfl, h, id, rfl⟩
  | resolve pc =>
    obtain rfl := Option.some.inj hrun
    exact ⟨_, rfl, runResolve_congr pc huser h (fun _ => rfl) fun _ _ => rfl⟩
  | add id₀ =>
    -- each works on its own watchlist of the user, and these have the same members
    have hselect := hok.resolved id₀ rfl
    have hselect' := hok'.resolved id rfl
    obtain ⟨b, d, hadd⟩ := hok.exists_add
    obtain ⟨b', d', hadd'⟩ := hok'.exists_add
    have hleaves := WatchlistDb.leavesOthers_add hselect hadd
    have hleaves' := WatchlistDb.leavesOthers_add hselect' hadd'
    rw [runWatchlistCall, runAdd, hadd] at hrun
    rw [WatchlistCall.withId, runWatchlistCall, runAdd, hadd']
    cases hbigint : isBigint security with
    | false =>
      rw [hbigint, if_neg Bool.false_ne_true] at hrun
      obtain rfl := Option.some.inj hrun
      exact ⟨_, rfl, h, id, rfl⟩
    | true =>
      rw [hbigint, if_pos rfl] at hrun
      obtain rfl := Option.some.inj hrun
      refine ⟨_, rfl, h.step hleaves hleaves' (hleaves.select user id₀ hselect)
        (hleaves'.select user id hselect') ?_, id, rfl⟩
      rw [WatchlistDb.userMembers_add hselect hadd, WatchlistDb.userMembers_add hselect' hadd',
        h.members]
  | returned id₀ => exact absurd hrun (by simp [runWatchlistCall, runAdd])
  | securityNotFound => exact absurd hrun (by simp [runWatchlistCall, runAdd])
  | failed => exact absurd hrun (by simp [runWatchlistCall, runAdd])

lemma runRemove_congr {pc : RemovePc} (hcall : call = .remove security pc)
    (huser : (db.auth.users.get? user).isSome = true) (h : SameView user db db')
    (hok : CallOk db user call) (hok' : CallOk db' user (call.withId id))
    (hrun : runWatchlistCall coll db user snapshot asOf call = some e) :
    ∃ e', runWatchlistCall coll db' user snapshot asOf (call.withId id) = some e' ∧
      SameView user e.db e'.db ∧ ∃ id', e'.call = e.call.withId id' := by
  subst hcall
  cases pc with
  | resolve pc =>
    obtain rfl := Option.some.inj hrun
    exact ⟨_, rfl, runResolve_congr pc huser h (fun _ => rfl) fun _ _ => rfl⟩
  | remove id₀ =>
    cases hbigint : isBigint security with
    | false =>
      rw [runWatchlistCall, runRemove, if_neg (by simp [hbigint])] at hrun
      rw [WatchlistCall.withId, runWatchlistCall, runRemove, if_neg (by simp [hbigint])]
      obtain rfl := Option.some.inj hrun
      exact ⟨_, rfl, h, id, rfl⟩
    | true =>
      have hselect := hok.resolved id₀ rfl
      have hselect' := hok'.resolved id rfl
      have hleaves := WatchlistDb.leavesOthers_remove hselect security
      have hleaves' := WatchlistDb.leavesOthers_remove hselect' security
      have hhit : (db'.remove id security).1 = (db.remove id₀ security).1 := by
        rw [WatchlistDb.remove_fst hselect', WatchlistDb.remove_fst hselect, h.members]
      have hmembers : (db'.remove id security).2.userMembers user =
          (db.remove id₀ security).2.userMembers user := by
        rw [WatchlistDb.userMembers_remove hselect, WatchlistDb.userMembers_remove hselect',
          h.members]
      rw [runWatchlistCall, runRemove, if_pos hbigint] at hrun
      rw [WatchlistCall.withId, runWatchlistCall, runRemove, if_pos hbigint]
      obtain rfl := Option.some.inj hrun
      refine ⟨_, rfl, h.step hleaves hleaves' (hleaves.select user id₀ hselect)
        (hleaves'.select user id hselect') hmembers, id, ?_⟩
      change WatchlistCall.remove security (if (db'.remove id security).1 then _ else _) =
        WatchlistCall.withId id (.remove security (if (db.remove id₀ security).1 then _ else _))
      rw [hhit]
      cases (db.remove id₀ security).1 with
      | true => rfl
      | false => rfl
  | returned id₀ => exact absurd hrun (by simp [runWatchlistCall, runRemove])
  | notOnWatchlist id₀ => exact absurd hrun (by simp [runWatchlistCall, runRemove])
  | failed => exact absurd hrun (by simp [runWatchlistCall, runRemove])

/-- A statement of the user does the same to two tables the user cannot tell apart. -/
theorem runWatchlistCall_congr (huser : (db.auth.users.get? user).isSome = true)
    (h : SameView user db db') (hok : CallOk db user call)
    (hok' : CallOk db' user (call.withId id))
    (hrun : runWatchlistCall coll db user snapshot asOf call = some e) :
    ∃ e', runWatchlistCall coll db' user snapshot asOf (call.withId id) = some e' ∧
      SameView user e.db e'.db ∧ ∃ id', e'.call = e.call.withId id' := by
  cases call with
  | get pc => exact runGet_congr rfl huser h hok hok' hrun
  | add security pc => exact runAdd_congr rfl huser h hok hok' hrun
  | remove security pc => exact runRemove_congr rfl huser h hok hok' hrun

end

/-! ## Runs -/

namespace WatchlistWorld

variable {P : Type u} {coll : Collation} {w w' : WatchlistWorld P} {user : UserId}

/-- Two worlds a user cannot tell apart: the same view, and the same calls of the user but for the
id they resolved to. -/
structure SameFor (user : UserId) (w w' : WatchlistWorld P) : Prop where
  left : w.Consistent
  right : w'.Consistent
  view : SameView user w.db w'.db
  absent : ∀ c, c.user = user → w.calls.get? c = none → w'.calls.get? c = none
  present : ∀ c call, c.user = user → w.calls.get? c = some call →
    ∃ id, w'.calls.get? c = some (call.withId id)

lemma SameFor.refl (hw : w.Consistent) (hcalls : w.calls = .empty) (user : UserId) :
    SameFor user w w := by
  refine ⟨hw, hw, .refl user w.db, fun _ _ h => h, fun c call _ hcall => ?_⟩
  rw [hcalls, Dict.get?_empty] at hcall
  exact absurd hcall (by simp)

lemma SameFor.outcome_eq (h : SameFor user w w') {c : WatchlistCallId} (hc : c.user = user) :
    w'.outcome c = w.outcome c := by
  rw [outcome, outcome]
  cases hcall : w.calls.get? c with
  | none => rw [h.absent c hc hcall]
  | some call =>
    obtain ⟨id, hcall'⟩ := h.present c call hc hcall
    rw [hcall']
    exact WatchlistCall.outcome_withId id call

/-- An event of another user is not seen. -/
lemma SameFor.skip {ev : WatchlistEvent P} {t : WatchlistWorld P} (h : SameFor user w w')
    (hev : ev.subject.user ≠ user) (hstep : step coll w ev = some t) : SameFor user t w' := by
  have ht := h.left.step hstep
  obtain ⟨c, call, rfl, -, -, -, rfl⟩ | ⟨c, snapshot, asOf, call, e, rfl, hcall, hrun, rfl⟩ :=
    step_cases hstep
  · have hkept : ∀ c', c'.user = user → (w.calls.set c call).get? c' = w.calls.get? c' := by
      intro c' hc'
      refine Dict.get?_set_ne _ _ ?_
      rintro rfl
      exact hev hc'
    exact ⟨ht, h.right, h.view, fun c' hc' => hkept c' hc' ▸ h.absent c' hc',
      fun c' call' hc' => hkept c' hc' ▸ h.present c' call' hc'⟩
  · have hkept : ∀ c', c'.user = user → (w.after c e).calls.get? c' = w.calls.get? c' := by
      intro c' hc'
      refine Dict.get?_set_ne _ _ ?_
      rintro rfl
      exact hev hc'
    have hview := h.view.of_leavesOthers (Ne.symm hev) (h.left.spec hcall hrun).others
    exact ⟨ht, h.right, hview, fun c' hc' => hkept c' hc' ▸ h.absent c' hc',
      fun c' call' hc' => hkept c' hc' ▸ h.present c' call' hc'⟩

/-- Both worlds store a call of the user that is the same to its caller. -/
lemma SameFor.put {t t' : WatchlistWorld P} {c : WatchlistCallId} {call : WatchlistCall P}
    (h : SameFor user w w') (id : WatchlistId) (ht : t.Consistent) (ht' : t'.Consistent)
    (hview : SameView user t.db t'.db) (hcalls : t.calls = w.calls.set c call)
    (hcalls' : t'.calls = w'.calls.set c (call.withId id)) : SameFor user t t' := by
  refine ⟨ht, ht', hview, fun c' hc' hnone => ?_, fun c' call' hc' hcall' => ?_⟩
  · rw [hcalls, Dict.get?_set] at hnone
    rw [hcalls', Dict.get?_set]
    split at hnone
    · exact absurd hnone (by simp)
    · rename_i hne
      rw [if_neg hne]
      exact h.absent c' hc' hnone
  · rw [hcalls, Dict.get?_set] at hcall'
    rw [hcalls', Dict.get?_set]
    split at hcall'
    · rename_i heq
      obtain rfl := Option.some.inj hcall'
      rw [if_pos heq]
      exact ⟨id, rfl⟩
    · rename_i hne
      rw [if_neg hne]
      exact h.present c' call' hc' hcall'

/-- An event of the user happens in both worlds. -/
lemma SameFor.follow {ev : WatchlistEvent P} {t : WatchlistWorld P} (h : SameFor user w w')
    (hev : ev.subject.user = user) (hstep : step coll w ev = some t) :
    ∃ t', step coll w' ev = some t' ∧ SameFor user t t' := by
  have ht := h.left.step hstep
  obtain ⟨c, call, rfl, hstart, huser, hnone, rfl⟩ |
    ⟨c, snapshot, asOf, call, e, rfl, hcall, hrun, rfl⟩ := step_cases hstep
  · have hstep' : step coll w' (.spawn c call) =
        some { w' with calls := w'.calls.set c call } := by
      rw [step, hstart, h.view.users, huser,
        Dict.contains_eq_false_iff.2 (h.absent c hev hnone)]
      rfl
    have hid := WatchlistCall.withId_of_start hstart 0
    refine ⟨_, hstep', h.put 0 ht (h.right.step hstep') h.view rfl ?_⟩
    rw [hid]
  · obtain rfl : c.user = user := hev
    obtain ⟨id, hcall'⟩ := h.present c call rfl hcall
    obtain ⟨e', hrun', hview, id', he'⟩ := runWatchlistCall_congr (h.left.caller c call hcall) h.view
      (h.left.ok c call hcall) (h.right.ok c _ hcall') hrun
    have hstep' : step coll w' (.run c snapshot asOf) = some (w'.after c e') := by
      rw [step, hcall', Option.bind_some, hrun', Option.map_some]
    refine ⟨_, hstep', h.put id' ht (h.right.step hstep') hview rfl ?_⟩
    rw [after, he']

/-- **Isolation.**  The events of one user are a run by themselves, in which the calls of the user
end as they do among the calls of all the others. -/
theorem exists_run_alone {start : WatchlistWorld P} {es : List (WatchlistEvent P)}
    (hstart : (system coll).init start) (h : (system coll).exec start es = some w) (user : UserId) :
    ∃ w', (system coll).exec start (es.filter fun ev => decide (ev.subject.user = user)) = some w' ∧
      ∀ c, c.user = user → w'.outcome c = w.outcome c := by
  have hsame := SameFor.refl (consistent_of_init hstart) hstart.1 user
  obtain ⟨w', hw', hR⟩ := System.exec_filter (S := system coll) (R := SameFor user)
    (fun s s' ev t hR hev hstep => hR.follow (of_decide_eq_true hev) hstep)
    (fun s s' ev t hR hev hstep => hR.skip (of_decide_eq_false hev) hstep) h hsame
  exact ⟨w', hw', fun c hc => hR.outcome_eq hc⟩

end WatchlistWorld

end TickerWatch
