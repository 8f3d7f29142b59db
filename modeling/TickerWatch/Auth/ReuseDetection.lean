import TickerWatch.Auth.Exchange

/-!
# Reuse detection against calls in flight

A refresh that is given a revoked token revokes every token of the user with one update.  The update
sees the rows committed before it started, and a refresh that has passed its check goes on whatever
happened to its row; so a new token can appear that the detection misses
(`detection_misses_refresh`).

It is final in the runs where this does not happen (`reuse_detection_final`): every refresh that
revokes its row finds it live and outside every mass revocation that is running, and no mass
revocation of a user starts while a refresh of that user is in its transaction.
-/

namespace TickerWatch
namespace AuthWorld

variable {sec : Crypto} {cfg : AuthSettings} {d w w' : AuthWorld} {e : AuthEvent} {b c : CallId}
  {tok : String} {id : TokenId} {user : User} {u : UserId}

/-- No refresh and no mass revocation of its user get in each other's way. -/
def undisturbed (w : AuthWorld) : AuthEvent → Bool
  | .run c _ =>
    match w.calls.get? c with
    | some (.refresh _ (.revoke id _)) =>
      w.live id && !w.anyCall fun call => decide (id ∈ call.revoking)
    | some (.refresh _ (.revokeAll u)) =>
      !w.anyCall fun call =>
        call.exchanging.any fun id => (w.db.token id).any fun row => decide (row.userId = u)
    | _ => true
  | _ => true

/-- Token values are fresh, and detections are undisturbed. -/
def Undisturbed (w : AuthWorld) (e : AuthEvent) : Prop := Fresh w e ∧ w.undisturbed e = true

instance (w : AuthWorld) (e : AuthEvent) : Decidable (Undisturbed w e) :=
  inferInstanceAs (Decidable (Fresh w e ∧ w.undisturbed e = true))

lemma stillLive_of_undisturbed (h : w.undisturbed e = true) : w.stillLive e = true := by
  cases e with
  | run c fresh =>
    rw [undisturbed] at h
    rw [stillLive]
    split at h
    · rename_i heq
      rw [heq]
      exact (Bool.and_eq_true_iff.1 h).1
    · rename_i heq
      rw [heq]
    · rename_i hno _
      split
      · exact absurd ‹_› (hno _ _ _)
      · rfl
  | _ => rfl

/-- A refresh that revokes its row is outside every mass revocation that runs. -/
lemma notMem_of_undisturbed {fresh tok' : String} {rows : List TokenId} {since : Timestamp}
    (h : w.undisturbed (.run c fresh) = true)
    (hc : w.calls.get? c = some (.refresh tok (.revoke id user)))
    (hb : w.calls.get? b = some (.refresh tok' (.revokingAll u rows since))) : id ∉ rows := by
  rw [undisturbed, hc] at h
  have hno := anyCall_eq_false_iff.1 (Bool.not_eq_true' _ ▸ (Bool.and_eq_true_iff.1 h).2) b _ hb
  exact of_decide_eq_false hno

/-- No refresh of the user is in its transaction when a mass revocation starts. -/
lemma userId_ne_of_undisturbed {fresh : String} {row : RefreshTokenRow}
    (h : w.undisturbed (.run b fresh) = true)
    (hb : w.calls.get? b = some (.refresh tok (.revokeAll u))) (hc : w.Exchanging c id)
    (hrow : w.db.token id = some row) : row.userId ≠ u := by
  obtain ⟨call, hcall, hexch⟩ := hc
  rw [undisturbed, hb] at h
  have hno := anyCall_eq_false_iff.1 (Bool.not_eq_true' _ ▸ h) c call hcall
  rw [hexch, Option.any_some, hrow, Option.any_some] at hno
  exact of_decide_eq_false hno

/-! ## The rows a detection knows -/

/-- The row is a live one of the user. -/
def LiveOf (w : AuthWorld) (u : UserId) (id : TokenId) : Prop :=
  ∃ row, w.db.token id = some row ∧ row.userId = u ∧ row.live = true

/-- `seen` holds every row issued by the world `d`, only rows that exist, with a row of the user
every row exchanged for it, and no row of the user that a refresh is exchanging. -/
structure Closed (d w : AuthWorld) (u : UserId) (seen : TokenId → Prop) : Prop where
  old : ∀ id l, d.lineage.get? id = some l → seen id
  known : ∀ id, seen id → ∃ l, w.lineage.get? id = some l
  children : ∀ p n l, w.lineage.get? n = some l → l.parent = some p → l.user = u → seen p → seen n
  idle : ∀ c id l, w.Exchanging c id → w.lineage.get? id = some l → l.user = u → ¬ seen id

/-- How far the detection of call `b` has come: it has read a used row, it has selected the rows to
revoke, or it has revoked them and raised.  `seen` has the rows there were at the detection `d` and
is closed under exchanges, and none of it is live when the call raises. -/
inductive Detection (d w : AuthWorld) (b : CallId) (tok : String) (u : UserId) : Prop
  | detected (hb : w.calls.get? b = some (.refresh tok (.revokeAll u)))
  | revoking {rows : List TokenId} {since : Timestamp} {seen : TokenId → Prop}
    (hb : w.calls.get? b = some (.refresh tok (.revokingAll u rows since)))
    (hseen : Closed d w u seen) (hrows : ∀ id, seen id → w.LiveOf u id → id ∈ rows)
  | raised {seen : TokenId → Prop} (hb : w.calls.get? b = some (.refresh tok .invalid))
    (hseen : Closed d w u seen) (hdead : ∀ id, seen id → ¬ w.LiveOf u id)
  | failed (hb : w.calls.get? b = some (.refresh tok .failed))

lemma Forgets.liveOf (hf : Forgets sec w w') (h : w'.LiveOf u id) : w.LiveOf u id := by
  obtain ⟨row', hrow', huser, hlive⟩ := h
  obtain ⟨row, hrow, -, hsame, himp⟩ := hf.token id row' hrow'
  exact ⟨row, hrow, hsame.symm.trans huser, himp hlive⟩

lemma Closed.forget {seen : TokenId → Prop} (h : Closed d w u seen) (hf : Forgets sec w w') :
    Closed d w' u seen where
  old := h.old
  known := by
    rw [hf.lineage]
    exact h.known
  children := by
    rw [hf.lineage]
    exact h.children
  idle := by
    intro c id l hc hl
    rw [hf.lineage] at hl
    exact h.idle c id l (hf.exchanging c id hc).1 hl

/-- A new row whose parent, if it is one of the user, is not among the rows seen. -/
lemma Closed.add {seen : TokenId → Prop} (h : Closed d w u seen) {newId : TokenId}
    (newRow : RefreshTokenRow) {parent : Option TokenId}
    (hlineage : w'.lineage = w.lineage.set newId ⟨newRow.tokenHash, newRow.userId, parent⟩)
    (hnone : w.lineage.get? newId = none)
    (hparent : ∀ p, parent = some p → newRow.userId = u → ¬ seen p)
    (hexch : ∀ c id, w'.Exchanging c id → w.Exchanging c id ∧ id ≠ newId) :
    Closed d w' u seen where
  old := h.old
  known := by
    intro id hid
    obtain ⟨l, hl⟩ := h.known id hid
    have hne : id ≠ newId := Dict.ne_of_get? hnone hl
    exact ⟨l, by rw [hlineage, Dict.get?_set_ne _ _ hne, hl]⟩
  children := by
    intro p n l hl hp huser hseen
    rw [hlineage, Dict.get?_set] at hl
    split at hl
    · obtain rfl := Option.some.inj hl
      exact absurd hseen (hparent p hp huser)
    · exact h.children p n l hl hp huser hseen
  idle := by
    intro c id l hc hl
    obtain ⟨hc, hne⟩ := hexch c id hc
    rw [hlineage, Dict.get?_set_ne _ _ hne] at hl
    exact h.idle c id l hc hl

lemma ne_newId {newId : TokenId} (hcons : Consistent sec w) (hnone : w.lineage.get? newId = none)
    (hc : w.Exchanging c id) : id ≠ newId := by
  obtain ⟨tok, u, hp⟩ := Exchanging.presents hc
  obtain ⟨l, hl, -⟩ := hcons.presents c tok id u hp
  exact Dict.ne_of_get? hnone hl

/-- The rows that were seen stay closed, and none of them comes back to life, as long as no refresh
locks a live one. -/
lemma Closed.effect {seen : TokenId → Prop} (h : Closed d w u seen) (hcons : Consistent sec w)
    (hok : w.undisturbed e = true) (he : Effect sec w e w')
    (hlock : ∀ c fresh tok id user, e = .run c fresh →
      w.calls.get? c = some (.refresh tok (.revoke id user)) → seen id → ¬ w.LiveOf u id) :
    Closed d w' u seen ∧ ∀ id, seen id → w'.LiveOf u id → w.LiveOf u id := by
  cases he with
  | forget hf _ => exact ⟨h.forget hf, fun id _ hlive => hf.liveOf hlive⟩
  | @lock c tok id user fresh hc hfree =>
    refine ⟨⟨h.old, h.known, h.children, ?_⟩, fun _ _ hlive => hlive⟩
    intro c' id' l hx hl huser hseen
    replace hx := of_moved (w.get?_put c _) hx
    rcases hx with ⟨rfl, hx⟩ | ⟨-, hx⟩
    · obtain rfl := Option.some.inj hx
      -- the row it locks is live, and it is one of the user
      obtain ⟨row, hrow, hrowlive⟩ :=
        live_eq_true_iff.1 (live_of_stillLive (stillLive_of_undisturbed hok) hc)
      obtain ⟨l', hl', -, hluser⟩ := hcons.row_lineage id row hrow
      obtain rfl := Option.some.inj (hl'.symm.trans hl)
      exact hlock c' fresh tok id user rfl hc hseen ⟨row, hrow, hluser.symm.trans huser, hrowlive⟩
    · exact h.idle c' id' l hx hl huser hseen
  | @insert c tok id user hit fresh newRow session hc hhash huser hsession =>
    refine ⟨⟨h.old, h.known, h.children, ?_⟩, fun _ _ hlive => hlive⟩
    intro c' id' l hx hl
    replace hx := of_moved (w.get?_put c _) hx
    rcases hx with ⟨rfl, hx⟩ | ⟨-, hx⟩
    · exact h.idle c' id' l ⟨_, hc, hx⟩ hl
    · exact h.idle c' id' l hx hl
  | @commit c tok id user hit newId newRow session fresh db' hc hdb =>
    obtain ⟨-, hnone, -⟩ := hcons.inserted c newId newRow ⟨_, hc, rfl⟩
    obtain ⟨hnewUser, -⟩ := hcons.inserts_own _ _ _ _ _ _ _ _ hc
    obtain ⟨l, hl, -, hluser⟩ := hcons.presents c tok id user.id ⟨_, hc, rfl⟩
    constructor
    · refine h.add newRow rfl hnone ?_ fun c' id' hx => ?_
      · intro p hp huser
        obtain rfl := Option.some.inj hp
        exact h.idle c id l ⟨_, hc, rfl⟩ hl (hluser.trans (hnewUser.symm.trans huser))
      · obtain ⟨-, hx⟩ := of_moved_none (w.get?_put c _) hx rfl
        exact ⟨hx, ne_newId hcons hnone hx⟩
    · rintro id' hseen ⟨row, hrow, huser, hlive⟩
      obtain ⟨l', hl'⟩ := h.known id' hseen
      have hne : id' ≠ newId := Dict.ne_of_get? hnone hl'
      have hrow' : (afterHit w.db id hit).token id' = some row := by
        have htoken := AuthDb.token_insertToken hdb id'
        rw [if_neg hne] at htoken
        exact htoken.symm.trans hrow
      exact (forgets_commit hcons hc).liveOf ⟨row, hrow', huser, hlive⟩
  | @issue c call fresh v expiresAt db' _ hcall hdb =>
    have hnone := hcons.lineage_nextId
    constructor
    · refine h.add ⟨v, sec.hashRefreshToken fresh, expiresAt, none⟩ rfl hnone
        (fun p hp => absurd hp (by simp)) fun c' id' hx => ?_
      obtain ⟨-, hx⟩ := of_moved_none (w.get?_put c _) hx hcall.exchanging
      exact ⟨hx, ne_newId hcons hnone hx⟩
    · rintro id' hseen ⟨row, hrow, huser, hlive⟩
      obtain ⟨l', hl'⟩ := h.known id' hseen
      have hne : id' ≠ w.db.refreshTokens.nextId := Dict.ne_of_get? hnone hl'
      have htoken := AuthDb.token_insertToken hdb id'
      rw [if_neg hne] at htoken
      exact ⟨row, htoken.symm.trans hrow, huser, hlive⟩

/-! ## The detection runs its course -/

/-- The calls an effect is not about stay where they are. -/
lemma get?_of_effect (he : Effect sec w e w') (hne : e.subject ≠ some b) :
    w'.calls.get? b = w.calls.get? b := by
  cases he with
  | forget _ hothers => exact hothers b hne
  | lock hc hfree => exact get?_of_set rfl rfl b hne
  | insert hc hhash huser hsession => exact get?_of_set rfl rfl b hne
  | commit hc hdb => exact get?_of_set rfl rfl b hne
  | issue hno hcall hdb => exact get?_of_set rfl rfl b hne

lemma lineage_of_effect (hcons : Consistent sec w) (he : Effect sec w e w') {l : Lineage}
    (hl : w.lineage.get? id = some l) : w'.lineage.get? id = some l := by
  cases he with
  | forget hf _ => exact hf.lineage ▸ hl
  | lock hc hfree => exact hl
  | insert hc hhash huser hsession => exact hl
  | @commit c _ _ _ _ newId newRow _ _ _ hc hdb =>
    obtain ⟨-, hnone, -⟩ := hcons.inserted c newId newRow ⟨_, hc, rfl⟩
    have hne : id ≠ newId := Dict.ne_of_get? hnone hl
    exact (Dict.get?_set_ne _ _ hne).trans hl
  | issue hno hcall hdb => exact (Dict.get?_set_ne _ _ (ne_of_lt (hcons.lineage_lt id l hl))).trans hl

lemma Detection.others (h : Detection d w b tok u) (hcons : Consistent sec w)
    (hok : w.undisturbed e = true) (he : Effect sec w e w') (hne : e.subject ≠ some b) :
    Detection d w' b tok u := by
  have hsame := get?_of_effect he hne
  cases h with
  | detected hb => exact .detected (hsame.trans hb)
  | @revoking rows since seen hb hseen hrows =>
    obtain ⟨hseen', hlive⟩ := hseen.effect hcons hok he (by
      rintro c fresh tok' id user rfl hc hid hlive
      exact notMem_of_undisturbed hok hc hb (hrows id hid hlive))
    exact .revoking (hsame.trans hb) hseen' fun id hid hl => hrows id hid (hlive id hid hl)
  | @raised seen hb hseen hdead =>
    obtain ⟨hseen', hlive⟩ := hseen.effect hcons hok he fun _ _ _ id _ _ _ hid => hdead id hid
    exact .raised (hsame.trans hb) hseen' fun id hid hl => hdead id hid (hlive id hid hl)
  | failed hb => exact .failed (hsame.trans hb)

/-- The mass revocation starts: it knows every row issued so far. -/
lemma Detection.start {fresh : String} (hcons : Consistent sec w) (hone : ExchangesOnce w)
    (hold : ∀ id l, d.lineage.get? id = some l → w.lineage.get? id = some l)
    (hok : w.undisturbed (.run b fresh) = true)
    (hb : w.calls.get? b = some (.refresh tok (.revokeAll u))) :
    Detection d (w.put b (.refresh tok
      (.revokingAll u (w.db.refreshTokens.idsWhere (AuthDb.isLiveOf u)) w.now))) b tok u := by
  have hseen : Closed d (w.put b (.refresh tok (.revokingAll u
      (w.db.refreshTokens.idsWhere (AuthDb.isLiveOf u)) w.now))) u
      fun id => ∃ l, w.lineage.get? id = some l := by
    refine ⟨fun id l hl => ⟨l, hold id l hl⟩, fun _ hid => hid, fun p n l hl _ _ _ => ⟨l, hl⟩, ?_⟩
    rintro c id l hx hl huser -
    obtain ⟨-, hx⟩ := of_moved_none (w.get?_put b _) hx rfl
    obtain ⟨row, hrow, -⟩ := live_eq_true_iff.1 (hcons.holds_live c id (hone.hit c id hx))
    obtain ⟨l', hl', -, hluser⟩ := hcons.row_lineage id row hrow
    obtain rfl := Option.some.inj (hl'.symm.trans hl)
    exact userId_ne_of_undisturbed hok hb hx hrow (hluser.symm.trans huser)
  refine .revoking ((w.get?_put b _ b).trans (if_pos rfl)) hseen ?_
  rintro id - ⟨row, hrow, huser, hlive⟩
  refine Table.mem_idsWhere.2 ⟨row, hrow, ?_⟩
  rw [AuthDb.isLiveOf, decide_eq_true huser, hlive]
  rfl

/-- The mass revocation ends: the rows it knows are dead. -/
lemma Detection.finish {fresh : String} {rows : List TokenId} {since : Timestamp}
    {seen : TokenId → Prop} (hseen : Closed d w u seen)
    (hrows : ∀ id, seen id → w.LiveOf u id → id ∈ rows)
    (hstep : w.runRefresh sec cfg b fresh tok (.revokingAll u rows since) = some w') :
    Detection d w' b tok u := by
  rw [runRefresh] at hstep
  split at hstep
  · exact absurd hstep (by simp)
  · rename_i hfree
    obtain rfl := Option.some.inj hstep
    have hf : Forgets sec w { w.put b (.refresh tok .invalid) with
        db := w.db.revokeWhere since fun id row => decide (id ∈ rows) && AuthDb.isLiveOf u id row } :=
      forgets_revokingAll (Bool.not_eq_true _ ▸ hfree)
    refine .raised ((w.get?_put b _ b).trans (if_pos rfl)) (hseen.forget hf) fun id hid hl => ?_
    have hmem := hrows id hid (hf.liveOf hl)
    obtain ⟨row', hrow', huser', hlive'⟩ := hl
    obtain ⟨row, hrow, rfl⟩ := AuthDb.exists_token_of_revokeWhere hrow'
    split at hlive'
    · exact absurd hlive' (by simp)
    · rename_i hnot
      rw [if_neg hnot] at huser'
      exact hnot (by simp [AuthDb.isLiveOf, hmem, huser', hlive'])

/-- The detecting call's own step, or the loss of its connection. -/
lemma Detection.own (h : Detection d w b tok u) (hcons : Consistent sec w) (hone : ExchangesOnce w)
    (hold : ∀ id l, d.lineage.get? id = some l → w.lineage.get? id = some l)
    (hok : w.undisturbed e = true) (hstep : w.step sec cfg e = some w')
    (hsubject : e.subject = some b) : Detection d w' b tok u := by
  -- the call is a refresh of `tok`, however far it has come
  have hcall : ∃ pc, w.calls.get? b = some (.refresh tok pc) := by
    cases h with
    -- it reads the rows it will revoke
    | detected hb => exact ⟨_, hb⟩
    | revoking hb _ _ => exact ⟨_, hb⟩
    | raised hb _ _ => exact ⟨_, hb⟩
    | failed hb => exact ⟨_, hb⟩
  cases e with
  | spawn c call =>
    obtain rfl := Option.some.inj hsubject
    obtain ⟨pc, hb⟩ := hcall
    rw [step, Dict.contains, hb] at hstep
    exact absurd hstep (by simp)
  | run c fresh =>
    obtain rfl := Option.some.inj hsubject
    obtain ⟨call, hc, hrun⟩ := Option.bind_eq_some_iff.1 hstep
    cases h with
    | detected hb =>
      obtain rfl := Option.some.inj (hb.symm.trans hc)
      obtain rfl := Option.some.inj hrun
      exact Detection.start hcons hone hold hok hb
    -- it revokes them, and raises
    | revoking hb hseen hrows =>
      obtain rfl := Option.some.inj (hb.symm.trans hc)
      have hfinish : w.runRefresh sec cfg c fresh tok (.revokingAll u _ _) = some w' := hrun
      exact Detection.finish hseen hrows hfinish
    | raised hb _ _ =>
      obtain rfl := Option.some.inj (hb.symm.trans hc)
      exact absurd hrun (by simp [runCall, runRefresh])
    | failed hb =>
      obtain rfl := Option.some.inj (hb.symm.trans hc)
      exact absurd hrun (by simp [runCall, runRefresh])
  | abort c =>
    obtain rfl := Option.some.inj hsubject
    obtain ⟨call, hc, habort⟩ := Option.bind_eq_some_iff.1 hstep
    obtain ⟨call', hcall', rfl⟩ := Option.map_eq_some_iff.1 habort
    -- a call that loses its connection revokes nothing, and has not raised the error either
    have hfailed : call' = .refresh tok .failed → Detection d (w.put c call') c tok u := by
      rintro rfl
      exact .failed ((w.get?_put c _ c).trans (if_pos rfl))
    cases h with
    | detected hb =>
      obtain rfl := Option.some.inj (hb.symm.trans hc)
      exact hfailed (Option.some.inj hcall').symm
    | revoking hb _ _ =>
      obtain rfl := Option.some.inj (hb.symm.trans hc)
      exact hfailed (Option.some.inj hcall').symm
    | raised hb _ _ =>
      obtain rfl := Option.some.inj (hb.symm.trans hc)
      exact absurd hcall' (by simp [Call.abort])
    | failed hb =>
      obtain rfl := Option.some.inj (hb.symm.trans hc)
      exact absurd hcall' (by simp [Call.abort])
  | deleteUser v => exact absurd hsubject (by simp [AuthEvent.subject])
  | advance micros => exact absurd hsubject (by simp [AuthEvent.subject])

/-! ## Every row goes back to a login or a registration -/

/-- Every row on record descends from one that was not exchanged for another. -/
def Rooted (w : AuthWorld) : Prop :=
  ∀ id l, w.lineage.get? id = some l → ∃ root lr, w.DescendsFrom root id ∧
    w.lineage.get? root = some lr ∧ lr.parent = none

lemma DescendsFrom.mono {p n : TokenId} (h : w.DescendsFrom p n)
    (hold : ∀ id l, w.lineage.get? id = some l → w'.lineage.get? id = some l) :
    w'.DescendsFrom p n :=
  Relation.ReflTransGen.mono (fun _ _ ⟨l, hl, hp⟩ => ⟨l, hold _ l hl, hp⟩) _ _ h

/-- A row that is new on record, with a parent that was there before. -/
lemma Rooted.add (h : Rooted w) {newId : TokenId} {l : Lineage}
    (hlineage : w'.lineage = w.lineage.set newId l) (hnone : w.lineage.get? newId = none)
    (hparent : ∀ p, l.parent = some p → ∃ lp, w.lineage.get? p = some lp) : Rooted w' := by
  have hold : ∀ id l, w.lineage.get? id = some l → w'.lineage.get? id = some l := by
    intro id l' hl'
    have hne : id ≠ newId := Dict.ne_of_get? hnone hl'
    rw [hlineage, Dict.get?_set_ne _ _ hne, hl']
  have hnew : w'.lineage.get? newId = some l := by rw [hlineage, Dict.get?_set_self]
  intro id l' hl'
  rw [hlineage, Dict.get?_set] at hl'
  split at hl'
  · rename_i heq
    subst heq
    cases hp : l.parent with
    | none => exact ⟨id, l, .refl, hnew, hp⟩
    | some p =>
      obtain ⟨lp, hlp⟩ := hparent p hp
      obtain ⟨root, lr, hdesc, hlr, hroot⟩ := h p lp hlp
      exact ⟨root, lr, (hdesc.mono hold).tail ⟨l, hnew, hp⟩, hold root lr hlr, hroot⟩
  · obtain ⟨root, lr, hdesc, hlr, hroot⟩ := h id l' hl'
    exact ⟨root, lr, hdesc.mono hold, hold root lr hlr, hroot⟩

lemma Rooted.effect (h : Rooted w) (hcons : Consistent sec w) (he : Effect sec w e w') :
    Rooted w' := by
  cases he with
  | forget hf _ =>
    have hsame : ∀ id, w'.lineage.get? id = w.lineage.get? id := fun id => by rw [hf.lineage]
    intro id l hl
    obtain ⟨root, lr, hdesc, hlr, hroot⟩ := h id l ((hsame id).symm.trans hl)
    exact ⟨root, lr, hdesc.mono fun id l hl => (hsame id).trans hl, (hsame root).trans hlr, hroot⟩
  | lock hc hfree => exact h
  | insert hc hhash huser hsession => exact h
  | @commit c tok id user _ newId newRow _ _ _ hc hdb =>
    obtain ⟨-, hnone, -⟩ := hcons.inserted c newId newRow ⟨_, hc, rfl⟩
    obtain ⟨l, hl, -⟩ := hcons.presents c tok id user.id ⟨_, hc, rfl⟩
    refine h.add rfl hnone fun p hp => ?_
    obtain rfl := Option.some.inj hp
    exact ⟨l, hl⟩
  | issue hno hcall hdb =>
    exact h.add rfl hcons.lineage_nextId fun p hp => absurd hp (by simp)

/-! ## Finality -/

/-- What the runs below keep. -/
structure Sealed (sec : Crypto) (w : AuthWorld) : Prop where
  consistent : Consistent sec w
  once : ExchangesOnce w
  rooted : Rooted w

lemma Sealed.step (h : Sealed sec w) (hok : Undisturbed w e) (hstep : w.step sec cfg e = some w') :
    Sealed sec w' := by
  have he := effect_of_step hstep
  exact ⟨h.consistent.effect hok.1 he,
    h.once.effect h.consistent (stillLive_of_undisturbed hok.2) he, h.rooted.effect h.consistent he⟩

lemma sealed_of_reachable (h : (system sec cfg).ReachableWhere Undisturbed w) : Sealed sec w := by
  refine h.invariant (fun w hinit => ?_) fun _ _ _ hok hsealed hstep => hsealed.step hok hstep
  obtain ⟨-, -, hlineage, -⟩ := id hinit
  refine ⟨consistent_of_init hinit, exchangesOnce_of_init hinit, ?_⟩
  exact fun id l hl => absurd hl (by simp [hlineage])

/-- The ancestors of a row of the user that was not seen were not seen either, and are rows of the
user. -/
lemma Closed.ancestor {seen : TokenId → Prop} (h : Closed d w u seen) (hcons : Consistent sec w)
    {p r : TokenId} (hdesc : w.DescendsFrom p r) (hr : ¬ seen r)
    (huser : ∃ l, w.lineage.get? r = some l ∧ l.user = u) : ¬ seen p := by
  induction hdesc with
  | refl => exact hr
  | @tail m n _ hmn ih =>
    obtain ⟨l, hl, hp⟩ := hmn
    obtain ⟨l', hl', hu⟩ := huser
    obtain rfl := Option.some.inj (hl.symm.trans hl')
    obtain ⟨lm, hlm, hlmu, -⟩ := hcons.parent_dead n l m hl hp
    exact ih (fun hm => hr (h.children m n l hl hp hu hm)) ⟨lm, hlm, hlmu.trans hu⟩

/-- **Reuse detection is final.**  A refresh has found the row of its token revoked, in the world
`d`; the calls go on undisturbed, and in `w` it has raised.  Then no live row of the user, nor any
row it was obtained from, was issued when the reuse was detected; it goes back to a login or a
registration since. -/
theorem reuse_detection_final (hd : (system sec cfg).ReachableWhere Undisturbed d)
    (hb : d.calls.get? b = some (.refresh tok (.revokeAll u)))
    (hrun : (system sec cfg).RunWhere Undisturbed d w)
    (hraised : w.calls.get? b = some (.refresh tok .invalid)) {r : TokenId} (hr : w.LiveOf u r) :
    (∀ p, w.DescendsFrom p r → d.lineage.get? p = none) ∧
    ∃ root l, w.DescendsFrom root r ∧ w.lineage.get? root = some l ∧ l.parent = none ∧
      d.lineage.get? root = none := by
  -- the three together, from the detection on
  have hinv : Sealed sec w ∧ (∀ id l, d.lineage.get? id = some l → w.lineage.get? id = some l) ∧
      Detection d w b tok u := by
    refine System.RunWhere.invariant (I := fun w => Sealed sec w ∧
      (∀ id l, d.lineage.get? id = some l → w.lineage.get? id = some l) ∧ Detection d w b tok u) hrun
      ⟨sealed_of_reachable hd, fun _ _ hl => hl, .detected hb⟩ ?_
    rintro w e w' hok ⟨hsealed, hold, hdet⟩ hstep
    have he := effect_of_step hstep
    refine ⟨hsealed.step hok hstep,
      fun id l hl => lineage_of_effect hsealed.consistent he (hold id l hl), ?_⟩
    by_cases hsubject : e.subject = some b
    · exact hdet.own hsealed.consistent hsealed.once hold hok.2 hstep hsubject
    · exact hdet.others hsealed.consistent hok.2 he hsubject
  obtain ⟨hsealed, -, hdet⟩ := hinv
  -- a row that descends from one seen at the detection is dead, so `r` descends from none of these
  have hnew : ∀ p, w.DescendsFrom p r → d.lineage.get? p = none := by
    cases hdet with
    | raised _ hseen hdead =>
      intro p hdesc
      obtain ⟨row, hrow, huser, hlive⟩ := hr
      obtain ⟨l, hl, -, hluser⟩ := hsealed.consistent.row_lineage r row hrow
      have hnot := hseen.ancestor hsealed.consistent hdesc
        (fun hs => hdead r hs ⟨row, hrow, huser, hlive⟩)
        ⟨l, hl, hluser.trans huser⟩
      cases hp : d.lineage.get? p with
      | none => rfl
      | some lp => exact absurd (hseen.old p lp hp) hnot
    | detected hb' => exact absurd (hb'.symm.trans hraised) (by simp)
    | revoking hb' _ _ => exact absurd (hb'.symm.trans hraised) (by simp)
    | failed hb' => exact absurd (hb'.symm.trans hraised) (by simp)
  obtain ⟨row, hrow, -⟩ := hr
  obtain ⟨l, hl, -⟩ := hsealed.consistent.row_lineage r row hrow
  -- so its first ancestor is a row of a login after the detection
  obtain ⟨root, lr, hdesc, hlr, hroot⟩ := hsealed.rooted r l hl
  exact ⟨hnew, root, lr, hdesc, hlr, hroot, hnew root hdesc⟩

/-- The exchanged token is presented again: its row is read and found revoked. -/
def reuses : List AuthEvent :=
  registers ++ refreshes ++ [.spawn 3 (.refresh "first" .lookup), .run 3 "", .run 3 ""]

/-- The mass revocation runs, and then the user logs in. -/
def recovers : List AuthEvent :=
  [.run 3 "", .run 3 "", .spawn 4 (.login "alice" "pw" .start), .run 4 "", .run 4 "third"]

/-- After a detection and a login, the live row is the one of the login. -/
theorem reuse_detection_final_login : ∃ d w,
    (system Crypto.plain {}).execWhere Undisturbed migrated reuses = some d ∧
    (system Crypto.plain {}).execWhere Undisturbed d recovers = some w ∧
    w.LiveOf 1 3 ∧ ∀ p, w.DescendsFrom p 3 → d.lineage.get? p = none := by
  have hdetected : ((system Crypto.plain {}).execWhere Undisturbed migrated reuses).map
      (fun d => d.calls.get? 3) = some (some (.refresh "first" (.revokeAll 1))) := by decide +kernel
  have hafter : ((system Crypto.plain {}).execWhere Undisturbed migrated reuses).bind
      (fun d => ((system Crypto.plain {}).execWhere Undisturbed d recovers).map
        fun w => (w.calls.get? 3, (w.db.token 3).map fun row => (row.userId, row.live))) =
      some (some (.refresh "first" .invalid), some (1, true)) := by decide +kernel
  obtain ⟨d, hd, hb⟩ := Option.map_eq_some_iff.1 hdetected
  rw [hd, Option.bind_some] at hafter
  obtain ⟨w, hw, hfacts⟩ := Option.map_eq_some_iff.1 hafter
  obtain ⟨hraised, hrow⟩ := Prod.mk.inj hfacts
  obtain ⟨row, hrow, hrowFacts⟩ := Option.map_eq_some_iff.1 hrow
  obtain ⟨huser, hlive⟩ := Prod.mk.inj hrowFacts
  have hlive : w.LiveOf 1 3 := ⟨row, hrow, huser, hlive⟩
  exact ⟨d, w, hd, hw, hlive, (reuse_detection_final
    ⟨migrated, init_migrated, System.runWhere_of_execWhere hd⟩ hb
    (System.runWhere_of_execWhere hw) hraised hlive).1⟩

/-- A second refresh has passed its check when the exchanged token is presented again. -/
def overtakes : List AuthEvent :=
  registers ++ refreshes ++
    [.spawn 2 (.refresh "second" .lookup), .run 2 "", .run 2 "", .run 2 "",
      .spawn 3 (.refresh "first" .lookup), .run 3 "", .run 3 ""]

/-- The mass revocation runs to its end, and then the second refresh does. -/
def escapes : List AuthEvent := [.run 3 "", .run 3 "", .run 2 "", .run 2 "third", .run 2 ""]

/-- **A detection can miss a refresh in flight.**  All calls are over, the detection has raised, and
a live row is left that was exchanged for one issued before. -/
theorem detection_misses_refresh : ∃ d w,
    (system Crypto.plain {}).execWhere Fresh migrated overtakes = some d ∧
    d.calls.get? 3 = some (.refresh "first" (.revokeAll 1)) ∧
    (system Crypto.plain {}).execWhere Fresh d escapes = some w ∧
    w.calls.get? 3 = some (.refresh "first" .invalid) ∧
    (∀ c call, w.calls.get? c = some call → call.abort = none) ∧
    w.LiveOf 1 3 ∧ w.ExchangedFor 2 3 ∧ (d.lineage.get? 2).isSome = true := by
  have hdetected : ((system Crypto.plain {}).execWhere Fresh migrated overtakes).map
      (fun d => (d.calls.get? 3, (d.lineage.get? 2).isSome)) =
      some (some (.refresh "first" (.revokeAll 1)), true) := by decide +kernel
  have hafter : ((system Crypto.plain {}).execWhere Fresh migrated overtakes).bind
      (fun d => ((system Crypto.plain {}).execWhere Fresh d escapes).map
        fun w => (w.calls.get? 3, w.anyCall fun call => call.abort.isSome)) =
      some (some (.refresh "first" .invalid), false) := by decide +kernel
  have hrows : ((system Crypto.plain {}).execWhere Fresh migrated overtakes).bind
      (fun d => ((system Crypto.plain {}).execWhere Fresh d escapes).map
        fun w => ((w.db.token 3).map fun row => (row.userId, row.live), w.lineage.get? 3)) =
      some (some (1, true), some ⟨"third", 1, some 2⟩) := by decide +kernel
  obtain ⟨d, hd, hdFacts⟩ := Option.map_eq_some_iff.1 hdetected
  obtain ⟨hb, hold⟩ := Prod.mk.inj hdFacts
  rw [hd, Option.bind_some] at hafter hrows
  obtain ⟨w, hw, hwFacts⟩ := Option.map_eq_some_iff.1 hafter
  obtain ⟨hraised, hover⟩ := Prod.mk.inj hwFacts
  rw [hw, Option.map_some, Option.some.injEq] at hrows
  obtain ⟨hrow, hlineage⟩ := Prod.mk.inj hrows
  obtain ⟨row, hrow, hrowFacts⟩ := Option.map_eq_some_iff.1 hrow
  obtain ⟨huser, hlive⟩ := Prod.mk.inj hrowFacts
  refine ⟨d, w, hd, hb, hw, hraised, fun c call hc => ?_, ⟨row, hrow, huser, hlive⟩,
    ⟨_, hlineage, rfl⟩, hold⟩
  have hcall := anyCall_eq_false_iff.1 hover c call hc
  rwa [Option.isSome_eq_false_iff, Option.isNone_iff_eq_none] at hcall

end AuthWorld
end TickerWatch
