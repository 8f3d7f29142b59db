import TickerWatch.Auth.Isolation

/-!
# What a step can do

`effect_of_step` says once what an event does to a world: it forgets or kills, or it is one of the
three steps of a refresh transaction, or a login or registration issues its token.  Each invariant
of the interleavings is derived from that.
-/

namespace TickerWatch
namespace AuthWorld

variable {sec : Crypto} {cfg : AuthSettings} {w w' : AuthWorld} {e : AuthEvent} {c : CallId}
  {call : Call} {tok fresh : String} {id : TokenId} {user : User} {hit : Option Timestamp}
  {pc : RefreshPc}

/-- The world after an exchange is committed. -/
def exchanged (w : AuthWorld) (c : CallId) (tok : String) (id newId : TokenId)
    (newRow : RefreshTokenRow) (session : Session) (db' : AuthDb) : AuthWorld :=
  { w.put c (.refresh tok (.returned id session)) with
    db := db'
    lineage := w.lineage.set newId ⟨newRow.tokenHash, newRow.userId, some id⟩ }

/-- The world after a login or a registration issued its token. -/
def issued (w : AuthWorld) (sec : Crypto) (c : CallId) (call : Call) (fresh : String)
    (user : UserId) (db' : AuthDb) : AuthWorld :=
  { w.put c call with
    db := db'
    minted := fresh :: w.minted
    lineage := w.lineage.set w.db.refreshTokens.nextId ⟨sec.hashRefreshToken fresh, user, none⟩ }

/-- What an event can do to the rows, the history and the calls.  Beside `forget`, which moves calls
along and takes rows away, there are the three statements of the transaction of a refresh and the
insert of a login or a registration. -/
inductive Effect (sec : Crypto) (w : AuthWorld) : AuthEvent → AuthWorld → Prop
  | forget {e : AuthEvent} {w' : AuthWorld} (hf : Forgets sec w w')
    (hothers : ∀ c, e.subject ≠ some c → w'.calls.get? c = w.calls.get? c) : Effect sec w e w'
  /-- A refresh transaction updates its row. -/
  | lock {c : CallId} {tok : String} {id : TokenId} {user : User} {fresh : String}
    (hc : w.calls.get? c = some (.refresh tok (.revoke id user))) (hfree : w.locked id = false) :
    Effect sec w (.run c fresh) (w.put c (.refresh tok (.issue id user
      (if w.live id then some w.now else none))))
  /-- It inserts the new row. -/
  | insert {c : CallId} {tok : String} {id : TokenId} {user : User} {hit : Option Timestamp}
    {fresh : String} {newRow : RefreshTokenRow} {session : Session}
    (hc : w.calls.get? c = some (.refresh tok (.issue id user hit)))
    (hhash : newRow.tokenHash = sec.hashRefreshToken fresh) (huser : newRow.userId = user.id)
    (hsession : session.user.id = user.id) :
    Effect sec w (.run c fresh) { w.put c (.refresh tok (.commit id user hit
      w.db.refreshTokens.nextId newRow session)) with
        db := w.db.nextTokenId, minted := fresh :: w.minted }
  /-- It commits. -/
  | commit {c : CallId} {tok : String} {id : TokenId} {user : User} {hit : Option Timestamp}
    {newId : TokenId} {newRow : RefreshTokenRow} {session : Session} {fresh : String} {db' : AuthDb}
    (hc : w.calls.get? c = some (.refresh tok (.commit id user hit newId newRow session)))
    (hdb : (afterHit w.db id hit).insertToken newId newRow = some db') :
    Effect sec w (.run c fresh) (w.exchanged c tok id newId newRow session db')
  /-- A login or a registration inserts its row. -/
  | issue {c : CallId} {call : Call} {fresh : String} {user : UserId} {expiresAt : Timestamp}
    {db' : AuthDb} (hno : ∀ tok pc, w.calls.get? c ≠ some (.refresh tok pc)) (hcall : Silent call)
    (hdb : w.db.storeRefreshToken user (sec.hashRefreshToken fresh) expiresAt = some db') :
    Effect sec w (.run c fresh) (w.issued sec c call fresh user db')

/-! ## The statements, one by one -/

lemma get?_of_set (hcalls : w'.calls = w.calls.set c call) (hsubject : e.subject = some c)
    (c' : CallId) (hne : e.subject ≠ some c') : w'.calls.get? c' = w.calls.get? c' := by
  have hc : c' ≠ c := fun heq => hne (heq ▸ hsubject)
  rw [hcalls, Dict.get?_set_ne _ _ hc]

/-- The call moves on, and no fact is about it any more. -/
lemma Effect.put_silent (hsubject : e.subject = some c) (h : Silent call) :
    Effect sec w e (w.put c call) :=
  .forget (forgets_put_silent h) (get?_of_set rfl hsubject)

/-- The call moves on within its checks: it presents no row that it did not find before. -/
lemma Effect.put_found (hc : w.calls.get? c = some (.refresh tok pc)) {pc' : RefreshPc}
    (hpresents : (Call.refresh tok pc').presents = (Call.refresh tok pc).presents)
    (hexchanging : (Call.refresh tok pc').exchanging = none)
    (hholds : (Call.refresh tok pc').holds = none)
    (hinserted : (Call.refresh tok pc').inserted = none)
    (hredeemed : (Call.refresh tok pc').redeemed = none) :
    Effect sec w (.run c fresh) (w.put c (.refresh tok pc')) :=
  .forget (forgets_put (fun _ _ _ hp => Or.inl ⟨_, hc, hpresents.symm.trans hp⟩) hexchanging hholds
    hinserted hredeemed) (get?_of_set rfl rfl)

/-- A call that fails to insert has used up an id and a token value. -/
lemma forgets_mint (h : Silent call) (fresh : String) : Forgets sec w
    { w.put c call with db := w.db.nextTokenId, minted := fresh :: w.minted } :=
  forgets_of_call (w.get?_put c call) (fun _ row' hrow' => ⟨row', hrow', rfl, rfl, fun h => h⟩)
    (fun _ _ _ _ hlive => hlive) (le_of_lt (lt_add_one _)) rfl
    (fun _ ht => List.mem_cons_of_mem _ ht)
    (fun _ _ _ hp => absurd (h.presents.symm.trans hp) (by simp)) h.exchanging h.holds h.inserted
    h.redeemed

lemma forgets_revokingAll {u : UserId} {rows : List TokenId} {since : Timestamp}
    (hfree : rows.any w.locked = false) : Forgets sec w
      { w.put c (.refresh tok .invalid) with
        db := w.db.revokeWhere since fun id row =>
          decide (id ∈ rows) && AuthDb.isLiveOf u id row } := by
  refine forgets_kill ⟨rfl, rfl, rfl, rfl, rfl⟩ fun id row hp => ?_
  have hmem : id ∈ rows := of_decide_eq_true (Bool.and_eq_true_iff.1 hp).1
  rw [List.any_eq_false] at hfree
  exact Bool.not_eq_true _ ▸ hfree id hmem

lemma effect_of_runRefresh (hc : w.calls.get? c = some (.refresh tok pc))
    (h : w.runRefresh sec cfg c fresh tok pc = some w') : Effect sec w (.run c fresh) w' := by
  have hinvalid : Silent (.refresh tok .invalid) := ⟨rfl, rfl, rfl, rfl, rfl⟩
  have hfailed : Silent (.refresh tok .failed) := ⟨rfl, rfl, rfl, rfl, rfl⟩
  cases pc with
  | lookup =>
    rw [runRefresh] at h
    split at h
    · obtain rfl := Option.some.inj h
      exact .put_silent rfl hinvalid
    · rename_i id row hget
      obtain rfl := Option.some.inj h
      obtain ⟨hrow, hhash⟩ := AuthDb.getRefreshToken_eq_some_iff.1 hget
      -- the read names the row the call presents from here on
      refine .forget (forgets_put ?_ rfl rfl rfl rfl) (get?_of_set rfl rfl)
      intro tok' id' u hp
      simp only [Call.presents, Option.some.injEq, Prod.mk.injEq] at hp
      obtain ⟨rfl, rfl, rfl⟩ := hp
      exact Or.inr ⟨row, hrow, hhash, rfl⟩
  | found id row =>
    rw [runRefresh] at h
    split at h
    · split at h
      · obtain rfl := Option.some.inj h
        exact .put_silent rfl hinvalid
      · obtain rfl := Option.some.inj h
        exact .put_found hc rfl rfl rfl rfl rfl
    · obtain rfl := Option.some.inj h
      exact .put_silent rfl ⟨rfl, rfl, rfl, rfl, rfl⟩
  | revokeAll u =>
    obtain rfl := Option.some.inj h
    exact .put_silent rfl ⟨rfl, rfl, rfl, rfl, rfl⟩
  -- the mass revocation waits for the locks on its rows, so nobody holds one when it runs
  | revokingAll u rows since =>
    rw [runRefresh] at h
    split at h
    · exact absurd h (by simp)
    · rename_i hfree
      obtain rfl := Option.some.inj h
      exact .forget (forgets_revokingAll (Bool.not_eq_true _ ▸ hfree)) (get?_of_set rfl rfl)
  | loadUser id row =>
    rw [runRefresh] at h
    split at h
    · obtain rfl := Option.some.inj h
      exact .put_silent rfl hinvalid
    · rename_i user huser
      obtain rfl := Option.some.inj h
      obtain ⟨userRow, -, rfl⟩ := Option.map_eq_some_iff.1 huser
      exact .put_found hc rfl rfl rfl rfl rfl
  -- the UPDATE waits for the row lock, and takes it
  | revoke id user =>
    rw [runRefresh] at h
    split at h
    · exact absurd h (by simp)
    · rename_i hfree
      obtain rfl := Option.some.inj h
      exact .lock hc (Bool.not_eq_true _ ▸ hfree)
  | issue id user hit =>
    obtain rfl := Option.some.inj h
    cases w.db.insertToken w.db.refreshTokens.nextId ⟨user.id, sec.hashRefreshToken fresh,
        cfg.expiresAt w.now, none⟩ with
    -- the hash is taken: the transaction is rolled back, but its token was drawn
    | none => exact .forget (forgets_mint hfailed fresh) (get?_of_set rfl rfl)
    | some db' => exact .insert hc rfl rfl rfl
  -- the insert is repeated on what the others have committed since
  | commit id user hit newId newRow session =>
    rw [runRefresh] at h
    split at h
    · obtain rfl := Option.some.inj h
      exact .put_silent rfl hfailed
    · rename_i db' hdb
      obtain rfl := Option.some.inj h
      exact .commit hc hdb
  | returned id session => exact absurd h (by simp [runRefresh])
  | invalid => exact absurd h (by simp [runRefresh])
  | failed => exact absurd h (by simp [runRefresh])

lemma silent_logout {pc : LogoutPc} : Silent (.logout tok pc) := ⟨rfl, rfl, rfl, rfl, rfl⟩

lemma silent_login {username password : String} {pc : LoginPc} :
    Silent (.login username password pc) := ⟨rfl, rfl, rfl, rfl, rfl⟩

lemma silent_register {salt username password : String} {email : Option String}
    {firstName lastName : String} {pc : LoginPc} :
    Silent (.register salt username password email firstName lastName pc) :=
  ⟨rfl, rfl, rfl, rfl, rfl⟩

lemma effect_of_runLogout {pc : LogoutPc} (h : w.runLogout sec c tok pc = some w') :
    Effect sec w (.run c fresh) w' := by
  cases pc with
  | lookup =>
    rw [runLogout] at h
    split at h <;> obtain rfl := Option.some.inj h <;> exact .put_silent rfl silent_logout
  | revoke id =>
    rw [runLogout] at h
    split at h
    · exact absurd h (by simp)
    · rename_i hfree
      obtain rfl := Option.some.inj h
      refine .forget (forgets_kill silent_logout fun id' row hp => ?_) (get?_of_set rfl rfl)
      obtain rfl : id' = id := of_decide_eq_true (Bool.and_eq_true_iff.1 hp).1
      exact Bool.not_eq_true _ ▸ hfree
  | done => exact absurd h (by simp [runLogout])
  | failed => exact absurd h (by simp [runLogout])

lemma effect_of_runIssue {call : LoginPc → Call}
    (hno : ∀ tok pc, w.calls.get? c ≠ some (.refresh tok pc)) (hcall : ∀ pc, Silent (call pc)) :
    Effect sec w (.run c fresh) (w.runIssue sec cfg c fresh call user) := by
  unfold runIssue
  split
  · refine .forget (forgets_of_call (w.get?_put c _)
      (fun _ row' hrow' => ⟨row', hrow', rfl, rfl, fun h => h⟩) (fun _ _ _ _ hlive => hlive) le_rfl
      rfl (fun _ ht => List.mem_cons_of_mem _ ht)
      (fun _ _ _ hp => absurd ((hcall .raised).presents.symm.trans hp) (by simp))
      (hcall _).exchanging (hcall _).holds (hcall _).inserted (hcall _).redeemed)
      (get?_of_set rfl rfl)
  · exact .issue hno (hcall _) ‹_›

lemma effect_of_runLogin {username password : String} {pc : LoginPc}
    (hc : w.calls.get? c = some (.login username password pc))
    (h : w.runLogin sec cfg c fresh username password pc = some w') :
    Effect sec w (.run c fresh) w' := by
  cases pc with
  | start =>
    rw [runLogin] at h
    split at h
    · obtain rfl := Option.some.inj h
      exact .put_silent rfl silent_login
    · split at h <;> obtain rfl := Option.some.inj h <;>
        exact .put_silent rfl silent_login
  | issue user =>
    obtain rfl := Option.some.inj h
    exact effect_of_runIssue (by simp [hc]) fun _ => silent_login
  | returned session => exact absurd h (by simp [runLogin])
  | raised => exact absurd h (by simp [runLogin])

lemma effect_of_runRegister {salt username password : String} {email : Option String}
    {firstName lastName : String} {pc : LoginPc}
    (hc : w.calls.get? c = some (.register salt username password email firstName lastName pc))
    (h : w.runRegister sec cfg c fresh salt username password email firstName lastName pc =
      some w') : Effect sec w (.run c fresh) w' := by
  cases pc with
  | start =>
    rw [runRegister] at h
    dsimp only at h
    split at h
    · obtain rfl := Option.some.inj h
      exact .put_silent rfl silent_register
    · split at h
      · obtain rfl := Option.some.inj h
        exact .put_silent rfl silent_register
      · rename_i id db' hcreate
        obtain rfl := Option.some.inj h
        have htoken := AuthDb.token_create hcreate
        -- `create` writes users and watchlists, and leaves the token rows as they are
        refine .forget (forgets_of_call (w.get?_put c _) ?_ ?_ ?_ rfl (fun _ ht => ht)
          (fun _ _ _ hp => absurd hp (by simp [Call.presents])) rfl rfl rfl rfl) (get?_of_set rfl rfl)
        · exact fun id row' hrow' => ⟨row', (htoken id).symm.trans hrow', rfl, rfl, fun h => h⟩
        · intro c' id' _ _ hlive
          rw [live] at hlive ⊢
          rw [← hlive]
          exact congrArg _ (htoken id')
        · exact (congrArg Table.nextId (AuthDb.refreshTokens_create hcreate)).ge
  | issue user =>
    obtain rfl := Option.some.inj h
    exact effect_of_runIssue (by simp [hc]) fun _ => silent_register
  | returned session => exact absurd h (by simp [runRegister])
  | raised => exact absurd h (by simp [runRegister])

lemma silent_of_abort {call' : Call} (h : call.abort = some call') : Silent call' := by
  unfold Call.abort at h
  split at h <;> first
    | (obtain rfl := Option.some.inj h
       exact ⟨rfl, rfl, rfl, rfl, rfl⟩)
    | exact absurd h (by simp)

lemma silent_of_isStart (h : call.isStart = true) : Silent call := by
  unfold Call.isStart at h
  split at h <;> first
    | exact ⟨rfl, rfl, rfl, rfl, rfl⟩
    | exact absurd h Bool.false_ne_true

/-- Deleting a user whom no open transaction refers to. -/
lemma forgets_deleteUser {u : UserId} (h : w.refersTo u = false) :
    Forgets sec w { w with db := w.db.deleteUser u } where
  token := by
    intro id row' hrow'
    have hrow := (AuthDb.token_deleteUser w.db u id).1 hrow'
    exact ⟨row', hrow.1, rfl, rfl, fun h => h⟩
  held := by
    rintro c id ⟨call, hc, hholds⟩ hlive
    obtain ⟨row, hrow, hrowlive⟩ := live_eq_true_iff.1 hlive
    have hno := anyCall_eq_false_iff.1 h c call hc
    have huser : row.userId ≠ u := by
      intro heq
      simp [hholds, hrow, heq] at hno
    exact live_eq_true_iff.2 ⟨row, (AuthDb.token_deleteUser w.db u id).2 ⟨hrow, huser⟩, hrowlive⟩
  nextId := le_rfl
  lineage := rfl
  minted := fun _ ht => ht
  presents := fun _ _ _ _ h => Or.inl h
  exchanging := fun _ _ h => ⟨h, fun hold => hold⟩
  holds := fun _ _ h => h
  inserted := fun _ _ h => h
  inserts_own := fun _ _ _ _ _ _ _ _ h => h
  redeemed := fun _ _ h => h

/-- **What a step can do.** -/
theorem effect_of_step (h : w.step sec cfg e = some w') : Effect sec w e w' := by
  cases e with
  | spawn c call =>
    rw [step] at h
    split at h
    · rename_i hcond
      obtain rfl := Option.some.inj h
      exact .put_silent rfl (silent_of_isStart (Bool.and_eq_true_iff.1 hcond).1)
    · exact absurd h (by simp)
  | run c fresh =>
    obtain ⟨call, hc, hrun⟩ := Option.bind_eq_some_iff.1 h
    cases call with
    | refresh token pc => exact effect_of_runRefresh hc hrun
    | logout token pc => exact effect_of_runLogout hrun
    | login username password pc => exact effect_of_runLogin hc hrun
    | register salt username password email firstName lastName pc =>
      exact effect_of_runRegister hc hrun
  | abort c =>
    obtain ⟨call, -, habort⟩ := Option.bind_eq_some_iff.1 h
    obtain ⟨call', hcall', rfl⟩ := Option.map_eq_some_iff.1 habort
    exact .put_silent rfl (silent_of_abort hcall')
  -- the rows of the user go by cascade, once nobody locks them
  | deleteUser u =>
    rw [step] at h
    split at h
    · exact absurd h (by simp)
    · rename_i hfree
      obtain rfl := Option.some.inj h
      exact .forget (forgets_deleteUser (Bool.not_eq_true _ ▸ hfree)) fun _ _ => rfl
  | advance micros =>
    obtain rfl := Option.some.inj h
    exact .forget ⟨fun _ row' hrow' => ⟨row', hrow', rfl, rfl, fun h => h⟩, fun _ _ _ hl => hl,
      le_rfl, rfl, fun _ ht => ht, fun _ _ _ _ h => Or.inl h, fun _ _ h => ⟨h, fun hold => hold⟩,
      fun _ _ h => h, fun _ _ h => h, fun _ _ _ _ _ _ _ _ h => h, fun _ _ h => h⟩ fun _ _ => rfl

/-! ## The invariant holds in every world -/

lemma live_afterHit (h : Consistent sec w) {newId : TokenId} {newRow : RefreshTokenRow}
    {session : Session}
    (hc : w.calls.get? c = some (.refresh tok (.commit id user hit newId newRow session))) :
    ((afterHit w.db id hit).token id).any RefreshTokenRow.live = false := by
  cases hit with
  | none =>
    rcases h.exchanging c id ⟨_, hc, rfl⟩ with ⟨d, hd, hholds⟩ | hdead
    · obtain rfl := Option.some.inj (hc.symm.trans hd)
      exact absurd hholds (by simp [Call.holds])
    · exact hdead
  | some since =>
    rw [afterHit, AuthDb.revokeRefreshToken, AuthDb.token_revokeWhere]
    cases w.db.token id with
    | none => rfl
    | some row => by_cases hlive : row.live = true <;> simp [hlive]

/-- The first half of a commit: the row is revoked and the call lets go of everything. -/
lemma forgets_commit (h : Consistent sec w) {newId : TokenId} {newRow : RefreshTokenRow}
    {session : Session}
    (hc : w.calls.get? c = some (.refresh tok (.commit id user hit newId newRow session))) :
    Forgets sec w { w.put c (.refresh tok .failed) with db := afterHit w.db id hit } := by
  refine forgets_of_call (w.get?_put c _) ?_ ?_ ?_ rfl (fun _ ht => ht)
    (fun _ _ _ hp => absurd hp (by simp [Call.presents])) rfl rfl rfl rfl
  · intro id' row' hrow'
    cases hit with
    | none => exact ⟨row', hrow', rfl, rfl, fun h => h⟩
    | some since =>
      obtain ⟨row, hrow, rfl⟩ := AuthDb.exists_token_of_revokeWhere hrow'
      refine ⟨row, hrow, ?_⟩
      split
      · exact ⟨rfl, rfl, fun hlive => absurd hlive (by simp)⟩
      · exact ⟨rfl, rfl, fun hlive => hlive⟩
  · intro c' id' hne hholds hlive
    cases hit with
    | none => exact hlive
    | some since =>
      -- the committing call is the only one that locks its row
      have hid : id' ≠ id := by
        rintro rfl
        exact hne (h.holds_unique c' c id' hholds ⟨_, hc, rfl⟩)
      obtain ⟨row, hrow, hrowlive⟩ := live_eq_true_iff.1 hlive
      refine live_eq_true_iff.2 ⟨row, ?_, hrowlive⟩
      change (w.db.revokeRefreshToken since id).token id' = some row
      rw [AuthDb.revokeRefreshToken, AuthDb.token_revokeWhere, hrow, Option.map_some]
      simp [hid]
  · cases hit with
    | none => exact le_rfl
    | some since => exact le_rfl

lemma Consistent.commit (h : Consistent sec w) {newId : TokenId} {newRow : RefreshTokenRow}
    {session : Session} {db' : AuthDb}
    (hc : w.calls.get? c = some (.refresh tok (.commit id user hit newId newRow session)))
    (hdb : (afterHit w.db id hit).insertToken newId newRow = some db') :
    Consistent sec (w.exchanged c tok id newId newRow session db') := by
  -- first the lock is given up and the exchanged row is dead, then the new row is added
  have hf := forgets_commit h hc
  have h₁ := h.forget hf
  have hmoved := w.get?_put c (.refresh tok .failed)
  have hdead := live_afterHit h hc
  -- what the transaction brought with it: whose row it inserts, and that its id and hash are new
  obtain ⟨hnewUser, hsessionUser⟩ := h.inserts_own _ _ _ _ _ _ _ _ hc
  obtain ⟨-, hnone, hminted, hhash⟩ := h.inserted c newId newRow ⟨_, hc, rfl⟩
  obtain ⟨l, hl, hlhash, hluser⟩ := h.presents c tok id user.id ⟨_, hc, rfl⟩
  refine h₁.add c (.refresh tok (.returned id session))
    ⟨AuthDb.token_insertToken hdb, ?_, ?_, rfl, rfl⟩ ?_ hnone hminted hhash ?_ ?_ ?_ rfl rfl rfl ?_
  · exact (le_max_left _ _).trans_eq (AuthDb.nextId_insertToken hdb).symm
  · exact (lt_add_one newId).trans_le
      ((le_max_right _ _).trans_eq (AuthDb.nextId_insertToken hdb).symm)
  · intro c'
    change (w.put c (.refresh tok (.returned id session))).calls.get? c' =
      if c' = c then _ else (w.put c (.refresh tok .failed)).calls.get? c'
    rw [get?_put, hmoved]
    split <;> rfl
  · intro c' x hne hx
    replace hx := of_moved hmoved hx
    rcases hx with ⟨heq, -⟩ | ⟨-, hx⟩
    · exact absurd heq hne
    · exact h.inserted_unique c' c x (newId, newRow) hx ⟨_, hc, rfl⟩ hne
  -- the parent is the row it presented, which its own UPDATE killed
  · intro p hp
    obtain rfl := Option.some.inj hp
    exact ⟨l, hl, hluser.trans hnewUser.symm, hdead⟩
  · intro tok' id' u hp
    simp only [Call.presents, Option.some.injEq, Prod.mk.injEq] at hp
    obtain ⟨rfl, rfl, rfl⟩ := hp
    exact ⟨l, hl, hlhash, hluser.trans hsessionUser.symm⟩
  · intro id' hred
    obtain rfl := Option.some.inj hred
    exact ⟨hdead, Option.isSome_iff_exists.2 ⟨l, hl⟩⟩

lemma Consistent.issue (h : Consistent sec w) {u : UserId} {expiresAt : Timestamp} {db' : AuthDb}
    (hcall : Silent call) (hfresh : fresh ∉ w.minted)
    (hdb : w.db.storeRefreshToken u (sec.hashRefreshToken fresh) expiresAt = some db') :
    Consistent sec (w.issued sec c call fresh u db') := by
  have hf : Forgets sec w { w with minted := fresh :: w.minted } :=
    ⟨fun _ row' hrow' => ⟨row', hrow', rfl, rfl, fun h => h⟩, fun _ _ _ hl => hl, le_rfl, rfl,
      fun _ ht => List.mem_cons_of_mem _ ht, fun _ _ _ _ h => Or.inl h,
      fun _ _ h => ⟨h, fun hold => hold⟩, fun _ _ h => h, fun _ _ h => h,
      fun _ _ _ _ _ _ _ _ h => h, fun _ _ h => h⟩
  have h₁ := h.forget hf
  have hnew : ∀ t ∈ w.minted, sec.hashRefreshToken t ≠ sec.hashRefreshToken fresh := by
    intro t ht heq
    exact hfresh (sec.hash_injective heq ▸ ht)
  refine h₁.add c call ⟨AuthDb.token_insertToken hdb, ?_, ?_, rfl, rfl⟩ (w.get?_put c call) ?_
    ⟨fresh, List.mem_cons_self, rfl⟩ ?_ ?_ ?_ ?_ hcall.exchanging hcall.holds hcall.inserted ?_
  · exact (le_max_left _ _).trans_eq (AuthDb.nextId_insertToken hdb).symm
  · exact (lt_add_one _).trans_le
      ((le_max_right _ _).trans_eq (AuthDb.nextId_insertToken hdb).symm)
  · exact h.lineage_nextId
  · intro id' l hl heq
    obtain ⟨t, ht, hlhash⟩ := h.lineage_minted id' l hl
    exact hnew t ht (hlhash.trans heq)
  · rintro c' ⟨id', row⟩ _ hx
    obtain ⟨hlt, -, ⟨t, ht, heq⟩, -⟩ := h.inserted c' id' row hx
    exact ⟨ne_of_lt hlt, fun hsame => hnew t ht (heq.trans hsame)⟩
  · exact fun p hp => absurd hp (by simp)
  · exact fun _ _ _ hp => absurd (hcall.presents.symm.trans hp) (by simp)
  · exact fun _ hp => absurd (hcall.redeemed.symm.trans hp) (by simp)

/-- Every effect keeps the invariant, as long as token values are fresh. -/
theorem Consistent.effect (h : Consistent sec w) (hfresh : Fresh w e) (he : Effect sec w e w') :
    Consistent sec w' := by
  cases he with
  | forget hf _ => exact h.forget hf
  | lock hc hfree => exact h.lock hc hfree rfl
  | insert hc hhash huser hsession => exact h.insert hc hfresh hhash huser hsession
  | commit hc hdb => exact h.commit hc hdb
  | issue _ hcall hdb => exact h.issue hcall hfresh hdb

lemma consistent_of_init (h : (system sec cfg).init w) : Consistent sec w := by
  obtain ⟨hdb, hcalls, hlineage, -⟩ := h
  have hno : ∀ {α : Type} {f : Call → Option α} {x : α} {c : CallId},
      ¬ ∃ d, w.calls.get? c = some d ∧ f d = some x := by
    rintro α f x c ⟨d, hd, -⟩
    rw [hcalls] at hd
    exact absurd hd (by simp)
  constructor
  case row_lineage => exact fun id row hrow => absurd hrow (by simp [hdb])
  case lineage_lt => exact fun id l hl => absurd hl (by simp [hlineage])
  case lineage_minted => exact fun id l hl => absurd hl (by simp [hlineage])
  case lineage_unique => exact fun id _ l _ hl => absurd hl (by simp [hlineage])
  case parent_dead => exact fun id l _ hl => absurd hl (by simp [hlineage])
  case presents => exact fun c _ _ _ hx => absurd hx hno
  case holds_live => exact fun c _ hx => absurd hx hno
  case holds_unique => exact fun c _ _ hx => absurd hx hno
  case exchanging => exact fun c _ hx => absurd hx hno
  case inserted => exact fun c _ _ hx => absurd hx hno
  case inserted_unique => exact fun c _ _ _ hx => absurd hx hno
  case inserts_own =>
    intro c tok id user hit newId newRow session hc
    rw [hcalls] at hc
    exact absurd hc (by simp)
  case redeemed_dead => exact fun c _ hx => absurd hx hno

/-- **Every interleaving is consistent.** -/
theorem consistent_of_reachable (h : (system sec cfg).ReachableWhere Fresh w) :
    Consistent sec w :=
  h.invariant (fun _ => consistent_of_init) fun _ _ _ hfresh hcons hstep =>
    hcons.effect hfresh (effect_of_step hstep)

end AuthWorld
end TickerWatch
