import TickerWatch.Auth.Isolation

/-!
# A call by itself

The statements of a call, run without a step of another call in between, do what the operation of
`auth_handler.py` does in one go: they leave its database and return or raise what it returns or
raises (`refresh_alone`, `logout_alone`, `login_alone`, `register_alone`).  This is what connects
the histories of `History` with the interleavings of `Concurrency`.
-/

namespace TickerWatch

/-- What a refresh that is over returned or raised. -/
def RefreshPc.result : RefreshPc → Option (Except AuthError Session)
  | .returned _ session => some (.ok session)
  | .invalid => some (.error .invalidRefreshToken)
  | _ => none

/-- What a login or a registration that is over returned, if it returned. -/
def LoginPc.result : LoginPc → Option (Option Session)
  | .returned session => some (some session)
  | .raised => some none
  | _ => none

namespace AuthWorld

variable {sec : Crypto} {cfg : AuthSettings} {w w' : AuthWorld} {c : CallId} {call : Call}
  {tok fresh : String}

/-- Only the call `c` runs, and the token values it draws are `fresh`. -/
def Alone (c : CallId) (fresh : String) (_ : AuthWorld) (e : AuthEvent) : Prop := e = .run c fresh

lemma alone_cons {w₁ : AuthWorld} (hc : w.calls.get? c = some call)
    (hrun : w.runCall sec cfg c fresh call = some w₁)
    (hrest : (system sec cfg).RunWhere (Alone c fresh) w₁ w') :
    (system sec cfg).RunWhere (Alone c fresh) w w' := by
  have hstep : (system sec cfg).step w (.run c fresh) = some w₁ := by
    change (w.calls.get? c).bind (w.runCall sec cfg c fresh) = some w₁
    rw [hc, Option.bind_some, hrun]
  have hfirst : (system sec cfg).RunWhere (Alone c fresh) w w₁ := .tail (.refl w) rfl hstep
  exact hfirst.trans hrest

lemma get?_put_self (w : AuthWorld) (c : CallId) (call : Call) :
    (w.put c call).calls.get? c = some call := Dict.get?_set_self _ _ _

lemma locked_put (hfree : ∀ id, w.locked id = false) (hcall : call.holds = none) (id : TokenId) :
    (w.put c call).locked id = false := by
  rw [locked_eq_false_iff]
  intro c' hholds
  rcases of_moved (w.get?_put c call) hholds with ⟨-, hx⟩ | ⟨-, hx⟩
  · exact absurd (hcall.symm.trans hx) (by simp)
  · exact locked_eq_false_iff.1 (hfree id) c' hx

/-- The mass revocation of a detected reuse. -/
lemma revokeAll_alone {user : UserId} (hc : w.calls.get? c = some (.refresh tok (.revokeAll user)))
    (hfree : ∀ id, w.locked id = false) :
    ∃ w', (system sec cfg).RunWhere (Alone c fresh) w w' ∧
      w'.calls.get? c = some (.refresh tok .invalid) ∧
      w'.db = (w.db.revokeAllRefreshTokens w.now user).1 := by
  let rows := w.db.refreshTokens.idsWhere (AuthDb.isLiveOf user)
  let call := Call.refresh tok (.revokingAll user rows w.now)
  have hselect : w.runCall sec cfg c fresh (.refresh tok (.revokeAll user)) =
      some (w.put c call) := rfl
  -- nobody locks a row, so the UPDATE does not wait
  have hopen : rows.any (w.put c call).locked = false := by
    rw [List.any_eq_false]
    intro id _
    rw [locked_put hfree rfl id]
    exact Bool.false_ne_true
  have hrevoke : (w.put c call).runCall sec cfg c fresh call =
      some { (w.put c call).put c (.refresh tok .invalid) with
        db := w.db.revokeWhere w.now fun id row =>
          decide (id ∈ rows) && AuthDb.isLiveOf user id row } := by
    simp only [call, runCall, runRefresh]
    rw [hopen]
    rfl
  refine ⟨_, alone_cons hc hselect (alone_cons (get?_put_self _ _ _) hrevoke (.refl _)),
    get?_put_self _ _ _, ?_⟩
  -- between the choice of the rows and their revocation nothing moved, so they are the same rows
  have hsame : ∀ id row, w.db.refreshTokens.get? id = some row →
      (decide (id ∈ rows) && AuthDb.isLiveOf user id row) = AuthDb.isLiveOf user id row := by
    intro id row hrow
    by_cases hlive : AuthDb.isLiveOf user id row = true
    · have hmem : id ∈ rows := Table.mem_idsWhere.2 ⟨row, hrow, hlive⟩
      rw [decide_eq_true hmem, Bool.true_and]
    · rw [Bool.not_eq_true] at hlive
      rw [hlive, Bool.and_false]
  exact AuthDb.revokeWhere_congr hsame

lemma exchange_alone {id : TokenId} {user : User} {db' : AuthDb}
    (hc : w.calls.get? c = some (.refresh tok (.revoke id user)))
    (hfree : ∀ id, w.locked id = false) (hlive : w.live id = true)
    (hnew : w.db.getRefreshToken (sec.hashRefreshToken fresh) = none)
    (huser : (w.db.getById user.id).isSome = true)
    (hstore : (w.db.revokeRefreshToken w.now id).storeRefreshToken user.id
      (sec.hashRefreshToken fresh) (cfg.expiresAt w.now) = some db') :
    ∃ w', (system sec cfg).RunWhere (Alone c fresh) w w' ∧
      w'.calls.get? c = some (.refresh tok (.returned id (newSession sec cfg w.now user fresh))) ∧
      w'.db = db' := by
  let newRow : RefreshTokenRow := ⟨user.id, sec.hashRefreshToken fresh, cfg.expiresAt w.now, none⟩
  let w₁ := w.put c (.refresh tok (.issue id user (some w.now)))
  -- alone, the UPDATE finds its row unlocked and live
  have hlock : w.runCall sec cfg c fresh (.refresh tok (.revoke id user)) = some w₁ := by
    simp only [runCall, runRefresh]
    rw [hfree id, hlive]
    rfl
  obtain ⟨db₁, hdb₁⟩ := AuthDb.exists_storeRefreshToken (cfg.expiresAt w.now) huser hnew
  let commit := Call.refresh tok (.commit id user (some w.now) w.db.refreshTokens.nextId newRow
    (newSession sec cfg w.now user fresh))
  let w₂ : AuthWorld :=
    { w₁.put c commit with db := w.db.nextTokenId, minted := fresh :: w.minted }
  have hinsert : w₁.runCall sec cfg c fresh (.refresh tok (.issue id user (some w.now))) =
      some w₂ := by
    have hdb : w₁.db.insertToken w₁.db.refreshTokens.nextId
        ⟨user.id, sec.hashRefreshToken fresh, cfg.expiresAt w₁.now, none⟩ = some db₁ := hdb₁
    simp only [runCall, runRefresh]
    rw [hdb]
    rfl
  -- the commit repeats on the same rows what the insert found
  have hcommit : w₂.runCall sec cfg c fresh commit =
      some { w₂.put c (.refresh tok (.returned id (newSession sec cfg w.now user fresh))) with
        db := db'
        lineage := w₂.lineage.set w.db.refreshTokens.nextId
          ⟨newRow.tokenHash, newRow.userId, some id⟩ } := by
    have hdb : (afterHit w₂.db id (some w.now)).insertToken w.db.refreshTokens.nextId newRow =
        some db' := AuthDb.insertToken_nextTokenId hstore
    simp only [commit, runCall, runRefresh]
    rw [hdb]
  have hat : w₂.calls.get? c = some commit := get?_put_self w₁ c commit
  have hrun := alone_cons hat hcommit (.refl _)
  exact ⟨_, alone_cons hc hlock (alone_cons (get?_put_self _ _ _) hinsert hrun),
    get?_put_self _ _ _, rfl⟩

/-- A refresh of a row that passes the checks. -/
lemma rotate_alone {id : TokenId} {row : RefreshTokenRow} {user : User} {db' : AuthDb}
    (hc : w.calls.get? c = some (.refresh tok (.found id row)))
    (hfree : ∀ id, w.locked id = false) (hget : w.db.token id = some row)
    (hlive : row.live = true) (hexp : ¬ row.expiresAt ≤ w.now)
    (huser : getUser w.db row.userId = some user) (hid : user.id = row.userId)
    (hnew : w.db.getRefreshToken (sec.hashRefreshToken fresh) = none)
    (hstore : (w.db.revokeRefreshToken w.now id).storeRefreshToken user.id
      (sec.hashRefreshToken fresh) (cfg.expiresAt w.now) = some db') :
    ∃ w', (system sec cfg).RunWhere (Alone c fresh) w w' ∧
      w'.calls.get? c = some (.refresh tok (.returned id (newSession sec cfg w.now user fresh))) ∧
      w'.db = db' := by
  let w₁ := w.put c (.refresh tok (.loadUser id row))
  have hcheck : w.runCall sec cfg c fresh (.refresh tok (.found id row)) = some w₁ := by
    simp only [runCall, runRefresh]
    rw [if_pos hlive, if_neg hexp]
  have hat : w₁.calls.get? c = some (.refresh tok (.loadUser id row)) := get?_put_self _ _ _
  have hload : w₁.runCall sec cfg c fresh (.refresh tok (.loadUser id row)) =
      some (w₁.put c (.refresh tok (.revoke id user))) := by
    have huser₁ : getUser w₁.db row.userId = some user := huser
    simp only [runCall, runRefresh]
    rw [huser₁]
  have hthere : (w.db.getById user.id).isSome = true := hid ▸ w.db.token_user id row hget
  have hstill : (w₁.put c (.refresh tok (.revoke id user))).live id = true :=
    live_eq_true_iff.2 ⟨row, hget, hlive⟩
  obtain ⟨w', hrun, hdone, hdb⟩ := exchange_alone (get?_put_self w₁ c _)
    (locked_put (locked_put hfree rfl) rfl) hstill hnew hthere hstore
  exact ⟨w', alone_cons hc hcheck (alone_cons hat hload hrun), hdone, hdb⟩

/-- **A refresh by itself** is `refresh`. -/
theorem refresh_alone (hc : w.calls.get? c = some (.refresh tok .lookup))
    (hfree : ∀ id, w.locked id = false)
    (hnew : w.db.getRefreshToken (sec.hashRefreshToken fresh) = none) :
    ∃ w' pc, (system sec cfg).RunWhere (Alone c fresh) w w' ∧
      w'.calls.get? c = some (.refresh tok pc) ∧
      pc.result = some (refresh sec cfg w.now fresh tok w.db).1 ∧
      w'.db = (refresh sec cfg w.now fresh tok w.db).2 := by
  cases hrow : w.db.getRefreshToken (sec.hashRefreshToken tok) with
  | none =>
    -- an unknown token: the read is the whole call
    have hrun : w.runCall sec cfg c fresh (.refresh tok .lookup) =
        some (w.put c (.refresh tok .invalid)) := by
      simp only [runCall, runRefresh, hrow]
    have hout : refresh sec cfg w.now fresh tok w.db = (.error .invalidRefreshToken, w.db) := by
      simp only [refresh, hrow]
    rw [hout]
    exact ⟨_, .invalid, alone_cons hc hrun (.refl _), get?_put_self _ _ _, rfl, rfl⟩
  | some e =>
    obtain ⟨id, row⟩ := e
    let w₁ := w.put c (.refresh tok (.found id row))
    have hfound : w.runCall sec cfg c fresh (.refresh tok .lookup) = some w₁ := by
      simp only [runCall, runRefresh, hrow]
      rfl
    have hat : w₁.calls.get? c = some (.refresh tok (.found id row)) := get?_put_self _ _ _
    have hfree₁ : ∀ id, w₁.locked id = false := locked_put hfree rfl
    by_cases hlive : row.live = true
    -- a live row is exchanged, unless it has expired
    · by_cases hexp : row.expiresAt ≤ w.now
      · have hcheck : w₁.runCall sec cfg c fresh (.refresh tok (.found id row)) =
            some (w₁.put c (.refresh tok .invalid)) := by
          simp only [runCall, runRefresh]
          rw [if_pos hlive]
          exact if_pos hexp
        have hout : refresh sec cfg w.now fresh tok w.db =
            (.error .invalidRefreshToken, w.db) := by
          simp only [refresh, hrow, if_pos hlive, if_pos hexp]
        rw [hout]
        exact ⟨_, .invalid, alone_cons hc hfound (alone_cons hat hcheck (.refl _)),
          get?_put_self _ _ _, rfl, rfl⟩
      · obtain ⟨hget, -⟩ := AuthDb.getRefreshToken_eq_some_iff.1 hrow
        obtain ⟨userRow, huser⟩ := Option.isSome_iff_exists.1 (w.db.token_user id row hget)
        have hloaded : getUser w.db row.userId = some (toUser row.userId userRow) := by
          rw [getUser, AuthDb.getById, huser, Option.map_some]
        -- after the UPDATE the new hash is still free and the user still there, so the insert
        -- succeeds
        have hstill : (w.db.revokeRefreshToken w.now id).getRefreshToken
            (sec.hashRefreshToken fresh) = none := by
          rw [AuthDb.revokeRefreshToken, getRefreshToken_revokeWhere, hnew, Option.map_none]
        have hstays : ((w.db.revokeRefreshToken w.now id).getById row.userId).isSome = true :=
          w.db.token_user id row hget
        obtain ⟨db', hstore⟩ :=
          AuthDb.exists_storeRefreshToken (cfg.expiresAt w.now) hstays hstill
        have hissue : (w.db.revokeRefreshToken w.now id).storeRefreshToken
            (toUser row.userId userRow).id (sec.hashRefreshToken fresh) (cfg.expiresAt w.now) =
            some db' := hstore
        have hout : refresh sec cfg w.now fresh tok w.db =
            (.ok (newSession sec cfg w.now (toUser row.userId userRow) fresh), db') := by
          simp only [refresh, hrow, if_pos hlive, if_neg hexp, hloaded, issueSession, hissue]
        obtain ⟨w', hrun, hdone, hdb⟩ :=
          rotate_alone hat hfree₁ hget hlive hexp hloaded rfl hnew hissue
        rw [hout]
        exact ⟨w', _, alone_cons hc hfound hrun, hdone, rfl, hdb⟩
    -- a dead row: every live token of its user is revoked
    · have hcheck : w₁.runCall sec cfg c fresh (.refresh tok (.found id row)) =
          some (w₁.put c (.refresh tok (.revokeAll row.userId))) := by
        simp only [runCall, runRefresh]
        rw [if_neg hlive]
      have hout : refresh sec cfg w.now fresh tok w.db =
          (.error .invalidRefreshToken, (w.db.revokeAllRefreshTokens w.now row.userId).1) := by
        simp only [refresh, hrow, if_neg hlive]
      obtain ⟨w', hrun, hdone, hdb⟩ := revokeAll_alone
        (get?_put_self w₁ c (.refresh tok (.revokeAll row.userId))) (locked_put hfree₁ rfl)
      rw [hout]
      exact ⟨w', .invalid, alone_cons hc hfound (alone_cons hat hcheck hrun), hdone, rfl, hdb⟩

/-- **A logout by itself** is `logout`. -/
theorem logout_alone (hc : w.calls.get? c = some (.logout tok .lookup))
    (hfree : ∀ id, w.locked id = false) :
    ∃ w', (system sec cfg).RunWhere (Alone c fresh) w w' ∧
      w'.calls.get? c = some (.logout tok .done) ∧ w'.db = logout sec w.now tok w.db := by
  unfold logout
  cases hrow : w.db.getRefreshToken (sec.hashRefreshToken tok) with
  | none =>
    have hrun : w.runCall sec cfg c fresh (.logout tok .lookup) =
        some (w.put c (.logout tok .done)) := by
      simp only [runCall, runLogout, hrow]
    exact ⟨_, alone_cons hc hrun (.refl _), get?_put_self _ _ _, rfl⟩
  | some e =>
    obtain ⟨id, row⟩ := e
    have hrun : w.runCall sec cfg c fresh (.logout tok .lookup) =
        some (w.put c (.logout tok (.revoke id))) := by
      simp only [runCall, runLogout, hrow]
    have hlock : (w.put c (.logout tok (.revoke id))).locked id = false := locked_put hfree rfl id
    have hrun' : (w.put c (.logout tok (.revoke id))).runCall sec cfg c fresh
        (.logout tok (.revoke id)) =
        some { (w.put c (.logout tok (.revoke id))).put c (.logout tok .done) with
          db := w.db.revokeRefreshToken w.now id } := by
      simp only [runCall, runLogout, hlock]
      rfl
    refine ⟨_, alone_cons hc hrun (alone_cons (get?_put_self _ _ _) hrun' (.refl _)), ?_, rfl⟩
    exact get?_put_self _ _ _

/-- The issue of a token by a login or a registration. -/
lemma issue_alone {user : User} (call : LoginPc → Call)
    (hc : w.calls.get? c = some (call (.issue user)))
    (hrun : w.runCall sec cfg c fresh (call (.issue user)) =
      some (w.runIssue sec cfg c fresh call user)) :
    ∃ w' pc, (system sec cfg).RunWhere (Alone c fresh) w w' ∧ w'.calls.get? c = some (call pc) ∧
      pc.result = some (issueSession sec cfg w.now fresh user w.db).1.toOption ∧
      w'.db = (issueSession sec cfg w.now fresh user w.db).2 := by
  cases hstore : w.db.storeRefreshToken user.id (sec.hashRefreshToken fresh)
      (cfg.expiresAt w.now) with
  | none =>
    have hout : issueSession sec cfg w.now fresh user w.db = (.error .integrity, w.db) := by
      simp only [issueSession, hstore]
    have hend : w.runIssue sec cfg c fresh call user =
        { w.put c (call .raised) with minted := fresh :: w.minted } := by
      simp only [runIssue, hstore]
    rw [hend] at hrun
    rw [hout]
    exact ⟨_, .raised, alone_cons hc hrun (.refl _), w.get?_put_self c _, rfl, rfl⟩
  | some db' =>
    -- the insert commits at once, so the call returns what it stored
    let session := newSession sec cfg w.now user fresh
    have hout : issueSession sec cfg w.now fresh user w.db = (.ok session, db') := by
      simp only [issueSession, hstore]
      rfl
    have hend : w.runIssue sec cfg c fresh call user =
        { w.put c (call (.returned session)) with
          db := db'
          minted := fresh :: w.minted
          lineage := w.lineage.set w.db.refreshTokens.nextId
            ⟨sec.hashRefreshToken fresh, user.id, none⟩ } := by
      simp only [runIssue, hstore]
      rfl
    rw [hend] at hrun
    rw [hout]
    exact ⟨_, .returned session, alone_cons hc hrun (.refl _), w.get?_put_self c _, rfl, rfl⟩

lemma raise_alone {out : Except AuthError Session × AuthDb} (call : LoginPc → Call) {pc : LoginPc}
    (hc : w.calls.get? c = some (call pc))
    (hrun : w.runCall sec cfg c fresh (call pc) = some (w.put c (call .raised)))
    (hraised : out.1.toOption = none) (hdb : out.2 = w.db) :
    ∃ w' pc, (system sec cfg).RunWhere (Alone c fresh) w w' ∧ w'.calls.get? c = some (call pc) ∧
      pc.result = some out.1.toOption ∧ w'.db = out.2 := by
  rw [hraised, hdb]
  exact ⟨_, .raised, alone_cons hc hrun (.refl _), get?_put_self _ _ _, rfl, rfl⟩

/-- **A login by itself** is `login`. -/
theorem login_alone {username password : String}
    (hc : w.calls.get? c = some (.login username password .start)) :
    ∃ w' pc, (system sec cfg).RunWhere (Alone c fresh) w w' ∧
      w'.calls.get? c = some (.login username password pc) ∧
      pc.result = some (login sec cfg w.now fresh username password w.db).1.toOption ∧
      w'.db = (login sec cfg w.now fresh username password w.db).2 := by
  cases hrow : w.db.getByUsername username with
  | none =>
    -- no such user
    have hout : login sec cfg w.now fresh username password w.db =
        (.error .invalidCredentials, w.db) := by
      simp only [login, hrow]
    refine raise_alone (.login username password) hc ?_ (by rw [hout]; rfl) (by rw [hout])
    simp only [runCall, runLogin, hrow]
  | some e =>
    obtain ⟨id, row⟩ := e
    by_cases hpw : sec.checkpw password row.passwordHash = true
    -- the password is right: the insert of the token is left
    · have hrun : w.runCall sec cfg c fresh (.login username password .start) =
          some (w.put c (.login username password (.issue (toUser id row)))) := by
        simp only [runCall, runLogin, hrow]
        rw [if_pos hpw]
      obtain ⟨w', pc, hissue, hdone, hresult, hdb⟩ :=
        issue_alone (.login username password) (get?_put_self w c _) rfl
      have hout : login sec cfg w.now fresh username password w.db =
          issueSession sec cfg w.now fresh (toUser id row) w.db := by
        simp only [login, hrow, if_pos hpw]
      rw [hout]
      exact ⟨w', pc, alone_cons hc hrun hissue, hdone, hresult, hdb⟩
    -- the password is wrong
    · have hout : login sec cfg w.now fresh username password w.db =
          (.error .invalidCredentials, w.db) := by
        simp only [login, hrow, if_neg hpw]
      refine raise_alone (.login username password) hc ?_ (by rw [hout]; rfl) (by rw [hout])
      simp only [runCall, runLogin, hrow]
      rw [if_neg hpw]

/-- **A registration by itself** is `register`. -/
theorem register_alone {salt username password firstName lastName : String} {email : Option String}
    (hc : w.calls.get? c =
      some (.register salt username password email firstName lastName .start)) :
    ∃ w' pc, (system sec cfg).RunWhere (Alone c fresh) w w' ∧ w'.calls.get? c =
        some (.register salt username password email firstName lastName pc) ∧
      pc.result = some (register sec cfg w.now salt fresh username password email firstName
        lastName w.db).1.toOption ∧
      w'.db = (register sec cfg w.now salt fresh username password email firstName lastName
        w.db).2 := by
  cases hhash : sec.hashpw salt password with
  | none =>
    -- bcrypt raises before the first statement
    have hout : register sec cfg w.now salt fresh username password email firstName lastName w.db =
        (.error .passwordValue, w.db) := by
      simp only [register, hhash]
    refine raise_alone (.register salt username password email firstName lastName) hc ?_
      (by rw [hout]; rfl) (by rw [hout])
    simp only [runCall, runRegister, hhash]
  | some passwordHash =>
    cases hcreate : w.db.create ⟨username, passwordHash, email, firstName, lastName⟩ with
    | none =>
      have hout : register sec cfg w.now salt fresh username password email firstName lastName
          w.db = (.error (.usernameTaken username), w.db) := by
        -- the username is taken
        simp only [register, hhash, hcreate]
      refine raise_alone (.register salt username password email firstName lastName) hc ?_
        (by rw [hout]; rfl) (by rw [hout])
      simp only [runCall, runRegister, hhash, hcreate]
    | some e =>
      obtain ⟨id, db₁⟩ := e
      let user := toUser id ⟨username, passwordHash, email, firstName, lastName⟩
      let w₁ : AuthWorld :=
        { w.put c (.register salt username password email firstName lastName (.issue user)) with
          db := db₁ }
      have hrun : w.runCall sec cfg c fresh
          (.register salt username password email firstName lastName .start) = some w₁ := by
        simp only [runCall, runRegister, hhash, hcreate]
        rfl
      have hat : w₁.calls.get? c =
          some (.register salt username password email firstName lastName (.issue user)) :=
        get?_put_self _ _ _
      obtain ⟨w', pc, hissue, hdone, hresult, hdb⟩ :=
        issue_alone (.register salt username password email firstName lastName) hat rfl
      have hout : register sec cfg w.now salt fresh username password email firstName lastName
          w.db = issueSession sec cfg w.now fresh user db₁ := by
        simp only [register, hhash, hcreate]
        rfl
      rw [hout]
      exact ⟨w', pc, alone_cons hc hrun hissue, hdone, hresult, hdb⟩

end AuthWorld
end TickerWatch
