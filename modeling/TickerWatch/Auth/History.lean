import TickerWatch.Foundations.System
import TickerWatch.Auth.Handler

/-!
# Which refresh tokens are accepted

Calls of the API run one after another, and the run keeps its history, newest entry first.  Whether
`refresh` accepts a token is then a matter of that history alone (`refresh_accepts_iff`).

The proof goes through the `ledger`, what a history says about each token: the token table shows the
ledger (`Represents`), and the ledger answers as the history does (`standing_iff_accepts`).
-/

namespace TickerWatch

/-- A call of the API with the random values it draws, the deletion of a user, or time that
passes. -/
inductive Request
  | register (salt token username password : String) (email : Option String)
      (firstName lastName : String)
  | login (token username password : String)
  | refresh (token refreshToken : String)
  | logout (refreshToken : String)
  | deleteUser (user : UserId)
  | advance (micros : ℕ)
  deriving DecidableEq

/-- The token value a call draws. -/
def Request.drawn : Request → Option String
  | .register _ token _ _ _ _ _ => some token
  | .login token _ _ => some token
  | .refresh token _ => some token
  | _ => none

/-- The session a request returns, if any, and the database it leaves. -/
def Request.perform (sec : Crypto) (cfg : AuthSettings) (now : Timestamp) (db : AuthDb) :
    Request → Option Session × AuthDb
  | .register salt token username password email firstName lastName =>
    let out := TickerWatch.register sec cfg now salt token username password email firstName
      lastName db
    (out.1.toOption, out.2)
  | .login token username password =>
    let out := TickerWatch.login sec cfg now token username password db
    (out.1.toOption, out.2)
  | .refresh token refreshToken =>
    let out := TickerWatch.refresh sec cfg now token refreshToken db
    (out.1.toOption, out.2)
  | .logout refreshToken => (none, TickerWatch.logout sec now refreshToken db)
  | .deleteUser user => (none, db.deleteUser user)
  | .advance _ => (none, db)

/-- A request that was made, when, and the session it returned. -/
structure Entry where
  request : Request
  time : Timestamp
  session : Option Session

namespace Entry

/-- The entry issued `tok` to the user `u`. -/
def Issues (e : Entry) (tok : String) (u : UserId) : Prop :=
  ∃ s, e.session = some s ∧ s.refreshToken = tok ∧ s.user.id = u

/-- The entry exchanged `tok` for a new session. -/
def Exchanges (e : Entry) (tok : String) : Prop :=
  e.session.isSome = true ∧ ∃ token, e.request = .refresh token tok

/-- The user the entry issued `tok` to. -/
def issuedTo (e : Entry) (tok : String) : Option UserId :=
  e.session.bind fun s => if s.refreshToken = tok then some s.user.id else none

lemma issuedTo_eq_some_iff {e : Entry} {tok : String} {u : UserId} :
    e.issuedTo tok = some u ↔ e.Issues tok u := by
  rw [issuedTo, Option.bind_eq_some_iff]
  constructor
  · rintro ⟨s, hs, h⟩
    split at h
    · exact ⟨s, hs, ‹_›, Option.some.inj h⟩
    · exact absurd h (by simp)
  · rintro ⟨s, hs, rfl, rfl⟩
    exact ⟨s, hs, if_pos rfl⟩

end Entry

/-- A database, the clock and what has happened, newest first.  One request runs at a time here,
each to its end. -/
structure AuthRun where
  db : AuthDb
  now : Timestamp
  history : List Entry

/-- How much later it is after a request. -/
def Request.elapsed : Request → ℕ
  | .advance micros => micros
  | _ => 0

namespace AuthRun

variable (sec : Crypto) (cfg : AuthSettings)

/-- One request. -/
def step (w : AuthRun) (r : Request) : AuthRun :=
  let out := r.perform sec cfg w.now w.db
  { db := out.2, now := w.now + r.elapsed, history := ⟨r, w.now, out.1⟩ :: w.history }

/-- Runs of requests from the migrated database. -/
def system : System AuthRun Request where
  init w := w.db = .empty ∧ w.history = []
  step w r := some (step sec cfg w r)

/-- `tok` was issued in the history. -/
def Issued (h : List Entry) (tok : String) : Prop := ∃ e ∈ h, ∃ u, e.Issues tok u

/-- Token values are fresh: none is drawn that was issued before. -/
def Fresh (w : AuthRun) (r : Request) : Prop := ∀ token ∈ r.drawn, ¬ Issued w.history token

end AuthRun

/-! ## What a history says -/

/-- The user `u` holds the token: it was issued to them, and they were not deleted since. -/
def Held : List Entry → String → UserId → Prop
  | [], _, _ => False
  | e :: past, tok, u => e.Issues tok u ∨ (Held past tok u ∧ e.request ≠ .deleteUser u)

/-- A token that `u` holds has been revoked: it was exchanged, it was logged out, or a token of `u`
that was revoked already was presented. -/
def AlreadyRevoked : List Entry → String → UserId → Prop
  | [], _, _ => False
  | e :: past, tok, u => e.request ≠ .deleteUser u ∧ (AlreadyRevoked past tok u ∨
      (Held past tok u ∧ (e.Exchanges tok ∨ e.request = .logout tok ∨
        ∃ token t, e.request = .refresh token t ∧ AlreadyRevoked past t u)))

/-- The entry presents a token of `u` that was revoked already. -/
def Entry.PresentsRevoked (e : Entry) (past : List Entry) (u : UserId) : Prop :=
  ∃ token t, e.request = .refresh token t ∧ AlreadyRevoked past t u

/-- By its history, `tok` is good at the time `now`: an entry issued it to `u`, and since then `u`
was not deleted, the lifetime is not over, `tok` was neither exchanged nor logged out, and no token
of `u` was presented that was revoked already. -/
def Accepts (cfg : AuthSettings) (h : List Entry) (now : Timestamp) (tok : String) (u : UserId) :
    Prop :=
  ∃ later e earlier, h = later ++ e :: earlier ∧ e.Issues tok u ∧
    (∀ d ∈ later, d.request ≠ .deleteUser u) ∧
    now < e.time + cfg.refreshTokenTtlSeconds * second ∧
    (∀ d ∈ later, ¬ d.Exchanges tok ∧ d.request ≠ .logout tok) ∧
    ∀ l d past, later = l ++ d :: past → ¬ d.PresentsRevoked (past ++ e :: earlier) u

/-- What is known of a token: its user, when it expires, whether it is revoked.  The table says it
through `standing` and the history of requests through `ledger`. -/
structure Standing where
  user : UserId
  expiresAt : Timestamp
  revoked : Bool
  deriving DecidableEq, Repr

/-- Whether an entry revokes `tok`, given the standings before it. -/
def Entry.revokes (e : Entry) (past : String → Option Standing) (tok : String) (u : UserId) :
    Bool :=
  match e.request with
  | .logout t => decide (t = tok)
  | .refresh _ t => (e.session.isSome && decide (t = tok)) ||
      (past t).any fun s => s.revoked && decide (s.user = u)
  | _ => false

/-- The standing of a token after an entry that did not issue it. -/
def Entry.after (e : Entry) (past : String → Option Standing) (tok : String) (s : Standing) :
    Option Standing :=
  if e.request = .deleteUser s.user then none
  else some { s with revoked := s.revoked || e.revokes past tok s.user }

/-- The standing of every token, from the history. -/
def ledger (cfg : AuthSettings) : List Entry → String → Option Standing
  | [], _ => none
  | e :: past, tok =>
    match e.issuedTo tok with
    | some u => some ⟨u, cfg.expiresAt e.time, false⟩
    | none => (ledger cfg past tok).bind (e.after (ledger cfg past) tok)

/-- No token is issued twice. -/
def IssuedOnce (h : List Entry) : Prop :=
  h.Pairwise fun e d => ∀ tok u v, e.Issues tok u → ¬ d.Issues tok v

variable {sec : Crypto} {cfg : AuthSettings} {now : Timestamp} {db db' : AuthDb} {w : AuthRun}
  {h past : List Entry} {e : Entry} {tok : String} {u : UserId} {s : Standing}

lemma ledger_of_issues (he : e.Issues tok u) :
    ledger cfg (e :: past) tok = some ⟨u, cfg.expiresAt e.time, false⟩ := by
  rw [ledger, Entry.issuedTo_eq_some_iff.2 he]

lemma issuedTo_eq_none (he : ∀ u, ¬ e.Issues tok u) : e.issuedTo tok = none := by
  refine Option.eq_none_iff_forall_ne_some.2 fun u hu => ?_
  exact he u (Entry.issuedTo_eq_some_iff.1 hu)

lemma ledger_of_not_issues (he : ∀ u, ¬ e.Issues tok u) :
    ledger cfg (e :: past) tok = (ledger cfg past tok).bind (e.after (ledger cfg past) tok) := by
  rw [ledger, issuedTo_eq_none he]

/-- A token without a standing in an entry's past gets one only by being issued. -/
lemma ledger_eq_none_of_not_issued (hno : ¬ AuthRun.Issued h tok) : ledger cfg h tok = none := by
  induction h with
  | nil => rfl
  | cons e past ih =>
    have he : ∀ u, ¬ e.Issues tok u := fun u hu => hno ⟨e, List.mem_cons_self, u, hu⟩
    have hpast : ¬ AuthRun.Issued past tok := by
      rintro ⟨d, hd, u, hu⟩
      exact hno ⟨d, List.mem_cons_of_mem _ hd, u, hu⟩
    rw [ledger_of_not_issues he, ih hpast, Option.bind_none]

lemma after_eq_some_iff {stand : String → Option Standing} {s' : Standing} :
    e.after stand tok s = some s' ↔ e.request ≠ .deleteUser s.user ∧
      { s with revoked := s.revoked || e.revokes stand tok s.user } = s' := by
  unfold Entry.after
  split
  · exact iff_of_false (by simp) fun ⟨hne, _⟩ => hne ‹_›
  · rw [Option.some.injEq]
    exact (and_iff_right ‹_›).symm

/-- The ledger knows who holds a token. -/
lemma held_iff (cfg : AuthSettings) (honce : IssuedOnce h) :
    Held h tok u ↔ ∃ s, ledger cfg h tok = some s ∧ s.user = u := by
  induction h with
  | nil => simp [Held, ledger]
  | cons e past ih =>
    obtain ⟨hhead, htail⟩ := List.pairwise_cons.1 honce
    rw [Held, ih htail]
    by_cases he : ∃ v, e.Issues tok v
    · obtain ⟨v, hv⟩ := he
      -- it was issued just now, and was not there before
      rw [ledger_of_issues hv]
      have hnone : ledger cfg past tok = none := by
        refine ledger_eq_none_of_not_issued ?_
        rintro ⟨d, hd, x, hx⟩
        exact hhead d hd tok v x hv hx
      simp only [hnone, Option.some.injEq, exists_eq_left']
      constructor
      · rintro (hu | ⟨⟨s, hs, -⟩, -⟩)
        · obtain ⟨s, hs, -, rfl⟩ := hu
          obtain ⟨s', hs', -, rfl⟩ := hv
          rw [Option.some.inj (hs'.symm.trans hs)]
        · exact absurd hs (by simp)
      · rintro rfl
        exact Or.inl hv
    · rw [not_exists] at he
      -- another entry: it is kept, unless its user is deleted
      rw [ledger_of_not_issues he]
      simp only [Option.bind_eq_some_iff, after_eq_some_iff]
      constructor
      · rintro (hu | ⟨⟨s, hs, rfl⟩, hdel⟩)
        · exact absurd hu (he u)
        · exact ⟨_, ⟨s, hs, hdel, rfl⟩, rfl⟩
      · rintro ⟨s', ⟨s, hs, hdel, rfl⟩, hu⟩
        have hsame : s.user = u := hu
        exact Or.inr ⟨⟨s, hs, hsame⟩, hsame ▸ hdel⟩

/-- Whether an entry revokes a token, in the words of the history. -/
lemma revokes_iff (tok : String) (hpast : ∀ t, AlreadyRevoked past t u ↔
      ∃ s, ledger cfg past t = some s ∧ s.user = u ∧ s.revoked = true) :
    e.revokes (ledger cfg past) tok u = true ↔
      e.Exchanges tok ∨ e.request = .logout tok ∨ e.PresentsRevoked past u := by
  unfold Entry.revokes Entry.Exchanges Entry.PresentsRevoked
  split
  · rename_i t heq
    simp [heq]
  · rename_i token t heq
    simp only [heq, Bool.or_eq_true, Bool.and_eq_true, decide_eq_true_eq, Option.any_eq_true]
    constructor
    · rintro (⟨hs, rfl⟩ | ⟨s, hs, hrev, hu⟩)
      · exact Or.inl ⟨hs, token, rfl⟩
      · exact Or.inr (Or.inr ⟨token, t, rfl, (hpast t).2 ⟨s, hs, hu, hrev⟩⟩)
    · rintro (⟨hs, token', heq'⟩ | heq' | ⟨token', t', heq', hrev⟩)
      · exact Or.inl ⟨hs, (Request.refresh.inj heq').2⟩
      · exact absurd heq' (by simp)
      · obtain ⟨-, rfl⟩ := Request.refresh.inj heq'
        obtain ⟨s, hs, hu, hrevoked⟩ := (hpast t).1 hrev
        exact Or.inr ⟨s, hs, hrevoked, hu⟩
  · rename_i hlogout hrefresh
    simp only [Bool.false_eq_true, false_iff, not_or, not_and, not_exists]
    exact ⟨fun _ token => hrefresh token tok, hlogout tok,
      fun token t heq => absurd heq (hrefresh token t)⟩

/-- The ledger knows which tokens are revoked. -/
lemma alreadyRevoked_iff (cfg : AuthSettings) (honce : IssuedOnce h) : ∀ t, AlreadyRevoked h t u ↔
    ∃ s, ledger cfg h t = some s ∧ s.user = u ∧ s.revoked = true := by
  induction h with
  | nil => simp [AlreadyRevoked, ledger]
  | cons e past ih =>
    intro t
    obtain ⟨hhead, htail⟩ := List.pairwise_cons.1 honce
    have hpast := ih htail
    rw [AlreadyRevoked, hpast t]
    by_cases he : ∃ v, e.Issues t v
    · obtain ⟨v, hv⟩ := he
      have hnone : ledger cfg past t = none := by
        refine ledger_eq_none_of_not_issued ?_
        rintro ⟨d, hd, x, hx⟩
        exact hhead d hd t v x hv hx
      -- nobody held the token before it was issued, so it cannot have been revoked then
      have hheld : ¬ Held past t u := by
        rw [held_iff cfg htail, hnone]
        simp
      rw [ledger_of_issues hv, hnone]
      simp [hheld]
    · rw [not_exists] at he
      rw [ledger_of_not_issues he, held_iff cfg htail]
      have hrevokes := revokes_iff (e := e) t hpast
      unfold Entry.PresentsRevoked at hrevokes
      rw [← hrevokes]
      simp only [Option.bind_eq_some_iff, after_eq_some_iff]
      constructor
      · rintro ⟨hdel, ⟨s, hs, rfl, hrev⟩ | ⟨⟨s, hs, rfl⟩, hrev⟩⟩
        · exact ⟨_, ⟨s, hs, hdel, rfl⟩, rfl, by simp [hrev]⟩
        · exact ⟨_, ⟨s, hs, hdel, rfl⟩, rfl, by simp [hrev]⟩
      · rintro ⟨s', ⟨s, hs, hdel, rfl⟩, hu, hrev⟩
        have hsame : s.user = u := hu
        subst hsame
        refine ⟨hdel, ?_⟩
        rcases Bool.or_eq_true_iff.1 hrev with hold | hnow
        · exact Or.inl ⟨s, hs, rfl, hold⟩
        · exact Or.inr ⟨⟨s, hs, rfl⟩, hnow⟩

/-- A history accepts a token by its last entry alone, or by its past and an entry that leaves the
token alone. -/
lemma accepts_cons : Accepts cfg (e :: past) now tok u ↔
    (e.Issues tok u ∧ now < cfg.expiresAt e.time) ∨
    (Accepts cfg past now tok u ∧ e.request ≠ .deleteUser u ∧ ¬ e.Exchanges tok ∧
      e.request ≠ .logout tok ∧ ¬ e.PresentsRevoked past u) := by
  constructor
  · rintro ⟨later, d, earlier, heq, hd, hdel, hexp, hkept, hrev⟩
    -- the acceptance starts at this entry, or at an earlier one
    cases later with
    | nil =>
      obtain ⟨rfl, rfl⟩ := List.cons.inj heq
      exact Or.inl ⟨hd, hexp⟩
    | cons e' later =>
      obtain ⟨rfl, rfl⟩ := List.cons.inj heq
      obtain ⟨hexch, hlogout⟩ := hkept e List.mem_cons_self
      refine Or.inr ⟨⟨later, d, earlier, rfl, hd, ?_, hexp, ?_, ?_⟩, hdel e List.mem_cons_self,
        hexch, hlogout, hrev [] e later rfl⟩
      · exact fun x hx => hdel x (List.mem_cons_of_mem _ hx)
      · exact fun x hx => hkept x (List.mem_cons_of_mem _ hx)
      · rintro l x rest rfl
        exact hrev (e :: l) x rest rfl
  · rintro (⟨he, hexp⟩ | ⟨⟨later, d, earlier, rfl, hd, hdel, hexp, hkept, hrev⟩, hdel', hexch,
      hlogout, hrev'⟩)
    · refine ⟨[], e, past, rfl, he, by simp, hexp, by simp, ?_⟩
      intro l d rest heq
      exact absurd heq (by simp)
    -- this entry is one more that leaves the token alone
    · refine ⟨e :: later, d, earlier, rfl, hd, ?_, hexp, ?_, ?_⟩
      · rintro x (_ | ⟨_, hx⟩)
        · exact hdel'
        · exact hdel x hx
      · rintro x (_ | ⟨_, hx⟩)
        · exact ⟨hexch, hlogout⟩
        · exact hkept x hx
      · intro l x rest heq
        cases l with
        | nil =>
          obtain ⟨rfl, rfl⟩ := List.cons.inj heq
          exact hrev'
        | cons y l =>
          obtain ⟨-, rfl⟩ := List.cons.inj heq
          exact hrev l x rest rfl

/-- The ledger accepts a token exactly when the history does. -/
theorem standing_iff_accepts (honce : IssuedOnce h) :
    (∃ s, ledger cfg h tok = some s ∧ s.user = u ∧ s.revoked = false ∧ now < s.expiresAt) ↔
      Accepts cfg h now tok u := by
  induction h with
  | nil => simp [ledger, Accepts]
  | cons e past ih =>
    obtain ⟨hhead, htail⟩ := List.pairwise_cons.1 honce
    rw [accepts_cons, ← ih htail]
    by_cases he : ∃ v, e.Issues tok v
    -- the entry issues the token, and no earlier one did
    · obtain ⟨v, hv⟩ := he
      have hnone : ledger cfg past tok = none := by
        refine ledger_eq_none_of_not_issued ?_
        rintro ⟨d, hd, x, hx⟩
        exact hhead d hd tok v x hv hx
      rw [ledger_of_issues hv, hnone]
      constructor
      · rintro ⟨s, hs, rfl, -, hexp⟩
        obtain rfl := Option.some.inj hs
        exact Or.inl ⟨hv, hexp⟩
      · rintro (⟨hu, hexp⟩ | ⟨⟨s, hs, -⟩, -⟩)
        · obtain ⟨a, ha, -, rfl⟩ := hu
          obtain ⟨b, hb, -, rfl⟩ := hv
          obtain rfl := Option.some.inj (ha.symm.trans hb)
          exact ⟨_, rfl, rfl, rfl, hexp⟩
        · exact absurd hs (by simp)
    · rw [not_exists] at he
      -- the entry does not issue it: it may revoke it, or delete its user
      have hrevokes := revokes_iff (e := e) tok (alreadyRevoked_iff (u := u) cfg htail)
      rw [ledger_of_not_issues he]
      simp only [Option.bind_eq_some_iff, after_eq_some_iff]
      constructor
      · rintro ⟨s', ⟨s, hs, hdel, rfl⟩, hu, hrev, hexp⟩
        have hsame : s.user = u := hu
        subst hsame
        obtain ⟨hold, hnow⟩ := Bool.or_eq_false_iff.1 hrev
        have hnot := (not_congr hrevokes).1 (by simp [hnow])
        rw [not_or, not_or] at hnot
        exact Or.inr ⟨⟨s, hs, rfl, hold, hexp⟩, hdel, hnot⟩
      · rintro (⟨hu, -⟩ | ⟨⟨s, hs, rfl, hold, hexp⟩, hdel, hexch, hlogout, hpres⟩)
        · exact absurd hu (he u)
        · have hnow : e.revokes (ledger cfg past) tok s.user = false := by
            rw [← Bool.not_eq_true, hrevokes, not_or, not_or]
            exact ⟨hexch, hlogout, hpres⟩
          refine ⟨_, ⟨s, hs, hdel, rfl⟩, rfl, ?_, hexp⟩
          rw [hold, hnow]
          rfl

/-! ## The token table shows the ledger -/

/-- The standing of a token in the database. -/
def standing (sec : Crypto) (db : AuthDb) (tok : String) : Option Standing :=
  (db.getRefreshToken (sec.hashRefreshToken tok)).map fun e =>
    ⟨e.2.userId, e.2.expiresAt, !e.2.live⟩

lemma standing_eq_none_iff :
    standing sec db tok = none ↔ db.getRefreshToken (sec.hashRefreshToken tok) = none := by
  rw [standing, Option.map_eq_none_iff]

lemma standing_congr (h : ∀ id, db'.token id = db.token id) (tok : String) :
    standing sec db' tok = standing sec db tok := by
  have hsame : db'.getRefreshToken (sec.hashRefreshToken tok) =
      db.getRefreshToken (sec.hashRefreshToken tok) :=
    Table.find?_congr fun id row _ => by
      have htoken := h id
      unfold AuthDb.token at htoken
      rw [htoken]
  rw [standing, hsame, standing]

lemma standing_store {token : String} {expiresAt : Timestamp}
    (hdb : db.storeRefreshToken u (sec.hashRefreshToken token) expiresAt = some db') :
    standing sec db' tok = if token = tok then some ⟨u, expiresAt, false⟩
      else standing sec db tok := by
  have hget := getRefreshToken_insertToken hdb (sec.hashRefreshToken tok)
  rw [standing, hget]
  by_cases htok : token = tok
  · rw [if_pos htok, if_pos (congrArg sec.hashRefreshToken htok)]
    rfl
  · rw [if_neg htok, if_neg fun heq => htok (sec.hash_injective heq)]
    rfl

/-- A revocation of the rows that `p` selects among the rows of a token's hash. -/
lemma standing_revokeWhere (sec : Crypto) (db : AuthDb) (now : Timestamp) (tok : String)
    (p : TokenId → RefreshTokenRow → Bool) (b : Bool)
    (hp : ∀ id row, db.getRefreshToken (sec.hashRefreshToken tok) = some (id, row) →
      (row.live && p id row) = (row.live && b)) :
    standing sec (db.revokeWhere now p) tok =
      (standing sec db tok).map fun s => { s with revoked := s.revoked || b } := by
  rw [standing, standing, getRefreshToken_revokeWhere, Option.map_map, Option.map_map]
  cases hget : db.getRefreshToken (sec.hashRefreshToken tok) with
  | none => rfl
  | some e =>
    obtain ⟨id, row⟩ := e
    have hsame := hp id row hget
    simp only [Option.map_some, Function.comp_apply, Option.some.injEq]
    by_cases hpr : p id row = true
    · rw [if_pos hpr]
      rw [hpr] at hsame
      cases hlive : row.live
      · rfl
      · rw [hlive, Bool.and_true, Bool.true_and] at hsame
        rw [← hsame]
        rfl
    · rw [if_neg hpr]
      rw [Bool.not_eq_true] at hpr
      rw [hpr] at hsame
      cases hlive : row.live
      · rfl
      · rw [hlive, Bool.and_false, Bool.true_and] at hsame
        rw [← hsame]
        rfl

lemma standing_revokeRefreshToken {t : String} {id : TokenId} {row : RefreshTokenRow}
    (hget : db.getRefreshToken (sec.hashRefreshToken t) = some (id, row)) :
    standing sec (db.revokeRefreshToken now id) tok =
      (standing sec db tok).map fun s => { s with revoked := s.revoked || decide (t = tok) } := by
  apply standing_revokeWhere
  intro id' row' hget'
  obtain ⟨hrow, hhash⟩ := AuthDb.getRefreshToken_eq_some_iff.1 hget
  obtain ⟨hrow', hhash'⟩ := AuthDb.getRefreshToken_eq_some_iff.1 hget'
  have hsame : id' = id ↔ t = tok := by
    constructor
    · rintro rfl
      obtain rfl := Option.some.inj (hrow.symm.trans hrow')
      exact sec.hash_injective (hhash.symm.trans hhash')
    · rintro rfl
      exact congrArg Prod.fst (Option.some.inj (hget'.symm.trans hget))
  have hdec : decide (id' = id) = decide (t = tok) := decide_eq_decide.2 hsame
  rw [hdec]
  cases row'.live <;> simp

lemma standing_revokeAll (v : UserId) :
    standing sec (db.revokeAllRefreshTokens now v).1 tok =
      (standing sec db tok).map fun s => { s with revoked := s.revoked || decide (s.user = v) } := by
  cases hget : db.getRefreshToken (sec.hashRefreshToken tok) with
  | none =>
    rw [standing, AuthDb.revokeAllRefreshTokens, getRefreshToken_revokeWhere, standing, hget]
    rfl
  | some e =>
    obtain ⟨id, row⟩ := e
    have hrevoke := standing_revokeWhere sec db now tok (AuthDb.isLiveOf v)
      (decide (row.userId = v)) (by
        intro id' row' hget'
        obtain ⟨-, rfl⟩ := Prod.mk.inj (Option.some.inj (hget.symm.trans hget'))
        unfold AuthDb.isLiveOf
        cases row.live <;> simp)
    rw [AuthDb.revokeAllRefreshTokens, hrevoke, standing, hget]
    rfl

/-- Deleting a user removes the tokens they hold. -/
lemma standing_deleteUser (v : UserId) :
    standing sec (db.deleteUser v) tok =
      (standing sec db tok).filter fun s => !decide (v = s.user) := by
  have hget : (db.deleteUser v).getRefreshToken (sec.hashRefreshToken tok) =
      (db.getRefreshToken (sec.hashRefreshToken tok)).filter fun e => !decide (v = e.2.userId) := by
    ext ⟨id, row⟩
    rw [AuthDb.getRefreshToken_eq_some_iff, AuthDb.token_deleteUser, Option.filter_eq_some_iff,
      AuthDb.getRefreshToken_eq_some_iff]
    simp only [Bool.not_eq_true', decide_eq_false_iff_not]
    constructor
    · rintro ⟨⟨hrow, hne⟩, hhash⟩
      exact ⟨⟨hrow, hhash⟩, fun heq => hne heq.symm⟩
    · rintro ⟨⟨hrow, hhash⟩, hne⟩
      exact ⟨⟨hrow, fun heq => hne heq.symm⟩, hhash⟩
  rw [standing, standing, hget]
  cases db.getRefreshToken (sec.hashRefreshToken tok) with
  | none => rfl
  | some e =>
    by_cases hv : v = e.2.userId
    · simp [Option.filter, hv]
    · simp [Option.filter, hv]

/-! ## Runs -/

/-- What holds of every run: the table shows the ledger, and no token was issued twice. -/
structure Represents (sec : Crypto) (cfg : AuthSettings) (w : AuthRun) : Prop where
  standing : ∀ tok, standing sec w.db tok = ledger cfg w.history tok
  once : IssuedOnce w.history

lemma Represents.standing_eq_none (hw : Represents sec cfg w) (hno : ¬ AuthRun.Issued w.history tok) :
    TickerWatch.standing sec w.db tok = none := by
  rw [hw.standing, ledger_eq_none_of_not_issued hno]

/-- An entry that issues at most one value, a fresh one, keeps issues unique. -/
lemma IssuedOnce.cons (honce : IssuedOnce past)
    (he : ∀ tok u, e.Issues tok u → ¬ AuthRun.Issued past tok) : IssuedOnce (e :: past) := by
  refine List.pairwise_cons.2 ⟨?_, honce⟩
  intro d hd tok u v hu hv
  exact he tok u hu ⟨d, hd, v, hv⟩

lemma ledger_of_no_session (hsession : e.session = none) :
    ledger cfg (e :: past) tok = (ledger cfg past tok).bind (e.after (ledger cfg past) tok) := by
  apply ledger_of_not_issues
  rintro u ⟨s, hs, -⟩
  exact absurd (hsession.symm.trans hs) (by simp)

/-- What an entry's revocations do to the standings, when it deletes nobody. -/
lemma bind_after (stand : String → Option Standing) (o : Option Standing)
    (hdel : ∀ v, e.request ≠ .deleteUser v) : o.bind (e.after stand tok) =
      o.map fun s => { s with revoked := s.revoked || e.revokes stand tok s.user } := by
  cases o with
  | none => rfl
  | some s =>
    rw [Option.bind_some, Option.map_some, Entry.after, if_neg (hdel s.user)]

/-- The ledger after an entry that returned a session for `u`. -/
lemma ledger_of_session {session : Session} (hsession : e.session = some session)
    (hdel : ∀ v, e.request ≠ .deleteUser v) :
    ledger cfg (e :: past) tok =
      if session.refreshToken = tok then some ⟨session.user.id, cfg.expiresAt e.time, false⟩
      else (ledger cfg past tok).map fun s =>
        { s with revoked := s.revoked || e.revokes (ledger cfg past) tok s.user } := by
  split
  · rename_i heq
    exact ledger_of_issues ⟨session, hsession, heq, rfl⟩
  · rename_i hne
    have hno : ∀ u, ¬ e.Issues tok u := by
      rintro u ⟨s, hs, heq, -⟩
      obtain rfl := Option.some.inj (hsession.symm.trans hs)
      exact hne heq
    rw [ledger_of_not_issues hno, bind_after _ _ hdel]

lemma AuthRun.step_eq {r : Request} {out : Option Session} (h : r.perform sec cfg w.now w.db =
    (out, db)) : AuthRun.step sec cfg w r =
      ⟨db, w.now + r.elapsed, ⟨r, w.now, out⟩ :: w.history⟩ := by
  rw [AuthRun.step, h]

section Steps

variable (hw : Represents sec cfg w)
include hw

/-- A request that returned no session and revoked what its entry says. -/
lemma Represents.revoke {r : Request} (hr : r.perform sec cfg w.now w.db = (none, db))
    (hdb : ∀ tok, TickerWatch.standing sec db tok = (TickerWatch.standing sec w.db tok).map fun s =>
      { s with revoked := s.revoked ||
          Entry.revokes ⟨r, w.now, none⟩ (ledger cfg w.history) tok s.user })
    (hdel : ∀ v, r ≠ .deleteUser v) : Represents sec cfg (AuthRun.step sec cfg w r) := by
  rw [AuthRun.step_eq hr]
  constructor
  · intro tok
    rw [ledger_of_no_session rfl, bind_after _ _ hdel, hdb, hw.standing]
  · refine hw.once.cons ?_
    rintro tok u ⟨s, hs, -⟩
    exact absurd hs (by simp)

lemma Represents.idle {r : Request} (hr : r.perform sec cfg w.now w.db = (none, db))
    (hdb : ∀ tok, TickerWatch.standing sec db tok = TickerWatch.standing sec w.db tok)
    (hrevokes : ∀ tok u, Entry.revokes ⟨r, w.now, none⟩ (ledger cfg w.history) tok u = false)
    (hdel : ∀ v, r ≠ .deleteUser v) : Represents sec cfg (AuthRun.step sec cfg w r) := by
  refine hw.revoke hr (fun tok => ?_) hdel
  rw [hdb]
  cases TickerWatch.standing sec w.db tok with
  | none => rfl
  | some s => rw [Option.map_some, hrevokes, Bool.or_false]

lemma Represents.issue {r : Request} {token : String} {out : Except AuthError Session × AuthDb}
    (hr : r.perform sec cfg w.now w.db = (out.1.toOption, out.2))
    (hcase : IssueCase sec cfg w.now token w.db out)
    (hfresh : ¬ AuthRun.Issued w.history token)
    (hrevokes : ∀ o stand tok u, Entry.revokes ⟨r, w.now, o⟩ stand tok u = false)
    (hdel : ∀ v, r ≠ .deleteUser v) : Represents sec cfg (AuthRun.step sec cfg w r) := by
  cases hcase with
  | raised h => exact hw.idle hr (standing_congr h) (hrevokes none _) hdel
  | @issued user db₀ db' h hstore =>
    rw [AuthRun.step_eq hr]
    constructor
    · intro tok
      rw [ledger_of_session rfl hdel, standing_store hstore, standing_congr h, hw.standing]
      change _ = if token = tok then some (Standing.mk user.id (cfg.expiresAt w.now) false) else _
      by_cases htok : token = tok
      · rw [if_pos htok, if_pos htok]
      · rw [if_neg htok, if_neg htok]
        cases ledger cfg w.history tok with
        | none => rfl
        | some s => rw [Option.map_some, hrevokes, Bool.or_false]
    · refine hw.once.cons ?_
      rintro tok u ⟨s, hs, rfl, -⟩
      obtain rfl := Option.some.inj hs
      exact hfresh

/-- A refresh: the cases are those of `refresh_cases`. -/
lemma Represents.refresh {token refreshToken : String}
    (hfresh : ¬ AuthRun.Issued w.history token) :
    Represents sec cfg (AuthRun.step sec cfg w (.refresh token refreshToken)) := by
  have hnew := standing_eq_none_iff.1 (hw.standing_eq_none hfresh)
  have hledger := hw.standing refreshToken
  have hcase : RefreshCase sec cfg w.now token refreshToken w.db
    (TickerWatch.refresh sec cfg w.now token refreshToken w.db) := refresh_cases hnew
  have hr : (Request.refresh token refreshToken).perform sec cfg w.now w.db =
    ((TickerWatch.refresh sec cfg w.now token refreshToken w.db).1.toOption,
      (TickerWatch.refresh sec cfg w.now token refreshToken w.db).2) := rfl
  generalize TickerWatch.refresh sec cfg w.now token refreshToken w.db = out at hcase hr
  cases hcase with
  -- the two refusals that change nothing
  | unknown h =>
    rw [standing_eq_none_iff.2 h] at hledger
    refine hw.idle hr (fun _ => rfl) (fun tok u => ?_) (fun _ => Request.noConfusion)
    simp [Entry.revokes, ← hledger]
  | expired h hlive hexp =>
    rw [TickerWatch.standing, h] at hledger
    refine hw.idle hr (fun _ => rfl) (fun tok u => ?_) (fun _ => Request.noConfusion)
    simp [Entry.revokes, ← hledger, hlive]
  -- the reuse revokes all of the user
  | reused h hlive =>
    rw [TickerWatch.standing, h] at hledger
    refine hw.revoke hr (fun tok => ?_) (fun _ => Request.noConfusion)
    rw [standing_revokeAll]
    refine Option.map_congr fun s _ => ?_
    simp [Entry.revokes, ← hledger, hlive, eq_comm]
  -- the exchange revokes one token and issues another, which is new
  | @rotated id row user db' h hlive hexp huser hstore =>
    rw [TickerWatch.standing, h] at hledger
    rw [AuthRun.step_eq hr]
    constructor
    · intro tok
      rw [ledger_of_session rfl fun _ => Request.noConfusion, standing_store hstore]
      change _ = if token = tok then some (Standing.mk user.id (cfg.expiresAt w.now) false) else _
      rw [huser]
      by_cases htok : token = tok
      · rw [if_pos htok, if_pos htok]
      · rw [if_neg htok, if_neg htok, standing_revokeRefreshToken h, hw.standing]
        refine Option.map_congr fun s _ => ?_
        simp [Entry.revokes, ← hledger, hlive, Except.toOption]
    · refine hw.once.cons ?_
      rintro tok u ⟨s, hs, rfl, -⟩
      obtain rfl := Option.some.inj hs
      exact hfresh

lemma Represents.logout {refreshToken : String} :
    Represents sec cfg (AuthRun.step sec cfg w (.logout refreshToken)) := by
  cases hget : w.db.getRefreshToken (sec.hashRefreshToken refreshToken) with
  | none =>
    have hr : (Request.logout refreshToken).perform sec cfg w.now w.db = (none, w.db) := by
      rw [Request.perform, TickerWatch.logout, hget]
    refine hw.revoke hr (fun tok => ?_) (fun _ => Request.noConfusion)
    by_cases htok : refreshToken = tok
    · subst htok
      rw [standing_eq_none_iff.2 hget, Option.map_none]
    · cases TickerWatch.standing sec w.db tok with
      | none => rfl
      | some s => simp [Entry.revokes, htok]
  | some e =>
    obtain ⟨id, row⟩ := e
    have hr : (Request.logout refreshToken).perform sec cfg w.now w.db =
        (none, w.db.revokeRefreshToken w.now id) := by
      rw [Request.perform, TickerWatch.logout, hget]
    refine hw.revoke hr (fun tok => ?_) (fun _ => Request.noConfusion)
    rw [standing_revokeRefreshToken hget]
    rfl

lemma Represents.deleteUser {v : UserId} :
    Represents sec cfg (AuthRun.step sec cfg w (.deleteUser v)) := by
  have hr : (Request.deleteUser v).perform sec cfg w.now w.db = (none, w.db.deleteUser v) := rfl
  rw [AuthRun.step_eq hr]
  constructor
  · intro tok
    rw [ledger_of_no_session rfl, standing_deleteUser, hw.standing]
    cases ledger cfg w.history tok with
    | none => rfl
    | some s =>
      by_cases hv : v = s.user
      · simp [Option.filter, Entry.after, hv]
      · simp [Option.filter, Entry.after, Entry.revokes, hv]
  · refine hw.once.cons ?_
    rintro tok u ⟨s, hs, -⟩
    exact absurd hs (by simp)

/-- Every request keeps the table in step with the history. -/
theorem Represents.step {r : Request} (hfresh : AuthRun.Fresh w r) :
    Represents sec cfg (AuthRun.step sec cfg w r) := by
  cases r with
  | register salt token username password email firstName lastName =>
    exact hw.issue rfl register_case (hfresh token rfl) (fun _ _ _ _ => rfl)
      fun _ => Request.noConfusion
  | login token username password =>
    exact hw.issue rfl login_case (hfresh token rfl) (fun _ _ _ _ => rfl)
      fun _ => Request.noConfusion
  | refresh token refreshToken => exact hw.refresh (hfresh token rfl)
  | logout refreshToken => exact hw.logout
  | deleteUser user => exact hw.deleteUser
  | advance micros =>
    exact hw.idle rfl (fun _ => rfl) (fun _ _ => rfl) fun _ => Request.noConfusion

end Steps

/-- In every run the token table shows the ledger. -/
theorem represents_of_reachable (hw : (AuthRun.system sec cfg).ReachableWhere AuthRun.Fresh w) :
    Represents sec cfg w := by
  refine System.ReachableWhere.invariant hw ?_ ?_
  · rintro w ⟨hdb, hhistory⟩
    constructor
    · intro tok
      rw [hdb, hhistory]
      rfl
    · rw [hhistory]
      exact List.Pairwise.nil
  · intro w r w' hfresh hrep hstep
    obtain rfl := Option.some.inj hstep
    exact hrep.step hfresh

/-- A refresh returns a session exactly for a standing that is neither revoked nor over. -/
lemma refresh_isOk_iff {token : String}
    (hnew : db.getRefreshToken (sec.hashRefreshToken token) = none) :
    (refresh sec cfg now token tok db).1.isOk = true ↔
      ∃ s, standing sec db tok = some s ∧ s.revoked = false ∧ now < s.expiresAt := by
  have hcase : RefreshCase sec cfg now token tok db (refresh sec cfg now token tok db) :=
    refresh_cases hnew
  generalize refresh sec cfg now token tok db = out at hcase
  unfold standing
  cases hcase with
  | unknown h => simp [h, Except.isOk, Except.toBool]
  | expired h hlive hexp => simp [h, hlive, hexp, Except.isOk, Except.toBool]
  | reused h hlive => simp [h, hlive, Except.isOk, Except.toBool]
  | rotated h hlive hexp huser hstore => simp [h, hlive, hexp, Except.isOk, Except.toBool]

/-- A refresh that returns a session leaves every other token as it was. -/
lemma getRefreshToken_refresh {token other : String}
    (hnew : db.getRefreshToken (sec.hashRefreshToken token) = none)
    (hok : (refresh sec cfg now token tok db).1.isOk = true) (htok : other ≠ tok)
    (htoken : other ≠ token) :
    (refresh sec cfg now token tok db).2.getRefreshToken (sec.hashRefreshToken other) =
      db.getRefreshToken (sec.hashRefreshToken other) := by
  have hcase : RefreshCase sec cfg now token tok db (refresh sec cfg now token tok db) :=
    refresh_cases hnew
  generalize refresh sec cfg now token tok db = out at hcase hok
  cases hcase with
  | unknown h => exact absurd hok (by simp [Except.isOk, Except.toBool])
  | expired h hlive hexp => exact absurd hok (by simp [Except.isOk, Except.toBool])
  | reused h hlive => exact absurd hok (by simp [Except.isOk, Except.toBool])
  | @rotated id row user db' h hlive hexp huser hstore =>
    have hne : sec.hashRefreshToken token ≠ sec.hashRefreshToken other :=
      fun heq => htoken (sec.hash_injective heq).symm
    refine (getRefreshToken_insertToken hstore _).trans ((if_neg hne).trans ?_)
    rw [AuthDb.revokeRefreshToken, getRefreshToken_revokeWhere]
    cases hother : db.getRefreshToken (sec.hashRefreshToken other) with
    | none => rfl
    | some e =>
      obtain ⟨id', row'⟩ := e
      have hid : id' ≠ id := by
        rintro rfl
        obtain ⟨hrow, hhash⟩ := AuthDb.getRefreshToken_eq_some_iff.1 h
        obtain ⟨hrow', hhash'⟩ := AuthDb.getRefreshToken_eq_some_iff.1 hother
        obtain rfl := Option.some.inj (hrow.symm.trans hrow')
        exact htok (sec.hash_injective (hhash'.symm.trans hhash))
      simp [hid]

/-- A refresh that raises leaves the database, or it found a revoked token and revoked all. -/
lemma refresh_error {token : String}
    (hnew : db.getRefreshToken (sec.hashRefreshToken token) = none)
    (hok : (refresh sec cfg now token tok db).1.isOk = false) :
    (refresh sec cfg now token tok db).2 = db ∨
      ∃ s, standing sec db tok = some s ∧ s.revoked = true ∧
        (refresh sec cfg now token tok db).2 = (db.revokeAllRefreshTokens now s.user).1 := by
  have hcase : RefreshCase sec cfg now token tok db (refresh sec cfg now token tok db) :=
    refresh_cases hnew
  generalize refresh sec cfg now token tok db = out at hcase hok
  cases hcase with
  | unknown h => exact Or.inl rfl
  | expired h hlive hexp => exact Or.inl rfl
  | reused h hlive =>
    refine Or.inr ⟨_, by rw [standing, h, Option.map_some], ?_, rfl⟩
    simp [hlive]
  | rotated h hlive hexp huser hstore => exact absurd hok (by simp [Except.isOk, Except.toBool])

/-- **Which refresh tokens are accepted.**  After any sequence of requests that draw fresh token
values, a refresh returns a session exactly when the history accepts the token.  A refresh that
succeeds leaves every other token as it was; one that fails leaves the database, or it presented a
token of `u` that was revoked already, and then it revoked every token of `u` and nothing else. -/
theorem refresh_accepts_iff (hw : (AuthRun.system sec cfg).ReachableWhere AuthRun.Fresh w)
    {token : String} (hfresh : ¬ AuthRun.Issued w.history token) (tok : String) :
    ((refresh sec cfg w.now token tok w.db).1.isOk = true ↔
      ∃ u, Accepts cfg w.history w.now tok u) ∧
    ((refresh sec cfg w.now token tok w.db).1.isOk = true → ∀ other, other ≠ tok → other ≠ token →
      (refresh sec cfg w.now token tok w.db).2.getRefreshToken (sec.hashRefreshToken other) =
        w.db.getRefreshToken (sec.hashRefreshToken other)) ∧
    ((refresh sec cfg w.now token tok w.db).1.isOk = false →
      (refresh sec cfg w.now token tok w.db).2 = w.db ∨
      ∃ u, AlreadyRevoked w.history tok u ∧
        (refresh sec cfg w.now token tok w.db).2 = (w.db.revokeAllRefreshTokens w.now u).1 ∧
        ∀ other, standing sec (refresh sec cfg w.now token tok w.db).2 other =
          (standing sec w.db other).map fun s =>
            { s with revoked := s.revoked || decide (s.user = u) }) := by
  -- the table shows the ledger, so the checks of a refresh are about the history
  have hrep := represents_of_reachable hw
  have hnew := standing_eq_none_iff.1 (hrep.standing_eq_none hfresh)
  refine ⟨?_, fun hok other => getRefreshToken_refresh hnew hok, fun hok => ?_⟩
  · rw [refresh_isOk_iff hnew, hrep.standing]
    constructor
    · rintro ⟨s, hs, hrev, hexp⟩
      exact ⟨s.user, (standing_iff_accepts hrep.once).1 ⟨s, hs, rfl, hrev, hexp⟩⟩
    · rintro ⟨u, hu⟩
      obtain ⟨s, hs, -, hrev, hexp⟩ := (standing_iff_accepts hrep.once).2 hu
      exact ⟨s, hs, hrev, hexp⟩
  -- a refused refresh writes nothing, unless it found a revoked row
  · rcases refresh_error hnew hok with hsame | ⟨s, hs, hrev, hdb⟩
    · exact Or.inl hsame
    · rw [hrep.standing] at hs
      refine Or.inr ⟨s.user, (alreadyRevoked_iff cfg hrep.once tok).2 ⟨s, hs, rfl, hrev⟩, hdb, ?_⟩
      intro other
      rw [hdb, standing_revokeAll]

/-- A registration on the migrated database. -/
def registered : AuthRun :=
  AuthRun.step Crypto.plain {} ⟨.empty, 0, []⟩ (.register "salt" "first" "alice" "pw" none "" "")

/-- The history of a registration accepts the token it issued. -/
theorem refresh_accepts_registered : ∃ u, Accepts {} registered.history registered.now "first" u := by
  have hstart : AuthRun.Fresh ⟨.empty, 0, []⟩
      (.register "salt" "first" "alice" "pw" none "" "") := by
    rintro token - ⟨e, he, -⟩
    exact absurd he List.not_mem_nil
  have hreach : (AuthRun.system Crypto.plain {}).ReachableWhere AuthRun.Fresh registered :=
    ⟨⟨.empty, 0, []⟩, ⟨rfl, rfl⟩, (System.RunWhere.refl _).tail hstart rfl⟩
  have hfresh : ¬ AuthRun.Issued registered.history "second" := by
    rintro ⟨e, he, u, s, hs, htok, -⟩
    obtain rfl := List.mem_singleton.1 he
    have htokens : registered.history.map (fun e => e.session.map Session.refreshToken) =
      [some "first"] := by decide +kernel
    have hsession : (registered.history.map fun e => e.session.map Session.refreshToken).head? =
      some (some "second") := by
        change some (Option.map _ _) = _
        rw [hs, Option.map_some, htok]
    rw [htokens] at hsession
    exact absurd hsession (by simp)
  exact (refresh_accepts_iff hreach hfresh "first").1.1 (by decide +kernel)

end TickerWatch
