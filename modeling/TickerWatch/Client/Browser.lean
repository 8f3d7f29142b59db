import TickerWatch.Auth.History

/-!
# A browser and its session

The session handling of `api.js` and `App.jsx` against the API: any number of tabs over one
`localStorage`, requests that answer 401, the refresh they start or join, logout, and the server
calls of `auth_handler.py`, each executed at once.

JavaScript runs to its next `await` undisturbed, so an event is such a turn.  `refreshing` is a
variable of the module and so one per tab, while the stored session is shared.  A refresh whose end
is handled writes the storage, announces itself and releases the requests that wait for it in one
turn.  The state of React changes when it is set, and what a click handler has closed over when the
next render is through.

`posted`, `detections`, `family` and `signedOut` are history, which nothing reads: the tokens posted
to `/auth/refresh`, the users whose sessions it revoked, the tokens issued to the login the browser
started with, and whether `logout` was called.
-/

namespace TickerWatch

/-- What `storeSession` writes. -/
structure StoredSession where
  token : String
  refresh : String
  user : User
  deriving DecidableEq, Repr

/-- What the client keeps of a session the API returns. -/
def Session.stored (session : Session) : StoredSession :=
  ⟨session.accessToken, session.refreshToken, session.user⟩

/-- A tab of the browser. -/
abbrev TabId := ℕ

/-- A call of `request`. -/
abbrev RequestId := ℕ

/-- Where the `POST /auth/refresh` of a refresh stands. -/
inductive RefreshPost
  | sent
  | answered (session : Session)
  /-- It was refused, or it was lost on the way there or back. -/
  | failed
  deriving DecidableEq

/-- How the post of a refresh ends. -/
@[simp] def RefreshPost.ofResult : Except AuthError Session → RefreshPost
  | .ok session => .answered session
  | .error _ => .failed

/-- A refresh in flight: the token it read from the storage, and its post. -/
structure Flight where
  refresh : String
  post : RefreshPost
  deriving DecidableEq

/-- One tab: `refreshing` of `api.js`, which is a variable of the module and so of the tab, the
session state of `App`, and the session the handlers on the screen have closed over, which is that
of the last render. -/
structure Tab where
  refreshing : Option Flight
  session : Option StoredSession
  rendered : Option StoredSession
  deriving DecidableEq

/-- Where a call of `request` stands. -/
inductive RequestPc
  | fetching
  /-- It awaits the refresh of its tab. -/
  | awaiting
  | done
  deriving DecidableEq, Repr

/-- A call of `request`. -/
structure ClientRequest where
  tab : TabId
  token : Option String
  retried : Bool
  pc : RequestPc
  deriving DecidableEq, Repr

/-- A response with this status makes the request refresh the session: a 401 to a request with a token
that is no retry. -/
def ClientRequest.refreshes (q : ClientRequest) (status : ℕ) : Bool :=
  decide (status = 401) && q.token.isSome && !q.retried

/-- The browser, the posts to `/auth/logout` under way, the server and the history.  The storage is
one for all tabs, while a refresh and a request belong to the tab they were started in.  `posted`,
`detections`, `family` and `signedOut` are history. -/
structure BrowserWorld where
  storage : Option StoredSession
  tabs : Dict TabId Tab
  requests : Dict RequestId ClientRequest
  logouts : List String
  db : AuthDb
  now : Timestamp
  posted : List String
  detections : List UserId
  family : List String
  signedOut : Bool

/-- What can happen next. -/
inductive BrowserEvent
  /-- A component calls the API. -/
  | send (r : RequestId) (t : TabId) (token : Option String)
  /-- The answer to a request arrives. -/
  | respond (r : RequestId) (status : ℕ)
  /-- The server executes the refresh of a tab; it draws `fresh`. -/
  | serve (t : TabId) (fresh : String)
  /-- The post of a refresh, or the answer to it, is lost. -/
  | lose (t : TabId)
  /-- The tab handles the end of its refresh. -/
  | settle (t : TabId)
  /-- The user clicks on logout. -/
  | logout (t : TabId)
  /-- The server executes a logout. -/
  | serveLogout (refresh : String)
  | render (t : TabId)
  | advance (micros : ℕ)
  deriving DecidableEq

namespace BrowserWorld

/-- The refresh of a tab. -/
def flight (w : BrowserWorld) (t : TabId) : Option Flight := (w.tabs.get? t).bind Tab.refreshing

/-- One tab changes. -/
def putTab (w : BrowserWorld) (t : TabId) (tab : Tab) : BrowserWorld :=
  { w with tabs := w.tabs.set t tab }

/-- One request moves on. -/
def putRequest (w : BrowserWorld) (r : RequestId) (q : ClientRequest) : BrowserWorld :=
  { w with requests := w.requests.set r q }

/-- `request` after a response.  To refresh the session it starts the refresh of its tab or joins it;
without a stored token the refresh throws at once, and the session is cleared. -/
def onResponse (w : BrowserWorld) (r : RequestId) (q : ClientRequest) (tab : Tab) (status : ℕ) :
    BrowserWorld :=
  if q.refreshes status then
    match tab.refreshing, w.storage with
    | some _, _ => w.putRequest r { q with pc := .awaiting }
    | none, none =>
      (w.putTab q.tab { tab with session := none }).putRequest r { q with pc := .done }
    | none, some s =>
      { (w.putTab q.tab { tab with refreshing := some ⟨s.refresh, .sent⟩ }).putRequest r
          { q with pc := .awaiting } with
        posted := s.refresh :: w.posted }
  else w.putRequest r { q with pc := .done }

/-- The requests of a tab that awaited its refresh go on with `f`. -/
def release (w : BrowserWorld) (t : TabId) (f : ClientRequest → ClientRequest) :
    Dict RequestId ClientRequest :=
  w.requests.mapValues fun _ q => if q.tab = t ∧ q.pc = .awaiting then f q else q

/-- The end of a refresh.  On success the session is stored and announced, and the requests are sent
again with the new token; otherwise each of them clears the session and fails. -/
def onRefreshed (w : BrowserWorld) (t : TabId) (tab : Tab) : RefreshPost → Option BrowserWorld
  | .sent => none
  | .answered session => some
      { w.putTab t { tab with refreshing := none, session := some session.stored } with
        storage := some session.stored
        requests := w.release t fun q =>
          { q with token := some session.accessToken, retried := true, pc := .fetching } }
  | .failed => some
      { w.putTab t { tab with refreshing := none, session := none } with
        storage := none
        requests := w.release t fun q => { q with pc := .done } }

/-- The users whose sessions a refresh with this token revokes. -/
def detected (sec : Crypto) (db : AuthDb) (refreshToken : String) : List UserId :=
  match db.getRefreshToken (sec.hashRefreshToken refreshToken) with
  | some (_, row) => if row.live then [] else [row.userId]
  | none => []

/-- The API executes a refresh. -/
def onRefresh (sec : Crypto) (cfg : AuthSettings) (w : BrowserWorld) (t : TabId) (tab : Tab)
    (refreshToken fresh : String) : BrowserWorld :=
  let out := TickerWatch.refresh sec cfg w.now fresh refreshToken w.db
  { w.putTab t { tab with refreshing := some ⟨refreshToken, .ofResult out.1⟩ } with
    db := out.2
    detections := detected sec w.db refreshToken ++ w.detections
    family := if out.1.toOption.isSome = true ∧ refreshToken ∈ w.family then fresh :: w.family
      else w.family }

/-- One event. -/
def step (sec : Crypto) (cfg : AuthSettings) (w : BrowserWorld) :
    BrowserEvent → Option BrowserWorld
  | .send r t token =>
    if !w.requests.contains r && w.tabs.contains t then
      some (w.putRequest r ⟨t, token, false, .fetching⟩)
    else none
  | .respond r status =>
    match w.requests.get? r with
    | some q =>
      if q.pc = .fetching then (w.tabs.get? q.tab).map fun tab => w.onResponse r q tab status
      else none
    | none => none
  | .serve t fresh =>
    match w.tabs.get? t with
    | some tab =>
      match tab.refreshing with
      | some ⟨refreshToken, .sent⟩ => some (w.onRefresh sec cfg t tab refreshToken fresh)
      | _ => none
    | none => none
  | .lose t =>
    match w.tabs.get? t with
    | some tab =>
      match tab.refreshing with
      | some f => some (w.putTab t { tab with refreshing := some { f with post := .failed } })
      | none => none
    | none => none
  | .settle t =>
    match w.tabs.get? t with
    | some tab => tab.refreshing.bind fun f => w.onRefreshed t tab f.post
    | none => none
  | .logout t =>
    match w.tabs.get? t with
    | some tab => tab.rendered.map fun s =>
        { w.putTab t { tab with session := none } with
          storage := none
          logouts := s.refresh :: w.logouts
          signedOut := true }
    | none => none
  | .serveLogout refreshToken =>
    if refreshToken ∈ w.logouts then
      some { w with
        logouts := w.logouts.erase refreshToken
        db := TickerWatch.logout sec w.now refreshToken w.db }
    else none
  | .render t => (w.tabs.get? t).map fun tab => w.putTab t { tab with rendered := tab.session }
  | .advance micros => some { w with now := w.now + micros }

/-- The token is not one the server has revoked. -/
def Unrevoked (sec : Crypto) (db : AuthDb) (tok : String) : Prop :=
  (standing sec db tok).all (fun s => !s.revoked) = true

instance (sec : Crypto) (db : AuthDb) (tok : String) : Decidable (Unrevoked sec db tok) :=
  inferInstanceAs (Decidable (_ = true))

/-- A browser with a session that has not been used up, nothing under way, and a history that starts
with the token in the storage: where a run of the system starts. -/
structure Quiet (sec : Crypto) (w : BrowserWorld) : Prop where
  flight : ∀ t, w.flight t = none
  requests : w.requests = .empty
  logouts : w.logouts = []
  stored : ∀ s, w.storage = some s → Unrevoked sec w.db s.refresh
  posted : w.posted = []
  detections : w.detections = []
  family : w.family = w.storage.toList.map StoredSession.refresh
  signedOut : w.signedOut = false

/-- Runs of a browser from a stored session on. -/
def system (sec : Crypto) (cfg : AuthSettings) : System BrowserWorld BrowserEvent where
  init := Quiet sec
  step := step sec cfg

/-- A token value the server draws is new to it and to the browser. -/
def Fresh (sec : Crypto) (w : BrowserWorld) : BrowserEvent → Prop
  | .serve _ fresh => standing sec w.db fresh = none ∧ fresh ∉ w.posted ∧ fresh ∉ w.family
  | _ => True

instance (sec : Crypto) (w : BrowserWorld) (e : BrowserEvent) : Decidable (Fresh sec w e) :=
  match e with
  | .serve _ fresh =>
    inferInstanceAs (Decidable (standing sec w.db fresh = none ∧ fresh ∉ w.posted ∧ fresh ∉ w.family))
  | .send _ _ _ | .respond _ _ | .lose _ | .settle _ | .logout _ | .serveLogout _ | .render _
  | .advance _ => inferInstanceAs (Decidable True)

@[simp] lemma flight_putTab (w : BrowserWorld) (t : TabId) (tab : Tab) (t' : TabId) :
    (w.putTab t tab).flight t' = if t' = t then tab.refreshing else w.flight t' := by
  rw [flight, putTab, Dict.get?_set]
  split
  · rfl
  · rfl

lemma flight_of_tab {w : BrowserWorld} {t : TabId} {tab : Tab} (h : w.tabs.get? t = some tab) :
    w.flight t = tab.refreshing := by rw [flight, h, Option.bind_some]

/-! ## What the server does -/

section

variable {sec : Crypto} {cfg : AuthSettings} {now : Timestamp} {db : AuthDb}
  {tok fresh other : String}

lemma unrevoked_iff : Unrevoked sec db tok ↔
    ∀ s, standing sec db tok = some s → s.revoked = false := by
  rw [Unrevoked]
  cases standing sec db tok with
  | none => simp
  | some s => simp

lemma detected_eq_nil_iff : detected sec db tok = [] ↔ Unrevoked sec db tok := by
  rw [detected, Unrevoked, standing]
  cases db.getRefreshToken (sec.hashRefreshToken tok) with
  | none => simp
  | some e =>
    obtain ⟨id, row⟩ := e
    cases hlive : row.live
    · simp [hlive]
    · simp [hlive]

/-- What a refresh with a token that is not revoked does: nothing, or it exchanges it, and then the
standings of all other tokens are as they were. -/
inductive Rotation (sec : Crypto) (db : AuthDb) (tok fresh : String) :
    Except AuthError Session × AuthDb → Prop
  | refused {err} : Rotation sec db tok fresh (.error err, db)
  | rotated {session db' u expiresAt s} (hsession : session.refreshToken = fresh)
    (hold : standing sec db tok = some s)
    (hdb : ∀ x, standing sec db' x = if fresh = x then some ⟨u, expiresAt, false⟩
      else (standing sec db x).map fun s => { s with revoked := s.revoked || decide (tok = x) }) :
    Rotation sec db tok fresh (.ok session, db')

/-- A refresh with a token that is not revoked. -/
theorem refresh_rotation (hnew : standing sec db fresh = none) (h : Unrevoked sec db tok) :
    Rotation sec db tok fresh (TickerWatch.refresh sec cfg now fresh tok db) := by
  have hcase : RefreshCase sec cfg now fresh tok db (TickerWatch.refresh sec cfg now fresh tok db) :=
    refresh_cases (standing_eq_none_iff.1 hnew)
  generalize TickerWatch.refresh sec cfg now fresh tok db = out at hcase
  cases hcase with
  | unknown _ => exact .refused
  | reused hrow hlive =>
    have hrevoked := unrevoked_iff.1 h _ (congrArg (Option.map _) hrow)
    exact absurd hrevoked (by simp [hlive])
  | expired _ _ _ => exact .refused
  | @rotated id row user db' hrow hlive hexp huser hstore =>
    have hdb : ∀ x, standing sec db' x =
        if fresh = x then some ⟨row.userId, cfg.expiresAt now, false⟩
        else (standing sec db x).map fun s =>
          { s with revoked := s.revoked || decide (tok = x) } := by
      intro x
      rw [standing_store hstore, standing_revokeRefreshToken hrow]
    exact .rotated rfl (congrArg (Option.map _) hrow) hdb

/-- A logout revokes the token it names and no other. -/
theorem standing_logout (sec : Crypto) (now : Timestamp) (tok : String) (db : AuthDb) (x : String) :
    standing sec (TickerWatch.logout sec now tok db) x =
      (standing sec db x).map fun s => { s with revoked := s.revoked || decide (tok = x) } := by
  rw [TickerWatch.logout]
  split
  · rename_i hnone
    by_cases htok : tok = x
    · subst htok
      rw [standing_eq_none_iff.2 hnone, Option.map_none]
    · simp [htok]
  · rename_i id row hrow
    exact standing_revokeRefreshToken hrow

end

/-! ## What an event does -/

/-- What an event can do, but for the state of the requests, which a session does not depend on: a
response starts at most one refresh, and the end of a refresh stores its session or clears the
storage. -/
inductive StepCase (sec : Crypto) (cfg : AuthSettings) (w : BrowserWorld) :
    BrowserEvent → BrowserWorld → Prop
  | sent {r t token} (reqs : Dict RequestId ClientRequest) :
    StepCase sec cfg w (.send r t token) { w with requests := reqs }
  /-- The request ends, or joins a refresh. -/
  | responded {r status} (reqs : Dict RequestId ClientRequest)
    (hq : ∀ q, w.requests.get? r = some q → q.refreshes status = true → w.flight q.tab ≠ none) :
    StepCase sec cfg w (.respond r status) { w with requests := reqs }
  | thrown {r status t tab} (reqs : Dict RequestId ClientRequest) (htab : w.tabs.get? t = some tab)
    (hidle : tab.refreshing = none) (hstorage : w.storage = none) :
    StepCase sec cfg w (.respond r status)
      { w.putTab t { tab with session := none } with requests := reqs }
  | started {r status q tab s} (reqs : Dict RequestId ClientRequest)
    (hq : w.requests.get? r = some q) (hrefreshes : q.refreshes status = true)
    (htab : w.tabs.get? q.tab = some tab) (hidle : tab.refreshing = none)
    (hstorage : w.storage = some s) :
    StepCase sec cfg w (.respond r status)
      { w.putTab q.tab { tab with refreshing := some ⟨s.refresh, .sent⟩ } with
        requests := reqs, posted := s.refresh :: w.posted }
  | served {t tab refreshToken fresh} (htab : w.tabs.get? t = some tab)
    (hflight : tab.refreshing = some ⟨refreshToken, .sent⟩) :
    StepCase sec cfg w (.serve t fresh) (w.onRefresh sec cfg t tab refreshToken fresh)
  | lost {t tab f} (htab : w.tabs.get? t = some tab) (hflight : tab.refreshing = some f) :
    StepCase sec cfg w (.lose t)
      (w.putTab t { tab with refreshing := some { f with post := .failed } })
  | refreshed {t tab refreshToken session} (reqs : Dict RequestId ClientRequest)
    (htab : w.tabs.get? t = some tab)
    (hflight : tab.refreshing = some ⟨refreshToken, .answered session⟩) :
    StepCase sec cfg w (.settle t)
      { w.putTab t { tab with refreshing := none, session := some session.stored } with
        storage := some session.stored, requests := reqs }
  | cleared {t tab refreshToken} (reqs : Dict RequestId ClientRequest)
    (htab : w.tabs.get? t = some tab) (hflight : tab.refreshing = some ⟨refreshToken, .failed⟩) :
    StepCase sec cfg w (.settle t)
      { w.putTab t { tab with refreshing := none, session := none } with
        storage := none, requests := reqs }
  | signedOut {t tab s} (htab : w.tabs.get? t = some tab) (hrendered : tab.rendered = some s) :
    StepCase sec cfg w (.logout t)
      { w.putTab t { tab with session := none } with
        storage := none, logouts := s.refresh :: w.logouts, signedOut := true }
  | logoutServed {refreshToken} (hmem : refreshToken ∈ w.logouts) :
    StepCase sec cfg w (.serveLogout refreshToken)
      { w with
        logouts := w.logouts.erase refreshToken
        db := TickerWatch.logout sec w.now refreshToken w.db }
  | rendered {t tab} (htab : w.tabs.get? t = some tab) :
    StepCase sec cfg w (.render t) (w.putTab t { tab with rendered := tab.session })
  | advanced {micros} :
    StepCase sec cfg w (.advance micros) { w with now := w.now + micros }

variable {sec : Crypto} {cfg : AuthSettings} {w w' : BrowserWorld} {e : BrowserEvent} {t : TabId}
  {tab : Tab}

lemma onResponse_case {r : RequestId} {q : ClientRequest} {status : ℕ}
    (hq : w.requests.get? r = some q) (htab : w.tabs.get? q.tab = some tab) :
    StepCase sec cfg w (.respond r status) (w.onResponse r q tab status) := by
  have hsame : ∀ q', w.requests.get? r = some q' → q' = q := fun q' hq' =>
    Option.some.inj (hq'.symm.trans hq)
  rw [onResponse]
  split
  · rename_i hrefreshes
    split
    · rename_i f hflight
      refine .responded (w.requests.set r { q with pc := .awaiting }) fun q' hq' _ => ?_
      rw [hsame q' hq', BrowserWorld.flight, htab, Option.bind_some, hflight]
      simp
    · rename_i hidle hstorage
      exact .thrown _ htab hidle hstorage
    · rename_i s hidle hstorage
      exact .started _ hq hrefreshes htab hidle hstorage
  · rename_i hrefreshes
    refine .responded (w.requests.set r { q with pc := .done }) fun q' hq' h => ?_
    rw [hsame q' hq'] at h
    exact absurd h hrefreshes

lemma onRefreshed_case {f : Flight} (htab : w.tabs.get? t = some tab)
    (hflight : tab.refreshing = some f) (h : w.onRefreshed t tab f.post = some w') :
    StepCase sec cfg w (.settle t) w' := by
  obtain ⟨refreshToken, post⟩ := f
  cases post with
  | sent => exact absurd h (by simp [onRefreshed])
  | answered session =>
    obtain rfl := Option.some.inj h
    exact .refreshed _ htab hflight
  | failed =>
    obtain rfl := Option.some.inj h
    exact .cleared _ htab hflight

/-- **What one event does.** -/
theorem step_case (h : step sec cfg w e = some w') : StepCase sec cfg w e w' := by
  cases e with
  -- each event with what it needs: the guards of `step`, turned into the data of its case
  | send r t token =>
    rw [step] at h
    split at h
    · obtain rfl := Option.some.inj h
      exact .sent _
    · exact absurd h (by simp)
  | respond r status =>
    rw [step] at h
    split at h
    · rename_i q hq
      split at h
      · obtain ⟨tab, htab, rfl⟩ := Option.map_eq_some_iff.1 h
        exact onResponse_case hq htab
      · exact absurd h (by simp)
    · exact absurd h (by simp)
  | serve t fresh =>
    rw [step] at h
    split at h
    · rename_i tab htab
      split at h
      · rename_i refreshToken hflight
        obtain rfl := Option.some.inj h
        exact .served htab hflight
      · exact absurd h (by simp)
    · exact absurd h (by simp)
  | lose t =>
    rw [step] at h
    split at h
    · rename_i tab htab
      split at h
      · rename_i f hflight
        obtain rfl := Option.some.inj h
        exact .lost htab hflight
      · exact absurd h (by simp)
    · exact absurd h (by simp)
  | settle t =>
    rw [step] at h
    split at h
    · rename_i tab htab
      obtain ⟨f, hflight, h⟩ := Option.bind_eq_some_iff.1 h
      exact onRefreshed_case htab hflight h
    · exact absurd h (by simp)
  | logout t =>
    rw [step] at h
    split at h
    · rename_i tab htab
      obtain ⟨s, hrendered, rfl⟩ := Option.map_eq_some_iff.1 h
      exact .signedOut htab hrendered
    · exact absurd h (by simp)
  | serveLogout refreshToken =>
    rw [step] at h
    split at h
    · rename_i hmem
      obtain rfl := Option.some.inj h
      exact .logoutServed hmem
    · exact absurd h (by simp)
  | render t =>
    obtain ⟨tab, htab, rfl⟩ := Option.map_eq_some_iff.1 h
    exact .rendered htab
  | advance micros =>
    obtain rfl := Option.some.inj h
    exact .advanced

lemma keys_putTab (h : w.tabs.get? t = some tab) (tab' : Tab) :
    (w.putTab t tab').tabs.keys = w.tabs.keys :=
  Dict.keys_set_of_mem _ (Dict.mem_keys_iff.2 ⟨tab, h⟩)

lemma keys_step (h : step sec cfg w e = some w') : w'.tabs.keys = w.tabs.keys := by
  cases step_case h with
  | sent _ => rfl
  | responded _ _ => rfl
  | thrown _ htab _ _ => exact keys_putTab htab _
  | started _ _ _ htab _ _ => exact keys_putTab htab _
  | served htab _ => exact keys_putTab htab _
  | lost htab _ => exact keys_putTab htab _
  | refreshed _ htab _ => exact keys_putTab htab _
  | cleared _ htab _ => exact keys_putTab htab _
  | signedOut htab _ => exact keys_putTab htab _
  | logoutServed _ => rfl
  | rendered htab => exact keys_putTab htab _
  | advanced => rfl

end BrowserWorld

end TickerWatch
