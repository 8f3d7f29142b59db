import TickerWatch.Client.Browser

/-!
# When a browser presents a refresh token twice

One tab never refreshes twice at a time, but the stored token is shared.  As long as no tab starts a
refresh while another one has a refresh under way (`Alone`), the stored token has not been posted
before, and the server has not revoked what is posted (`Sole`).  A start that breaks this posts the
token a second time, so the condition is exact (`never_presented_twice_iff`).
-/

namespace TickerWatch

namespace BrowserWorld

/-- No tab has a refresh under way. -/
def idle (w : BrowserWorld) : Bool := w.tabs.values.all fun tab => tab.refreshing.isNone

/-- A response that makes its tab start a refresh arrives when no tab has one under way. -/
def Alone (w : BrowserWorld) : BrowserEvent → Prop
  | .respond r status =>
    match w.requests.get? r with
    | some q => q.refreshes status = true → w.flight q.tab = none → w.idle = true
    | none => True
  | _ => True

/-- Nobody logs out. -/
def StaysIn : BrowserEvent → Prop
  | .logout _ => False
  | .serveLogout _ => False
  | _ => True

/-- Token values are fresh, and nobody logs out. -/
def Refreshing (sec : Crypto) (w : BrowserWorld) (e : BrowserEvent) : Prop :=
  Fresh sec w e ∧ StaysIn e

/-- Such a step of a browser whose tabs refresh one at a time. -/
def RefreshingAlone (sec : Crypto) (w : BrowserWorld) (e : BrowserEvent) : Prop :=
  Refreshing sec w e ∧ Alone w e

/-- No token was posted to `/auth/refresh` twice, and no refresh revoked a user's sessions. -/
def NeverReused (w : BrowserWorld) : Prop := w.posted.Nodup ∧ w.detections = []

/-- A token the browser can post: it was not posted, and it is not revoked. -/
def Unspent (sec : Crypto) (w : BrowserWorld) (tok : String) : Prop :=
  tok ∉ w.posted ∧ Unrevoked sec w.db tok

/-- At most one refresh is under way, for the token in the storage, and the token the next one will
present has not been used.  With two tabs the first can fail, as each has a `refreshing` of its own.
-/
structure Sole (sec : Crypto) (w : BrowserWorld) : Prop where
  one : ∀ t t' f f', w.flight t = some f → w.flight t' = some f' → t = t'
  stored : ∀ t f, w.flight t = some f → ∃ s, w.storage = some s ∧ s.refresh = f.refresh
  posted : ∀ t f, w.flight t = some f → f.refresh ∈ w.posted
  unposted : w.idle = true → ∀ s, w.storage = some s → Unspent sec w s.refresh
  sent : ∀ t tok, w.flight t = some ⟨tok, .sent⟩ → Unrevoked sec w.db tok
  answered : ∀ t tok s, w.flight t = some ⟨tok, .answered s⟩ → Unspent sec w s.refreshToken

instance (w : BrowserWorld) (e : BrowserEvent) : Decidable (Alone w e) :=
  match e with
  | .respond r status =>
    match h : w.requests.get? r with
    | some q =>
      decidable_of_iff (q.refreshes status = true → w.flight q.tab = none → w.idle = true)
        (by rw [Alone, h])
    | none => isTrue (by rw [Alone, h]; trivial)
  | .send _ _ _ | .serve _ _ | .lose _ | .settle _ | .logout _ | .serveLogout _ | .render _
  | .advance _ => isTrue trivial

instance (e : BrowserEvent) : Decidable (StaysIn e) :=
  match e with
  | .logout _ | .serveLogout _ => isFalse id
  | .send _ _ _ | .respond _ _ | .serve _ _ | .lose _ | .settle _ | .render _ | .advance _ =>
    isTrue trivial

instance (sec : Crypto) (w : BrowserWorld) (e : BrowserEvent) : Decidable (Refreshing sec w e) :=
  inferInstanceAs (Decidable (_ ∧ _))

instance (sec : Crypto) (w : BrowserWorld) (e : BrowserEvent) :
    Decidable (RefreshingAlone sec w e) := inferInstanceAs (Decidable (_ ∧ _))

variable {sec : Crypto} {cfg : AuthSettings} {start w w' : BrowserWorld} {e : BrowserEvent}
  {t : TabId} {tab : Tab}

lemma idle_iff : w.idle = true ↔ ∀ t, w.flight t = none := by
  rw [idle, Dict.all_values_iff]
  constructor
  · intro h t
    rw [flight]
    cases htab : w.tabs.get? t with
    | none => rfl
    | some tab => exact Option.isNone_iff_eq_none.1 (h t tab htab)
  · intro h t tab htab
    rw [Option.isNone_iff_eq_none, ← flight_of_tab htab]
    exact h t

lemma alone_of_idle {r : RequestId} {status : ℕ} (h : w.idle = true) :
    Alone w (.respond r status) := by
  rw [Alone]
  split
  · exact fun _ _ => h
  · trivial

/-- A response whose request joins a refresh, if it needs one. -/
lemma alone_of_joins {r : RequestId} {status : ℕ}
    (h : ∀ q, w.requests.get? r = some q → q.refreshes status = true → w.flight q.tab ≠ none) :
    Alone w (.respond r status) := by
  rw [Alone]
  split
  · rename_i q hq
    exact fun hrefreshes hnone => absurd hnone (h q hq hrefreshes)
  · trivial

lemma flight_putTab_of_same {tab' : Tab} (htab : w.tabs.get? t = some tab)
    (hsame : tab'.refreshing = tab.refreshing) (t' : TabId) :
    (w.putTab t tab').flight t' = w.flight t' := by
  rw [flight_putTab]
  split
  · rename_i heq
    rw [heq, flight_of_tab htab, hsame]
  · rfl

/-- Nothing is under way, and what is stored can be posted. -/
lemma Sole.of_idle (hflight : ∀ t, w.flight t = none)
    (hstored : ∀ s, w.storage = some s → Unspent sec w s.refresh) : Sole sec w := by
  have habsurd : ∀ {t f}, w.flight t ≠ some f := fun {t f} hf =>
    absurd ((hflight t).symm.trans hf) (by simp)
  exact ⟨fun _ _ _ _ hf => absurd hf habsurd, fun _ _ hf => absurd hf habsurd,
    fun _ _ hf => absurd hf habsurd, fun _ => hstored, fun _ _ hf => absurd hf habsurd,
    fun _ _ _ hf => absurd hf habsurd⟩

lemma Sole.of_flight (t : TabId) (f : Flight)
    (hflight : ∀ t', w.flight t' = if t' = t then some f else none)
    (hstored : ∃ s, w.storage = some s ∧ s.refresh = f.refresh) (hposted : f.refresh ∈ w.posted)
    (hsent : f.post = .sent → Unrevoked sec w.db f.refresh)
    (hanswered : ∀ s, f.post = .answered s → Unspent sec w s.refreshToken) : Sole sec w := by
  have hsome : ∀ t' f', w.flight t' = some f' → t' = t ∧ f' = f := by
    intro t' f' hf
    rw [hflight] at hf
    split at hf
    · exact ⟨‹_›, (Option.some.inj hf).symm⟩
    · exact absurd hf (by simp)
  refine ⟨fun t₁ t₂ f₁ f₂ h₁ h₂ => ?_, fun t' f' hf => ?_, fun t' f' hf => ?_, fun hidle => ?_,
    fun t' tok hf => ?_, fun t' tok s hf => ?_⟩
  · exact (hsome t₁ f₁ h₁).1.trans (hsome t₂ f₂ h₂).1.symm
  · rw [(hsome t' f' hf).2]
    exact hstored
  · rw [(hsome t' f' hf).2]
    exact hposted
  · have hnone := idle_iff.1 hidle t
    rw [hflight, if_pos rfl] at hnone
    exact absurd hnone (by simp)
  · obtain ⟨-, rfl⟩ := hsome t' _ hf
    exact hsent rfl
  · obtain ⟨-, rfl⟩ := hsome t' _ hf
    exact hanswered s rfl

lemma Quiet.sole (h : Quiet sec w) : Sole sec w := by
  refine .of_idle h.flight fun s hs => ⟨?_, h.stored s hs⟩
  rw [h.posted]
  simp

lemma Sole.eq_none (h : Sole sec w) {f : Flight} (hf : w.flight t = some f) {t' : TabId}
    (hne : t' ≠ t) : w.flight t' = none := by
  cases hf' : w.flight t' with
  | none => rfl
  | some f' => exact absurd (h.one t' t f' f hf' hf) hne

/-- An event that changes neither what is under way nor what is stored. -/
lemma Sole.congr (h : Sole sec w) (hflight : ∀ t, w'.flight t = w.flight t)
    (hstorage : w'.storage = w.storage) (hposted : w'.posted = w.posted) (hdb : w'.db = w.db) :
    Sole sec w' := by
  have hidle : w'.idle = w.idle := by
    rw [Bool.eq_iff_iff, idle_iff, idle_iff]
    simp only [hflight]
  have hunspent : ∀ tok, Unspent sec w' tok ↔ Unspent sec w tok := by
    intro tok
    rw [Unspent, Unspent, hposted, hdb]
  refine ⟨?_, ?_, ?_, ?_, ?_, ?_⟩
  · simpa only [hflight] using h.one
  · simpa only [hflight, hstorage] using h.stored
  · simpa only [hflight, hposted] using h.posted
  · simpa only [hidle, hstorage, hunspent] using h.unposted
  · simpa only [hflight, hdb] using h.sent
  · simpa only [hflight, hunspent] using h.answered

lemma Sole.advance (h : Sole sec w) {f f' : Flight} (hf : w.flight t = some f)
    (hflight : ∀ t', w'.flight t' = if t' = t then some f' else w.flight t')
    (hsame : f'.refresh = f.refresh) (hstorage : w'.storage = w.storage)
    (hposted : w'.posted = w.posted) (hsent : f'.post ≠ .sent)
    (hanswered : ∀ s, f'.post = .answered s → Unspent sec w' s.refreshToken) : Sole sec w' := by
  refine .of_flight t f' (fun t' => ?_) ?_ ?_ (fun hpost => absurd hpost hsent) hanswered
  · rw [hflight]
    split
    · rfl
    · rename_i hne
      exact h.eq_none hf hne
  · rw [hstorage, hsame]
    exact h.stored t f hf
  · rw [hposted, hsame]
    exact h.posted t f hf

lemma Sole.settle (h : Sole sec w) {f : Flight} (hf : w.flight t = some f)
    (hflight : ∀ t', w'.flight t' = if t' = t then none else w.flight t')
    (hstored : ∀ s, w'.storage = some s → Unspent sec w' s.refresh) : Sole sec w' := by
  refine .of_idle (fun t' => ?_) hstored
  rw [hflight]
  split
  · rfl
  · rename_i hne
    exact h.eq_none hf hne

/-- The refresh that is served is not a reuse, and what it answers can be posted. -/
lemma Sole.onRefresh (h : Sole sec w) {tok fresh : String} (htab : w.tabs.get? t = some tab)
    (hflight : tab.refreshing = some ⟨tok, .sent⟩) (hfresh : Fresh sec w (.serve t fresh)) :
    Sole sec (w.onRefresh sec cfg t tab tok fresh) := by
  have hf := (flight_of_tab htab).trans hflight
  obtain ⟨hnew, hposted, -⟩ := hfresh
  have hrotation : Rotation sec w.db tok fresh (TickerWatch.refresh sec cfg w.now fresh tok w.db) :=
    refresh_rotation hnew (h.sent t tok hf)
  have hflights : ∀ t', (w.onRefresh sec cfg t tab tok fresh).flight t' =
      if t' = t then some ⟨tok, .ofResult (TickerWatch.refresh sec cfg w.now fresh tok w.db).1⟩
      else w.flight t' := fun t' => flight_putTab _ _ _ _
  have hdb : (w.onRefresh sec cfg t tab tok fresh).db =
      (TickerWatch.refresh sec cfg w.now fresh tok w.db).2 := rfl
  generalize TickerWatch.refresh sec cfg w.now fresh tok w.db = out at hrotation hflights hdb
  cases hrotation with
  | refused =>
    exact h.advance hf hflights rfl rfl rfl (by simp) (by simp)
  | @rotated session db' u expiresAt s hsession hold hstands =>
    refine h.advance hf hflights rfl rfl rfl (by simp) fun s hs => ?_
    obtain rfl : session = s := by simpa using hs
    refine ⟨?_, ?_⟩
    · rw [hsession]
      exact hposted
    · rw [hdb, hsession, unrevoked_iff, hstands, if_pos rfl]
      intro st hst
      obtain rfl := Option.some.inj hst
      rfl

/-- Refreshing one at a time stays so. -/
theorem Sole.step (h : Sole sec w) (hok : RefreshingAlone sec w e)
    (hstep : step sec cfg w e = some w') : Sole sec w' := by
  obtain ⟨⟨hfresh, hstays⟩, halone⟩ := hok
  cases step_case hstep with
  | sent reqs => exact h.congr (fun _ => rfl) rfl rfl rfl
  | responded reqs _ => exact h.congr (fun _ => rfl) rfl rfl rfl
  | thrown _ htab _ _ => exact h.congr (flight_putTab_of_same htab rfl) rfl rfl rfl
  | @started r status q tab s reqs hq hrefreshes htab hidle hstorage =>
    have hnone := (flight_of_tab htab).trans hidle
    rw [Alone, hq] at halone
    -- no other tab refreshes, so the stored token is unspent when it is sent
    have hall := halone hrefreshes hnone
    refine .of_flight q.tab ⟨s.refresh, .sent⟩ (fun t' => ?_) ⟨s, hstorage, rfl⟩
      List.mem_cons_self (fun _ => (h.unposted hall s hstorage).2) (by simp)
    refine (flight_putTab _ _ _ _).trans ?_
    rw [idle_iff.1 hall t']
  | served htab hflight => exact h.onRefresh htab hflight hfresh
  | @lost t tab f htab hflight =>
    exact h.advance ((flight_of_tab htab).trans hflight) (fun _ => flight_putTab _ _ _ _) rfl rfl rfl
      (by simp) (by simp)
  | @refreshed t tab tok session reqs htab hflight =>
    have hf := (flight_of_tab htab).trans hflight
    refine h.settle hf (fun _ => flight_putTab _ _ _ _) fun s hs => ?_
    -- the new token is stored, which nobody has presented
    obtain rfl := Option.some.inj hs
    exact h.answered t tok session hf
  | @cleared t tab tok reqs htab hflight =>
    -- the refresh failed, and nothing is left to present
    exact h.settle ((flight_of_tab htab).trans hflight) (fun _ => flight_putTab _ _ _ _)
      fun s hs => absurd hs (by simp)
  -- a logout is no part of these runs
  | signedOut _ _ => exact hstays.elim
  | logoutServed _ => exact hstays.elim
  | rendered htab => exact h.congr (flight_putTab_of_same htab rfl) rfl rfl rfl
  | advanced => exact h.congr (fun _ => rfl) rfl rfl rfl

/-- A step reuses a token exactly if it starts a refresh beside another one. -/
theorem neverReused_step_iff (h : Sole sec w) (hreused : NeverReused w) (hok : Refreshing sec w e)
    (hstep : step sec cfg w e = some w') : NeverReused w' ↔ Alone w e := by
  obtain ⟨hfresh, hstays⟩ := hok
  cases step_case hstep with
  | sent reqs => exact iff_of_true hreused trivial
  | responded _ hjoins => exact iff_of_true hreused (alone_of_joins hjoins)
  -- nothing is stored, so no tab has a refresh under way
  | thrown _ _ _ hstorage =>
    refine iff_of_true hreused (alone_of_idle (idle_iff.2 fun t' => ?_))
    cases hf : w.flight t' with
    | none => rfl
    | some f =>
      obtain ⟨s, hs, -⟩ := h.stored t' f hf
      exact absurd (hstorage.symm.trans hs) (by simp)
  -- a token is posted: for the first time, if no refresh of it is under way
  | @started r status q tab s reqs hq hrefreshes htab hidle hstorage =>
    have hnone := (flight_of_tab htab).trans hidle
    rw [Alone, hq]
    change (s.refresh :: w.posted).Nodup ∧ w.detections = [] ↔ _
    rw [List.nodup_cons]
    constructor
    · rintro ⟨⟨hnew, -⟩, -⟩ - -
      refine idle_iff.2 fun t' => ?_
      cases hf : w.flight t' with
      | none => rfl
      | some f =>
        obtain ⟨s', hs', hsame⟩ := h.stored t' f hf
        obtain rfl := Option.some.inj (hstorage.symm.trans hs')
        exact absurd (hsame ▸ h.posted t' f hf) hnew
    · intro halone
      have hall := halone hrefreshes hnone
      exact ⟨⟨(h.unposted hall s hstorage).1, hreused.1⟩, hreused.2⟩
  -- the token is live when it gets to the server, so nothing is detected
  | @served t tab tok fresh htab hflight =>
    refine iff_of_true ⟨hreused.1, ?_⟩ trivial
    have hsent := h.sent t tok ((flight_of_tab htab).trans hflight)
    change detected sec w.db tok ++ w.detections = []
    rw [detected_eq_nil_iff.2 hsent, hreused.2]
    rfl
  | lost _ _ => exact iff_of_true hreused trivial
  | refreshed _ _ _ => exact iff_of_true hreused trivial
  | cleared _ _ _ => exact iff_of_true hreused trivial
  | signedOut _ _ => exact hstays.elim
  | logoutServed _ => exact hstays.elim
  | rendered _ => exact iff_of_true hreused trivial
  | advanced => exact iff_of_true hreused trivial

lemma neverReused_of_step (hstep : step sec cfg w e = some w') (h : NeverReused w') :
    NeverReused w := by
  cases step_case hstep with
  | started _ _ _ _ _ _ => exact ⟨(List.nodup_cons.1 h.1).2, h.2⟩
  | served _ _ => exact ⟨h.1, (List.append_eq_nil_iff.1 h.2).2⟩
  | sent _ => exact h
  | responded _ _ => exact h
  | thrown _ _ _ _ => exact h
  | lost _ _ => exact h
  | refreshed _ _ _ => exact h
  | cleared _ _ _ => exact h
  | signedOut _ _ => exact h
  | logoutServed _ => exact h
  | rendered _ => exact h
  | advanced => exact h

/-- **When no token is presented twice.**  In a run of a browser that stays logged in, every token
goes to `/auth/refresh` at most once and no refresh revokes the user's sessions exactly if no tab
starts a refresh while another tab has one under way. -/
theorem never_presented_twice_iff (hstart : Quiet sec start)
    (h : (system sec cfg).RunWhere (Refreshing sec) start w) :
    NeverReused w ↔ (system sec cfg).RunWhere (RefreshingAlone sec) start w := by
  refine h.good_iff hstart.sole ?_ ?_ ?_ ?_
  · exact ⟨by rw [hstart.posted]; exact List.nodup_nil, hstart.detections⟩
  · exact fun s e t hok halone hs _ hstep => hs.step ⟨hok, halone⟩ hstep
  · exact fun s e t hok hs hreused hstep => neverReused_step_iff hs hreused hok hstep
  · exact fun s e t hstep => neverReused_of_step hstep

/-- A browser logged in as a user who is also logged in elsewhere, with two tabs. -/
def twoTabs : BrowserWorld :=
  let here := register .plain {} 0 "salt" "r0" "alice" "pw" none "" "" .empty
  let elsewhere := login .plain {} 0 "d0" "alice" "pw" here.2
  let session := here.1.toOption.map Session.stored
  { storage := session
    tabs := .ofList [(0, ⟨none, session, session⟩), (1, ⟨none, session, session⟩)]
    requests := .empty
    logouts := []
    db := elsewhere.2
    now := 0
    posted := []
    detections := []
    family := ["r0"]
    signedOut := false }

lemma quiet_twoTabs : Quiet .plain twoTabs where
  flight := idle_iff.1 (by decide +kernel)
  requests := rfl
  logouts := rfl
  stored := by
    have hall : twoTabs.storage.all (fun s => decide (Unrevoked .plain twoTabs.db s.refresh)) =
        true := by decide +kernel
    intro s hs
    rw [hs] at hall
    exact of_decide_eq_true hall
  posted := rfl
  detections := rfl
  family := by decide +kernel
  signedOut := rfl

/-- Both tabs refresh, one after the other. -/
def inTurn : List BrowserEvent :=
  [.send 0 0 (some "access"), .send 1 1 (some "access"), .respond 0 401, .serve 0 "r1", .settle 0,
    .respond 1 401, .serve 1 "r2", .settle 1]

theorem never_presented_twice_in_turn : ∃ w, (system .plain {}).execWhere (RefreshingAlone .plain)
    twoTabs inTurn = some w ∧ w.posted = ["r1", "r0"] ∧ NeverReused w := by
  have hexec : ((system .plain {}).execWhere (RefreshingAlone .plain) twoTabs inTurn).any
      (fun w => decide (w.posted = ["r1", "r0"])) = true := by decide +kernel
  obtain ⟨w, hw, hposted⟩ := Option.any_eq_true _ _ |>.1 hexec
  have hrun := System.runWhere_of_execWhere hw
  have hreused := (never_presented_twice_iff quiet_twoTabs (hrun.mono fun _ _ h => h.1)).2 hrun
  exact ⟨w, hw, of_decide_eq_true hposted, hreused⟩

/-- Both tabs refresh at once. -/
def atOnce : List BrowserEvent :=
  [.send 0 0 (some "access"), .send 1 1 (some "access"), .respond 0 401, .respond 1 401,
    .serve 0 "r1", .serve 1 "r2"]

/-- The second post presents the token the first one has exchanged, and every session of the user is
revoked: the new one of this browser, and the one elsewhere. -/
theorem token_presented_twice : ∃ start w, Quiet .plain start ∧
    (system .plain {}).RunWhere (Refreshing .plain) start w ∧ ¬ NeverReused w ∧
    w.posted = ["r0", "r0"] ∧ Unrevoked .plain start.db "d0" ∧
    ¬ Unrevoked .plain w.db "r1" ∧ ¬ Unrevoked .plain w.db "d0" := by
  have hexec : ((system .plain {}).execWhere (Refreshing .plain) twoTabs atOnce).any
      (fun w => decide (w.posted = ["r0", "r0"] ∧ ¬ Unrevoked .plain w.db "r1" ∧
        ¬ Unrevoked .plain w.db "d0")) = true := by decide +kernel
  obtain ⟨w, hw, hstate⟩ := Option.any_eq_true _ _ |>.1 hexec
  obtain ⟨hposted, hnew, helsewhere⟩ := of_decide_eq_true hstate
  refine ⟨twoTabs, w, quiet_twoTabs, System.runWhere_of_execWhere hw, fun h => ?_, hposted,
    by decide +kernel, hnew, helsewhere⟩
  have hnodup := h.1
  rw [hposted] at hnodup
  exact absurd hnodup (by decide)

/-! ## One tab -/

lemma eq_of_one_tab {t₀ : TabId} (hkeys : w.tabs.keys = [t₀]) (htab : w.tabs.get? t = some tab) :
    t = t₀ := by
  have hmem := Dict.mem_keys_iff.2 ⟨tab, htab⟩
  rwa [hkeys, List.mem_singleton] at hmem

/-- The only tab has no refresh under way, so none has. -/
lemma idle_of_one_tab {t₀ : TabId} (hkeys : w.tabs.keys = [t₀]) (htab : w.tabs.get? t = some tab)
    (hidle : tab.refreshing = none) : w.idle = true := by
  refine idle_iff.2 fun t' => ?_
  cases htab' : w.tabs.get? t' with
  | none => rw [flight, htab', Option.bind_none]
  | some tab' =>
    rw [eq_of_one_tab hkeys htab', ← eq_of_one_tab hkeys htab, flight_of_tab htab, hidle]

lemma alone_of_one_tab {t₀ : TabId} (hkeys : w.tabs.keys = [t₀])
    (hstep : step sec cfg w e = some w') : Alone w e := by
  cases step_case hstep with
  | responded _ hjoins => exact alone_of_joins hjoins
  | thrown _ htab hidle _ => exact alone_of_idle (idle_of_one_tab hkeys htab hidle)
  | started _ _ _ htab hidle _ => exact alone_of_idle (idle_of_one_tab hkeys htab hidle)
  | sent _ => trivial
  | served _ _ => trivial
  | lost _ _ => trivial
  | refreshed _ _ _ => trivial
  | cleared _ _ _ => trivial
  | signedOut _ _ => trivial
  | logoutServed _ => trivial
  | rendered _ => trivial
  | advanced => trivial

/-- **One tab never reuses a token.**  However many requests it has and whatever they answer. -/
theorem never_presented_twice_one_tab (hstart : Quiet sec start) (htabs : start.tabs.keys = [t])
    (h : (system sec cfg).RunWhere (Refreshing sec) start w) : NeverReused w := by
  have hall : w.tabs.keys = [t] ∧ (system sec cfg).RunWhere (RefreshingAlone sec) start w :=
    h.invariant (I := fun w => w.tabs.keys = [t] ∧
        (system sec cfg).RunWhere (RefreshingAlone sec) start w)
      ⟨htabs, System.RunWhere.refl _⟩ fun w e w' hok ⟨hkeys, hrun⟩ hstep =>
        ⟨(keys_step hstep).trans hkeys, hrun.tail ⟨hok, alone_of_one_tab hkeys hstep⟩ hstep⟩
  exact (never_presented_twice_iff hstart h).2 hall.2

end BrowserWorld

end TickerWatch
