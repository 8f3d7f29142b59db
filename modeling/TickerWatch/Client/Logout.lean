import TickerWatch.Client.RefreshReuse

/-!
# What logout ends

A browser with one tab, logged in, next to the other logins of its user.  `family` are the tokens
that descend from its login: one of them is unrevoked at a time (`Chain`).  While the user is logged
in, the client holds that token or is about to (`SignedIn`).  When logout is called with the token
that is unrevoked, and no refresh reaches the server afterwards, then every unrevoked token of the
family is in a post to `/auth/logout` (`SignedOut`), and once these are served the session has ended
(`logout_ends_session`).

Otherwise it has not: the refresh that overtakes the logout stores a new session and shows it, and
the refresh that the logout overtakes revokes every session of the user
(`logout_during_refresh`).
-/

namespace TickerWatch

namespace BrowserWorld

/-- The client has the session, in the storage, in its state or behind its buttons. -/
def Holds (w : BrowserWorld) (s : StoredSession) : Prop :=
  w.storage = some s ∨
    ∃ t tab, w.tabs.get? t = some tab ∧ (tab.session = some s ∨ tab.rendered = some s)

/-- A logout names a token that is not exchanged yet, or it is not the first one; and after it no
refresh reaches the server, but with a token that is unknown there or has expired. -/
def Settling (sec : Crypto) (w : BrowserWorld) : BrowserEvent → Prop
  | .logout t => w.signedOut = true ∨
      ((w.tabs.get? t).bind Tab.rendered).all (fun s => decide (Unrevoked sec w.db s.refresh)) =
        true
  | .serve t _ => w.signedOut = false ∨
      (w.flight t).all (fun f => (standing sec w.db f.refresh).all fun s =>
        !s.revoked && decide (s.expiresAt ≤ w.now)) = true
  | _ => True

/-- Such a step, in which token values are fresh. -/
def FreshSettling (sec : Crypto) (w : BrowserWorld) (e : BrowserEvent) : Prop :=
  Fresh sec w e ∧ Settling sec w e

instance (sec : Crypto) (w : BrowserWorld) (e : BrowserEvent) : Decidable (Settling sec w e) :=
  match e with
  | .logout _ | .serve _ _ => inferInstanceAs (Decidable (_ ∨ _))
  | .send _ _ _ | .respond _ _ | .lose _ | .settle _ | .serveLogout _ | .render _ | .advance _ =>
    isTrue trivial

instance (sec : Crypto) (w : BrowserWorld) (e : BrowserEvent) :
    Decidable (FreshSettling sec w e) := inferInstanceAs (Decidable (_ ∧ _))

/-- A browser logged in with one tab, and nothing under way. -/
structure LoggedIn (sec : Crypto) (t : TabId) (w : BrowserWorld) : Prop where
  quiet : Quiet sec w
  tabs : w.tabs.keys = [t]
  stored : ∃ s, w.storage = some s ∧ (standing sec w.db s.refresh).isSome = true ∧
    ∀ tab, w.tabs.get? t = some tab → tab.session = some s ∧ tab.rendered = some s

/-- Nothing is under way, and the screen shows the state. -/
structure Settled (w : BrowserWorld) : Prop where
  flight : ∀ t, w.flight t = none
  requests : ∀ r q, w.requests.get? r = some q → q.pc = .done
  logouts : w.logouts = []
  rendered : ∀ t tab, w.tabs.get? t = some tab → tab.rendered = tab.session

/-- The session that `start` was logged in with has ended, and no other one. -/
structure LoggedOut (sec : Crypto) (start w : BrowserWorld) : Prop where
  /-- No session is stored. -/
  storage : w.storage = none
  /-- Every tab shows the login form. -/
  form : ∀ t tab, w.tabs.get? t = some tab → tab.session = none ∧ tab.rendered = none
  /-- Every token that descends from the login is revoked. -/
  ended : ∀ tok ∈ w.family, ∀ s, standing sec w.db tok = some s → s.revoked = true
  /-- Every other token stands as it did. -/
  others : ∀ tok s, tok ∉ start.family → standing sec start.db tok = some s →
    standing sec w.db tok = some s

variable {sec : Crypto} {cfg : AuthSettings} {start w w' : BrowserWorld} {e : BrowserEvent}
  {t t₀ : TabId} {tab : Tab} {tok : String}

/-! ## What the client and the server keep -/

lemma Holds.of_tab {s : StoredSession} (htab : w.tabs.get? t = some tab)
    (h : tab.session = some s ∨ tab.rendered = some s) : w.Holds s := Or.inr ⟨t, tab, htab, h⟩

lemma Holds.of_set {tab' : Tab} {s : StoredSession} (h : w'.Holds s)
    (htabs : w'.tabs = w.tabs.set t tab') (hstorage : w'.storage = w.storage ∨ w'.storage = none) :
    w.Holds s ∨ tab'.session = some s ∨ tab'.rendered = some s := by
  rcases h with h | ⟨t', tab, htab, h⟩
  · rcases hstorage with hsame | hnone
    · exact Or.inl (Or.inl (hsame ▸ h))
    · exact absurd (hnone.symm.trans h) (by simp)
  · rw [htabs, Dict.get?_set] at htab
    split at htab
    · obtain rfl := Option.some.inj htab
      exact Or.inr h
    · exact Or.inl (Or.inr ⟨t', tab, htab, h⟩)

/-- What the client has was there before, or it is what the refresh that ends here was answered. -/
lemma holds_step (hstep : step sec cfg w e = some w') {s : StoredSession} (h : w'.Holds s) :
    w.Holds s ∨ ∃ t tok session, w.flight t = some ⟨tok, .answered session⟩ ∧
      s = session.stored ∧ w'.flight t = none := by
  cases step_case hstep with
  | sent _ => exact Or.inl h
  | responded _ _ => exact Or.inl h
  | thrown _ htab _ _ =>
    rcases h.of_set (w := w) rfl (Or.inl rfl) with h | h | h
    · exact Or.inl h
    · exact absurd h (by simp)
    · exact Or.inl (.of_tab htab (Or.inr h))
  | started _ _ _ htab _ _ =>
    rcases h.of_set (w := w) rfl (Or.inl rfl) with h | h
    · exact Or.inl h
    · exact Or.inl (.of_tab htab h)
  | served htab _ =>
    rcases h.of_set (w := w) rfl (Or.inl rfl) with h | h
    · exact Or.inl h
    · exact Or.inl (.of_tab htab h)
  | lost htab _ =>
    rcases h.of_set (w := w) rfl (Or.inl rfl) with h | h
    · exact Or.inl h
    · exact Or.inl (.of_tab htab h)
  -- only here does the client get a session it did not have
  | @refreshed t tab tok session reqs htab hflight =>
    have hf := (flight_of_tab htab).trans hflight
    have hend := (flight_putTab w t
      { tab with refreshing := none, session := some session.stored } t).trans (if_pos rfl)
    rcases h with h | ⟨t', tab', htab', h⟩
    · exact Or.inr ⟨t, tok, session, hf, (Option.some.inj h).symm, hend⟩
    · change (w.tabs.set t _).get? t' = some tab' at htab'
      rw [Dict.get?_set] at htab'
      split at htab'
      · obtain rfl := Option.some.inj htab'
        rcases h with h | h
        · exact Or.inr ⟨t, tok, session, hf, (Option.some.inj h).symm, hend⟩
        · exact Or.inl (.of_tab htab (Or.inr h))
      · exact Or.inl (.of_tab htab' h)
  | cleared _ htab _ =>
    rcases h.of_set (w := w) rfl (Or.inr rfl) with h | h | h
    · exact Or.inl h
    · exact absurd h (by simp)
    · exact Or.inl (.of_tab htab (Or.inr h))
  | signedOut htab _ =>
    rcases h.of_set (w := w) rfl (Or.inr rfl) with h | h | h
    · exact Or.inl h
    · exact absurd h (by simp)
    · exact Or.inl (.of_tab htab (Or.inr h))
  | logoutServed _ => exact Or.inl h
  | rendered htab =>
    rcases h.of_set (w := w) rfl (Or.inl rfl) with h | h | h
    · exact Or.inl h
    · exact Or.inl (.of_tab htab (Or.inl h))
    · exact Or.inl (.of_tab htab (Or.inl h))
  | advanced => exact Or.inl h

/-- A refresh under way was under way before, or it was lost, or its tab starts it with the stored
token, or the server executes it. -/
lemma flight_step (hstep : step sec cfg w e = some w') {f : Flight} (h : w'.flight t = some f) :
    w.flight t = some f ∨
      (f.post = .failed ∧ ∃ f₀, w.flight t = some f₀ ∧ f₀.refresh = f.refresh) ∨
      (f.post = .sent ∧ ∃ s, w.storage = some s ∧ s.refresh = f.refresh) ∨
      ∃ tok fresh tab, e = .serve t fresh ∧ w.flight t = some ⟨tok, .sent⟩ ∧
        w' = w.onRefresh sec cfg t tab tok fresh := by
  -- the refresh of a tab changes when that tab is put
  have hput : ∀ {t' tab'}, (w.putTab t' tab').flight t = some f →
      (t = t' ∧ tab'.refreshing = some f) ∨ w.flight t = some f := by
    intro t' tab' hf
    rw [flight_putTab] at hf
    split at hf
    · exact Or.inl ⟨‹_›, hf⟩
    · exact Or.inr hf
  cases step_case hstep with
  | sent _ => exact Or.inl h
  | responded _ _ => exact Or.inl h
  | thrown _ htab hidle _ =>
    rcases hput h with ⟨-, hf⟩ | hf
    · exact absurd (hidle.symm.trans hf) (by simp)
    · exact Or.inl hf
  -- a refresh starts with the token that is stored
  | started _ _ _ _ _ hstorage =>
    rcases hput h with ⟨-, hf⟩ | hf
    · obtain rfl := Option.some.inj hf
      exact Or.inr (Or.inr (Or.inl ⟨rfl, _, hstorage, rfl⟩))
    · exact Or.inl hf
  -- it is answered by the server
  | @served t' tab tok fresh htab hflight =>
    rcases hput h with ⟨rfl, -⟩ | hf
    · exact Or.inr (Or.inr (Or.inr
        ⟨tok, fresh, tab, rfl, (flight_of_tab htab).trans hflight, rfl⟩))
    · exact Or.inl hf
  -- or its answer is lost, and the token may have been used all the same
  | lost htab hflight =>
    rcases hput h with ⟨rfl, hf⟩ | hf
    · obtain rfl := Option.some.inj hf
      exact Or.inr (Or.inl ⟨rfl, _, (flight_of_tab htab).trans hflight, rfl⟩)
    · exact Or.inl hf
  | refreshed _ _ _ =>
    rcases hput h with ⟨-, hf⟩ | hf
    · exact absurd hf (by simp)
    · exact Or.inl hf
  | cleared _ _ _ =>
    rcases hput h with ⟨-, hf⟩ | hf
    · exact absurd hf (by simp)
    · exact Or.inl hf
  | signedOut htab _ =>
    rcases hput h with ⟨rfl, hf⟩ | hf
    · exact Or.inl ((flight_of_tab htab).trans hf)
    · exact Or.inl hf
  | logoutServed _ => exact Or.inl h
  | rendered htab =>
    rcases hput h with ⟨rfl, hf⟩ | hf
    · exact Or.inl ((flight_of_tab htab).trans hf)
    · exact Or.inl hf
  | advanced => exact Or.inl h

/-- The tokens the server knows change only when it executes a refresh or a logout. -/
lemma server_step (hstep : step sec cfg w e = some w') :
    (w'.db = w.db ∧ w'.family = w.family) ∨
      (∃ t tok fresh tab, e = .serve t fresh ∧ w.flight t = some ⟨tok, .sent⟩ ∧
        w' = w.onRefresh sec cfg t tab tok fresh) ∨
      ∃ tok, e = .serveLogout tok ∧ tok ∈ w.logouts ∧ w'.family = w.family ∧
        w'.db = TickerWatch.logout sec w.now tok w.db := by
  cases step_case hstep with
  | @served t tab tok fresh htab hflight =>
    exact Or.inr (Or.inl ⟨t, tok, fresh, tab, rfl, (flight_of_tab htab).trans hflight, rfl⟩)
  | @logoutServed tok hmem => exact Or.inr (Or.inr ⟨tok, rfl, hmem, rfl, rfl⟩)
  | sent _ => exact Or.inl ⟨rfl, rfl⟩
  | responded _ _ => exact Or.inl ⟨rfl, rfl⟩
  | thrown _ _ _ _ => exact Or.inl ⟨rfl, rfl⟩
  | started _ _ _ _ _ _ => exact Or.inl ⟨rfl, rfl⟩
  | lost _ _ => exact Or.inl ⟨rfl, rfl⟩
  | refreshed _ _ _ => exact Or.inl ⟨rfl, rfl⟩
  | cleared _ _ _ => exact Or.inl ⟨rfl, rfl⟩
  | signedOut _ _ => exact Or.inl ⟨rfl, rfl⟩
  | rendered _ => exact Or.inl ⟨rfl, rfl⟩
  | advanced => exact Or.inl ⟨rfl, rfl⟩

/-- What the server executes of a refresh whose token is not revoked, and what the tab hears: a
failure that changed nothing, or the new session after the old token was exchanged for it. -/
inductive Served (sec : Crypto) (w : BrowserWorld) (t : TabId) (tok fresh : String)
    (w' : BrowserWorld) : Prop
  | refused (hdb : w'.db = w.db) (hfamily : w'.family = w.family)
    (hflight : w'.flight t = some ⟨tok, .failed⟩)
  | rotated {session : Session} {s : Standing} (hsession : session.refreshToken = fresh)
    (hflight : w'.flight t = some ⟨tok, .answered session⟩)
    (hfamily : w'.family = if tok ∈ w.family then fresh :: w.family else w.family)
    (hold : standing sec w.db tok = some s) (hlive : w.now < s.expiresAt)
    (hfresh : Unrevoked sec w'.db fresh) (hknown : (standing sec w'.db fresh).isSome = true)
    (hdb : ∀ x, x ≠ fresh → standing sec w'.db x =
      (standing sec w.db x).map fun s => { s with revoked := s.revoked || decide (tok = x) })

lemma onRefresh_served {fresh : String} (hfresh : Fresh sec w (.serve t fresh))
    (h : Unrevoked sec w.db tok) :
    Served sec w t tok fresh (w.onRefresh sec cfg t tab tok fresh) := by
  have hrotation : Rotation sec w.db tok fresh (TickerWatch.refresh sec cfg w.now fresh tok w.db) :=
    refresh_rotation hfresh.1 h
  have hisOk : (TickerWatch.refresh sec cfg w.now fresh tok w.db).1.isOk = true ↔
      ∃ s, standing sec w.db tok = some s ∧ s.revoked = false ∧ w.now < s.expiresAt :=
    refresh_isOk_iff (standing_eq_none_iff.1 hfresh.1)
  have hflight : (w.onRefresh sec cfg t tab tok fresh).flight t =
      some ⟨tok, .ofResult (TickerWatch.refresh sec cfg w.now fresh tok w.db).1⟩ :=
    (flight_putTab _ _ _ _).trans (if_pos rfl)
  have hdb : (w.onRefresh sec cfg t tab tok fresh).db =
      (TickerWatch.refresh sec cfg w.now fresh tok w.db).2 := rfl
  have hfamily : (w.onRefresh sec cfg t tab tok fresh).family =
      if (TickerWatch.refresh sec cfg w.now fresh tok w.db).1.toOption.isSome = true ∧
        tok ∈ w.family then fresh :: w.family else w.family := rfl
  generalize TickerWatch.refresh sec cfg w.now fresh tok w.db = out
    at hrotation hisOk hflight hdb hfamily
  cases hrotation with
  -- the token has expired: nothing is issued
  | refused =>
    refine .refused hdb ?_ hflight
    rw [hfamily, if_neg]
    simp [Except.toOption]
  | @rotated session db' u expiresAt s hsession hold hstands =>
    -- the new token stands as it was issued, the other ones as the exchange left them
    have hself : standing sec (w.onRefresh sec cfg t tab tok fresh).db fresh =
        some ⟨u, expiresAt, false⟩ := by rw [hdb, hstands, if_pos rfl]
    obtain ⟨s', hs', -, hlive⟩ := hisOk.1 rfl
    obtain rfl := Option.some.inj (hold.symm.trans hs')
    refine .rotated hsession hflight ?_ hold hlive ?_ ?_ fun x hx => ?_
    · rw [hfamily]
      simp [Except.toOption]
    · rw [unrevoked_iff, hself]
      intro s hs
      obtain rfl := Option.some.inj hs
      rfl
    · rw [hself]
      rfl
    · rw [hdb, hstands, if_neg (Ne.symm hx)]

/-! ## The tokens of a login -/

/-- The tokens that descend from the login by refreshes.  One of them at most is unrevoked, so
whoever revokes it ends the login, and the other logins of the user are not touched. -/
structure Chain (sec : Crypto) (start w : BrowserWorld) : Prop where
  known : ∀ tok ∈ w.family, (standing sec w.db tok).isSome = true
  /-- One of them is unrevoked at a time. -/
  one : ∀ x ∈ w.family, ∀ y ∈ w.family, Unrevoked sec w.db x → Unrevoked sec w.db y → x = y
  /-- None is a token of another login. -/
  issued : ∀ tok ∈ w.family, tok ∈ start.family ∨ standing sec start.db tok = none
  /-- The other logins are left alone. -/
  others : ∀ tok s, tok ∉ start.family → standing sec start.db tok = some s →
    standing sec w.db tok = some s

/-- The browser and the posts under way have no other token than these. -/
structure Confined (w : BrowserWorld) : Prop where
  presented : ∀ t f, w.flight t = some f → f.refresh ∈ w.family
  answered : ∀ t tok s, w.flight t = some ⟨tok, .answered s⟩ → s.refreshToken ∈ w.family
  held : ∀ s, w.Holds s → s.refresh ∈ w.family
  retired : ∀ tok ∈ w.logouts, tok ∈ w.family

/-- A refresh that reaches the server presents a token that is not revoked. -/
def Live (sec : Crypto) (w : BrowserWorld) (e : BrowserEvent) : Prop :=
  ∀ t tok fresh, e = .serve t fresh → w.flight t = some ⟨tok, .sent⟩ → Unrevoked sec w.db tok

lemma Chain.congr (h : Chain sec start w) (hdb : w'.db = w.db) (hfamily : w'.family = w.family) :
    Chain sec start w' := by
  refine ⟨?_, ?_, ?_, ?_⟩
  · simpa only [hdb, hfamily] using h.known
  · simpa only [hdb, hfamily] using h.one
  · simpa only [hfamily] using h.issued
  · simpa only [hdb] using h.others

/-- A token of another login does not descend from this one. -/
lemma Chain.notMem (h : Chain sec start w) {s : Standing} (hout : tok ∉ start.family)
    (hs : standing sec start.db tok = some s) : tok ∉ w.family := by
  intro hmem
  rcases h.issued tok hmem with hin | hnone
  · exact hout hin
  · exact absurd (hnone.symm.trans hs) (by simp)

/-- What is unrevoked when `tok` has been revoked was unrevoked before, and it is another token. -/
lemma unrevoked_of_revoke {db db' : AuthDb} {x : String}
    (hknown : (standing sec db x).isSome = true)
    (hdb : standing sec db' x =
      (standing sec db x).map fun s => { s with revoked := s.revoked || decide (tok = x) })
    (h : Unrevoked sec db' x) : Unrevoked sec db x ∧ tok ≠ x := by
  obtain ⟨s, hs⟩ := Option.isSome_iff_exists.1 hknown
  rw [hs, Option.map_some] at hdb
  have hrevoked := unrevoked_iff.1 h _ hdb
  obtain ⟨hlive, hne⟩ := Bool.or_eq_false_iff.1 hrevoked
  refine ⟨unrevoked_iff.2 fun s' hs' => ?_, of_decide_eq_false hne⟩
  obtain rfl := Option.some.inj (hs.symm.trans hs')
  exact hlive

lemma standing_of_ne {db db' : AuthDb} {x : String} (hne : tok ≠ x)
    (hdb : standing sec db' x =
      (standing sec db x).map fun s => { s with revoked := s.revoked || decide (tok = x) }) :
    standing sec db' x = standing sec db x := by
  rw [hdb]
  simp [hne]

lemma Chain.retire (h : Chain sec start w) (hmem : tok ∈ w.family) (hfamily : w'.family = w.family)
    (hdb : ∀ x, standing sec w'.db x =
      (standing sec w.db x).map fun s => { s with revoked := s.revoked || decide (tok = x) }) :
    Chain sec start w' := by
  refine ⟨fun x hx => ?_, fun x hx y hy hlive hlive' => ?_, fun x hx => ?_, fun x s hout hs => ?_⟩
  · rw [hdb, Option.isSome_map]
    exact h.known x (hfamily ▸ hx)
  · rw [hfamily] at hx hy
    exact h.one x hx y hy (unrevoked_of_revoke (h.known x hx) (hdb x) hlive).1
      (unrevoked_of_revoke (h.known y hy) (hdb y) hlive').1
  · exact h.issued x (hfamily ▸ hx)
  · have hne : tok ≠ x := fun heq => h.notMem hout hs (heq ▸ hmem)
    rw [standing_of_ne hne (hdb x)]
    exact h.others x s hout hs

/-- The unrevoked token of the family is exchanged. -/
lemma Chain.extend {fresh : String} (h : Chain sec start w) (hmem : tok ∈ w.family)
    (hold : Unrevoked sec w.db tok) (hnew : standing sec w.db fresh = none)
    (hfamily : w'.family = fresh :: w.family) (hknown : (standing sec w'.db fresh).isSome = true)
    (hdb : ∀ x, x ≠ fresh → standing sec w'.db x =
      (standing sec w.db x).map fun s => { s with revoked := s.revoked || decide (tok = x) }) :
    Chain sec start w' := by
  have hne : ∀ x, (standing sec w.db x).isSome = true → x ≠ fresh := by
    rintro x hx rfl
    rw [hnew] at hx
    exact absurd hx (by simp)
  -- the exchange revokes the one live token of the family
  have hrevoked : ∀ x ∈ w.family, ¬ Unrevoked sec w'.db x := by
    intro x hx hlive
    obtain ⟨hlive', htok⟩ :=
      unrevoked_of_revoke (h.known x hx) (hdb x (hne x (h.known x hx))) hlive
    exact htok (h.one tok hmem x hx hold hlive')
  -- so the new one is the only live one
  have hfresh : ∀ x ∈ w'.family, Unrevoked sec w'.db x → x = fresh := by
    intro x hx hlive
    rw [hfamily] at hx
    rcases List.mem_cons.1 hx with rfl | hx
    · rfl
    · exact absurd hlive (hrevoked x hx)
  refine ⟨fun x hx => ?_, fun x hx y hy hlive hlive' => ?_, fun x hx => ?_, fun x s hout hs => ?_⟩
  · rw [hfamily] at hx
    rcases List.mem_cons.1 hx with rfl | hx
    · exact hknown
    · rw [hdb x (hne x (h.known x hx)), Option.isSome_map]
      exact h.known x hx
  · exact (hfresh x hx hlive).trans (hfresh y hy hlive').symm
  · rw [hfamily] at hx
    rcases List.mem_cons.1 hx with rfl | hx
    · by_cases hin : x ∈ start.family
      · exact Or.inl hin
      · refine Or.inr (Option.eq_none_iff_forall_ne_some.2 fun s hs => ?_)
        exact absurd (hnew.symm.trans (h.others x s hin hs)) (by simp)
    · exact h.issued x hx
  · have hstands := h.others x s hout hs
    have htok : tok ≠ x := fun heq => h.notMem hout hs (heq ▸ hmem)
    rw [standing_of_ne htok (hdb x (hne x (by rw [hstands]; rfl)))]
    exact hstands

/-- The family keeps its one unrevoked token. -/
lemma Chain.step (h : Chain sec start w) (hc : Confined w) (hfresh : Fresh sec w e)
    (hlive : Live sec w e) (hstep : step sec cfg w e = some w') : Chain sec start w' := by
  rcases server_step hstep with ⟨hdb, hfamily⟩ | ⟨t, tok, fresh, tab, rfl, hflight, rfl⟩ |
    ⟨tok, rfl, hmem, hfamily, hdb⟩
  · exact h.congr hdb hfamily
  · have htok := hlive t tok fresh rfl hflight
    have hmem := hc.presented t _ hflight
    have hserved : Served sec w t tok fresh (w.onRefresh sec cfg t tab tok fresh) :=
      onRefresh_served hfresh htok
    cases hserved with
    | refused hdb hfamily _ => exact h.congr hdb hfamily
    | rotated _ _ hfamily _ _ _ hknown hdb =>
      rw [if_pos hmem] at hfamily
      exact h.extend hmem htok hfresh.1 hfamily hknown hdb
  · refine h.retire (hc.retired tok hmem) hfamily fun x => ?_
    rw [hdb]
    exact standing_logout sec w.now tok w.db x

/-- An answer that is on its way was on its way before, or the server gives it here. -/
lemma answered_step {session : Session} (hfresh : Fresh sec w e) (hlive : Live sec w e)
    (hstep : step sec cfg w e = some w') (h : w'.flight t = some ⟨tok, .answered session⟩) :
    w.flight t = some ⟨tok, .answered session⟩ ∨
      (e = .serve t session.refreshToken ∧ w.flight t = some ⟨tok, .sent⟩ ∧
        w'.family = if tok ∈ w.family then session.refreshToken :: w.family else w.family) := by
  rcases flight_step hstep h with hf | ⟨hfailed, -⟩ | ⟨hsent, -⟩ |
    ⟨tok', fresh, tab, rfl, hsent, rfl⟩
  · exact Or.inl hf
  · exact absurd hfailed (by simp)
  · exact absurd hsent (by simp)
  · have hserved : Served sec w t tok' fresh (w.onRefresh sec cfg t tab tok' fresh) :=
      onRefresh_served hfresh (hlive t tok' fresh rfl hsent)
    cases hserved with
    | refused _ _ hflight => exact absurd (hflight.symm.trans h) (by simp)
    | @rotated session' _ hsession hflight hfamily _ _ _ _ _ =>
      obtain ⟨rfl, rfl⟩ : tok' = tok ∧ session' = session := by simpa using hflight.symm.trans h
      subst hsession
      exact Or.inr ⟨rfl, hsent, hfamily⟩

lemma family_step (h : tok ∈ w.family) (hstep : step sec cfg w e = some w') : tok ∈ w'.family := by
  rcases server_step hstep with ⟨-, hfamily⟩ | ⟨t, refreshed, fresh, tab, -, -, rfl⟩ |
    ⟨_, -, -, hfamily, -⟩
  · exact hfamily ▸ h
  · rw [onRefresh]
    dsimp only
    split
    · exact List.mem_cons_of_mem _ h
    · exact h
  · exact hfamily ▸ h

/-- A post to `/auth/logout` was under way before, or it names what a button has closed over. -/
lemma logouts_step (hstep : step sec cfg w e = some w') (h : tok ∈ w'.logouts) :
    tok ∈ w.logouts ∨ ∃ s, w.Holds s ∧ s.refresh = tok := by
  cases step_case hstep with
  | signedOut htab hrendered =>
    rcases List.mem_cons.1 h with rfl | h
    · exact Or.inr ⟨_, .of_tab htab (Or.inr hrendered), rfl⟩
    · exact Or.inl h
  | logoutServed _ => exact Or.inl (List.mem_of_mem_erase h)
  | sent _ => exact Or.inl h
  | responded _ _ => exact Or.inl h
  | thrown _ _ _ _ => exact Or.inl h
  | started _ _ _ _ _ _ => exact Or.inl h
  | served _ _ => exact Or.inl h
  | lost _ _ => exact Or.inl h
  | refreshed _ _ _ => exact Or.inl h
  | cleared _ _ _ => exact Or.inl h
  | rendered _ => exact Or.inl h
  | advanced => exact Or.inl h

lemma Confined.step (h : Confined w) (hfresh : Fresh sec w e) (hlive : Live sec w e)
    (hstep : step sec cfg w e = some w') : Confined w' := by
  have hgrow : ∀ tok ∈ w.family, tok ∈ w'.family := fun tok hmem => family_step hmem hstep
  refine ⟨fun t f hf => ?_, fun t tok s hf => ?_, fun s hs => ?_, fun tok htok => ?_⟩
  · rcases flight_step hstep hf with hf | ⟨-, f₀, hf, hsame⟩ | ⟨-, s, hs, hsame⟩ |
      ⟨tok, fresh, tab, -, hsent, rfl⟩
    · exact hgrow _ (h.presented t f hf)
    · exact hsame ▸ hgrow _ (h.presented t f₀ hf)
    · exact hsame ▸ hgrow _ (h.held s (Or.inl hs))
    · have hsame : f = ⟨tok, _⟩ := Option.some.inj (hf.symm.trans
        ((flight_putTab _ _ _ _).trans (if_pos rfl)))
      rw [hsame]
      exact hgrow tok (h.presented t ⟨tok, .sent⟩ hsent)
  · rcases answered_step hfresh hlive hstep hf with hf | ⟨-, hsent, hfamily⟩
    · exact hgrow _ (h.answered t tok s hf)
    · rw [hfamily, if_pos (h.presented t _ hsent)]
      exact List.mem_cons_self
  · rcases holds_step hstep hs with hs | ⟨t, tok, session, hf, rfl, -⟩
    · exact hgrow _ (h.held s hs)
    · exact hgrow _ (h.answered t tok session hf)
  · rcases logouts_step hstep htok with htok | ⟨s, hs, rfl⟩
    · exact hgrow _ (h.retired tok htok)
    · exact hgrow _ (h.held s hs)

/-! ## Logged in -/

/-- Nobody has logged out, and what is answered is new to the client. -/
structure SignedIn (sec : Crypto) (w : BrowserWorld) : Prop where
  signedOut : w.signedOut = false
  sole : Sole sec w
  logouts : w.logouts = []
  unheld : ∀ t tok session, w.flight t = some ⟨tok, .answered session⟩ →
    ∀ s, w.Holds s → s.refresh ≠ session.refreshToken

lemma logouts_of_staysIn (hstays : StaysIn e) (hstep : step sec cfg w e = some w') :
    w'.signedOut = w.signedOut ∧ w'.logouts = w.logouts := by
  cases step_case hstep with
  | signedOut _ _ => exact hstays.elim
  | logoutServed _ => exact hstays.elim
  | sent _ => exact ⟨rfl, rfl⟩
  | responded _ _ => exact ⟨rfl, rfl⟩
  | thrown _ _ _ _ => exact ⟨rfl, rfl⟩
  | started _ _ _ _ _ _ => exact ⟨rfl, rfl⟩
  | served _ _ => exact ⟨rfl, rfl⟩
  | lost _ _ => exact ⟨rfl, rfl⟩
  | refreshed _ _ _ => exact ⟨rfl, rfl⟩
  | cleared _ _ _ => exact ⟨rfl, rfl⟩
  | rendered _ => exact ⟨rfl, rfl⟩
  | advanced => exact ⟨rfl, rfl⟩

lemma SignedIn.stay (h : SignedIn sec w) (hc : Confined w) (hkeys : w.tabs.keys = [t₀])
    (hfresh : Fresh sec w e) (hstays : StaysIn e) (hstep : step sec cfg w e = some w') :
    SignedIn sec w' := by
  obtain ⟨hout, hlogouts⟩ := logouts_of_staysIn hstays hstep
  refine ⟨hout.trans h.signedOut,
    h.sole.step ⟨⟨hfresh, hstays⟩, alone_of_one_tab hkeys hstep⟩ hstep,
    hlogouts.trans h.logouts, fun t tok session hf s hs => ?_⟩
  have hlive : Live sec w e := fun t tok _ _ hflight => h.sole.sent t tok hflight
  rcases answered_step hfresh hlive hstep hf with hf' | ⟨rfl, hsent, -⟩
  · rcases holds_step hstep hs with hs | ⟨t', tok', session', hf'', -, hend⟩
    · exact h.unheld t tok session hf' s hs
    · -- the refresh whose answer the client takes over was the only one
      obtain rfl := h.sole.one t t' _ _ hf' hf''
      exact absurd (hend.symm.trans hf) (by simp)
  · intro heq
    rcases holds_step hstep hs with hs | ⟨t', _, _, hf', -, -⟩
    · exact hfresh.2.2 (heq ▸ hc.held s hs)
    · obtain rfl := h.sole.one t t' _ _ hsent hf'
      exact absurd (hsent.symm.trans hf') (by simp)

/-! ## Logged out -/

/-- The user has logged out: what is not revoked yet is about to be. -/
structure SignedOut (sec : Crypto) (w : BrowserWorld) : Prop where
  signedOut : w.signedOut = true
  storage : w.storage = none
  form : ∀ t tab, w.tabs.get? t = some tab → tab.session = none
  ending : ∀ tok ∈ w.family, Unrevoked sec w.db tok → tok ∈ w.logouts
  unanswered : ∀ t tok session, w.flight t ≠ some ⟨tok, .answered session⟩

/-- The tabs show the login form still when one of them changes and shows it. -/
lemma form_set {tab' : Tab} (h : ∀ t tab, w.tabs.get? t = some tab → tab.session = none)
    (hform : tab'.session = none) :
    ∀ t' tab, (w.tabs.set t tab').get? t' = some tab → tab.session = none := by
  intro t' tab htab
  rw [Dict.get?_set] at htab
  split at htab
  · obtain rfl := Option.some.inj htab
    exact hform
  · exact h t' tab htab

/-- Logout, with the token that is not exchanged yet. -/
lemma SignedIn.logout (h : SignedIn sec w) (hc : Confined w) (hchain : Chain sec start w)
    (hkeys : w.tabs.keys = [t₀]) (hsettling : Settling sec w (.logout t))
    (hstep : step sec cfg w (.logout t) = some w') : SignedOut sec w' := by
  cases step_case hstep with
  | @signedOut t tab s htab hrendered =>
    have hheld : w.Holds s := .of_tab htab (Or.inr hrendered)
    -- the token that is sent is live, since the page that is rendered is up to date
    have hlive : Unrevoked sec w.db s.refresh := by
      rcases hsettling with hout | hall
      · exact absurd (h.signedOut.symm.trans hout) (by simp)
      · rw [htab, Option.bind_some, hrendered] at hall
        exact of_decide_eq_true hall
    -- so it is the only live one of the family, and to end it ends them all
    have honly : ∀ tok ∈ w.family, Unrevoked sec w.db tok → tok = s.refresh :=
      fun tok hmem hunrevoked => hchain.one tok hmem s.refresh (hc.held s hheld) hunrevoked hlive
    refine ⟨rfl, rfl, fun t' tab' htab' => ?_, fun tok hmem hunrevoked => ?_,
      fun t' tok session hf => ?_⟩
    · change (w.tabs.set t _).get? t' = some tab' at htab'
      rw [Dict.get?_set] at htab'
      split at htab'
      · obtain rfl := Option.some.inj htab'
        rfl
      · rename_i hne
        exact absurd ((eq_of_one_tab hkeys htab').trans (eq_of_one_tab hkeys htab).symm) hne
    · rw [honly tok hmem hunrevoked]
      exact List.mem_cons_self
    -- an answer that has not been taken in would be of another live token
    · have hf' : w.flight t' = some ⟨tok, .answered session⟩ := by
        rcases flight_step hstep hf with hf | ⟨hfailed, -⟩ | ⟨hsent, -⟩ | ⟨_, _, _, he, -⟩
        · exact hf
        · exact absurd hfailed (by simp)
        · exact absurd hsent (by simp)
        · exact absurd he (by simp)
      have hnew := (h.sole.answered t' tok session hf').2
      exact h.unheld t' tok session hf' s hheld
        (honly _ (hc.answered t' tok session hf') hnew).symm

/-- After logout a refresh reaches the server only with a token that has expired, if it has it. -/
lemma Settling.expired {fresh : String} (h : Settling sec w (.serve t fresh))
    (hout : w.signedOut = true) (hflight : w.flight t = some ⟨tok, .sent⟩) :
    ∀ s, standing sec w.db tok = some s → s.revoked = false ∧ s.expiresAt ≤ w.now := by
  rcases h with hin | hall
  · exact absurd (hout.symm.trans hin) (by simp)
  · intro s hs
    rw [hflight, Option.all_some, hs, Option.all_some, Bool.and_eq_true] at hall
    exact ⟨by simpa using hall.1, of_decide_eq_true hall.2⟩

lemma SignedOut.served {fresh : String} (h : SignedOut sec w)
    (hfresh : Fresh sec w (.serve t fresh))
    (hsettling : Settling sec w (.serve t fresh)) (hflight : w.flight t = some ⟨tok, .sent⟩) :
    (w.onRefresh sec cfg t tab tok fresh).db = w.db ∧
      (w.onRefresh sec cfg t tab tok fresh).family = w.family ∧
      (w.onRefresh sec cfg t tab tok fresh).flight t = some ⟨tok, .failed⟩ := by
  have hexpired := hsettling.expired h.signedOut hflight
  have hserved : Served sec w t tok fresh (w.onRefresh sec cfg t tab tok fresh) :=
    onRefresh_served hfresh (unrevoked_iff.2 fun s hs => (hexpired s hs).1)
  cases hserved with
  | refused hdb hfamily hfailed => exact ⟨hdb, hfamily, hfailed⟩
  | rotated _ _ _ hold hlive _ _ _ => exact absurd (hexpired _ hold).2 hlive.not_ge

lemma SignedOut.step (h : SignedOut sec w) (hchain : Chain sec start w) (hfresh : Fresh sec w e)
    (hsettling : Settling sec w e) (hstep : step sec cfg w e = some w') : SignedOut sec w' := by
  -- a session can only come in by the answer to a refresh
  have hunanswered : ∀ t tok session, w'.flight t = some ⟨tok, .answered session⟩ →
      ∃ fresh tok' tab, e = .serve t fresh ∧ w.flight t = some ⟨tok', .sent⟩ ∧
        w' = w.onRefresh sec cfg t tab tok' fresh := by
    intro t tok session hf
    rcases flight_step hstep hf with hf | ⟨hfailed, -⟩ | ⟨hsent, -⟩ |
      ⟨tok', fresh, tab, he, hsent, hw⟩
    · exact absurd hf (h.unanswered t tok session)
    · exact absurd hfailed (by simp)
    · exact absurd hsent (by simp)
    · exact ⟨fresh, tok', tab, he, hsent, hw⟩
  have hnone : (∀ t fresh, e ≠ .serve t fresh) → ∀ t tok session,
      w'.flight t ≠ some ⟨tok, .answered session⟩ := by
    intro hne t tok session hf
    obtain ⟨fresh, -, -, he, -⟩ := hunanswered t tok session hf
    exact hne t fresh he
  cases step_case hstep with
  | sent _ => exact ⟨h.signedOut, h.storage, h.form, h.ending, hnone (by simp)⟩
  | responded _ _ => exact ⟨h.signedOut, h.storage, h.form, h.ending, hnone (by simp)⟩
  | thrown _ _ _ _ =>
    exact ⟨h.signedOut, h.storage, form_set h.form rfl, h.ending, hnone (by simp)⟩
  -- nothing is stored, so no refresh starts
  | started _ _ _ _ _ hstorage => exact absurd (h.storage.symm.trans hstorage) (by simp)
  -- a refresh that was under way finds its token revoked
  | @served t tab tok fresh htab hflight =>
    have hf := (flight_of_tab htab).trans hflight
    obtain ⟨hdb, hfamily, hfailed⟩ : (w.onRefresh sec cfg t tab tok fresh).db = w.db ∧
        (w.onRefresh sec cfg t tab tok fresh).family = w.family ∧
        (w.onRefresh sec cfg t tab tok fresh).flight t = some ⟨tok, .failed⟩ :=
      h.served hfresh hsettling hf
    refine ⟨h.signedOut, h.storage, form_set h.form (h.form t tab htab), ?_,
      fun t' tok' session hf' => ?_⟩
    · rw [hdb, hfamily]
      exact h.ending
    · obtain ⟨_, _, _, he, -⟩ := hunanswered t' tok' session hf'
      obtain ⟨rfl, -⟩ := BrowserEvent.serve.inj he
      exact absurd (hfailed.symm.trans hf') (by simp)
  | @lost t tab f htab _ =>
    exact ⟨h.signedOut, h.storage, form_set h.form (h.form t tab htab), h.ending, hnone (by simp)⟩
  | refreshed _ htab hflight =>
    exact absurd ((flight_of_tab htab).trans hflight) (h.unanswered _ _ _)
  | cleared _ _ _ => exact ⟨h.signedOut, rfl, form_set h.form rfl, h.ending, hnone (by simp)⟩
  | signedOut _ _ =>
    exact ⟨rfl, rfl, form_set h.form rfl,
      fun tok hmem hlive => List.mem_cons_of_mem _ (h.ending tok hmem hlive), hnone (by simp)⟩
  -- the token that is served stops being live, so it need not end any more
  | @logoutServed tok _ =>
    refine ⟨h.signedOut, h.storage, h.form, fun x hmem hlive => ?_, hnone (by simp)⟩
    obtain ⟨hlive', hne⟩ := unrevoked_of_revoke (hchain.known x hmem)
      (standing_logout sec w.now tok w.db x) hlive
    exact (List.mem_erase_of_ne hne.symm).2 (h.ending x hmem hlive')
  | @rendered t tab htab =>
    exact ⟨h.signedOut, h.storage, form_set h.form (h.form t tab htab), h.ending, hnone (by simp)⟩
  | advanced => exact ⟨h.signedOut, h.storage, h.form, h.ending, hnone (by simp)⟩

/-! ## Runs -/

/-- What a run keeps of a login in one tab: its tokens form a chain that the browser never leaves,
and the user is either still signed in or about to be signed out of all of it. -/
structure LoginKept (sec : Crypto) (t₀ : TabId) (start w : BrowserWorld) : Prop where
  keys : w.tabs.keys = [t₀]
  chain : Chain sec start w
  confined : Confined w
  phase : SignedIn sec w ∨ SignedOut sec w

lemma LoggedIn.kept (h : LoggedIn sec t₀ start) : LoginKept sec t₀ start start := by
  obtain ⟨s, hs, hknown, htabs⟩ := h.stored
  have hfamily : start.family = [s.refresh] := by
    rw [h.quiet.family, hs]
    rfl
  have hflight : ∀ {t f}, start.flight t ≠ some f := fun {t f} hf =>
    absurd ((h.quiet.flight t).symm.trans hf) (by simp)
  have hheld : ∀ s', start.Holds s' → s' = s := by
    rintro s' (hs' | ⟨t, tab, htab, hs'⟩)
    · exact Option.some.inj (hs'.symm.trans hs)
    · obtain rfl := eq_of_one_tab h.tabs htab
      obtain ⟨hsession, hrendered⟩ := htabs tab htab
      rcases hs' with hs' | hs'
      · exact Option.some.inj (hs'.symm.trans hsession)
      · exact Option.some.inj (hs'.symm.trans hrendered)
  refine ⟨h.tabs, ⟨?_, ?_, fun tok hmem => Or.inl hmem, fun tok s _ hs => hs⟩,
    ⟨fun t f hf => absurd hf hflight, fun t tok s hf => absurd hf hflight, fun s' hs' => ?_, ?_⟩,
    Or.inl ⟨h.quiet.signedOut, h.quiet.sole, h.quiet.logouts,
      fun t tok session hf => absurd hf hflight⟩⟩
  · intro tok hmem
    rw [hfamily, List.mem_singleton] at hmem
    exact hmem ▸ hknown
  · intro x hx y hy _ _
    rw [hfamily, List.mem_singleton] at hx hy
    exact hx.trans hy.symm
  · rw [hheld s' hs', hfamily]
    exact List.mem_singleton_self _
  · rw [h.quiet.logouts]
    simp

/-- A refresh that reaches the server presents an unrevoked token, before logout and after it. -/
lemma LoginKept.live (h : LoginKept sec t₀ start w) (hsettling : Settling sec w e) :
    Live sec w e := by
  rintro t tok fresh rfl hflight
  rcases h.phase with hin | hout
  · exact hin.sole.sent t tok hflight
  · have hexpired := hsettling.expired hout.signedOut hflight
    exact unrevoked_iff.2 fun s hs => (hexpired s hs).1

lemma LoginKept.step (h : LoginKept sec t₀ start w) (hok : FreshSettling sec w e)
    (hstep : step sec cfg w e = some w') : LoginKept sec t₀ start w' := by
  obtain ⟨hfresh, hsettling⟩ := hok
  have hlive := h.live hsettling
  refine ⟨(keys_step hstep).trans h.keys, h.chain.step h.confined hfresh hlive hstep,
    h.confined.step hfresh hlive hstep, ?_⟩
  rcases h.phase with hin | hout
  · by_cases hlogout : ∃ t, e = .logout t
    · obtain ⟨t, rfl⟩ := hlogout
      exact Or.inr (hin.logout h.confined h.chain h.keys hsettling hstep)
    · refine Or.inl (hin.stay h.confined h.keys hfresh ?_ hstep)
      cases e with
      | logout t => exact (hlogout ⟨t, rfl⟩).elim
      | serveLogout tok =>
        -- no logout was posted
        cases step_case hstep with
        | logoutServed hmem => exact absurd (hin.logouts ▸ hmem) (by simp)
      | send _ _ _ | respond _ _ | serve _ _ | lose _ | settle _ | render _ | advance _ => trivial
  · exact Or.inr (hout.step h.chain hfresh hsettling hstep)

/-- **Logout ends this session and only this session.**  In a run in which logout posts the token
that is not exchanged yet and no refresh reaches the server afterwards, but with a token that is
unknown there or has expired: once everything has settled, no session is stored, the login form is
on the screen, no unrevoked token descends from the login, and the other logins stand as they
did. -/
theorem logout_ends_session (hstart : LoggedIn sec t start)
    (h : (system sec cfg).RunWhere (FreshSettling sec) start w) (hout : w.signedOut = true)
    (hsettled : Settled w) : LoggedOut sec start w := by
  have hkept : LoginKept sec t start w :=
    h.invariant hstart.kept fun _ _ _ hok hkept hstep => hkept.step hok hstep
  rcases hkept.phase with hin | hended
  · exact absurd (hin.signedOut.symm.trans hout) (by simp)
  · refine ⟨hended.storage, fun t' tab htab => ?_, fun tok hmem s hs => ?_, hkept.chain.others⟩
    · have hform := hended.form t' tab htab
      exact ⟨hform, (hsettled.rendered t' tab htab).trans hform⟩
    · by_contra hlive
      have hunrevoked : Unrevoked sec w.db tok := by
        rw [unrevoked_iff]
        intro s' hs'
        obtain rfl := Option.some.inj (hs.symm.trans hs')
        exact Bool.not_eq_true _ ▸ hlive
      have hposted := hended.ending tok hmem hunrevoked
      rw [hsettled.logouts] at hposted
      exact absurd hposted (by simp)

/-- A browser logged in with one tab, as a user who is also logged in elsewhere. -/
def oneTab : BrowserWorld :=
  let session := twoTabs.storage
  { twoTabs with tabs := .ofList [(0, ⟨none, session, session⟩)] }

lemma loggedIn_oneTab : LoggedIn .plain 0 oneTab where
  quiet := { quiet_twoTabs with flight := idle_iff.1 (by decide +kernel) }
  tabs := by decide +kernel
  stored := by
    have hall : oneTab.storage.any (fun s => decide
        ((standing .plain oneTab.db s.refresh).isSome = true ∧
          oneTab.tabs.values.all (fun tab => decide
            (tab.session = some s ∧ tab.rendered = some s)) = true)) = true := by decide +kernel
    obtain ⟨s, hs, hstored⟩ := Option.any_eq_true _ _ |>.1 hall
    obtain ⟨hknown, htabs⟩ := of_decide_eq_true hstored
    exact ⟨s, hs, hknown, fun tab htab =>
      of_decide_eq_true (Dict.all_values_iff.1 htabs 0 tab htab)⟩

/-- The check that everything has settled. -/
def settled (w : BrowserWorld) : Bool :=
  w.idle && w.requests.values.all (fun q => decide (q.pc = .done)) && w.logouts.isEmpty &&
    w.tabs.values.all fun tab => decide (tab.rendered = tab.session)

lemma settled_iff : w.settled = true ↔ Settled w := by
  rw [settled, Bool.and_eq_true, Bool.and_eq_true, Bool.and_eq_true, idle_iff, Dict.all_values_iff,
    Dict.all_values_iff, List.isEmpty_iff]
  simp only [decide_eq_true_eq]
  exact ⟨fun ⟨⟨⟨hflight, hrequests⟩, hlogouts⟩, hrendered⟩ =>
    ⟨hflight, hrequests, hlogouts, hrendered⟩, fun ⟨hflight, hrequests, hlogouts, hrendered⟩ =>
    ⟨⟨⟨hflight, hrequests⟩, hlogouts⟩, hrendered⟩⟩

/-- A refresh that has ended before logout. -/
def refreshThenLogout : List BrowserEvent :=
  [.send 0 0 (some "access"), .respond 0 401, .serve 0 "r1", .settle 0, .render 0, .logout 0,
    .respond 0 401, .serveLogout "r1", .render 0]

theorem logout_ends_session_refreshed : ∃ w,
    (system .plain {}).execWhere (FreshSettling .plain) oneTab refreshThenLogout = some w ∧
      w.family = ["r1", "r0"] ∧ Unrevoked .plain w.db "d0" ∧ LoggedOut .plain oneTab w := by
  have hexec : ((system .plain {}).execWhere (FreshSettling .plain) oneTab refreshThenLogout).any
      (fun w => decide (w.signedOut = true ∧ w.settled = true ∧ w.family = ["r1", "r0"] ∧
        Unrevoked .plain w.db "d0")) = true := by decide +kernel
  obtain ⟨w, hw, hstate⟩ := Option.any_eq_true _ _ |>.1 hexec
  obtain ⟨hout, hsettled, hfamily, helsewhere⟩ := of_decide_eq_true hstate
  exact ⟨w, hw, hfamily, helsewhere, logout_ends_session loggedIn_oneTab
    (System.runWhere_of_execWhere hw) hout (settled_iff.1 hsettled)⟩

/-- The refresh is under way when the user logs out, and reaches the server first. -/
def refreshFirst : List BrowserEvent :=
  [.send 0 0 (some "access"), .respond 0 401, .logout 0, .serve 0 "r1", .serveLogout "r0",
    .settle 0, .respond 0 200, .render 0]

/-- The refresh is under way when the user logs out, and reaches the server after the logout. -/
def logoutFirst : List BrowserEvent :=
  [.send 0 0 (some "access"), .respond 0 401, .logout 0, .serveLogout "r0", .serve 0 "r1",
    .settle 0, .render 0]

/-- When a refresh is under way, logout fails in both orders: the browser ends with a session that
is stored, shown and unrevoked, or every other login of the user ends too. -/
theorem logout_during_refresh : LoggedIn .plain 0 oneTab ∧
    (∃ w, (system .plain {}).execWhere (Fresh .plain) oneTab refreshFirst = some w ∧
      w.signedOut = true ∧ Settled w ∧ w.storage.map StoredSession.refresh = some "r1" ∧
      "r1" ∈ w.family ∧ Unrevoked .plain w.db "r1" ∧ ¬ LoggedOut .plain oneTab w) ∧
    ∃ w, (system .plain {}).execWhere (Fresh .plain) oneTab logoutFirst = some w ∧
      w.signedOut = true ∧ Settled w ∧ Unrevoked .plain oneTab.db "d0" ∧
      ¬ Unrevoked .plain w.db "d0" ∧ ¬ LoggedOut .plain oneTab w := by
  refine ⟨loggedIn_oneTab, ?_, ?_⟩
  -- the answer to the refresh is stored after the logout has cleared the storage
  · have hexec : ((system .plain {}).execWhere (Fresh .plain) oneTab refreshFirst).any
        (fun w => decide (w.signedOut = true ∧ w.settled = true ∧
          w.storage.map StoredSession.refresh = some "r1" ∧ "r1" ∈ w.family ∧
          Unrevoked .plain w.db "r1")) = true := by decide +kernel
    obtain ⟨w, hw, hstate⟩ := Option.any_eq_true _ _ |>.1 hexec
    obtain ⟨hout, hsettled, hstored, hmem, hlive⟩ := of_decide_eq_true hstate
    refine ⟨w, hw, hout, settled_iff.1 hsettled, hstored, hmem, hlive, fun hended => ?_⟩
    rw [hended.storage] at hstored
    exact absurd hstored (by simp)
  -- the logout revokes first, so the refresh is taken for a reuse and revokes `d0` too
  · have hexec : ((system .plain {}).execWhere (Fresh .plain) oneTab logoutFirst).any
        (fun w => decide (w.signedOut = true ∧ w.settled = true ∧
          ¬ Unrevoked .plain w.db "d0")) = true := by decide +kernel
    obtain ⟨w, hw, hstate⟩ := Option.any_eq_true _ _ |>.1 hexec
    obtain ⟨hout, hsettled, hrevoked⟩ := of_decide_eq_true hstate
    refine ⟨w, hw, hout, settled_iff.1 hsettled, by decide +kernel, hrevoked, fun hended => ?_⟩
    have hother : "d0" ∉ oneTab.family := by decide +kernel
    have hlive : (standing .plain oneTab.db "d0").any (fun s => !s.revoked) = true := by
      decide +kernel
    obtain ⟨s, hs, hunrevoked⟩ := Option.any_eq_true _ _ |>.1 hlive
    refine hrevoked (unrevoked_iff.2 fun s' hs' => ?_)
    obtain rfl := Option.some.inj ((hended.others "d0" s hother hs).symm.trans hs')
    simpa using hunrevoked

end BrowserWorld

end TickerWatch
