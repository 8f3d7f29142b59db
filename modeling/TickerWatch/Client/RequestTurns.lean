import TickerWatch.Foundations.Credit
import TickerWatch.Client.RefreshReuse

/-!
# What a call of the API costs

A call of `request` is answered, may wait for the refresh of its tab, and is then sent once more.
The `retried` flag is what ends this: a call that was sent again and is refused again is passed on.
So a call is answered twice at the most, and a browser that makes no more calls comes to rest.

The argument is a credit each call is granted when it is made: four turns of the network, which are
its two answers and, where it starts the refresh of its tab, the exchange of the token and the end of
the refresh.
-/

namespace TickerWatch

/-- What a call can still cost: `first` before its first answer, and `again` from there to its
second. -/
def ClientRequest.cost (first again : ℕ) (q : ClientRequest) : ℕ :=
  match q.pc with
  | .fetching => if q.retried = true then again else first
  | .awaiting => again
  | .done => 0

/-- What a refresh in flight can still cost. -/
def Flight.cost (exchange finish : ℕ) : Option Flight → ℕ
  | some ⟨_, .sent⟩ => exchange + finish
  | some ⟨_, .answered _⟩ => finish
  | some ⟨_, .failed⟩ => finish
  | none => 0

lemma ClientRequest.cost_of_fetching {q : ClientRequest} (first again : ℕ) (h : q.pc = .fetching) :
    q.cost first again = if q.retried = true then again else first := by rw [cost, h]

lemma ClientRequest.cost_of_first {q : ClientRequest} (first again : ℕ) (h : q.pc = .fetching)
    (hfirst : q.retried = false) : q.cost first again = first := by
  rw [cost_of_fetching first again h, hfirst, if_neg Bool.false_ne_true]

lemma ClientRequest.cost_of_awaiting {q : ClientRequest} (first again : ℕ) (h : q.pc = .awaiting) :
    q.cost first again = again := by rw [cost, h]

/-- A call that was sent again, or is through, has at most its second answer to come. -/
lemma ClientRequest.cost_le_again {q : ClientRequest} (first again : ℕ)
    (h : q.pc ≠ .awaiting ∧ (q.pc = .fetching → q.retried = true)) :
    q.cost first again ≤ again := by
  cases hpc : q.pc with
  | fetching => rw [cost_of_fetching first again hpc, if_pos (h.2 hpc)]
  | awaiting => exact absurd hpc h.1
  | done =>
    rw [cost, hpc]
    exact Nat.zero_le again

lemma Flight.cost_of_ne_sent {f : Flight} (exchange finish : ℕ) (h : f.post ≠ .sent) :
    Flight.cost exchange finish (some f) = finish := by
  obtain ⟨tok, post⟩ := f
  cases post with
  | sent => exact absurd rfl h
  | answered session => rfl
  | failed => rfl

/-- A refresh in flight has at least its end to come. -/
lemma Flight.finish_le_cost (exchange finish : ℕ) (f : Flight) :
    finish ≤ Flight.cost exchange finish (some f) := by
  by_cases h : f.post = .sent
  · obtain ⟨tok, post⟩ := f
    obtain rfl := h
    exact Nat.le_add_left finish exchange
  · rw [cost_of_ne_sent exchange finish h]

/-- A call is made. -/
def BrowserEvent.sends : BrowserEvent → Bool
  | .send _ _ _ => true
  | _ => false

/-- The call `r` is answered. -/
def BrowserEvent.answers (r : RequestId) : BrowserEvent → Bool
  | .respond r' _ => decide (r' = r)
  | _ => false

/-- The network does something: a call is answered, or a refresh is served or ends. -/
def BrowserEvent.turns : BrowserEvent → Bool
  | .respond _ _ => true
  | .serve _ _ => true
  | .settle _ => true
  | _ => false

lemma BrowserEvent.not_answers (e : BrowserEvent) (h : e.turns = false) (r : RequestId) :
    ¬ e.answers r = true := by
  cases e with
  | respond r' status => exact absurd h (by simp [turns])
  | _ => exact Bool.false_ne_true

lemma BrowserEvent.not_sends (e : BrowserEvent) (h : e.turns = true) : ¬ e.sends = true := by
  cases e with
  | send r t token => exact absurd h Bool.false_ne_true
  | _ => exact Bool.false_ne_true

namespace BrowserWorld

/-- The refresh of one tab goes from `f` to `f'`. -/
def Moves (w w' : BrowserWorld) (t : TabId) (f f' : Option Flight) : Prop :=
  ∃ tab tab', w.tabs.get? t = some tab ∧ w'.tabs = w.tabs.set t tab' ∧ tab.refreshing = f ∧
    tab'.refreshing = f'

/-- No refresh begins, goes on or ends. -/
def Keeps (w w' : BrowserWorld) : Prop := w'.tabs = w.tabs ∨ ∃ t f, w.Moves w' t f f

/-- The refreshes in flight can still cost this. -/
def flightCost (exchange finish : ℕ) (w : BrowserWorld) : ℕ :=
  w.tabs.total fun tab => Flight.cost exchange finish tab.refreshing

/-- The calls can still cost this. -/
def requestCost (first again : ℕ) (w : BrowserWorld) : ℕ :=
  w.requests.total (ClientRequest.cost first again)

/-- What an event does to the calls and the refreshes: a call is fetched at most twice and awaits at
most one refresh between, and only the end of that refresh lets it go on. -/
inductive TurnCase (w : BrowserWorld) : BrowserEvent → BrowserWorld → Prop
  | sent {r t token w'} (hnew : w.requests.get? r = none) (htab : t ∈ w.tabs.keys)
    (hreqs : w'.requests = w.requests.set r ⟨t, token, false, .fetching⟩)
    (htabs : w'.tabs = w.tabs) (hposted : w'.posted = w.posted) : TurnCase w (.send r t token) w'
  /-- A call returns or throws. -/
  | ended {r status q w'} (hq : w.requests.get? r = some q) (hfetching : q.pc = .fetching)
    (hreqs : w'.requests = w.requests.set r { q with pc := .done }) (hkeeps : w.Keeps w')
    (hposted : w'.posted = w.posted) : TurnCase w (.respond r status) w'
  /-- A call joins the refresh of its tab. -/
  | joined {r status q w'} (hq : w.requests.get? r = some q) (hfetching : q.pc = .fetching)
    (hfirst : q.retried = false) (hflight : w.flight q.tab ≠ none)
    (hreqs : w'.requests = w.requests.set r { q with pc := .awaiting }) (hkeeps : w.Keeps w')
    (hposted : w'.posted = w.posted) : TurnCase w (.respond r status) w'
  /-- A call starts the refresh of its tab. -/
  | started {r status q tok w'} (hq : w.requests.get? r = some q) (hfetching : q.pc = .fetching)
    (hfirst : q.retried = false) (hmoves : w.Moves w' q.tab none (some ⟨tok, .sent⟩))
    (hreqs : w'.requests = w.requests.set r { q with pc := .awaiting })
    (hposted : w'.posted = tok :: w.posted) : TurnCase w (.respond r status) w'
  | served {t tok fresh post w'} (hpost : post ≠ .sent)
    (hmoves : w.Moves w' t (some ⟨tok, .sent⟩) (some ⟨tok, post⟩))
    (hreqs : w'.requests = w.requests) (hposted : w'.posted = w.posted) :
    TurnCase w (.serve t fresh) w'
  | lost {t f w'} (hmoves : w.Moves w' t (some f) (some { f with post := .failed }))
    (hreqs : w'.requests = w.requests) (hposted : w'.posted = w.posted) : TurnCase w (.lose t) w'
  /-- The refresh of a tab ends: the calls that awaited it are sent again or throw. -/
  | settled {t f g w'} (hpost : f.post ≠ .sent) (hmoves : w.Moves w' t (some f) none)
    (hgoes : ∀ q, (g q).tab = q.tab ∧ (g q).pc ≠ .awaiting ∧
      ((g q).pc = .fetching → (g q).retried = true))
    (hreqs : w'.requests = w.release t g) (hposted : w'.posted = w.posted) :
    TurnCase w (.settle t) w'
  /-- Nothing happens to them. -/
  | other {e w'} (hsends : e.sends = false) (hturns : e.turns = false) (hkeeps : w.Keeps w')
    (hreqs : w'.requests = w.requests) (hposted : w'.posted = w.posted) : TurnCase w e w'

variable {sec : Crypto} {cfg : AuthSettings} {start w w' : BrowserWorld} {e : BrowserEvent}
  {es : List BrowserEvent} {t : TabId} {tab tab' : Tab} {f f' : Option Flight} {fl : Flight}
  {r : RequestId} {q : ClientRequest} {status : ℕ}

/-! ## The refreshes -/

lemma Moves.flight (h : w.Moves w' t f f') (t' : TabId) :
    w'.flight t' = if t' = t then f' else w.flight t' := by
  obtain ⟨tab, tab', -, htabs, -, rfl⟩ := h
  rw [← flight_putTab, BrowserWorld.flight, htabs]
  rfl

lemma Moves.keys (h : w.Moves w' t f f') : w'.tabs.keys = w.tabs.keys := by
  obtain ⟨tab, tab', htab, htabs, -, -⟩ := h
  rw [htabs]
  exact keys_putTab htab tab'

lemma Moves.flight_self (h : w.Moves w' t f f') : w.flight t = f := by
  obtain ⟨tab, tab', htab, -, rfl, -⟩ := h
  exact flight_of_tab htab

lemma Moves.flightCost (exchange finish : ℕ) (h : w.Moves w' t f f') :
    w'.flightCost exchange finish + Flight.cost exchange finish f =
      w.flightCost exchange finish + Flight.cost exchange finish f' := by
  obtain ⟨tab, tab', htab, htabs, rfl, rfl⟩ := h
  rw [BrowserWorld.flightCost, BrowserWorld.flightCost, htabs]
  exact Dict.total_set_of_get? _ tab' htab

lemma Keeps.flight (h : w.Keeps w') (t' : TabId) : w'.flight t' = w.flight t' := by
  rcases h with htabs | ⟨t, f, hmoves⟩
  · rw [BrowserWorld.flight, htabs]
    rfl
  · rw [hmoves.flight]
    split
    · rename_i heq
      rw [heq, hmoves.flight_self]
    · rfl

lemma Keeps.keys (h : w.Keeps w') : w'.tabs.keys = w.tabs.keys := by
  rcases h with htabs | ⟨t, f, hmoves⟩
  · rw [htabs]
  · exact hmoves.keys

lemma Keeps.flightCost (exchange finish : ℕ) (h : w.Keeps w') :
    w'.flightCost exchange finish = w.flightCost exchange finish := by
  rcases h with htabs | ⟨t, f, hmoves⟩
  · rw [BrowserWorld.flightCost, htabs]
    rfl
  · exact Nat.add_right_cancel (hmoves.flightCost exchange finish)

lemma keeps_putTab (htab : w.tabs.get? t = some tab) (htabs : w'.tabs = w.tabs.set t tab')
    (hsame : tab'.refreshing = tab.refreshing) : w.Keeps w' :=
  Or.inr ⟨t, tab.refreshing, tab, tab', htab, htabs, rfl, hsame⟩

/-! ## What an event does -/

lemma onResponse_turn (hq : w.requests.get? r = some q) (hfetching : q.pc = .fetching)
    (htab : w.tabs.get? q.tab = some tab) :
    TurnCase w (.respond r status) (w.onResponse r q tab status) := by
  rw [onResponse]
  split
  · rename_i hrefreshes
    have hfirst : q.retried = false := by
      rw [ClientRequest.refreshes, Bool.and_eq_true, Bool.not_eq_true'] at hrefreshes
      exact hrefreshes.2
    split
    · rename_i f hflight
      refine .joined hq hfetching hfirst ?_ rfl (Or.inl rfl) rfl
      rw [flight_of_tab htab, hflight]
      simp
    · rename_i hidle hstorage
      exact .ended hq hfetching rfl (keeps_putTab htab rfl rfl) rfl
    · rename_i s hidle hstorage
      exact .started hq hfetching hfirst ⟨tab, _, htab, rfl, hidle, rfl⟩ rfl rfl
  · exact .ended hq hfetching rfl (Or.inl rfl) rfl

lemma onRefreshed_turn {f : Flight} (htab : w.tabs.get? t = some tab)
    (hflight : tab.refreshing = some f) (h : w.onRefreshed t tab f.post = some w') :
    TurnCase w (.settle t) w' := by
  obtain ⟨refreshToken, post⟩ := f
  cases post with
  | sent => exact absurd h (by simp [onRefreshed])
  | answered session =>
    obtain rfl := Option.some.inj h
    exact .settled
      (g := fun q => { q with token := some session.accessToken, retried := true, pc := .fetching })
      (by simp) ⟨tab, _, htab, rfl, hflight, rfl⟩ (fun q => ⟨rfl, by simp, fun _ => rfl⟩) rfl rfl
  | failed =>
    obtain rfl := Option.some.inj h
    exact .settled (g := fun q => { q with pc := .done }) (by simp)
      ⟨tab, _, htab, rfl, hflight, rfl⟩ (fun q => ⟨rfl, by simp, by simp⟩) rfl rfl

/-- The post of a refresh that was served is no longer on its way. -/
lemma ofResult_ne_sent (out : Except AuthError Session) : RefreshPost.ofResult out ≠ .sent := by
  cases out with
  | ok session => simp
  | error err => simp

/-- **What one event does to the calls.** -/
theorem step_turn (h : step sec cfg w e = some w') : TurnCase w e w' := by
  cases e with
  | send r t token =>
    rw [step] at h
    split at h
    · rename_i hok
      rw [Bool.and_eq_true, Bool.not_eq_true', Dict.contains_eq_false_iff, Dict.contains_iff] at hok
      obtain rfl := Option.some.inj h
      exact .sent hok.1 hok.2 rfl rfl rfl
    · exact absurd h (by simp)
  | respond r status =>
    rw [step] at h
    split at h
    · rename_i q hq
      split at h
      · rename_i hfetching
        obtain ⟨tab, htab, rfl⟩ := Option.map_eq_some_iff.1 h
        -- a response may end the call, join a refresh or start one
        exact onResponse_turn hq hfetching htab
      · exact absurd h (by simp)
    · exact absurd h (by simp)
  | serve t fresh =>
    rw [step] at h
    split at h
    · rename_i tab htab
      split at h
      · rename_i refreshToken hflight
        obtain rfl := Option.some.inj h
        exact .served (ofResult_ne_sent _) ⟨tab, _, htab, rfl, hflight, rfl⟩ rfl rfl
      · exact absurd h (by simp)
    · exact absurd h (by simp)
  | lose t =>
    rw [step] at h
    split at h
    · rename_i tab htab
      split at h
      · rename_i f hflight
        obtain rfl := Option.some.inj h
        exact .lost ⟨tab, _, htab, rfl, hflight, rfl⟩ rfl rfl
      · exact absurd h (by simp)
    · exact absurd h (by simp)
  | settle t =>
    rw [step] at h
    split at h
    · rename_i tab htab
      obtain ⟨f, hflight, h⟩ := Option.bind_eq_some_iff.1 h
      exact onRefreshed_turn htab hflight h
    · exact absurd h (by simp)
  -- the rest is not of the network: no call and no refresh moves
  | logout t =>
    rw [step] at h
    split at h
    · rename_i tab htab
      obtain ⟨s, -, rfl⟩ := Option.map_eq_some_iff.1 h
      exact .other rfl rfl (keeps_putTab htab rfl rfl) rfl rfl
    · exact absurd h (by simp)
  | serveLogout refreshToken =>
    rw [step] at h
    split at h
    · obtain rfl := Option.some.inj h
      exact .other rfl rfl (Or.inl rfl) rfl rfl
    · exact absurd h (by simp)
  | render t =>
    obtain ⟨tab, htab, rfl⟩ := Option.map_eq_some_iff.1 h
    exact .other rfl rfl (keeps_putTab htab rfl rfl) rfl rfl
  | advance micros =>
    obtain rfl := Option.some.inj h
    exact .other rfl rfl (Or.inl rfl) rfl rfl

/-! ## What it costs -/

lemma requestCost_set {q' : ClientRequest} (first again : ℕ) (hq : w.requests.get? r = some q)
    (hreqs : w'.requests = w.requests.set r q') :
    w'.requestCost first again + q.cost first again =
      w.requestCost first again + q'.cost first again := by
  rw [requestCost, requestCost, hreqs]
  exact Dict.total_set_of_get? _ q' hq

/-- The calls that awaited a refresh have their second answer to come, if any. -/
lemma requestCost_release {g : ClientRequest → ClientRequest} (first again : ℕ)
    (hgoes : ∀ q, (g q).pc ≠ .awaiting ∧ ((g q).pc = .fetching → (g q).retried = true))
    (hreqs : w'.requests = w.release t g) :
    w'.requestCost first again ≤ w.requestCost first again := by
  rw [requestCost, requestCost, hreqs, release]
  refine Dict.total_mapValues_le (fun r q => ?_) w.requests
  split
  · rename_i hawaits
    rw [ClientRequest.cost_of_awaiting first again hawaits.2]
    exact ClientRequest.cost_le_again first again (hgoes q)
  · exact le_rfl

/-- What the calls and refreshes under way can still cost, with a turn of the network at `turn` and a
post to `/auth/refresh` at `post`. -/
def credit (turn post : ℕ) (w : BrowserWorld) : ℕ :=
  w.requestCost (4 * turn + post) turn + w.flightCost turn turn

lemma credit_of_set {q' : ClientRequest} (turn post : ℕ) (hq : w.requests.get? r = some q)
    (hreqs : w'.requests = w.requests.set r q') (hkeeps : w.Keeps w') :
    w'.credit turn post + q.cost (4 * turn + post) turn =
      w.credit turn post + q'.cost (4 * turn + post) turn := by
  have hcalls := requestCost_set (4 * turn + post) turn hq hreqs
  rw [credit, credit, hkeeps.flightCost]
  omega

/-- One refresh goes on, and the calls stay as they are. -/
lemma credit_of_moves (turn post : ℕ) (hmoves : w.Moves w' t f f')
    (hreqs : w'.requests = w.requests) :
    w'.credit turn post + Flight.cost turn turn f =
      w.credit turn post + Flight.cost turn turn f' := by
  have hflights := hmoves.flightCost turn turn
  rw [credit, credit, requestCost, requestCost, hreqs]
  omega

/-- **A call pays for what it leads to.** -/
theorem step_pays (turn post : ℕ) (h : TurnCase w e w') :
    (if e.turns = true then turn else 0) + (w'.posted.length * post + w'.credit turn post) ≤
      w.posted.length * post + w.credit turn post +
        (if e.sends = true then 4 * turn + post else 0) := by
  cases h with
  | @sent r t token _ hnew htab hreqs htabs hposted =>
    have hcalls : w'.requestCost (4 * turn + post) turn =
        w.requestCost (4 * turn + post) turn + (4 * turn + post) := by
      rw [requestCost, requestCost, hreqs]
      exact Dict.total_set_of_get?_none _ _ hnew
    have hflights := Keeps.flightCost turn turn (Or.inl htabs : w.Keeps w')
    rw [credit, credit, hcalls, hflights, hposted]
    simp only [BrowserEvent.turns, BrowserEvent.sends, if_true, Bool.false_eq_true, if_false]
    omega
  | @ended r status q _ hq hfetching hreqs hkeeps hposted =>
    have hcredit := credit_of_set turn post hq hreqs hkeeps
    have hbefore : turn ≤ q.cost (4 * turn + post) turn := by
      rw [ClientRequest.cost_of_fetching _ _ hfetching]
      split
      · exact Nat.le_refl turn
      · omega
    have hafter : ClientRequest.cost (4 * turn + post) turn { q with pc := .done } = 0 := rfl
    rw [hposted]
    simp only [BrowserEvent.turns, BrowserEvent.sends, if_true, Bool.false_eq_true, if_false]
    omega
  | @joined r status q _ hq hfetching hfirst hflight hreqs hkeeps hposted =>
    have hcredit := credit_of_set turn post hq hreqs hkeeps
    have hbefore := ClientRequest.cost_of_first (4 * turn + post) turn hfetching hfirst
    have hafter : ClientRequest.cost (4 * turn + post) turn { q with pc := .awaiting } = turn := rfl
    rw [hposted]
    simp only [BrowserEvent.turns, BrowserEvent.sends, if_true, Bool.false_eq_true, if_false]
    omega
  | @started r status q tok _ hq hfetching hfirst hmoves hreqs hposted =>
    -- the four turns and the post of the call become its second answer, the exchange and the end
    have hcalls := requestCost_set (4 * turn + post) turn hq hreqs
    have hbefore := ClientRequest.cost_of_first (4 * turn + post) turn hfetching hfirst
    have hafter : ClientRequest.cost (4 * turn + post) turn { q with pc := .awaiting } = turn := rfl
    have hflights := hmoves.flightCost turn turn
    have hidle : Flight.cost turn turn none = 0 := rfl
    have hsent : Flight.cost turn turn (some ⟨tok, .sent⟩) = turn + turn := rfl
    rw [credit, credit, hposted, List.length_cons, Nat.succ_mul]
    simp only [BrowserEvent.turns, BrowserEvent.sends, if_true, Bool.false_eq_true, if_false]
    omega
  | @served t tok fresh p _ hpost hmoves hreqs hposted =>
    have hcredit := credit_of_moves turn post hmoves hreqs
    have hbefore : Flight.cost turn turn (some ⟨tok, .sent⟩) = turn + turn := rfl
    have hafter : Flight.cost turn turn (some ⟨tok, p⟩) = turn :=
      Flight.cost_of_ne_sent turn turn hpost
    rw [hposted]
    simp only [BrowserEvent.turns, BrowserEvent.sends, if_true, Bool.false_eq_true, if_false]
    omega
  | @lost t f _ hmoves hreqs hposted =>
    have hcredit := credit_of_moves turn post hmoves hreqs
    have hbefore : turn ≤ Flight.cost turn turn (some f) := Flight.finish_le_cost turn turn f
    have hafter : Flight.cost turn turn (some { f with post := .failed }) = turn := rfl
    rw [hposted]
    simp only [BrowserEvent.turns, BrowserEvent.sends, Bool.false_eq_true, if_false]
    omega
  | @settled t f g _ hpost hmoves hgoes hreqs hposted =>
    have hcalls := requestCost_release (4 * turn + post) turn (fun q => (hgoes q).2) hreqs
    have hflights := hmoves.flightCost turn turn
    have hbefore : Flight.cost turn turn (some f) = turn := Flight.cost_of_ne_sent turn turn hpost
    have hafter : Flight.cost turn turn none = 0 := rfl
    rw [credit, credit, hposted]
    simp only [BrowserEvent.turns, BrowserEvent.sends, if_true, Bool.false_eq_true, if_false]
    omega
  | other hsends hturns hkeeps hreqs hposted =>
    rw [credit, credit, hkeeps.flightCost, hposted, requestCost, requestCost, hreqs, hsends, hturns]
    simp only [Bool.false_eq_true, if_false]
    omega

/-- A run pays for the turns and the posts it makes. -/
lemma exec_pays (turn post : ℕ) (h : (system sec cfg).exec w es = some w') :
    turn * es.countP BrowserEvent.turns + (w'.posted.length * post + w'.credit turn post) ≤
      w.posted.length * post + w.credit turn post +
        (4 * turn + post) * es.countP BrowserEvent.sends := by
  have hrun := System.exec_credit (I := fun _ => True) (fun _ _ _ _ _ => trivial)
    (fun w e w' _ hstep => step_pays turn post (step_turn hstep)) h trivial
  rwa [System.amount_ite, System.amount_ite] at hrun

/-- The answers a call can still get; one that was not made yet can get two. -/
def answersLeft (w : BrowserWorld) (r : RequestId) : ℕ :=
  match w.requests.get? r with
  | some q => q.cost 2 1
  | none => 2

lemma answersLeft_of_get? (h : w.requests.get? r = some q) : w.answersLeft r = q.cost 2 1 := by
  rw [answersLeft, h]

lemma answersLeft_of_none (h : w.requests.get? r = none) : w.answersLeft r = 2 := by
  rw [answersLeft, h]

/-- The answers left to a call when the calls change to those of `w'`. -/
lemma answersLeft_set {q' : ClientRequest} {r' : RequestId}
    (hreqs : w'.requests = w.requests.set r' q') :
    w'.answersLeft r = if r' = r then q'.cost 2 1 else w.answersLeft r := by
  rw [answersLeft, hreqs, Dict.get?_set]
  by_cases heq : r' = r
  · rw [if_pos heq.symm, if_pos heq]
  · rw [if_neg (Ne.symm heq), if_neg heq, answersLeft]

lemma answersLeft_release {g : ClientRequest → ClientRequest}
    (hgoes : ∀ q, (g q).pc ≠ .awaiting ∧ ((g q).pc = .fetching → (g q).retried = true))
    (hreqs : w'.requests = w.release t g) : w'.answersLeft r ≤ w.answersLeft r := by
  cases hq : w.requests.get? r with
  | none =>
    have hq' : w'.requests.get? r = none := by rw [hreqs, release, Dict.get?_mapValues, hq]; rfl
    rw [answersLeft_of_none hq, answersLeft_of_none hq']
  | some q =>
    have hq' : w'.requests.get? r =
        some (if q.tab = t ∧ q.pc = .awaiting then g q else q) := by
      rw [hreqs, release, Dict.get?_mapValues, hq]
      rfl
    rw [answersLeft_of_get? hq, answersLeft_of_get? hq']
    split
    · rename_i hawaits
      rw [ClientRequest.cost_of_awaiting 2 1 hawaits.2]
      exact ClientRequest.cost_le_again 2 1 (hgoes q)
    · exact le_rfl

lemma answersLeft_congr (hreqs : w'.requests = w.requests) :
    w'.answersLeft r = w.answersLeft r := by
  rw [answersLeft, answersLeft, hreqs]

lemma answer_pays {q' : ClientRequest} {r' : RequestId} (hq : w.requests.get? r' = some q)
    (hreqs : w'.requests = w.requests.set r' q') (hcost : q'.cost 2 1 < q.cost 2 1) :
    (if BrowserEvent.answers r (.respond r' status) = true then 1 else 0) + w'.answersLeft r ≤
      w.answersLeft r + 0 := by
  rw [answersLeft_set hreqs, BrowserEvent.answers]
  by_cases heq : r' = r
  · subst heq
    rw [answersLeft_of_get? hq, if_pos rfl, if_pos (decide_eq_true rfl)]
    omega
  · rw [if_neg heq, if_neg (by simp [heq])]
    omega

/-- **An answer to a call is one of its two.** -/
theorem step_answers (r : RequestId) (h : TurnCase w e w') :
    (if e.answers r = true then 1 else 0) + w'.answersLeft r ≤ w.answersLeft r + 0 := by
  cases h with
  | @sent r' t token _ hnew htab hreqs htabs hposted =>
    rw [answersLeft_set hreqs]
    by_cases heq : r' = r
    · subst heq
      rw [answersLeft_of_none hnew, if_pos rfl]
      exact le_rfl
    · rw [if_neg heq]
      exact (Nat.zero_add _).le
  -- an answer pays with what the call had left: at most two
  | @ended r' status q _ hq hfetching hreqs hkeeps hposted =>
    refine answer_pays hq hreqs ?_
    rw [ClientRequest.cost_of_fetching 2 1 hfetching]
    show 0 < _
    split
    · exact Nat.one_pos
    · exact Nat.two_pos
  -- after its first answer it has one left
  | @joined r' status q _ hq hfetching hfirst hflight hreqs hkeeps hposted =>
    refine answer_pays hq hreqs ?_
    rw [ClientRequest.cost_of_first 2 1 hfetching hfirst]
    exact Nat.one_lt_two
  | @started r' status q tok _ hq hfetching hfirst hmoves hreqs hposted =>
    refine answer_pays hq hreqs ?_
    rw [ClientRequest.cost_of_first 2 1 hfetching hfirst]
    exact Nat.one_lt_two
  -- no call is answered by these
  | served hpost hmoves hreqs hposted =>
    rw [answersLeft_congr hreqs]
    exact (Nat.zero_add _).le
  | lost hmoves hreqs hposted =>
    rw [answersLeft_congr hreqs]
    exact (Nat.zero_add _).le
  | settled hpost hmoves hgoes hreqs hposted =>
    have hleft := answersLeft_release (r := r) (fun q => (hgoes q).2) hreqs
    exact (Nat.zero_add _).le.trans hleft
  | other hsends hturns hkeeps hreqs hposted =>
    rw [answersLeft_congr hreqs, if_neg (e.not_answers hturns r)]
    exact (Nat.zero_add _).le

/-! ## What a call waits for -/

/-- A call belongs to an open tab, and awaits only a refresh that is under way. -/
structure InTurn (w : BrowserWorld) : Prop where
  tab : ∀ r q, w.requests.get? r = some q → q.tab ∈ w.tabs.keys
  awaits : ∀ r q, w.requests.get? r = some q → q.pc = .awaiting → w.flight q.tab ≠ none

lemma Quiet.inTurn (h : Quiet sec w) : InTurn w := by
  have hnone : ∀ r q, w.requests.get? r ≠ some q := by simp [h.requests]
  exact ⟨fun r q hq => absurd hq (hnone r q), fun r q hq => absurd hq (hnone r q)⟩

/-- One call changes, and no refresh ends. -/
lemma InTurn.set {q' : ClientRequest} (h : InTurn w) (hkeys : w'.tabs.keys = w.tabs.keys)
    (hflight : ∀ t, w.flight t ≠ none → w'.flight t ≠ none)
    (hreqs : w'.requests = w.requests.set r q') (htab : q'.tab ∈ w.tabs.keys)
    (hawaits : q'.pc = .awaiting → w'.flight q'.tab ≠ none) : InTurn w' := by
  have hcase : ∀ r₁ q₁, w'.requests.get? r₁ = some q₁ →
      q₁ = q' ∨ w.requests.get? r₁ = some q₁ := by
    intro r₁ q₁ hq₁
    rw [hreqs, Dict.get?_set] at hq₁
    split at hq₁
    · exact Or.inl (Option.some.inj hq₁).symm
    · exact Or.inr hq₁
  refine ⟨fun r₁ q₁ hq₁ => ?_, fun r₁ q₁ hq₁ hpc => ?_⟩
  · rw [hkeys]
    rcases hcase r₁ q₁ hq₁ with rfl | hold
    · exact htab
    · exact h.tab r₁ q₁ hold
  · rcases hcase r₁ q₁ hq₁ with rfl | hold
    · exact hawaits hpc
    · exact hflight _ (h.awaits r₁ q₁ hold hpc)

lemma InTurn.congr (h : InTurn w) (hkeys : w'.tabs.keys = w.tabs.keys)
    (hflight : ∀ t, w.flight t ≠ none → w'.flight t ≠ none)
    (hreqs : w'.requests = w.requests) : InTurn w' := by
  refine ⟨fun r q hq => ?_, fun r q hq hpc => ?_⟩
  · rw [hreqs] at hq
    rw [hkeys]
    exact h.tab r q hq
  · rw [hreqs] at hq
    exact hflight _ (h.awaits r q hq hpc)

lemma Moves.flight_ne_none (h : w.Moves w' t f (some fl)) (t' : TabId)
    (hflight : w.flight t' ≠ none) : w'.flight t' ≠ none := by
  rw [h.flight]
  split
  · simp
  · exact hflight

lemma Keeps.flight_ne_none (h : w.Keeps w') (t' : TabId) (hflight : w.flight t' ≠ none) :
    w'.flight t' ≠ none := by rwa [h.flight]

/-- The refresh of a tab ends: the calls that awaited it go on, and the others await another. -/
lemma InTurn.settled {g : ClientRequest → ClientRequest} (h : InTurn w)
    (hmoves : w.Moves w' t f none) (hgoes : ∀ q, (g q).tab = q.tab ∧ (g q).pc ≠ .awaiting)
    (hreqs : w'.requests = w.release t g) : InTurn w' := by
  have hcase : ∀ r q', w'.requests.get? r = some q' → ∃ q, w.requests.get? r = some q ∧
      q'.tab = q.tab ∧ (q'.pc = .awaiting → q.pc = .awaiting ∧ q.tab ≠ t) := by
    intro r q' hq'
    rw [hreqs, release, Dict.get?_mapValues] at hq'
    obtain ⟨q, hq, rfl⟩ := Option.map_eq_some_iff.1 hq'
    refine ⟨q, hq, ?_⟩
    split
    · exact ⟨(hgoes q).1, fun hpc => absurd hpc (hgoes q).2⟩
    · rename_i hother
      exact ⟨rfl, fun hpc => ⟨hpc, fun htab => hother ⟨htab, hpc⟩⟩⟩
  refine ⟨fun r q' hq' => ?_, fun r q' hq' hpc => ?_⟩
  · obtain ⟨q, hq, htab, -⟩ := hcase r q' hq'
    rw [htab, hmoves.keys]
    exact h.tab r q hq
  · obtain ⟨q, hq, htab, hawaits⟩ := hcase r q' hq'
    obtain ⟨hpc, hne⟩ := hawaits hpc
    rw [htab, hmoves.flight, if_neg hne]
    exact h.awaits r q hq hpc

theorem step_inTurn (h : InTurn w) (hcase : TurnCase w e w') : InTurn w' := by
  cases hcase with
  | sent hnew htab hreqs htabs hposted =>
    have hkeeps : w.Keeps w' := Or.inl htabs
    exact h.set hkeeps.keys hkeeps.flight_ne_none hreqs htab (by simp)
  | ended hq hfetching hreqs hkeeps hposted =>
    have htab := h.tab _ _ hq
    exact h.set hkeeps.keys hkeeps.flight_ne_none hreqs htab (by simp)
  | joined hq hfetching hfirst hflight hreqs hkeeps hposted =>
    have htab := h.tab _ _ hq
    exact h.set hkeeps.keys hkeeps.flight_ne_none hreqs htab
      fun _ => hkeeps.flight_ne_none _ hflight
  | started hq hfetching hfirst hmoves hreqs hposted =>
    have htab := h.tab _ _ hq
    refine h.set hmoves.keys hmoves.flight_ne_none hreqs htab fun _ => ?_
    rw [hmoves.flight, if_pos rfl]
    simp
  | served hpost hmoves hreqs hposted => exact h.congr hmoves.keys hmoves.flight_ne_none hreqs
  | lost hmoves hreqs hposted => exact h.congr hmoves.keys hmoves.flight_ne_none hreqs
  | settled hpost hmoves hgoes hreqs hposted =>
    exact h.settled hmoves (fun q => ⟨(hgoes q).1, (hgoes q).2.1⟩) hreqs
  | other hsends hturns hkeeps hreqs hposted =>
    exact h.congr hkeeps.keys hkeeps.flight_ne_none hreqs

lemma exec_inTurn (hstart : Quiet sec start) (h : (system sec cfg).exec start es = some w) :
    InTurn w :=
  System.invariant_of_exec h hstart.inTurn fun _ _ _ hw hstep => step_inTurn hw (step_turn hstep)

lemma Quiet.credit (h : Quiet sec w) (turn post : ℕ) : w.credit turn post = 0 := by
  have hflights : w.flightCost turn turn = 0 := by
    refine Dict.total_eq_zero fun tab htab => ?_
    obtain ⟨t, ht⟩ := Dict.mem_values_iff.1 htab
    rw [← flight_of_tab ht, h.flight]
    rfl
  rw [BrowserWorld.credit, requestCost, h.requests, Dict.total_empty, hflights]

lemma done_of_cost {q : ClientRequest} (h : q.cost 2 1 = 0) : q.pc = .done := by
  cases hpc : q.pc with
  | fetching =>
    rw [ClientRequest.cost_of_fetching 2 1 hpc] at h
    split at h
    · exact absurd h Nat.one_ne_zero
    · exact absurd h two_ne_zero
  | awaiting => exact absurd ((ClientRequest.cost_of_awaiting 2 1 hpc).symm.trans h) Nat.one_ne_zero
  | done => rfl

/-- **The life of a call.**  In every run of a browser whose tabs share a session, a call is answered
twice at the most, after its second answer it is through, and while it waits a refresh of its tab is
under way.  No more refreshes are posted than calls are made. -/
theorem call_answered_twice (hstart : Quiet sec start)
    (h : (system sec cfg).exec start es = some w) (r : RequestId) :
    es.countP (BrowserEvent.answers r) ≤ 2 ∧ w.posted.length ≤ es.countP BrowserEvent.sends ∧
    ∀ q, w.requests.get? r = some q →
      (es.countP (BrowserEvent.answers r) = 2 → q.pc = .done) ∧
      (q.pc = .awaiting → w.flight q.tab ≠ none) := by
  have hanswers : es.countP (BrowserEvent.answers r) + w.answersLeft r ≤ 2 := by
    have hrun := System.exec_credit (I := fun _ => True) (fun _ _ _ _ _ => trivial)
      (fun w e w' _ hstep => step_answers r (step_turn hstep)) h trivial
    have hnew : start.answersLeft r = 2 := answersLeft_of_none (by simp [hstart.requests])
    have hgrant : System.amount (fun _ : BrowserEvent => 0) es = 0 := by simp [System.amount]
    rwa [System.amount_ite, hnew, hgrant, Nat.one_mul, Nat.add_zero] at hrun
  have hposts := exec_pays 0 1 h
  rw [hstart.posted, hstart.credit, List.length_nil] at hposts
  refine ⟨by omega, by omega, fun q hq => ⟨fun htwice => ?_, (exec_inTurn hstart h).awaits r q hq⟩⟩
  rw [answersLeft_of_get? hq] at hanswers
  exact done_of_cost (by omega)

/-- Two calls of one tab meet an expired access token together.  The second joins the refresh the
first one started, and the first is answered again. -/
def joinedRefresh : List BrowserEvent :=
  [.send 0 0 (some "a0"), .send 1 0 (some "a0"), .respond 0 401, .respond 1 401, .serve 0 "r1",
    .settle 0, .respond 0 200]

theorem joined_refresh_answered : ∃ w, (system .plain {}).exec twoTabs joinedRefresh = some w ∧
    joinedRefresh.countP (BrowserEvent.answers 0) ≤ 2 ∧
    w.posted.length ≤ joinedRefresh.countP BrowserEvent.sends ∧
    ∀ q, w.requests.get? 0 = some q →
      (joinedRefresh.countP (BrowserEvent.answers 0) = 2 → q.pc = .done) ∧
      (q.pc = .awaiting → w.flight q.tab ≠ none) := by
  have hexec : ((system .plain {}).exec twoTabs joinedRefresh).isSome = true := by decide +kernel
  obtain ⟨w, hw⟩ := Option.isSome_iff_exists.1 hexec
  exact ⟨w, hw, call_answered_twice quiet_twoTabs hw 0⟩

/-! ## Coming to rest -/

/-- Every call is through, and no refresh is under way. -/
def Rests (w : BrowserWorld) : Prop :=
  (∀ r q, w.requests.get? r = some q → q.pc = .done) ∧ ∀ t, w.flight t = none

/-- A refresh in flight is served or ends. -/
lemma exists_turn_of_flight (h : w.flight t = some fl) :
    ∃ e w', e.turns = true ∧ step sec cfg w e = some w' := by
  obtain ⟨tab, htab, hflight⟩ := Option.bind_eq_some_iff.1 h
  obtain ⟨tok, post⟩ := fl
  cases post with
  | sent =>
    refine ⟨.serve t "", w.onRefresh sec cfg t tab tok "", rfl, ?_⟩
    simp only [step, htab, hflight]
  | answered session =>
    obtain ⟨w', hw'⟩ : ∃ w', w.onRefreshed t tab (.answered session) = some w' := ⟨_, rfl⟩
    refine ⟨.settle t, w', rfl, ?_⟩
    simp only [step, htab, hflight, Option.bind_some, hw']
  | failed =>
    obtain ⟨w', hw'⟩ : ∃ w', w.onRefreshed t tab .failed = some w' := ⟨_, rfl⟩
    refine ⟨.settle t, w', rfl, ?_⟩
    simp only [step, htab, hflight, Option.bind_some, hw']

lemma exists_turn_of_fetching (h : InTurn w) (hq : w.requests.get? r = some q)
    (hfetching : q.pc = .fetching) : ∃ e w', e.turns = true ∧ step sec cfg w e = some w' := by
  obtain ⟨tab, htab⟩ := Dict.mem_keys_iff.1 (h.tab r q hq)
  refine ⟨.respond r 200, w.onResponse r q tab 200, rfl, ?_⟩
  simp only [step, hq, htab, Option.map_some]
  exact if_pos hfetching

/-- **No call is stuck.**  As long as something is under way, the network has a turn. -/
theorem exists_turn (h : InTurn w) (hbusy : ¬ Rests w) :
    ∃ e w', e.turns = true ∧ step sec cfg w e = some w' := by
  by_cases hflights : ∀ t, w.flight t = none
  · have hcalls : ∃ r q, w.requests.get? r = some q ∧ q.pc ≠ .done := by
      by_contra hnone
      push Not at hnone
      exact hbusy ⟨hnone, hflights⟩
    obtain ⟨r, q, hq, hpc⟩ := hcalls
    cases hcase : q.pc with
    | fetching => exact exists_turn_of_fetching h hq hcase
    | awaiting => exact absurd (hflights q.tab) (h.awaits r q hq hcase)
    | done => exact absurd hcase hpc
  · push Not at hflights
    obtain ⟨t, ht⟩ := hflights
    obtain ⟨fl, hfl⟩ := Option.ne_none_iff_exists'.1 ht
    exact exists_turn_of_flight hfl

/-- **A browser comes to rest.**  Wherever a run of it has led, there is a list of turns of the
network, with no further call and no help from the user, that gets every call through and ends every
refresh; with what the run took, four turns for each call are enough. -/
theorem browser_rests (hstart : Quiet sec start) (h : (system sec cfg).exec start es = some w) :
    ∃ es' w', (∀ e ∈ es', e.turns = true) ∧
      es.countP BrowserEvent.turns + es'.length ≤ 4 * es.countP BrowserEvent.sends ∧
      (system sec cfg).exec w es' = some w' ∧ Rests w' := by
  have hnext : ∀ w, InTurn w → ¬ Rests w → ∃ e w', e.turns = true ∧
      (system sec cfg).step w e = some w' ∧ w'.credit 1 0 < w.credit 1 0 := by
    intro w hw hbusy
    obtain ⟨e, w', hturns, hstep⟩ : ∃ e w', e.turns = true ∧ step sec cfg w e = some w' :=
      exists_turn hw hbusy
    have hpays := step_pays 1 0 (step_turn hstep)
    rw [if_pos hturns, if_neg (e.not_sends hturns)] at hpays
    exact ⟨e, w', hturns, hstep, by omega⟩
  obtain ⟨es', w', hes', hlen, hexec, hrests⟩ := System.exec_drain
    (fun w e w' hw hstep => step_inTurn hw (step_turn hstep)) hnext (exec_inTurn hstart h)
  have hpaid := exec_pays 1 0 h
  rw [hstart.credit] at hpaid
  exact ⟨es', w', hes', by omega, hexec, hrests⟩

theorem joined_refresh_rests : ∃ w es' w', (system .plain {}).exec twoTabs joinedRefresh = some w ∧
    (∀ e ∈ es', e.turns = true) ∧ joinedRefresh.countP BrowserEvent.turns + es'.length ≤
      4 * joinedRefresh.countP BrowserEvent.sends ∧
    (system .plain {}).exec w es' = some w' ∧ Rests w' := by
  have hexec : ((system .plain {}).exec twoTabs joinedRefresh).isSome = true := by decide +kernel
  obtain ⟨w, hw⟩ := Option.isSome_iff_exists.1 hexec
  obtain ⟨es', w', hrest⟩ := browser_rests quiet_twoTabs hw
  exact ⟨w, es', w', hw, hrest⟩

end BrowserWorld

end TickerWatch
