import TickerWatch.Foundations.System
import TickerWatch.Client.UsePollPrices
import TickerWatch.Client.Drain
import TickerWatch.Client.UsePushPrices

/-!
# Overlapping loads

Both hooks load the watchlist without waiting for a load that is under way: a timer or a connection
asks for one, and so does every security that was added or removed.  Each answer replaces what is
displayed when it arrives, whichever load it answers.  `SearchBar` numbers its requests and drops
what is out of order; the hooks do not.

A hook is what it does at the start and at the end of a load.  Around it stand the server's
watchlist, the loads and the calls that change the watchlist, and they are the same for both.
-/

namespace TickerWatch

universe u

variable {P : Type u} {σ ε : Type u}

/-- The items have one of the ticker. -/
def Lists (items : List (WatchlistItem P)) (t : Ticker) : Prop := ∃ it ∈ items, it.ticker = t

/-- The items are of the same securities. -/
def SameSecurities (items items' : List (WatchlistItem P)) : Prop :=
  ∀ t, Lists items t ↔ Lists items' t

/-- The items are of the securities of the watchlist. -/
def ItemsOf (items : List (WatchlistItem P)) (members : List MemberRow) : Prop :=
  ∀ t, Lists items t ↔ ∃ row ∈ members, row.ticker = t

lemma SameSecurities.trans {items items' items'' : List (WatchlistItem P)}
    (h : SameSecurities items items') (h' : SameSecurities items' items'') :
    SameSecurities items items'' := fun t => (h t).trans (h' t)

lemma SameSecurities.symm {items items' : List (WatchlistItem P)}
    (h : SameSecurities items items') : SameSecurities items' items := fun t => (h t).symm

/-- A hook that loads the watchlist: `σ` is its state, and `ε` what else can happen to it.
`usePollPrices` and `usePushPrices` are two of them, and the world around them is the same. -/
structure LoadHook (σ ε : Type u) (P : Type u) where
  initial : σ
  beginLoad : σ → σ
  finishLoad : σ → List (WatchlistItem P) → σ
  failLoad : σ → String → σ
  handle : σ → ε → σ
  /-- What it displays. -/
  items : σ → List (WatchlistItem P)

/-- What an added or removed security does to the watchlist. -/
inductive MembershipChange
  | add (row : MemberRow)
  | remove (id : SecurityId)

/-- The watchlist after the change. -/
def MembershipChange.apply (members : List MemberRow) : MembershipChange → List MemberRow
  | .add row => if row ∈ members then members else members ++ [row]
  | .remove id => members.filter fun row => decide (row.id ≠ id)

/-- A call of `add` or `remove` that waits for its answer; once the server has carried it out, how
many loads had been issued then. -/
structure MembershipCall where
  change : MembershipChange
  servedAt : Option ℕ

/-- The hook, the server's watchlist, and what is under way between them.  Loads are numbered as
they are issued; their answers may arrive in any order, and the hook is not told which load an
answer belongs to. -/
structure LoadWorld (σ : Type u) (P : Type u) where
  hook : σ
  members : List MemberRow
  /-- History: how many loads had been issued when the watchlist last changed. -/
  changedAt : ℕ
  issued : ℕ
  /-- The loads without an answer yet, with what the server has read for them. -/
  underway : Dict ℕ (Option (List (WatchlistItem P)))
  /-- History: the answers that have arrived. -/
  arrived : Dict ℕ (List (WatchlistItem P))
  calls : Dict ℕ MembershipCall

/-- What can happen.  `reload` is a tick of the timer, a connect or a reconnect. -/
inductive LoadEvent (ε : Type u) (P : Type u)
  | reload
  | call (c : ℕ) (change : MembershipChange)
  | serve (c : ℕ)
  | answer (c : ℕ)
  | read (n : ℕ) (prices : Dict SecurityId (Price P))
  | respond (n : ℕ)
  | fail (n : ℕ) (message : String)
  | handle (e : ε)

namespace LoadWorld

/-! ## The runs -/

section Runs

variable (H : LoadHook σ ε P)

/-- A page that has loaded nothing yet. -/
def fresh (members : List MemberRow) : LoadWorld σ P where
  hook := H.initial
  members := members
  changedAt := 0
  issued := 0
  underway := .empty
  arrived := .empty
  calls := .empty

/-- The hook issues a load. -/
def issue (w : LoadWorld σ P) : LoadWorld σ P :=
  { w with
    hook := H.beginLoad w.hook
    underway := w.underway.set w.issued none
    issued := w.issued + 1 }

/-- The answer of a load arrives. -/
def receive (w : LoadWorld σ P) (n : ℕ) (items : List (WatchlistItem P)) : LoadWorld σ P :=
  { w with
    hook := H.finishLoad w.hook items
    underway := w.underway.erase n
    arrived := w.arrived.set n items }

/-- The server carries out a call. -/
def carryOut (w : LoadWorld σ P) (c : ℕ) (change : MembershipChange) : LoadWorld σ P :=
  { w with
    members := change.apply w.members
    changedAt := w.issued
    calls := w.calls.set c ⟨change, some w.issued⟩ }

/-- The server reads the watchlist for a load. -/
def serveLoad (w : LoadWorld σ P) (n : ℕ) (prices : Dict SecurityId (Price P)) : LoadWorld σ P :=
  { w with
    underway := w.underway.set n (some (w.members.map fun row => row.toItem (prices.get? row.id))) }

/-- One event.  `add` and `remove` call `refresh` when their call has been answered. -/
def step (w : LoadWorld σ P) : LoadEvent ε P → Option (LoadWorld σ P)
  | .reload => some (w.issue H)
  | .call c change =>
    if w.calls.contains c then none else some { w with calls := w.calls.set c ⟨change, none⟩ }
  | .serve c =>
    match w.calls.get? c with
    | some ⟨change, none⟩ => some (w.carryOut c change)
    | _ => none
  | .answer c =>
    match w.calls.get? c with
    | some ⟨_, some _⟩ => some ({ w with calls := w.calls.erase c }.issue H)
    | _ => none
  | .read n prices =>
    match w.underway.get? n with
    | some none => some (w.serveLoad n prices)
    | _ => none
  | .respond n =>
    match w.underway.get? n with
    | some (some items) => some (w.receive H n items)
    | _ => none
  | .fail n message =>
    if w.underway.contains n then
      some { w with hook := H.failLoad w.hook message, underway := w.underway.erase n }
    else none
  | .handle e => some { w with hook := H.handle w.hook e }

/-- The runs of a page. -/
def system : System (LoadWorld σ P) (LoadEvent ε P) where
  init w := ∃ members, w = fresh H members
  step w e := w.step H e

/-- The display is of the securities of the load issued last among those whose answers have
arrived. -/
def ShowsLatest (w : LoadWorld σ P) : Prop :=
  ∀ n items, w.arrived.Latest n items → SameSecurities (H.items w.hook) items

/-- All answers are in: no load is under way, the load issued last has arrived, and it was issued
after every change the server has carried out. -/
def Settled (w : LoadWorld σ P) : Prop :=
  w.underway.keys = [] ∧ (∃ n ∈ w.arrived.keys, n + 1 = w.issued) ∧
  ∀ c call, w.calls.get? c = some call → ∀ n, call.servedAt = some n → n < w.issued

/-- The last request wins, and once all answers are in, the display is of the securities of the
watchlist. -/
def LastRequestWins (w : LoadWorld σ P) : Prop :=
  w.ShowsLatest H ∧ (w.Settled → ItemsOf (H.items w.hook) w.members)

/-- An answer that arrives after the answer of a load issued later is of the same securities. -/
def InOrder (w : LoadWorld σ P) : LoadEvent ε P → Prop
  | .respond n => ∀ items, w.underway.get? n = some (some items) → ∀ m latest,
    w.arrived.Latest m latest → m < n ∨ SameSecurities items latest
  | _ => True

end Runs

/-! ## What an event preserves -/

/-- What a hook's functions do to what it displays: a load that ends replaces it, and nothing else
changes which securities are in it.  `Fits` is what holds of its state. -/
structure Displays (H : LoadHook σ ε P) (Fits : σ → Prop) : Prop where
  initial : Fits H.initial
  beginLoad : ∀ s, Fits s →
    Fits (H.beginLoad s) ∧ SameSecurities (H.items (H.beginLoad s)) (H.items s)
  finishLoad : ∀ s items, Fits s →
    Fits (H.finishLoad s items) ∧ SameSecurities (H.items (H.finishLoad s items)) items
  failLoad : ∀ s message, Fits s →
    Fits (H.failLoad s message) ∧ SameSecurities (H.items (H.failLoad s message)) (H.items s)
  handle : ∀ s e, Fits s → Fits (H.handle s e) ∧ SameSecurities (H.items (H.handle s e)) (H.items s)

/-- The bookkeeping of loads and changes: a load is issued before it is answered, and one that was
issued after the last change shows the watchlist as it is. -/
structure Sound (w : LoadWorld σ P) : Prop where
  underway_lt : ∀ n ∈ w.underway.keys, n < w.issued
  arrived_lt : ∀ n ∈ w.arrived.keys, n < w.issued
  apart : ∀ n ∈ w.underway.keys, n ∉ w.arrived.keys
  changedAt_le : w.changedAt ≤ w.issued
  /-- What was issued after the last change shows the watchlist as it is. -/
  read_current : ∀ n items, w.underway.get? n = some (some items) → w.changedAt ≤ n →
    ItemsOf items w.members
  arrived_current : ∀ n items, w.arrived.get? n = some items → w.changedAt ≤ n →
    ItemsOf items w.members
  /-- A change after which nothing was issued still waits for its answer. -/
  unanswered : w.changedAt = w.issued → w.issued = 0 ∨
    ∃ c call, w.calls.get? c = some call ∧ call.servedAt = some w.issued

variable {H : LoadHook σ ε P} {w w' : LoadWorld σ P} {e : LoadEvent ε P} {Fits : σ → Prop}

/-- What the server reads is of the securities of the watchlist. -/
lemma itemsOf_read (members : List MemberRow) (prices : Dict SecurityId (Price P)) :
    ItemsOf (members.map fun row => row.toItem (prices.get? row.id)) members := by
  intro t
  simp [Lists, MemberRow.toItem]

lemma sound_fresh (members : List MemberRow) : (fresh H members).Sound where
  underway_lt := fun n hn => absurd hn List.not_mem_nil
  arrived_lt := fun n hn => absurd hn List.not_mem_nil
  apart := fun n hn => absurd hn List.not_mem_nil
  changedAt_le := le_rfl
  read_current := fun n items hget => absurd hget (by simp [fresh])
  arrived_current := fun n items hget => absurd hget (by simp [fresh])
  unanswered := fun _ => Or.inl rfl

/-- A load that is issued comes after every change, whatever calls still wait. -/
lemma Sound.issue (hs : w.Sound) (calls : Dict ℕ MembershipCall) :
    ({ w with calls := calls }.issue H).Sound where
  underway_lt := by
    intro n hn
    rcases Dict.mem_keys_set.1 hn with rfl | hn
    · exact Nat.lt_succ_self _
    · exact (hs.underway_lt n hn).trans (Nat.lt_succ_self _)
  arrived_lt := fun n hn => (hs.arrived_lt n hn).trans (Nat.lt_succ_self _)
  apart := by
    intro n hn
    rcases Dict.mem_keys_set.1 hn with rfl | hn
    · exact fun harrived => lt_irrefl _ (hs.arrived_lt _ harrived)
    · exact hs.apart n hn
  changedAt_le := hs.changedAt_le.trans (Nat.le_succ _)
  read_current := by
    intro n items hget
    by_cases hn : n = w.issued
    · subst hn
      rw [LoadWorld.issue, Dict.get?_set_self] at hget
      exact absurd hget (by simp)
    · exact hs.read_current n items ((Dict.get?_set_ne _ _ hn).symm.trans hget)
  arrived_current := hs.arrived_current
  unanswered := fun heq => absurd (hs.changedAt_le.trans_lt (Nat.lt_succ_self _)) heq.not_lt

lemma Sound.call (hs : w.Sound) {c : ℕ} (hnew : w.calls.get? c = none) (change : MembershipChange) :
    { w with calls := w.calls.set c ⟨change, none⟩ }.Sound :=
  { hs with
    unanswered := fun heq => (hs.unanswered heq).imp_right fun ⟨c', call, hget, hserved⟩ =>
      ⟨c', call, (Dict.get?_set_ne _ _ (Dict.ne_of_get? hnew hget)).trans hget, hserved⟩ }

lemma Sound.carryOut (hs : w.Sound) (c : ℕ) (change : MembershipChange) :
    (w.carryOut c change).Sound where
  underway_lt := hs.underway_lt
  arrived_lt := hs.arrived_lt
  apart := hs.apart
  changedAt_le := le_rfl
  read_current := fun n _ hget hle =>
    absurd (hs.underway_lt n (Dict.mem_keys_iff.2 ⟨_, hget⟩)) (not_lt.2 hle)
  arrived_current := fun n _ hget hle =>
    absurd (hs.arrived_lt n (Dict.mem_keys_iff.2 ⟨_, hget⟩)) (not_lt.2 hle)
  unanswered := fun _ => Or.inr ⟨c, _, Dict.get?_set_self _ _ _, rfl⟩

lemma Sound.serveLoad (hs : w.Sound) {n : ℕ} (hn : n ∈ w.underway.keys)
    (prices : Dict SecurityId (Price P)) : (w.serveLoad n prices).Sound where
  underway_lt := by
    intro m hm
    rcases Dict.mem_keys_set.1 hm with rfl | hm
    · exact hs.underway_lt m hn
    · exact hs.underway_lt m hm
  arrived_lt := hs.arrived_lt
  apart := by
    intro m hm
    rcases Dict.mem_keys_set.1 hm with rfl | hm
    · exact hs.apart m hn
    · exact hs.apart m hm
  changedAt_le := hs.changedAt_le
  read_current := by
    intro m items hget hle
    by_cases hm : m = n
    · subst hm
      rw [LoadWorld.serveLoad, Dict.get?_set_self] at hget
      obtain rfl := Option.some.inj (Option.some.inj hget)
      exact itemsOf_read _ _
    · exact hs.read_current m items ((Dict.get?_set_ne _ _ hm).symm.trans hget) hle
  arrived_current := hs.arrived_current
  unanswered := hs.unanswered

lemma Sound.erase (hs : w.Sound) (n : ℕ) (hook : σ) :
    { w with hook := hook, underway := w.underway.erase n }.Sound :=
  { hs with
    underway_lt := fun m hm => hs.underway_lt m (Dict.mem_keys_erase.1 hm).1
    apart := fun m hm => hs.apart m (Dict.mem_keys_erase.1 hm).1
    read_current := by
      intro m items hget
      rw [Dict.get?_erase] at hget
      split at hget
      · exact absurd hget (by simp)
      · exact hs.read_current m items hget }

lemma Sound.receive (hs : w.Sound) {n : ℕ} {items : List (WatchlistItem P)}
    (hget : w.underway.get? n = some (some items)) : (w.receive H n items).Sound where
  underway_lt := (hs.erase n w.hook).underway_lt
  arrived_lt := by
    intro m hm
    rcases Dict.mem_keys_set.1 hm with rfl | hm
    · exact hs.underway_lt m (Dict.mem_keys_iff.2 ⟨_, hget⟩)
    · exact hs.arrived_lt m hm
  apart := by
    intro m hm harrived
    obtain ⟨hm, hne⟩ := Dict.mem_keys_erase.1 hm
    rcases Dict.mem_keys_set.1 harrived with rfl | harrived
    · exact hne rfl
    · exact hs.apart m hm harrived
  changedAt_le := hs.changedAt_le
  read_current := (hs.erase n w.hook).read_current
  arrived_current := by
    intro m items' hget' hle
    by_cases hm : m = n
    · subst hm
      rw [LoadWorld.receive, Dict.get?_set_self] at hget'
      obtain rfl := Option.some.inj hget'
      exact hs.read_current m items hget hle
    · exact hs.arrived_current m items' ((Dict.get?_set_ne _ _ hm).symm.trans hget') hle
  unanswered := hs.unanswered

/-- **What an event does**: the bookkeeping stays, and only an answer that arrives can change what
is displayed. -/
lemma step_cases (hd : Displays H Fits) (hs : w.Sound) (hf : Fits w.hook)
    (h : w.step H e = some w') : w'.Sound ∧ Fits w'.hook ∧
    ((∃ n items, e = .respond n ∧ w.underway.get? n = some (some items) ∧
        w' = w.receive H n items) ∨
      (∀ n, e ≠ .respond n) ∧ w'.arrived = w.arrived ∧
        SameSecurities (H.items w'.hook) (H.items w.hook)) := by
  have hsame : SameSecurities (H.items w.hook) (H.items w.hook) := fun _ => Iff.rfl
  cases e with
  -- a request is issued, and what is shown stays
  | reload =>
    obtain rfl := Option.some.inj h
    obtain ⟨hfits, hitems⟩ := hd.beginLoad w.hook hf
    exact ⟨hs.issue w.calls, hfits, Or.inr ⟨by simp, rfl, hitems⟩⟩
  | call c change =>
    simp only [step] at h
    split at h
    · exact absurd h (by simp)
    · rename_i hnew
      obtain rfl := Option.some.inj h
      have hnone : w.calls.get? c = none := Dict.get?_eq_none_iff.2 (by simpa using hnew)
      exact ⟨hs.call hnone change, hf, Or.inr ⟨by simp, rfl, hsame⟩⟩
  | serve c =>
    simp only [step] at h
    split at h
    · obtain rfl := Option.some.inj h
      exact ⟨hs.carryOut c _, hf, Or.inr ⟨by simp, rfl, hsame⟩⟩
    · exact absurd h (by simp)
  -- the call has changed the list, so the hook asks for it again
  | answer c =>
    simp only [step] at h
    split at h
    · obtain rfl := Option.some.inj h
      obtain ⟨hfits, hitems⟩ := hd.beginLoad w.hook hf
      exact ⟨hs.issue _, hfits, Or.inr ⟨by simp, rfl, hitems⟩⟩
    · exact absurd h (by simp)
  | read n prices =>
    simp only [step] at h
    split at h
    · rename_i hget
      obtain rfl := Option.some.inj h
      exact ⟨hs.serveLoad (Dict.mem_keys_iff.2 ⟨_, hget⟩) prices, hf, Or.inr ⟨by simp, rfl, hsame⟩⟩
    · exact absurd h (by simp)
  -- only a response changes what is shown
  | respond n =>
    simp only [step] at h
    split at h
    · rename_i items hget
      obtain rfl := Option.some.inj h
      exact ⟨hs.receive hget, (hd.finishLoad w.hook items hf).1, Or.inl ⟨n, items, rfl, hget, rfl⟩⟩
    · exact absurd h (by simp)
  | fail n message =>
    simp only [step] at h
    split at h
    · obtain rfl := Option.some.inj h
      obtain ⟨hfits, hitems⟩ := hd.failLoad w.hook message hf
      exact ⟨hs.erase n _, hfits, Or.inr ⟨by simp, rfl, hitems⟩⟩
    · exact absurd h (by simp)
  -- what else reaches the hook are prices
  | handle e =>
    obtain rfl := Option.some.inj h
    obtain ⟨hfits, hitems⟩ := hd.handle w.hook e hf
    exact ⟨{ hs with }, hfits, Or.inr ⟨by simp, rfl, hitems⟩⟩

/-- When the last request wins so far, all is well once all answers are in. -/
lemma ShowsLatest.wins (h : w.ShowsLatest H) (hs : w.Sound) : w.LastRequestWins H := by
  refine ⟨h, ?_⟩
  rintro ⟨-, ⟨n, hn, hissued⟩, hcalls⟩ t
  obtain ⟨items, hget⟩ := Dict.mem_keys_iff.1 hn
  have hlatest : w.arrived.Latest n items :=
    ⟨hget, fun m hm => by have hlt := hs.arrived_lt m hm; omega⟩
  -- what changed last was answered, so a load was issued after it
  have hchanged : w.changedAt ≤ n := by
    have hle := hs.changedAt_le
    by_contra hlate
    obtain hzero | ⟨c, call, hcall, hserved⟩ := hs.unanswered (by omega)
    · omega
    · exact lt_irrefl _ (hcalls c call hcall _ hserved)
  exact (h n items hlatest t).trans (hs.arrived_current n items hget hchanged t)

/-- An answer keeps the last request winning exactly if it comes in order. -/
lemma showsLatest_receive_iff (hd : Displays H Fits) (hs : w.Sound) (hf : Fits w.hook)
    {n : ℕ} {items : List (WatchlistItem P)}
    (hget : w.underway.get? n = some (some items)) :
    (w.receive H n items).ShowsLatest H ↔ w.InOrder (.respond n : LoadEvent ε P) := by
  have hnew : n ∉ w.arrived.keys := hs.apart n (Dict.mem_keys_iff.2 ⟨_, hget⟩)
  have hdisplay : SameSecurities (H.items (w.receive H n items).hook) items :=
    (hd.finishLoad w.hook items hf).2
  constructor
  · intro h items' hget' m latest hlatest
    obtain rfl := Option.some.inj (Option.some.inj (hget.symm.trans hget'))
    -- the response is of the latest request, or there was a later one
    rcases lt_or_ge m n with hlt | hge
    · exact Or.inl hlt
    · have hne : n ≠ m := fun heq => hnew (heq ▸ Dict.mem_keys_iff.2 ⟨_, hlatest.1⟩)
      exact Or.inr (hdisplay.symm.trans
        (h m latest (hlatest.set_of_lt items (lt_of_le_of_ne hge hne))))
  · intro h m latest hlatest
    rcases w.arrived.exists_latest with hnil | ⟨k, newest, hnewest⟩
    · have hlast : (w.arrived.set n items).Latest n items :=
        Dict.latest_set_of_lt items (by simp [hnil])
      obtain ⟨-, rfl⟩ := hlast.unique hlatest
      exact hdisplay
    · have hne : n ≠ k := fun heq => hnew (heq ▸ Dict.mem_keys_iff.2 ⟨_, hnewest.1⟩)
      rcases lt_or_gt_of_ne hne with hlt | hgt
      · -- the answer is late, so what it shows has to be what is shown
        obtain ⟨-, rfl⟩ := (hnewest.set_of_lt items hlt).unique hlatest
        exact hdisplay.trans ((h items hget k newest hnewest).resolve_left hlt.not_gt)
      · have hlast : (w.arrived.set n items).Latest n items :=
          Dict.latest_set_of_lt items fun k' hk' => (hnewest.2 k' hk').trans_lt hgt
        obtain ⟨-, rfl⟩ := hlast.unique hlatest
        exact hdisplay

/-- **One event.**  It leaves the last request winning exactly if it comes in order. -/
lemma wins_step_iff (hd : Displays H Fits) (hs : w.Sound) (hf : Fits w.hook)
    (hg : w.ShowsLatest H) (e : LoadEvent ε P) :
    (∀ w', w.step H e = some w' → w'.LastRequestWins H) ↔ w.InOrder e := by
  constructor
  · intro h
    cases e with
    | respond n =>
      intro items hget
      have hstep : w.step H (.respond n) = some (w.receive H n items) := by simp only [step, hget]
      exact (showsLatest_receive_iff hd hs hf hget).1 (h _ hstep).1 items hget
    | _ => exact trivial
  · intro h w' hstep
    obtain ⟨hs', -, ⟨n, items, rfl, hget, rfl⟩ | ⟨-, harrived, hitems⟩⟩ := step_cases hd hs hf hstep
    · exact ShowsLatest.wins ((showsLatest_receive_iff hd hs hf hget).2 h) hs'
    · refine ShowsLatest.wins (fun n items hlatest => ?_) hs'
      rw [harrived] at hlatest
      exact hitems.trans (hg n items hlatest)

/-- **A run.**  The last request wins after every event exactly if all of them come in order. -/
lemma along_wins_iff (hd : Displays H Fits) (members : List MemberRow) (es : List (LoadEvent ε P)) :
    (system H).Along (fun w e => ∀ w', w.step H e = some w' → w'.LastRequestWins H)
      (fresh H members) es ↔ (system H).Along InOrder (fresh H members) es := by
  refine System.along_iff (I := fun w => w.Sound ∧ Fits w.hook ∧ w.ShowsLatest H) ?_ ?_ es ?_
  · rintro w e w' ⟨hs, hf, hg⟩ horder hstep
    obtain ⟨hs', hf', -⟩ := step_cases hd hs hf hstep
    exact ⟨hs', hf', ((wins_step_iff hd hs hf hg e).2 horder w' hstep).1⟩
  · rintro w e ⟨hs, hf, hg⟩
    exact wins_step_iff hd hs hf hg e
  · refine ⟨sound_fresh members, hd.initial, fun n items hlatest => ?_⟩
    exact absurd hlatest.1 (by simp [fresh])

end LoadWorld

/-! ## The two hooks -/

/-- `usePollWatchlist`. -/
def pollHook [DecidableEq P] : LoadHook (PollClient P) PEmpty.{u + 1} P where
  initial := .initial
  beginLoad := id
  finishLoad := PollClient.finishRefresh
  failLoad := PollClient.failRefresh
  handle s _ := s
  items := PollClient.items

/-- What happens to the push hook besides its loads. -/
inductive PushHandled (P : Type u)
  | effect
  | cleanup
  | publication (ev : Publication P)

/-- What the hook does then. -/
def PushHandled.on (s : PushClient P) : PushHandled P → PushClient P
  | .effect => s.connect
  | .cleanup => s.cleanup
  | .publication ev => s.onPublication ev

/-- `usePushWatchlist`. -/
def pushHook : LoadHook (PushClient P) (PushHandled P) P where
  initial := .initial
  beginLoad := PushClient.beginResync
  finishLoad := PushClient.finishResync
  failLoad := PushClient.failResync
  handle := PushHandled.on
  items := PushClient.items

lemma displays_pollHook [DecidableEq P] :
    LoadWorld.Displays (pollHook : LoadHook (PollClient P) _ P) fun _ => True where
  initial := trivial
  beginLoad := fun _ _ => ⟨trivial, fun _ => Iff.rfl⟩
  finishLoad := fun _ _ _ => ⟨trivial, fun _ => Iff.rfl⟩
  failLoad := fun _ _ _ => ⟨trivial, fun _ => Iff.rfl⟩
  handle := fun _ _ _ => ⟨trivial, fun _ => Iff.rfl⟩

namespace PushClient

/-- The applied state names every item by its ticker, and it is what is displayed. -/
structure Applied (s : PushClient P) : Prop where
  named : ∀ t it, s.byTicker.get? t = some it → it.ticker = t
  shown : ∀ t, Lists s.items t ↔ t ∈ s.byTicker.keys

variable {s : PushClient P}

lemma lists_values {d : Dict Ticker (WatchlistItem P)}
    (hd : ∀ t it, d.get? t = some it → it.ticker = t) (t : Ticker) :
    Lists d.values t ↔ t ∈ d.keys := by
  rw [Dict.mem_keys_iff]
  constructor
  · rintro ⟨it, hit, rfl⟩
    obtain ⟨t, hget⟩ := Dict.mem_values_iff.1 hit
    rw [hd t it hget]
    exact ⟨it, hget⟩
  · rintro ⟨it, hget⟩
    exact ⟨it, Dict.mem_values_iff.2 ⟨t, hget⟩, hd t it hget⟩

lemma Applied.publish (hs : ∀ t it, s.byTicker.get? t = some it → it.ticker = t)
    (moved : List SecurityId) : (s.publish moved).Applied := ⟨hs, lists_values hs⟩

lemma named_applyEvents {d : Dict Ticker (WatchlistItem P)}
    (hd : ∀ t it, d.get? t = some it → it.ticker = t) (evs : List (Publication P)) :
    ∀ t it, (applyEvents d evs).get? t = some it → it.ticker = t := by
  intro t it hget
  rw [get?_applyEvents] at hget
  obtain ⟨cur, hcur, rfl⟩ := Option.map_eq_some_iff.1 hget
  rw [WatchlistItem.ticker_foldl]
  exact hd t cur hcur

/-- A publication may change an item, not which items there are. -/
lemma Applied.onPublication (hs : s.Applied) (ev : Publication P) :
    (s.onPublication ev).Applied ∧ (s.onPublication ev).byTicker.keys = s.byTicker.keys := by
  cases hbuffering : s.buffering with
  | true =>
    rw [onPublication_of_buffering hbuffering]
    exact ⟨⟨hs.named, hs.shown⟩, rfl⟩
  | false =>
    refine ⟨?_, by rw [byTicker_onPublication hbuffering, keys_applyEvent]⟩
    unfold PushClient.onPublication
    rw [hbuffering, if_neg Bool.false_ne_true]
    split
    · exact hs
    · exact Applied.publish (named_applyEvents hs.named [ev]) _

lemma applied_finishResync (s : PushClient P) (items : List (WatchlistItem P)) :
    (s.finishResync items).Applied ∧
      ∀ t, t ∈ (s.finishResync items).byTicker.keys ↔ Lists items t := by
  obtain ⟨hbyTicker, -⟩ := finishResync_spec s items
  have hnamed : ∀ t it, (s.finishResync items).byTicker.get? t = some it → it.ticker = t := by
    rw [hbyTicker]
    exact named_applyEvents (fun t it hget => (of_get?_ofItems hget).2) s.buffer
  refine ⟨⟨hnamed, lists_values hnamed⟩, fun t => ?_⟩
  rw [hbyTicker, keys_applyEvents, ← Dict.contains_iff]
  exact contains_ofItems

lemma applied_initial : (initial : PushClient P).Applied where
  named := fun t it hget => absurd hget (by simp [initial])
  shown := fun t => by simp [initial, Lists, Dict.keys, Dict.empty]

end PushClient

/-- The push hook displays what it loaded last. -/
lemma displays_pushHook :
    LoadWorld.Displays (pushHook : LoadHook (PushClient P) _ P) PushClient.Applied where
  initial := PushClient.applied_initial
  beginLoad := fun s hs => ⟨⟨hs.named, hs.shown⟩, fun _ => Iff.rfl⟩
  finishLoad := by
    intro s items _
    obtain ⟨happlied, hkeys⟩ := PushClient.applied_finishResync s items
    exact ⟨happlied, fun t => (happlied.shown t).trans (hkeys t)⟩
  failLoad := fun s _ hs => ⟨⟨hs.named, hs.shown⟩, fun _ => Iff.rfl⟩
  handle := by
    intro s e hs
    cases e with
    | effect => exact ⟨⟨hs.named, hs.shown⟩, fun _ => Iff.rfl⟩
    | cleanup =>
      have hcleanup : s.cleanup = { s with subs := [], hasClient := false } := s.cleanup_eq
      show s.cleanup.Applied ∧ SameSecurities s.cleanup.items s.items
      rw [hcleanup]
      exact ⟨⟨hs.named, hs.shown⟩, fun _ => Iff.rfl⟩
    | publication ev =>
      obtain ⟨happlied, hkeys⟩ := hs.onPublication ev
      refine ⟨happlied, fun t => ?_⟩
      show Lists (s.onPublication ev).items t ↔ Lists s.items t
      rw [happlied.shown, hkeys, hs.shown]

namespace LoadWorld

/-- **When the last request wins**, with either hook.  Over any run, every answer leaves displayed
what was loaded last, and all answers together leave the watchlist displayed, exactly if no answer
that arrives late is of other securities than the latest one. -/
theorem last_request_wins_iff [DecidableEq P] (members : List MemberRow) :
    (∀ es : List (LoadEvent PEmpty.{u + 1} P),
      (system pollHook).Along (fun w e => ∀ w', w.step pollHook e = some w' →
          w'.LastRequestWins pollHook) (fresh pollHook members) es ↔
        (system pollHook).Along InOrder (fresh pollHook members) es) ∧
    ∀ es : List (LoadEvent (PushHandled P) P),
      (system pushHook).Along (fun w e => ∀ w', w.step pushHook e = some w' →
          w'.LastRequestWins pushHook) (fresh pushHook members) es ↔
        (system pushHook).Along InOrder (fresh pushHook members) es :=
  ⟨along_wins_iff displays_pollHook members, along_wins_iff displays_pushHook members⟩

/-! ## An answer that arrives late -/

section Overtaken

variable {σ ε : Type}

/-- The watchlist has one security, the answers of two loads are in, and nothing is displayed. -/
def Lost (H : LoadHook σ ε ℕ) (w : LoadWorld σ ℕ) : Prop :=
  w.members.map MemberRow.ticker = ["AAPL"] ∧ w.issued = 2 ∧ w.underway.keys = [] ∧
    w.arrived.keys = [1, 0] ∧ w.calls.keys = [] ∧ (H.items w.hook).isEmpty = true

instance (H : LoadHook σ ε ℕ) (w : LoadWorld σ ℕ) : Decidable (Lost H w) :=
  inferInstanceAs (Decidable (_ ∧ _))

lemma Lost.not_wins {H : LoadHook σ ε ℕ} {w : LoadWorld σ ℕ} (h : Lost H w) :
    ¬ w.LastRequestWins H := by
  obtain ⟨hmembers, hissued, hunderway, harrived, hcalls, hitems⟩ := h
  rintro ⟨-, hsettled⟩
  have hnone : ∀ c call, w.calls.get? c = some call → False := fun c call hget =>
    absurd (hcalls ▸ Dict.mem_keys_iff.2 ⟨call, hget⟩) List.not_mem_nil
  have hitemsOf := hsettled ⟨hunderway, ⟨1, by simp [harrived], hissued.symm⟩,
    fun c call hget => (hnone c call hget).elim⟩
  have hlisted : ∃ row ∈ w.members, row.ticker = "AAPL" :=
    List.mem_map.1 (hmembers ▸ List.mem_singleton_self _)
  obtain ⟨it, hit, -⟩ := (hitemsOf "AAPL").2 hlisted
  rw [List.isEmpty_iff.1 hitems] at hit
  exact absurd hit List.not_mem_nil

/-- A run that loses the security is no run in which the last request wins. -/
lemma not_along_of_lost {H : LoadHook σ ε ℕ} (es : List (LoadEvent ε ℕ)) (e : LoadEvent ε ℕ)
    (h : ((system H).exec (fresh H []) es).any (fun w => (w.step H e).any fun w' =>
      decide (Lost H w')) = true) :
    ¬ ∀ es, (system H).Along (fun w e => ∀ w', w.step H e = some w' → w'.LastRequestWins H)
      (fresh H []) es := by
  intro hall
  obtain ⟨w, hw, hlast⟩ := (Option.any_eq_true _ _).1 h
  obtain ⟨w', hw', hlost⟩ := (Option.any_eq_true _ _).1 hlast
  exact (of_decide_eq_true hlost).not_wins ((hall (es ++ [e])).of_exec hw w' hw')

/-- A load, an added security, the load that follows it, and the answer of that load. -/
def overtaking : List (LoadEvent ε ℕ) :=
  [.reload, .read 0 .empty, .call 0 (.add ⟨1, "AAPL", "Apple Inc.", none⟩), .serve 0, .answer 0,
    .read 1 .empty, .respond 1]

/-- **The added security is not shown**, with either hook, when the answer of the first load arrives
last. -/
theorem added_not_shown :
    (¬ ∀ es : List (LoadEvent PEmpty ℕ), (system pollHook).Along (fun w e => ∀ w',
      w.step pollHook e = some w' → w'.LastRequestWins pollHook) (fresh pollHook []) es) ∧
    ¬ ∀ es : List (LoadEvent (PushHandled ℕ) ℕ), (system pushHook).Along (fun w e => ∀ w',
      w.step pushHook e = some w' → w'.LastRequestWins pushHook) (fresh pushHook []) es :=
  ⟨not_along_of_lost overtaking (.respond 0) (by decide +kernel),
    not_along_of_lost (.handle .effect :: overtaking) (.respond 0) (by decide +kernel)⟩

end Overtaken

end LoadWorld
end TickerWatch
