import TickerWatch.Auth.Concurrency

/-!
# What every interleaving keeps

`Consistent` holds in every world that calls reach in any order: a token value names one row for
good, a row lock has one holder and its row stays live, and a row that was exchanged or redeemed is
dead.

The statements fall into a few kinds by what they do to the calls and the rows, and there is one
lemma for each kind: most only let a call forget or kill rows (`Consistent.forget`); the others find
a row, lock one, insert one, commit an exchange, or issue a token of their own.
-/

namespace TickerWatch
namespace AuthWorld

variable {sec : Crypto} {cfg : AuthSettings} {w w' : AuthWorld} {c c' : CallId} {call call' : Call}
  {id id' : TokenId} {tok fresh : String} {u : UserId} {row : RefreshTokenRow}

/-! ## The calls of a world -/

/-- A refresh of `x.1` has found the row `x.2.1`, of the user `x.2.2`. -/
def Presents (w : AuthWorld) (c : CallId) (x : String × TokenId × UserId) : Prop :=
  ∃ call, w.calls.get? c = some call ∧ call.presents = some x

/-- The call is in the transaction that exchanges the row. -/
def Exchanging (w : AuthWorld) (c : CallId) (id : TokenId) : Prop :=
  ∃ call, w.calls.get? c = some call ∧ call.exchanging = some id

/-- The call locks the row. -/
def Holds (w : AuthWorld) (c : CallId) (id : TokenId) : Prop :=
  ∃ call, w.calls.get? c = some call ∧ call.holds = some id

/-- The call has inserted a row it has not committed. -/
def Inserted (w : AuthWorld) (c : CallId) (x : TokenId × RefreshTokenRow) : Prop :=
  ∃ call, w.calls.get? c = some call ∧ call.inserted = some x

/-- The call has returned a session for the row. -/
def Redeemed (w : AuthWorld) (c : CallId) (id : TokenId) : Prop :=
  ∃ call, w.calls.get? c = some call ∧ call.redeemed = some id

lemma anyCall_eq_false_iff {p : Call → Bool} :
    w.anyCall p = false ↔ ∀ c call, w.calls.get? c = some call → p call = false := by
  rw [anyCall, List.any_eq_false]
  constructor
  · intro h c call hc
    have hmem : call ∈ w.calls.values :=
      List.mem_map_of_mem (f := Prod.snd) (Dict.get?_eq_some_iff.1 hc)
    rw [← Bool.not_eq_true]
    exact h call hmem
  · intro h call hmem
    obtain ⟨⟨c, call'⟩, he, rfl⟩ := List.mem_map.1 hmem
    rw [h c call' (Dict.get?_eq_some_iff.2 he)]
    exact Bool.false_ne_true

lemma locked_eq_false_iff : w.locked id = false ↔ ∀ c, ¬ w.Holds c id := by
  rw [locked, anyCall_eq_false_iff]
  constructor
  · rintro h c ⟨call, hc, hholds⟩
    exact absurd (h c call hc) (by simp [hholds])
  · intro h c call hc
    rw [decide_eq_false_iff_not]
    exact fun hholds => h c ⟨call, hc, hholds⟩

lemma live_eq_true_iff : w.live id = true ↔ ∃ row, w.db.token id = some row ∧ row.live = true := by
  rw [live, Option.any_eq_true]

lemma get?_put (w : AuthWorld) (c : CallId) (call : Call) (c' : CallId) :
    (w.put c call).calls.get? c' = if c' = c then some call else w.calls.get? c' :=
  Dict.get?_set _ _ _ _

/-- A fact about the calls after one of them moved: it is about that call, or it held before. -/
lemma of_moved {α : Type*} {f : Call → Option α} {x : α}
    (hcalls : ∀ c', w'.calls.get? c' = if c' = c then some call' else w.calls.get? c')
    (h : ∃ d, w'.calls.get? c' = some d ∧ f d = some x) :
    (c' = c ∧ f call' = some x) ∨ (c' ≠ c ∧ ∃ d, w.calls.get? c' = some d ∧ f d = some x) := by
  obtain ⟨d, hd, hf⟩ := h
  rw [hcalls] at hd
  split at hd
  · rename_i heq
    obtain rfl := Option.some.inj hd
    exact Or.inl ⟨heq, hf⟩
  · rename_i hne
    exact Or.inr ⟨hne, d, hd, hf⟩

lemma of_moved_none {α : Type*} {f : Call → Option α} {x : α}
    (hcalls : ∀ c', w'.calls.get? c' = if c' = c then some call' else w.calls.get? c')
    (h : ∃ d, w'.calls.get? c' = some d ∧ f d = some x) (hnone : f call' = none) :
    c' ≠ c ∧ ∃ d, w.calls.get? c' = some d ∧ f d = some x := by
  refine (of_moved hcalls h).resolve_left ?_
  rintro ⟨-, hx⟩
  exact absurd (hnone.symm.trans hx) (by simp)

lemma of_moved_kept {α : Type*} {f : Call → Option α} {x : α} {call : Call}
    (hcalls : ∀ c', w'.calls.get? c' = if c' = c then some call' else w.calls.get? c')
    (hc : w.calls.get? c = some call) (hkept : f call' = some x → f call = some x)
    (h : ∃ d, w'.calls.get? c' = some d ∧ f d = some x) :
    ∃ d, w.calls.get? c' = some d ∧ f d = some x := by
  rcases of_moved hcalls h with ⟨rfl, hx⟩ | ⟨-, hx⟩
  · exact ⟨call, hc, hkept hx⟩
  · exact hx

lemma of_unmoved {α : Type*} {f : Call → Option α} {x : α}
    (hcalls : ∀ c', w'.calls.get? c' = if c' = c then some call' else w.calls.get? c')
    (hne : c' ≠ c) (h : ∃ d, w.calls.get? c' = some d ∧ f d = some x) :
    ∃ d, w'.calls.get? c' = some d ∧ f d = some x := by
  obtain ⟨d, hd, hf⟩ := h
  exact ⟨d, by rw [hcalls, if_neg hne, hd], hf⟩

/-- A relation with one left side for each right side stays so when a pair with a new right side is
added. -/
lemma unique_add {α β : Type*} {R R' : α → β → Prop} {a : α} {b : β}
    (hunique : ∀ x x' y, R x y → R x' y → x = x')
    (hadd : ∀ x y, R' x y → (x = a ∧ y = b) ∨ R x y) (hnew : ∀ x, ¬ R x b) :
    ∀ x x' y, R' x y → R' x' y → x = x' := by
  intro x x' y h h'
  rcases hadd x y h with ⟨rfl, rfl⟩ | h
  · rcases hadd x' y h' with ⟨rfl, -⟩ | h'
    · rfl
    · exact absurd h' (hnew x')
  · rcases hadd x' y h' with ⟨rfl, rfl⟩ | h'
    · exact absurd h (hnew x)
    · exact hunique x x' y h h'

/-- A call that no fact is about: it is no refresh between its checks and its return.  Putting such
a call into a world leaves every statement about the others as it was. -/
structure Silent (call : Call) : Prop where
  presents : call.presents = none
  exchanging : call.exchanging = none
  holds : call.holds = none
  inserted : call.inserted = none
  redeemed : call.redeemed = none

/-! ## The invariant -/

/-- What holds in every world: the rows are those of the lineage, each under a hash of its own, a
row that has been exchanged is dead, and a row that a transaction has locked or inserted is that of
no other call. -/
structure Consistent (sec : Crypto) (w : AuthWorld) : Prop where
  row_lineage : ∀ id row, w.db.token id = some row → ∃ l, w.lineage.get? id = some l ∧
    l.tokenHash = row.tokenHash ∧ l.user = row.userId
  lineage_lt : ∀ id l, w.lineage.get? id = some l → id < w.db.refreshTokens.nextId
  lineage_minted : ∀ id l, w.lineage.get? id = some l →
    ∃ t ∈ w.minted, sec.hashRefreshToken t = l.tokenHash
  lineage_unique : ∀ id id' l l', w.lineage.get? id = some l → w.lineage.get? id' = some l' →
    l.tokenHash = l'.tokenHash → id = id'
  parent_dead : ∀ id l p, w.lineage.get? id = some l → l.parent = some p →
    ∃ lp, w.lineage.get? p = some lp ∧ lp.user = l.user ∧ w.live p = false
  presents : ∀ c tok id u, w.Presents c (tok, id, u) → ∃ l, w.lineage.get? id = some l ∧
    l.tokenHash = sec.hashRefreshToken tok ∧ l.user = u
  holds_live : ∀ c id, w.Holds c id → w.live id = true
  holds_unique : ∀ c c' id, w.Holds c id → w.Holds c' id → c = c'
  exchanging : ∀ c id, w.Exchanging c id → w.Holds c id ∨ w.live id = false
  inserted : ∀ c id row, w.Inserted c (id, row) → id < w.db.refreshTokens.nextId ∧
    w.lineage.get? id = none ∧ (∃ t ∈ w.minted, sec.hashRefreshToken t = row.tokenHash) ∧
    ∀ id' l, w.lineage.get? id' = some l → l.tokenHash ≠ row.tokenHash
  inserted_unique : ∀ c c' x x', w.Inserted c x → w.Inserted c' x' → c ≠ c' →
    x.1 ≠ x'.1 ∧ x.2.tokenHash ≠ x'.2.tokenHash
  inserts_own : ∀ c tok id user hit newId newRow session, w.calls.get? c =
    some (.refresh tok (.commit id user hit newId newRow session)) →
    newRow.userId = user.id ∧ session.user.id = user.id
  redeemed_dead : ∀ c id, w.Redeemed c id → w.live id = false

lemma Consistent.lineage_nextId {sec : Crypto} {w : AuthWorld} (h : Consistent sec w) :
    w.lineage.get? w.db.refreshTokens.nextId = none := by
  cases hl : w.lineage.get? w.db.refreshTokens.nextId with
  | none => rfl
  | some l => exact absurd (h.lineage_lt _ l hl) (lt_irrefl _)

/-- A step after which no row is more alive and no call knows more than before, but for a row that a
refresh has found. -/
structure Forgets (sec : Crypto) (w w' : AuthWorld) : Prop where
  token : ∀ id row', w'.db.token id = some row' → ∃ row, w.db.token id = some row ∧
    row'.tokenHash = row.tokenHash ∧ row'.userId = row.userId ∧
    (row'.live = true → row.live = true)
  held : ∀ c id, w'.Holds c id → w.live id = true → w'.live id = true
  nextId : w.db.refreshTokens.nextId ≤ w'.db.refreshTokens.nextId
  lineage : w'.lineage = w.lineage
  minted : ∀ t ∈ w.minted, t ∈ w'.minted
  presents : ∀ c tok id u, w'.Presents c (tok, id, u) → w.Presents c (tok, id, u) ∨
    ∃ row, w.db.token id = some row ∧ row.tokenHash = sec.hashRefreshToken tok ∧ row.userId = u
  exchanging : ∀ c id, w'.Exchanging c id →
    w.Exchanging c id ∧ (w.Holds c id → w'.Holds c id)
  holds : ∀ c id, w'.Holds c id → w.Holds c id
  inserted : ∀ c x, w'.Inserted c x → w.Inserted c x
  inserts_own : ∀ c tok id user hit newId newRow session, w'.calls.get? c =
    some (.refresh tok (.commit id user hit newId newRow session)) → w.calls.get? c =
    some (.refresh tok (.commit id user hit newId newRow session))
  redeemed : ∀ c id, w'.Redeemed c id → w.Redeemed c id

lemma Forgets.dead (hf : Forgets sec w w') (h : w.live id = false) : w'.live id = false := by
  rw [← Bool.not_eq_true, live_eq_true_iff] at h ⊢
  rintro ⟨row', hrow', hlive'⟩
  obtain ⟨row, hrow, -, -, hlive⟩ := hf.token id row' hrow'
  exact h ⟨row, hrow, hlive hlive'⟩

/-- Forgetting keeps the invariant. -/
theorem Consistent.forget (h : Consistent sec w) (hf : Forgets sec w w') : Consistent sec w' where
  row_lineage := by
    intro id row' hrow'
    obtain ⟨row, hrow, hhash, huser, -⟩ := hf.token id row' hrow'
    obtain ⟨l, hl, hlhash, hluser⟩ := h.row_lineage id row hrow
    rw [hf.lineage]
    exact ⟨l, hl, hlhash.trans hhash.symm, hluser.trans huser.symm⟩
  lineage_lt := by
    intro id l hl
    rw [hf.lineage] at hl
    exact (h.lineage_lt id l hl).trans_le hf.nextId
  lineage_minted := by
    intro id l hl
    rw [hf.lineage] at hl
    obtain ⟨t, ht, hhash⟩ := h.lineage_minted id l hl
    exact ⟨t, hf.minted t ht, hhash⟩
  lineage_unique := by
    rw [hf.lineage]
    exact h.lineage_unique
  -- a parent that was dead stays dead: rows only die here
  parent_dead := by
    intro id l p hl hp
    rw [hf.lineage] at hl ⊢
    obtain ⟨lp, hlp, huser, hdead⟩ := h.parent_dead id l p hl hp
    exact ⟨lp, hlp, huser, hf.dead hdead⟩
  -- a refresh that has just read its row presents a row that was there, which has its history
  presents := by
    intro c tok id u hc
    rw [hf.lineage]
    rcases hf.presents c tok id u hc with hold | ⟨row, hrow, hhash, huser⟩
    · exact h.presents c tok id u hold
    · obtain ⟨l, hl, hlhash, hluser⟩ := h.row_lineage id row hrow
      exact ⟨l, hl, hlhash.trans hhash, hluser.trans huser⟩
  holds_live := by
    intro c id hc
    exact hf.held c id hc (h.holds_live c id (hf.holds c id hc))
  holds_unique := by
    intro c c' id hc hc'
    exact h.holds_unique c c' id (hf.holds c id hc) (hf.holds c' id hc')
  -- a transaction that goes on keeps its lock, and otherwise its row is dead already
  exchanging := by
    intro c id hc
    obtain ⟨hold, hkept⟩ := hf.exchanging c id hc
    rcases h.exchanging c id hold with hholds | hdead
    · exact Or.inl (hkept hholds)
    · exact Or.inr (hf.dead hdead)
  inserted := by
    intro c id row hc
    obtain ⟨hlt, hnone, ⟨t, ht, hhash⟩, hne⟩ := h.inserted c id row (hf.inserted c _ hc)
    rw [hf.lineage]
    exact ⟨hlt.trans_le hf.nextId, hnone, ⟨t, hf.minted t ht, hhash⟩, hne⟩
  inserted_unique := by
    intro c c' x x' hc hc'
    exact h.inserted_unique c c' x x' (hf.inserted c x hc) (hf.inserted c' x' hc')
  inserts_own := by
    intro c tok id user hit newId newRow session hc
    exact h.inserts_own c tok id user hit newId newRow session (hf.inserts_own _ _ _ _ _ _ _ _ hc)
  redeemed_dead := by
    intro c id hc
    exact hf.dead (h.redeemed_dead c id (hf.redeemed c id hc))

/-- A call that moves on and knows no more than before, while the rows are only killed. -/
lemma forgets_of_call
    (hcalls : ∀ c', w'.calls.get? c' = if c' = c then some call' else w.calls.get? c')
    (htoken : ∀ id row', w'.db.token id = some row' → ∃ row, w.db.token id = some row ∧
      row'.tokenHash = row.tokenHash ∧ row'.userId = row.userId ∧
      (row'.live = true → row.live = true))
    (hheld : ∀ c' id, c' ≠ c → w.Holds c' id → w.live id = true → w'.live id = true)
    (hnext : w.db.refreshTokens.nextId ≤ w'.db.refreshTokens.nextId)
    (hlineage : w'.lineage = w.lineage) (hminted : ∀ t ∈ w.minted, t ∈ w'.minted)
    (hpresents : ∀ tok id u, call'.presents = some (tok, id, u) → w.Presents c (tok, id, u) ∨
      ∃ row, w.db.token id = some row ∧ row.tokenHash = sec.hashRefreshToken tok ∧ row.userId = u)
    (hexchanging : call'.exchanging = none) (hholds : call'.holds = none)
    (hinserted : call'.inserted = none) (hredeemed : call'.redeemed = none) :
    Forgets sec w w' where
  token := htoken
  -- only the other calls hold anything, and what they hold is not touched
  held := by
    intro c' id hx hlive
    obtain ⟨hne, h⟩ := of_moved_none hcalls hx hholds
    exact hheld c' id hne h hlive
  nextId := hnext
  lineage := hlineage
  minted := hminted
  -- the call that moved may have read a row just now
  presents := by
    intro c' tok id u hx
    rcases of_moved hcalls hx with ⟨rfl, h⟩ | ⟨-, h⟩
    · exact hpresents tok id u h
    · exact Or.inl h
  exchanging := by
    intro c' x hx
    obtain ⟨hne, h⟩ := of_moved_none hcalls hx hexchanging
    exact ⟨h, fun hold => of_unmoved hcalls hne hold⟩
  holds := by
    intro c' x hx
    obtain ⟨-, h⟩ := of_moved_none hcalls hx hholds
    exact h
  inserted := by
    intro c' x hx
    obtain ⟨-, h⟩ := of_moved_none hcalls hx hinserted
    exact h
  inserts_own := by
    intro c' tok id user hit newId newRow session hc'
    rw [hcalls] at hc'
    split at hc'
    · obtain rfl := Option.some.inj hc'
      exact absurd hinserted (by simp [Call.inserted])
    · exact hc'
  redeemed := by
    intro c' x hx
    obtain ⟨-, h⟩ := of_moved_none hcalls hx hredeemed
    exact h

/-- A call that moves on and keeps the row it presents. -/
lemma forgets_put (hpresents : ∀ tok id u, call'.presents = some (tok, id, u) →
      w.Presents c (tok, id, u) ∨
      ∃ row, w.db.token id = some row ∧ row.tokenHash = sec.hashRefreshToken tok ∧ row.userId = u)
    (hexchanging : call'.exchanging = none) (hholds : call'.holds = none)
    (hinserted : call'.inserted = none) (hredeemed : call'.redeemed = none) :
    Forgets sec w (w.put c call') :=
  forgets_of_call (w.get?_put c call') (fun _ row' hrow' => ⟨row', hrow', rfl, rfl, id⟩)
    (fun _ _ _ _ hlive => hlive) le_rfl rfl (fun _ ht => ht) hpresents hexchanging hholds hinserted
    hredeemed

lemma forgets_put_silent (h : Silent call') : Forgets sec w (w.put c call') :=
  forgets_put (fun _ _ _ hp => absurd (h.presents.symm.trans hp) (by simp)) h.exchanging h.holds
    h.inserted h.redeemed

/-- A silent call that kills rows which nobody locks. -/
lemma forgets_kill (h : Silent call') {since : Timestamp} {p : TokenId → RefreshTokenRow → Bool}
    (hp : ∀ id row, p id row = true → w.locked id = false) :
    Forgets sec w { w.put c call' with db := w.db.revokeWhere since p } := by
  refine forgets_of_call (w.get?_put c call') ?_ ?_ le_rfl rfl
    (fun _ ht => ht) (fun _ _ _ hp => absurd (h.presents.symm.trans hp) (by simp)) h.exchanging
    h.holds h.inserted h.redeemed
  · intro id row' hrow'
    obtain ⟨row, hrow, rfl⟩ := AuthDb.exists_token_of_revokeWhere hrow'
    refine ⟨row, hrow, ?_⟩
    split
    · exact ⟨rfl, rfl, fun hlive => absurd hlive (by simp)⟩
    · exact ⟨rfl, rfl, fun hlive => hlive⟩
  · intro c' id _ hc' hlive
    obtain ⟨row, hrow, hrowlive⟩ := live_eq_true_iff.1 hlive
    have hnot : p id row = false := by
      rw [← Bool.not_eq_true]
      exact fun hpr => locked_eq_false_iff.1 (hp id row hpr) c' hc'
    refine live_eq_true_iff.2 ⟨row, ?_, hrowlive⟩
    change (w.db.revokeWhere since p).token id = some row
    rw [AuthDb.token_revokeWhere, hrow, Option.map_some, hnot]
    rfl

/-! ## The transaction of a refresh -/

/-- Locking a free row, or finding it dead. -/
lemma Consistent.lock (h : Consistent sec w) {user : User} {hit : Option Timestamp}
    (hc : w.calls.get? c = some (.refresh tok (.revoke id user))) (hfree : w.locked id = false)
    (hhit : hit = if w.live id then some w.now else none) :
    Consistent sec (w.put c (.refresh tok (.issue id user hit))) := by
  have hmoved := w.get?_put c (.refresh tok (.issue id user hit))
  -- a lock that is held afterwards was held before, or is the one of this UPDATE, which hit a live
  -- row
  have hholds : ∀ c' id', (w.put c (.refresh tok (.issue id user hit))).Holds c' id' →
      w.Holds c' id' ∨ (c' = c ∧ id' = id ∧ w.live id = true) := by
    intro c' id' hx
    replace hx := of_moved hmoved hx
    rcases hx with ⟨rfl, hx⟩ | ⟨-, hx⟩
    · by_cases hlive : w.live id = true
      · rw [if_pos hlive] at hhit
        subst hhit
        exact Or.inr ⟨rfl, (Option.some.inj hx).symm, hlive⟩
      · rw [if_neg hlive] at hhit
        subst hhit
        exact absurd hx (by simp [Call.holds])
    · exact Or.inl hx
  refine ⟨h.row_lineage, h.lineage_lt, h.lineage_minted, h.lineage_unique, h.parent_dead, ?_, ?_,
    ?_, ?_, ?_, ?_, ?_, ?_⟩
  · intro c' tok' id' u hx
    replace hx := of_moved_kept (f := Call.presents) hmoved hc (fun hx => hx) hx
    exact h.presents c' tok' id' u hx
  · intro c' id' hx
    rcases hholds c' id' hx with hold | ⟨-, rfl, hlive⟩
    · exact h.holds_live c' id' hold
    · exact hlive
  -- nobody held this lock: the statement waits while somebody does
  · refine unique_add (a := c) h.holds_unique (fun c' id' hx => ?_) (locked_eq_false_iff.1 hfree)
    rcases hholds c' id' hx with hold | ⟨hc', hid, -⟩
    · exact Or.inr hold
    · exact Or.inl ⟨hc', hid⟩
  · intro c' id' hx
    replace hx := of_moved hmoved hx
    rcases hx with ⟨rfl, hx⟩ | ⟨hne, hx⟩
    · obtain rfl := Option.some.inj hx
      -- an UPDATE that finds its row dead locks nothing, and the transaction goes on all the same
      by_cases hlive : w.live id = true
      · rw [if_pos hlive] at hhit
        subst hhit
        exact Or.inl ⟨_, by rw [hmoved, if_pos rfl], rfl⟩
      · exact Or.inr (Bool.not_eq_true _ ▸ hlive)
    · rcases h.exchanging c' id' hx with hold | hdead
      · exact Or.inl (of_unmoved hmoved hne hold)
      · exact Or.inr hdead
  · intro c' id' row hx
    obtain ⟨-, hx⟩ := of_moved_none hmoved hx rfl
    exact h.inserted c' id' row hx
  · intro c₁ c₂ x₁ x₂ h₁ h₂
    obtain ⟨-, h₁⟩ := of_moved_none hmoved h₁ rfl
    obtain ⟨-, h₂⟩ := of_moved_none hmoved h₂ rfl
    exact h.inserted_unique c₁ c₂ x₁ x₂ h₁ h₂
  · intro c' tok' id' user' hit' newId newRow session hc'
    rw [hmoved] at hc'
    split at hc'
    · exact absurd hc' (by simp)
    · exact h.inserts_own c' tok' id' user' hit' newId newRow session hc'
  · intro c' id' hx
    obtain ⟨-, hx⟩ := of_moved_none hmoved hx rfl
    exact h.redeemed_dead c' id' hx

/-- Inserting a row with a new id and a fresh token, not committed yet. -/
lemma Consistent.insert (h : Consistent sec w) {user : User} {hit : Option Timestamp}
    {newRow : RefreshTokenRow} {session : Session}
    (hc : w.calls.get? c = some (.refresh tok (.issue id user hit))) (hfresh : fresh ∉ w.minted)
    (hhash : newRow.tokenHash = sec.hashRefreshToken fresh) (huser : newRow.userId = user.id)
    (hsession : session.user.id = user.id) :
    Consistent sec { w.put c (.refresh tok (.commit id user hit w.db.refreshTokens.nextId newRow
      session)) with db := w.db.nextTokenId, minted := fresh :: w.minted } := by
  have hmoved := w.get?_put c (.refresh tok (.commit id user hit w.db.refreshTokens.nextId newRow
    session))
  -- the drawn token is fresh and the hash injective, so no other row has this hash
  have hnew : ∀ t ∈ w.minted, sec.hashRefreshToken t ≠ newRow.tokenHash := by
    intro t ht heq
    rw [hhash] at heq
    exact hfresh (sec.hash_injective heq ▸ ht)
  have hnewId : w.lineage.get? w.db.refreshTokens.nextId = none := h.lineage_nextId
  have hlt : w.db.refreshTokens.nextId < w.db.nextTokenId.refreshTokens.nextId := lt_add_one _
  -- the insert changes no lock
  have hholds : ∀ c' id', (w.put c (.refresh tok (.commit id user hit w.db.refreshTokens.nextId
      newRow session))).Holds c' id' → w.Holds c' id' := fun c' id' hx =>
    of_moved_kept (f := Call.holds) hmoved hc (fun hx => by cases hit <;> exact hx) hx
  refine ⟨h.row_lineage, fun id l hl => (h.lineage_lt id l hl).trans hlt, ?_, h.lineage_unique,
    h.parent_dead, ?_, ?_, ?_, ?_, ?_, ?_, ?_, ?_⟩
  · intro id' l hl
    obtain ⟨t, ht, heq⟩ := h.lineage_minted id' l hl
    exact ⟨t, List.mem_cons_of_mem _ ht, heq⟩
  · intro c' tok' id' u hx
    replace hx := of_moved_kept (f := Call.presents) hmoved hc (fun hx => hx) hx
    exact h.presents c' tok' id' u hx
  · exact fun c' id' hx => h.holds_live c' id' (hholds c' id' hx)
  · intro c₁ c₂ id' h₁ h₂
    exact h.holds_unique c₁ c₂ id' (hholds c₁ id' h₁) (hholds c₂ id' h₂)
  · intro c' id' hx
    replace hx := of_moved hmoved hx
    rcases hx with ⟨rfl, hx⟩ | ⟨hne, hx⟩
    -- the call that inserts keeps the lock it had, if its UPDATE hit
    · rcases h.exchanging c' id' ⟨_, hc, hx⟩ with ⟨d, hd, hholds⟩ | hdead
      · obtain rfl := Option.some.inj (hc.symm.trans hd)
        refine Or.inl ⟨_, by rw [hmoved, if_pos rfl], ?_⟩
        cases hit <;> exact hholds
      · exact Or.inr hdead
    · rcases h.exchanging c' id' hx with hold | hdead
      · exact Or.inl (of_unmoved hmoved hne hold)
      · exact Or.inr hdead
  · intro c' id' row hx
    replace hx := of_moved hmoved hx
    rcases hx with ⟨rfl, hx⟩ | ⟨-, hx⟩
    · obtain ⟨rfl, rfl⟩ := Prod.mk.inj (Option.some.inj hx)
      refine ⟨hlt, hnewId, ⟨fresh, List.mem_cons_self, hhash.symm⟩, fun id' l hl heq => ?_⟩
      obtain ⟨t, ht, hlhash⟩ := h.lineage_minted id' l hl
      exact hnew t ht (hlhash.trans heq)
    · obtain ⟨hlt', hnone, ⟨t, ht, heq⟩, hne⟩ := h.inserted c' id' row hx
      exact ⟨hlt'.trans hlt, hnone, ⟨t, List.mem_cons_of_mem _ ht, heq⟩, hne⟩
  · -- an older insertion has an id below the sequence and a token drawn before
    have hold : ∀ c' x, w.Inserted c' x → x.1 ≠ w.db.refreshTokens.nextId ∧
        x.2.tokenHash ≠ newRow.tokenHash := by
      rintro c' ⟨id', row⟩ hx
      obtain ⟨hlt', -, ⟨t, ht, heq⟩, -⟩ := h.inserted c' id' row hx
      exact ⟨ne_of_lt hlt', fun hsame => hnew t ht (heq.trans hsame)⟩
    intro c₁ c₂ x₁ x₂ h₁ h₂ hne
    replace h₁ := of_moved hmoved h₁
    replace h₂ := of_moved hmoved h₂
    rcases h₁ with ⟨rfl, h₁⟩ | ⟨-, h₁⟩ <;> rcases h₂ with ⟨heq, h₂⟩ | ⟨-, h₂⟩
    · exact absurd heq.symm hne
    · obtain rfl := Option.some.inj h₁
      exact ⟨(hold c₂ x₂ h₂).1.symm, (hold c₂ x₂ h₂).2.symm⟩
    · obtain rfl := Option.some.inj h₂
      exact hold c₁ x₁ h₁
    · exact h.inserted_unique c₁ c₂ x₁ x₂ h₁ h₂ hne
  · intro c' tok' id' user' hit' newId newRow' session' hc'
    change (w.put c _).calls.get? c' = _ at hc'
    rw [hmoved] at hc'
    split at hc'
    · simp only [Option.some.injEq, Call.refresh.injEq, RefreshPc.commit.injEq] at hc'
      obtain ⟨-, -, rfl, -, -, rfl, rfl⟩ := hc'
      exact ⟨huser, hsession⟩
    · exact h.inserts_own c' tok' id' user' hit' newId newRow' session' hc'
  · intro c' id' hx
    obtain ⟨-, hx⟩ := of_moved_none hmoved hx rfl
    exact h.redeemed_dead c' id' hx

/-- A refresh that has returned found the row it returned for. -/
lemma Redeemed.presents (h : w.Redeemed c id) : ∃ tok u, w.Presents c (tok, id, u) := by
  obtain ⟨call, hc, hred⟩ := h
  unfold Call.redeemed at hred
  split at hred
  · rename_i tok id' session
    obtain rfl := Option.some.inj hred
    exact ⟨tok, session.user.id, _, hc, rfl⟩
  · exact absurd hred (by simp)

lemma Exchanging.presents (h : w.Exchanging c id) : ∃ tok u, w.Presents c (tok, id, u) := by
  obtain ⟨call, hc, hexch⟩ := h
  unfold Call.exchanging at hexch
  split at hexch
  · rename_i tok id' user hit
    obtain rfl := Option.some.inj hexch
    exact ⟨tok, user.id, _, hc, rfl⟩
  · rename_i tok id' user hit newId newRow session
    obtain rfl := Option.some.inj hexch
    exact ⟨tok, user.id, _, hc, rfl⟩
  · exact absurd hexch (by simp)

/-- The rows and the history after a row was added, which a commit and the insert of a login have in
common: the one has a parent, the other none. -/
structure Adds (w w' : AuthWorld) (newId : TokenId) (newRow : RefreshTokenRow)
    (parent : Option TokenId) : Prop where
  token : ∀ id, w'.db.token id = if id = newId then some newRow else w.db.token id
  nextId : w.db.refreshTokens.nextId ≤ w'.db.refreshTokens.nextId
  lt : newId < w'.db.refreshTokens.nextId
  lineage : w'.lineage = w.lineage.set newId ⟨newRow.tokenHash, newRow.userId, parent⟩
  minted : w'.minted = w.minted

lemma Adds.get?_lineage {newId : TokenId} {newRow : RefreshTokenRow} {parent : Option TokenId}
    (ha : Adds w w' newId newRow parent) (id : TokenId) : w'.lineage.get? id =
      if id = newId then some ⟨newRow.tokenHash, newRow.userId, parent⟩
      else w.lineage.get? id := by
  rw [ha.lineage, Dict.get?_set]

lemma Adds.live {newId : TokenId} {newRow : RefreshTokenRow} {parent : Option TokenId}
    (ha : Adds w w' newId newRow parent) (hid : id ≠ newId) : w'.live id = w.live id := by
  rw [AuthWorld.live, ha.token, if_neg hid, AuthWorld.live]

/-- A row that has a history keeps it, and is as alive as before. -/
lemma Adds.kept {newId : TokenId} {newRow : RefreshTokenRow} {parent : Option TokenId} {l : Lineage}
    (ha : Adds w w' newId newRow parent) (hnone : w.lineage.get? newId = none)
    (hl : w.lineage.get? id = some l) :
    w'.lineage.get? id = some l ∧ w'.live id = w.live id := by
  have hne : id ≠ newId := Dict.ne_of_get? hnone hl
  exact ⟨by rw [ha.get?_lineage, if_neg hne, hl], ha.live hne⟩

/-- A new row, of a token nobody else has drawn, and a call that holds nothing any more. -/
lemma Consistent.add (h : Consistent sec w) (c : CallId) (call' : Call) {newId : TokenId}
    {newRow : RefreshTokenRow} {parent : Option TokenId} (ha : Adds w w' newId newRow parent)
    (hcalls : ∀ c', w'.calls.get? c' = if c' = c then some call' else w.calls.get? c')
    (hnone : w.lineage.get? newId = none)
    (hminted : ∃ t ∈ w.minted, sec.hashRefreshToken t = newRow.tokenHash)
    (hhash : ∀ id l, w.lineage.get? id = some l → l.tokenHash ≠ newRow.tokenHash)
    (hinserted : ∀ c' x, c' ≠ c → w.Inserted c' x → x.1 ≠ newId ∧
      x.2.tokenHash ≠ newRow.tokenHash)
    (hparent : ∀ p, parent = some p → ∃ lp, w.lineage.get? p = some lp ∧
      lp.user = newRow.userId ∧ w.live p = false)
    (hpresents : ∀ tok id u, call'.presents = some (tok, id, u) → ∃ l,
      w.lineage.get? id = some l ∧ l.tokenHash = sec.hashRefreshToken tok ∧ l.user = u)
    (hexchanging : call'.exchanging = none) (hholds : call'.holds = none)
    (hnoInsert : call'.inserted = none)
    (hredeemed : ∀ id, call'.redeemed = some id → w.live id = false ∧
      (w.lineage.get? id).isSome = true) : Consistent sec w' := by
  constructor
  case row_lineage =>
    intro id row hrow
    rw [ha.token] at hrow
    split at hrow
    · rename_i heq
      obtain rfl := Option.some.inj hrow
      exact ⟨_, by rw [ha.get?_lineage, if_pos heq], rfl, rfl⟩
    · obtain ⟨l, hl, hl'⟩ := h.row_lineage id row hrow
      exact ⟨l, (ha.kept hnone hl).1, hl'⟩
  case lineage_lt =>
    intro id l hl
    rw [ha.get?_lineage] at hl
    split at hl
    · rename_i heq
      exact heq ▸ ha.lt
    · exact (h.lineage_lt id l hl).trans_le ha.nextId
  case lineage_minted =>
    intro id l hl
    rw [ha.minted]
    rw [ha.get?_lineage] at hl
    split at hl
    · obtain rfl := Option.some.inj hl
      exact hminted
    · exact h.lineage_minted id l hl
  -- two entries of one hash are both old, or both the new one
  case lineage_unique =>
    intro i j li lj hi hj hij
    rw [ha.get?_lineage] at hi hj
    split at hi <;> split at hj
    · rename_i hi' hj'
      exact hi'.trans hj'.symm
    · obtain rfl := Option.some.inj hi
      exact absurd hij.symm (hhash j lj hj)
    · obtain rfl := Option.some.inj hj
      exact absurd hij (hhash i li hi)
    · exact h.lineage_unique i j li lj hi hj hij
  -- the row a refresh exchanges is dead by its own commit; a login has no parent
  case parent_dead =>
    intro id l p hl hp
    rw [ha.get?_lineage] at hl
    split at hl
    · obtain rfl := Option.some.inj hl
      obtain ⟨lp, hlp, huser, hdead⟩ := hparent p hp
      obtain ⟨hlp', hsame⟩ := ha.kept hnone hlp
      exact ⟨lp, hlp', huser, hsame.trans hdead⟩
    · obtain ⟨lp, hlp, huser, hdead⟩ := h.parent_dead id l p hl hp
      obtain ⟨hlp', hsame⟩ := ha.kept hnone hlp
      exact ⟨lp, hlp', huser, hsame.trans hdead⟩
  case presents =>
    intro c' tok' id' u hx
    replace hx := of_moved hcalls hx
    rcases hx with ⟨rfl, hx⟩ | ⟨-, hx⟩
    · obtain ⟨l, hl, hl'⟩ := hpresents tok' id' u hx
      exact ⟨l, (ha.kept hnone hl).1, hl'⟩
    · obtain ⟨l, hl, hl'⟩ := h.presents c' tok' id' u hx
      exact ⟨l, (ha.kept hnone hl).1, hl'⟩
  -- a lock is on an old row, and adding a row kills none
  case holds_live =>
    intro c' id' hx
    obtain ⟨-, hx⟩ := of_moved_none hcalls hx hholds
    have hlive := h.holds_live c' id' hx
    obtain ⟨row, hrow, -⟩ := live_eq_true_iff.1 hlive
    obtain ⟨l, hl, -⟩ := h.row_lineage id' row hrow
    exact (ha.kept hnone hl).2.trans hlive
  case holds_unique =>
    intro c₁ c₂ id' h₁ h₂
    obtain ⟨-, h₁⟩ := of_moved_none hcalls h₁ hholds
    obtain ⟨-, h₂⟩ := of_moved_none hcalls h₂ hholds
    exact h.holds_unique c₁ c₂ id' h₁ h₂
  case exchanging =>
    intro c' id' hx
    obtain ⟨hne, hx⟩ := of_moved_none hcalls hx hexchanging
    rcases h.exchanging c' id' hx with hkept | hdead
    · exact Or.inl (of_unmoved hcalls hne hkept)
    · obtain ⟨tok', u, hp⟩ := Exchanging.presents hx
      obtain ⟨l, hl, -⟩ := h.presents c' tok' id' u hp
      exact Or.inr ((ha.kept hnone hl).2.trans hdead)
  -- an insertion of another call that is not committed has its own id and hash
  case inserted =>
    intro c' id' row hx
    obtain ⟨hne, hx⟩ := of_moved_none hcalls hx hnoInsert
    obtain ⟨hlt, hnone', hm, hne'⟩ := h.inserted c' id' row hx
    obtain ⟨hid, hhash'⟩ := hinserted c' _ hne hx
    rw [ha.minted]
    refine ⟨hlt.trans_le ha.nextId, by rw [ha.get?_lineage, if_neg hid, hnone'], hm, fun i l hl => ?_⟩
    rw [ha.get?_lineage] at hl
    split at hl
    · obtain rfl := Option.some.inj hl
      exact hhash'.symm
    · exact hne' i l hl
  case inserted_unique =>
    intro c₁ c₂ x₁ x₂ h₁ h₂
    obtain ⟨-, h₁⟩ := of_moved_none hcalls h₁ hnoInsert
    obtain ⟨-, h₂⟩ := of_moved_none hcalls h₂ hnoInsert
    exact h.inserted_unique c₁ c₂ x₁ x₂ h₁ h₂
  case inserts_own =>
    intro c' tok' id' user hit newId' newRow' session hc'
    rw [hcalls] at hc'
    split at hc'
    · obtain rfl := Option.some.inj hc'
      exact absurd hnoInsert (by simp [Call.inserted])
    · exact h.inserts_own c' tok' id' user hit newId' newRow' session hc'
  -- redeemed is the parent of the row that is added, or it was before
  case redeemed_dead =>
    intro c' id' hx
    replace hx := of_moved hcalls hx
    rcases hx with ⟨rfl, hx⟩ | ⟨-, hx⟩
    · obtain ⟨hdead, hsome⟩ := hredeemed id' hx
      obtain ⟨l, hl⟩ := Option.isSome_iff_exists.1 hsome
      exact (ha.kept hnone hl).2.trans hdead
    · obtain ⟨tok', u, hp⟩ := Redeemed.presents hx
      obtain ⟨l, hl, -⟩ := h.presents c' tok' id' u hp
      exact (ha.kept hnone hl).2.trans (h.redeemed_dead c' id' hx)

end AuthWorld
end TickerWatch
