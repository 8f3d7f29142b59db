import TickerWatch.Auth.Effect

/-!
# Exchanging a refresh token once

A refresh checks the row of its token before it opens the transaction that revokes the row, and it
does not look at how many rows the update hit.  So a token is exchanged at most once in the runs in
which every such update finds its row still live (`token_exchanged_once`), and two calls that pass
the check together both return a session (`token_exchanged_twice`).
-/

namespace TickerWatch
namespace AuthWorld

variable {sec : Crypto} {cfg : AuthSettings} {w w' : AuthWorld} {e : AuthEvent} {c : CallId}
  {tok : String} {id : TokenId} {user : User}

/-- The refresh that is about to revoke its row finds it live. -/
def stillLive (w : AuthWorld) : AuthEvent → Bool
  | .run c _ =>
    match w.calls.get? c with
    | some (.refresh _ (.revoke id _)) => w.live id
    | _ => true
  | _ => true

/-- Token values are fresh, and no refresh revokes a row that was revoked since it checked it. -/
def SingleUse (w : AuthWorld) (e : AuthEvent) : Prop := Fresh w e ∧ w.stillLive e = true

instance (w : AuthWorld) (e : AuthEvent) : Decidable (SingleUse w e) :=
  inferInstanceAs (Decidable (Fresh w e ∧ w.stillLive e = true))

lemma live_of_stillLive {fresh : String} (h : w.stillLive (.run c fresh) = true)
    (hc : w.calls.get? c = some (.refresh tok (.revoke id user))) : w.live id = true := by
  rw [stillLive, hc] at h
  exact h

/-- The row `n` was obtained by exchanging the row `p`. -/
def ExchangedFor (w : AuthWorld) (p n : TokenId) : Prop :=
  ∃ l, w.lineage.get? n = some l ∧ l.parent = some p

/-- The row `n` was obtained from the row `root` by some number of exchanges. -/
def DescendsFrom (w : AuthWorld) : TokenId → TokenId → Prop :=
  Relation.ReflTransGen w.ExchangedFor

/-- What holds when every refresh finds its row live: a refresh that is past its update has locked
the row it presents, so no row is redeemed by two calls and none is exchanged for two others. -/
structure ExchangesOnce (w : AuthWorld) : Prop where
  hit : ∀ c id, w.Exchanging c id → w.Holds c id
  redeemed_unique : ∀ c c' id, w.Redeemed c id → w.Redeemed c' id → c = c'
  child_unique : Relator.RightUnique w.ExchangedFor

lemma redeemed_of_moved {call' : Call} {c' : CallId}
    (hcalls : ∀ c', w'.calls.get? c' = if c' = c then some call' else w.calls.get? c')
    (hnone : call'.redeemed = none) (h : w'.Redeemed c' id) : w.Redeemed c' id := by
  obtain ⟨-, hold⟩ := of_moved_none hcalls h hnone
  exact hold

/-- An exchange the history shows after one more row was added to it. -/
lemma exchangedFor_of_set {p n n' : TokenId} {l : Lineage}
    (hlineage : w'.lineage = w.lineage.set n l) (h : w'.ExchangedFor p n') :
    (n' = n ∧ l.parent = some p) ∨ w.ExchangedFor p n' := by
  obtain ⟨l', hl', hp⟩ := h
  rw [hlineage, Dict.get?_set] at hl'
  split at hl'
  · obtain rfl := Option.some.inj hl'
    exact Or.inl ⟨‹_›, hp⟩
  · exact Or.inr ⟨l', hl', hp⟩

lemma ExchangesOnce.effect (h : ExchangesOnce w) (hcons : Consistent sec w)
    (hlive : w.stillLive e = true) (he : Effect sec w e w') : ExchangesOnce w' := by
  cases he with
  | forget hf _ =>
    refine ⟨fun c id hc => ?_, fun c c' id hc hc' => ?_, ?_⟩
    · obtain ⟨hold, hkept⟩ := hf.exchanging c id hc
      exact hkept (h.hit c id hold)
    · exact h.redeemed_unique c c' id (hf.redeemed c id hc) (hf.redeemed c' id hc')
    · unfold ExchangedFor
      rw [hf.lineage]
      exact h.child_unique
  | @lock c tok id user fresh hc hfree =>
    have hmoved := w.get?_put c (.refresh tok (.issue id user
      (if w.live id then some w.now else none)))
    refine ⟨fun c' id' hx => ?_, fun c₁ c₂ id' h₁ h₂ => ?_, h.child_unique⟩
    · replace hx := of_moved hmoved hx
      rcases hx with ⟨rfl, hx⟩ | ⟨hne, hx⟩
      · obtain rfl := Option.some.inj hx
        refine ⟨_, by rw [hmoved, if_pos rfl], ?_⟩
        rw [if_pos (live_of_stillLive hlive hc)]
        rfl
      · exact of_unmoved hmoved hne (h.hit c' id' hx)
    · exact h.redeemed_unique c₁ c₂ id' (redeemed_of_moved hmoved rfl h₁)
        (redeemed_of_moved hmoved rfl h₂)
  | @insert c tok id user hit fresh newRow session hc hhash huser hsession =>
    have hmoved := w.get?_put c (.refresh tok (.commit id user hit w.db.refreshTokens.nextId newRow
      session))
    refine ⟨fun c' id' hx => ?_, fun c₁ c₂ id' h₁ h₂ => ?_, h.child_unique⟩
    · replace hx := of_moved hmoved hx
      rcases hx with ⟨rfl, hx⟩ | ⟨hne, hx⟩
      · obtain ⟨d, hd, hholds⟩ := h.hit c' id' ⟨_, hc, hx⟩
        obtain rfl := Option.some.inj (hc.symm.trans hd)
        refine ⟨_, by rw [hmoved, if_pos rfl], ?_⟩
        cases hit <;> exact hholds
      · exact of_unmoved hmoved hne (h.hit c' id' hx)
    · exact h.redeemed_unique c₁ c₂ id' (redeemed_of_moved hmoved rfl h₁)
        (redeemed_of_moved hmoved rfl h₂)
  | @commit c tok id user hit newId newRow session fresh db' hc hdb =>
    have hmoved := w.get?_put c (.refresh tok (.returned id session))
    -- the row that is exchanged was live until now, so nobody exchanged it before
    have hrow : w.live id = true := hcons.holds_live c id (h.hit c id ⟨_, hc, rfl⟩)
    have hfirst : ∀ c', ¬ w.Redeemed c' id := fun c' hred =>
      absurd (hrow.symm.trans (hcons.redeemed_dead c' id hred)) (by simp)
    have hchildless : ∀ n, ¬ w.ExchangedFor id n := by
      rintro n ⟨l, hl, hp⟩
      obtain ⟨-, -, -, hdead⟩ := hcons.parent_dead n l id hl hp
      exact absurd (hrow.symm.trans hdead) (by simp)
    refine ⟨fun c' id' hx => ?_, fun c₁ c₂ id' h₁ h₂ => ?_, ?_⟩
    · obtain ⟨hne, hx⟩ := of_moved_none hmoved hx rfl
      exact of_unmoved hmoved hne (h.hit c' id' hx)
    · refine unique_add (a := c) h.redeemed_unique (fun c' id' hx => ?_) hfirst c₁ c₂ id' h₁ h₂
      rcases of_moved hmoved hx with ⟨rfl, hred⟩ | ⟨-, hold⟩
      · exact Or.inl ⟨rfl, (Option.some.inj hred).symm⟩
      · exact Or.inr hold
    · have hchild : ∀ n p, (w.exchanged c tok id newId newRow session db').ExchangedFor p n →
          (n = newId ∧ p = id) ∨ w.ExchangedFor p n := by
        intro n p hn
        exact (exchangedFor_of_set rfl hn).imp_left fun ⟨heq, hp⟩ => ⟨heq, (Option.some.inj hp).symm⟩
      have hunique := unique_add (R := fun n p => w.ExchangedFor p n)
        (fun _ _ _ hn hn' => h.child_unique hn hn') hchild hchildless
      exact fun p n n' hn hn' => hunique n n' p hn hn'
  | @issue c call fresh u expiresAt db' _ hcall hdb =>
    have hmoved := w.get?_put c call
    refine ⟨fun c' id' hx => ?_, fun c₁ c₂ id' h₁ h₂ => ?_, ?_⟩
    · obtain ⟨hne, hx⟩ := of_moved_none hmoved hx hcall.exchanging
      exact of_unmoved hmoved hne (h.hit c' id' hx)
    · exact h.redeemed_unique c₁ c₂ id' (redeemed_of_moved hmoved hcall.redeemed h₁)
        (redeemed_of_moved hmoved hcall.redeemed h₂)
    · have hchild : ∀ p n, (w.issued sec c call fresh u db').ExchangedFor p n →
          w.ExchangedFor p n := by
        intro p n hn
        refine (exchangedFor_of_set rfl hn).resolve_left ?_
        rintro ⟨-, hp⟩
        exact absurd hp (by simp)
      intro p n n' hn hn'
      exact h.child_unique (hchild p n hn) (hchild p n' hn')

lemma exchangesOnce_of_init (h : (system sec cfg).init w) : ExchangesOnce w := by
  obtain ⟨-, hcalls, hlineage, -⟩ := h
  refine ⟨?_, ?_, ?_⟩
  · rintro c id ⟨d, hd, -⟩
    exact absurd hd (by simp [hcalls])
  · rintro c c' id ⟨d, hd, -⟩
    exact absurd hd (by simp [hcalls])
  · rintro p n n' ⟨l, hl, -⟩
    exact absurd hl (by simp [hlineage])

/-- What holds in the runs whose refreshes find their rows live. -/
lemma exchangesOnce_of_reachable (h : (system sec cfg).ReachableWhere SingleUse w) :
    Consistent sec w ∧ ExchangesOnce w := by
  refine System.ReachableWhere.invariant (I := fun w => Consistent sec w ∧ ExchangesOnce w) h ?_ ?_
  · exact fun w hinit => ⟨consistent_of_init hinit, exchangesOnce_of_init hinit⟩
  · intro w e w' hok hinv hstep
    have he := effect_of_step hstep
    exact ⟨hinv.1.effect hok.1 he, hinv.2.effect hinv.1 hok.2 he⟩

/-- Of two rows that descend from one, the live ones are the same. -/
lemma live_descendant_unique (hcons : Consistent sec w) (hone : ExchangesOnce w) {root r r' : TokenId}
    (hr : w.DescendsFrom root r) (hr' : w.DescendsFrom root r') (hlive : w.live r = true)
    (hlive' : w.live r' = true) : r = r' := by
  -- a row that was exchanged is dead, so a live row has no descendant but itself
  have hleaf : ∀ {a b : TokenId}, w.live a = true → w.DescendsFrom a b → a = b := by
    intro a b ha hab
    rcases Relation.ReflTransGen.cases_head hab with heq | ⟨n, ⟨l, hl, hp⟩, -⟩
    · exact heq
    · obtain ⟨-, -, -, hdead⟩ := hcons.parent_dead n l a hl hp
      exact absurd (ha.symm.trans hdead) (by simp)
  rcases Relation.ReflTransGen.total_of_right_unique hone.child_unique hr hr' with h | h
  · exact hleaf hlive h
  · exact (hleaf hlive' h).symm

/-- **A token is exchanged once.**  In every interleaving of calls whose refreshes find their row
still live when they revoke it, two refreshes that were given one token and returned a session are
the same call, and at most one live row descends from any row. -/
theorem token_exchanged_once (h : (system sec cfg).ReachableWhere SingleUse w) :
    (∀ c c' tok id id' s s', w.calls.get? c = some (.refresh tok (.returned id s)) →
      w.calls.get? c' = some (.refresh tok (.returned id' s')) → c = c') ∧
    ∀ root, {r | w.live r = true ∧ w.DescendsFrom root r}.Subsingleton := by
  obtain ⟨hcons, hone⟩ := exchangesOnce_of_reachable h
  constructor
  · intro c c' tok id id' s s' hc hc'
    obtain ⟨l, hl, hhash, -⟩ := hcons.presents c tok id s.user.id ⟨_, hc, rfl⟩
    obtain ⟨l', hl', hhash', -⟩ := hcons.presents c' tok id' s'.user.id ⟨_, hc', rfl⟩
    obtain rfl := hcons.lineage_unique id id' l l' hl hl' (hhash.trans hhash'.symm)
    exact hone.redeemed_unique c c' id ⟨_, hc, rfl⟩ ⟨_, hc', rfl⟩
  · rintro root r ⟨hlive, hr⟩ r' ⟨hlive', hr'⟩
    exact live_descendant_unique hcons hone hr hr' hlive hlive'

/-- The migrated database and no calls. -/
def migrated : AuthWorld := ⟨.empty, .empty, 0, .empty, []⟩

lemma init_migrated : (system sec cfg).init migrated := ⟨rfl, rfl, rfl, rfl⟩

/-- A registration that stores the token `first`. -/
def registers : List AuthEvent :=
  [.spawn 0 (.register "salt" "alice" "pw" none "" "" .start), .run 0 "", .run 0 "first"]

/-- One refresh of it, from its first statement to its commit. -/
def refreshes : List AuthEvent :=
  [.spawn 1 (.refresh "first" .lookup), .run 1 "", .run 1 "", .run 1 "", .run 1 "",
    .run 1 "second", .run 1 ""]

/-- After one refresh, one live row descends from the registration. -/
theorem token_exchanged_once_refresh : ∃ w,
    (system Crypto.plain {}).execWhere SingleUse migrated (registers ++ refreshes) = some w ∧
    w.live 2 = true ∧ {r | w.live r = true ∧ w.DescendsFrom 1 r}.Subsingleton := by
  have hrun : ((system Crypto.plain {}).execWhere SingleUse migrated (registers ++ refreshes)).map
      (fun w => w.live 2) = some true := by decide +kernel
  obtain ⟨w, hw, hlive⟩ := Option.map_eq_some_iff.1 hrun
  exact ⟨w, hw, hlive, (token_exchanged_once
    ⟨migrated, init_migrated, System.runWhere_of_execWhere hw⟩).2 1⟩

/-- Two refreshes of one token that pass the check before either revokes its row. -/
def races : List AuthEvent :=
  [.spawn 1 (.refresh "first" .lookup), .spawn 2 (.refresh "first" .lookup),
    .run 1 "", .run 2 "", .run 1 "", .run 2 "", .run 1 "", .run 2 "",
    .run 1 "", .run 1 "second", .run 1 "",
    .run 2 "", .run 2 "third", .run 2 ""]

/-- **Two concurrent refreshes of one token both succeed.**  The update of the second finds no row,
the call goes on all the same, and two live rows descend from one registration. -/
theorem token_exchanged_twice : ∃ w,
    (system Crypto.plain {}).execWhere Fresh migrated (registers ++ races) = some w ∧
    (∃ s s', w.calls.get? 1 = some (.refresh "first" (.returned 1 s)) ∧
      w.calls.get? 2 = some (.refresh "first" (.returned 1 s'))) ∧
    w.live 2 = true ∧ w.live 3 = true ∧ w.DescendsFrom 1 2 ∧ w.DescendsFrom 1 3 := by
  have hcalls : ((system Crypto.plain {}).execWhere Fresh migrated (registers ++ races)).map
      (fun w => (w.calls.get? 1, w.calls.get? 2)) =
      some (some (.refresh "first" (.returned 1
        (newSession Crypto.plain {} 0 ⟨1, "alice", none, "", ""⟩
          "second"))),
        some (.refresh "first" (.returned 1 (newSession Crypto.plain {} 0 ⟨1, "alice", none, "", ""⟩
          "third")))) := by
    decide +kernel
  have hrows : ((system Crypto.plain {}).execWhere Fresh migrated (registers ++ races)).map
      (fun w => (w.live 2, w.live 3, w.lineage.get? 2, w.lineage.get? 3)) =
      some (true, true, some ⟨"second", 1, some 1⟩, some ⟨"third", 1, some 1⟩) := by
    decide +kernel
  obtain ⟨w, hw, hcalls⟩ := Option.map_eq_some_iff.1 hcalls
  rw [hw, Option.map_some, Option.some.injEq] at hrows
  obtain ⟨h₁, h₂⟩ := Prod.mk.inj hcalls
  simp only [Prod.mk.injEq] at hrows
  obtain ⟨hlive₂, hlive₃, hl₂, hl₃⟩ := hrows
  exact ⟨w, hw, ⟨_, _, h₁, h₂⟩, hlive₂, hlive₃, .single ⟨_, hl₂, rfl⟩, .single ⟨_, hl₃, rfl⟩⟩

end AuthWorld
end TickerWatch
