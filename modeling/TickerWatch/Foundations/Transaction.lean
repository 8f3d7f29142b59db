import Mathlib.Data.List.Basic

/-!
# Programs over a database connection

A program runs statements one after another on a connection, some of them in a transaction, and any
statement may fail: which ones do, and with what, is a parameter of the run.  A statement that fails
is one the server did not execute, so it has no effect; that the server executes a statement and its
reply is lost is not modelled.  `BEGIN` and `COMMIT` are statements too; a transaction that any of its
statements leaves with an exception is rolled back.

A rollback does not restore everything: what is outside transactions, such as a sequence, keeps what
was done to it.  `Rollback` says which states hold the same data, and what a rollback leaves.

A program is all-or-nothing (`Atomic`) when an exception means the data is as it was.  A statement
is, and so is a transaction, whatever runs in it (`atomic_transaction`); and a program that only
reads before an all-or-nothing one keeps it so (`Atomic.bind`).  Two of them in a row are not, which
is what the rules cannot be made to say.
-/

namespace TickerWatch

universe u v

/-- Which states hold the same data, and what a rollback to `before` leaves of `after`. -/
class Rollback (σ : Type u) where
  Same : σ → σ → Prop
  refl : ∀ s, Same s s
  trans : ∀ s t r, Same s t → Same t r → Same s r
  rollback : σ → σ → σ
  same_rollback : ∀ before after, Same (rollback before after) before

/-- A connection: the committed state, what an open transaction has made of it, and how many
statements have been run. -/
structure Conn (σ : Type u) where
  committed : σ
  pending : Option σ
  statements : ℕ

namespace Conn

variable {σ : Type u}

/-- The state the next statement sees. -/
def visible (c : Conn σ) : σ := c.pending.getD c.committed

/-- One more statement has been run. -/
def tick (c : Conn σ) : Conn σ := { c with statements := c.statements + 1 }

/-- What a statement writes: into the open transaction, or committed at once. -/
def write (c : Conn σ) (s : σ) : Conn σ :=
  match c.pending with
  | none => { c with committed := s }
  | some _ => { c with pending := some s }

end Conn

/-- A program that returns an `α` or raises an `ε`.  Its first argument says which statements fail,
by their number, and with what. -/
def Sql (σ : Type u) (ε : Type v) (α : Type v) :=
  (ℕ → Option ε) → Conn σ → Except ε α × Conn σ

namespace Sql

variable {σ : Type u} {ε α β : Type v}

/-- Return without a statement. -/
def pure (a : α) : Sql σ ε α := fun _ c => (.ok a, c)

/-- Raise without a statement. -/
def throw (e : ε) : Sql σ ε α := fun _ c => (.error e, c)

/-- One program after another. -/
def bind (m : Sql σ ε α) (k : α → Sql σ ε β) : Sql σ ε β := fun fails c =>
  match m fails c with
  | (.ok a, c') => k a fails c'
  | (.error e, c') => (.error e, c')

instance : Monad (Sql σ ε) where
  pure := pure
  bind := bind

/-- `except ... raise ... from`. -/
def mapError (f : ε → ε) (m : Sql σ ε α) : Sql σ ε α := fun fails c =>
  match m fails c with
  | (.ok a, c') => (.ok a, c')
  | (.error e, c') => (.error (f e), c')

/-- One statement.  It may raise itself, and may leave a trace in what is outside transactions. -/
def statement (run : σ → Except ε α × σ) : Sql σ ε α := fun fails c =>
  match fails c.statements with
  | some e => (.error e, c.tick)
  | none => ((run c.visible).1, c.tick.write (run c.visible).2)

/-- A query. -/
def select (f : σ → α) : Sql σ ε α := statement fun s => (.ok (f s), s)

/-- `async with conn.transaction()` around a program. -/
def transaction [Rollback σ] (body : Sql σ ε α) : Sql σ ε α := fun fails c =>
  match fails c.statements with
  | some e => (.error e, c.tick)
  | none =>
    match body fails { c.tick with pending := some c.committed } with
    | (.error e, c') =>
      (.error e, ⟨Rollback.rollback c.committed c'.visible, none, c'.statements⟩)
    | (.ok a, c') =>
      match fails c'.statements with
      | some e =>
        (.error e, ⟨Rollback.rollback c.committed c'.visible, none, c'.statements + 1⟩)
      | none => (.ok a, ⟨c'.visible, none, c'.statements + 1⟩)

/-- Run a program on a connection of its own. -/
def run (m : Sql σ ε α) (fails : ℕ → Option ε) (s : σ) : Except ε α × σ :=
  let out := m fails ⟨s, none, 0⟩
  (out.1, out.2.committed)

lemma bind_of_ok {m : Sql σ ε α} {k : α → Sql σ ε β} {fails : ℕ → Option ε} {c c' : Conn σ} {a : α}
    (h : m fails c = (.ok a, c')) : (m >>= k) fails c = k a fails c' := by
  show Sql.bind m k fails c = _
  unfold Sql.bind
  rw [h]

lemma bind_of_error {m : Sql σ ε α} {k : α → Sql σ ε β} {fails : ℕ → Option ε} {c c' : Conn σ}
    {e : ε} (h : m fails c = (.error e, c')) : (m >>= k) fails c = (.error e, c') := by
  show Sql.bind m k fails c = _
  unfold Sql.bind
  rw [h]

lemma mapError_of_ok {m : Sql σ ε α} {f : ε → ε} {fails : ℕ → Option ε} {c c' : Conn σ} {a : α}
    (h : m fails c = (.ok a, c')) : mapError f m fails c = (.ok a, c') := by
  unfold mapError
  rw [h]

lemma mapError_of_error {m : Sql σ ε α} {f : ε → ε} {fails : ℕ → Option ε} {c c' : Conn σ} {e : ε}
    (h : m fails c = (.error e, c')) : mapError f m fails c = (.error (f e), c') := by
  unfold mapError
  rw [h]

lemma statement_of_none {f : σ → Except ε α × σ} {fails : ℕ → Option ε} {c : Conn σ}
    (h : fails c.statements = none) :
    statement f fails c = ((f c.visible).1, c.tick.write (f c.visible).2) := by
  unfold statement
  rw [h]

lemma statement_of_some {f : σ → Except ε α × σ} {fails : ℕ → Option ε} {c : Conn σ} {e : ε}
    (h : fails c.statements = some e) : statement f fails c = (.error e, c.tick) := by
  unfold statement
  rw [h]

/-- What comes after a query is run with what the query read. -/
lemma select_bind_of_none {f : σ → α} {k : α → Sql σ ε β} {fails : ℕ → Option ε} {c : Conn σ}
    (h : fails c.statements = none) : (select f >>= k) fails c = k (f c.visible) fails c.tick := by
  have hselect : select f fails c = (.ok (f c.visible), c.tick) := by
    rw [select, statement_of_none h]
    obtain ⟨committed, pending, n⟩ := c
    cases pending <;> rfl
  exact bind_of_ok hselect

lemma select_bind_of_some {f : σ → α} {k : α → Sql σ ε β} {fails : ℕ → Option ε} {c : Conn σ}
    {e : ε} (h : fails c.statements = some e) : (select f >>= k) fails c = (.error e, c.tick) :=
  bind_of_error (statement_of_some h)

section Transactions

variable [Rollback σ] {body : Sql σ ε α} {fails : ℕ → Option ε} {c c' : Conn σ} {a : α} {e : ε}

lemma transaction_of_ok (hbegin : fails c.statements = none)
    (hbody : body fails { c.tick with pending := some c.committed } = (.ok a, c'))
    (hcommit : fails c'.statements = none) :
    transaction body fails c = (.ok a, ⟨c'.visible, none, c'.statements + 1⟩) := by
  unfold transaction
  rw [hbegin]
  dsimp only
  rw [hbody]
  dsimp only
  rw [hcommit]

lemma transaction_of_begin (h : fails c.statements = some e) :
    transaction body fails c = (.error e, c.tick) := by
  unfold transaction
  rw [h]

lemma transaction_of_error (hbegin : fails c.statements = none)
    (hbody : body fails { c.tick with pending := some c.committed } = (.error e, c')) :
    transaction body fails c =
      (.error e, ⟨Rollback.rollback c.committed c'.visible, none, c'.statements⟩) := by
  unfold transaction
  rw [hbegin]
  dsimp only
  rw [hbody]

lemma transaction_of_commit (hbegin : fails c.statements = none)
    (hbody : body fails { c.tick with pending := some c.committed } = (.ok a, c'))
    (hcommit : fails c'.statements = some e) :
    transaction body fails c =
      (.error e, ⟨Rollback.rollback c.committed c'.visible, none, c'.statements + 1⟩) := by
  unfold transaction
  rw [hbegin]
  dsimp only
  rw [hbody]
  dsimp only
  rw [hcommit]

end Transactions

/-! ## All or nothing -/

/-- Outside a transaction it changes nothing. -/
def ReadOnly (m : Sql σ ε α) : Prop :=
  ∀ fails c, c.pending = none →
    (m fails c).2.pending = none ∧ (m fails c).2.committed = c.committed

/-- Outside a transaction, when it raises, the data is as it was. -/
def Atomic [Rollback σ] (m : Sql σ ε α) : Prop :=
  ∀ fails c, c.pending = none → (m fails c).2.pending = none ∧
    ∀ e, (m fails c).1 = .error e → Rollback.Same (m fails c).2.committed c.committed

lemma readOnly_select (f : σ → α) : (select f : Sql σ ε α).ReadOnly := by
  intro fails c hc
  unfold select statement
  cases fails c.statements with
  | some e => exact ⟨hc, rfl⟩
  | none => simp [Conn.write, Conn.tick, Conn.visible, hc]

section Rules

variable [Rollback σ]

lemma atomic_throw (e : ε) : (throw e : Sql σ ε α).Atomic :=
  fun _ c hc => ⟨hc, fun _ _ => Rollback.refl c.committed⟩

/-- A statement that leaves the data alone when it raises is all-or-nothing. -/
lemma atomic_statement {run : σ → Except ε α × σ}
    (h : ∀ s e, (run s).1 = .error e → Rollback.Same (run s).2 s) : (statement run).Atomic := by
  intro fails c hc
  unfold statement
  cases fails c.statements with
  | some e => exact ⟨hc, fun _ _ => Rollback.refl c.committed⟩
  | none =>
    have hvisible : c.visible = c.committed := by
      rw [Conn.visible, hc]
      rfl
    have hwrite : (c.tick.write (run c.visible).2).pending = none ∧
        (c.tick.write (run c.visible).2).committed = (run c.visible).2 := by
      simp [Conn.write, Conn.tick, hc]
    refine ⟨hwrite.1, fun e he => ?_⟩
    show Rollback.Same (c.tick.write (run c.visible).2).committed c.committed
    rw [hwrite.2, ← hvisible]
    exact h _ e he

/-- **A transaction is all-or-nothing**, whatever runs in it. -/
theorem atomic_transaction (body : Sql σ ε α) : (transaction body).Atomic := by
  intro fails c hc
  unfold transaction
  cases fails c.statements with
  | some e => exact ⟨hc, fun _ _ => Rollback.refl c.committed⟩
  | none =>
    dsimp only
    generalize body fails { c.tick with pending := some c.committed } = out
    obtain ⟨result, c'⟩ := out
    cases result with
    | error e => exact ⟨rfl, fun _ _ => Rollback.same_rollback _ _⟩
    | ok a =>
      dsimp only
      cases fails c'.statements with
      | some e => exact ⟨rfl, fun _ _ => Rollback.same_rollback _ _⟩
      | none => exact ⟨rfl, fun _ h => by cases h⟩

/-- **Reading first** keeps a program all-or-nothing. -/
theorem Atomic.bind {m : Sql σ ε α} {k : α → Sql σ ε β} (hm : m.ReadOnly)
    (hk : ∀ a, (k a).Atomic) : (m >>= k).Atomic := by
  intro fails c hc
  obtain ⟨hpending, hcommitted⟩ := hm fails c hc
  rcases hout : m fails c with ⟨result, c'⟩
  rw [hout] at hpending hcommitted
  cases result with
  | error e =>
    rw [bind_of_error hout]
    refine ⟨hpending, fun _ _ => ?_⟩
    show Rollback.Same c'.committed c.committed
    rw [hcommitted]
    exact Rollback.refl _
  | ok a =>
    rw [bind_of_ok hout]
    obtain ⟨hpending', hsame⟩ := hk a fails c' hpending
    refine ⟨hpending', fun e he => ?_⟩
    rw [← hcommitted]
    exact hsame e he

/-- What follows without a statement keeps a program all-or-nothing, as long as it returns. -/
theorem Atomic.map {m : Sql σ ε α} (hm : m.Atomic) (f : α → β) :
    (m >>= fun a => (pure (f a) : Sql σ ε β)).Atomic := by
  intro fails c hc
  obtain ⟨hpending, hsame⟩ := hm fails c hc
  rcases hout : m fails c with ⟨result, c'⟩
  rw [hout] at hpending hsame
  cases result with
  | error e =>
    rw [bind_of_error hout]
    exact ⟨hpending, fun _ _ => hsame e rfl⟩
  | ok a =>
    rw [bind_of_ok hout]
    exact ⟨hpending, fun _ h => by cases h⟩

lemma Atomic.run {m : Sql σ ε α} (hm : m.Atomic) {fails : ℕ → Option ε} {s : σ} {e : ε}
    (h : (m.run fails s).1 = .error e) : Rollback.Same (m.run fails s).2 s :=
  (hm fails ⟨s, none, 0⟩ rfl).2 e h

end Rules
end Sql
end TickerWatch
