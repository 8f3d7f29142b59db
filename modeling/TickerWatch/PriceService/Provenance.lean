import TickerWatch.PriceService.CacheCoherence
import TickerWatch.PriceService.Escapes
import TickerWatch.Prices.Reconciliation

/-!
# Provenance

Every row of `latest_prices` is labelled with a source.  A tick labels what it writes with the
source of its process, and a start makes the other rows agree with the source it is configured with:
the vendor deletes them, the simulator relabels them.  So the label is never a claim to more than
the price deserves: a price the simulator wrote is never labelled as the vendor's.

`Ledger` keeps beside a world the source of the last completed start and, of each security, the
source of the process that wrote its price.  No step reads either.
-/

namespace TickerWatch

universe u

variable {P : Type u} [DecidableEq P]

namespace PriceService

variable {svc : PriceService P} {stores : Stores P} {i : TickInput P} {id : SecurityId}
  {row : LatestPrice P} {t : Ticker}

omit [DecidableEq P] in
/-- A row after an upsert was there before or is one of those of the statement. -/
lemma upsertMany_cases {tbl tbl' : LatestPrices P} {rows : List (SecurityId × LatestPrice P)}
    (h : tbl.upsertMany rows = some tbl') (hrow : Dict.get? tbl' id = some row) :
    Dict.get? tbl id = some row ∨ (id, row) ∈ rows := by
  rw [LatestPrices.get?_eq_map_register, LatestPrices.register_upsertMany h,
    Option.map_eq_some_iff] at hrow
  obtain ⟨out, hout, rfl⟩ := hrow
  rcases (Register.offerAll_spec _ _ hout).1 with hnew | hold
  · obtain ⟨⟨id', row⟩, hmem, rfl⟩ := List.mem_map.1 hnew
    obtain ⟨hin, hid⟩ := List.mem_filter.1 hmem
    obtain rfl : id' = id := by simpa using hid
    exact Or.inr hin
  · rw [LatestPrices.get?_eq_map_register, hold]
    exact Or.inl rfl

omit [DecidableEq P] in
/-- A row after the upsert of a tick was there before or carries the source of the service. -/
lemma writePostgres_row_cases {changed : Dict Ticker P} {outcome : PostgresOutcome}
    {tbl : LatestPrices P}
    (hrow : Dict.get? (svc.writePostgres changed outcome tbl).store id = some row) :
    Dict.get? tbl id = some row ∨ row.source = svc.sourceName := by
  unfold writePostgres at hrow
  split at hrow
  · exact Or.inl hrow
  · split at hrow
    · exact Or.inl hrow
    · rename_i rows hrows
      have hlabel : ∀ e ∈ rows, e.2.source = svc.sourceName := by
        intro e he
        obtain ⟨e', -, hbind⟩ := Dict.exists_of_mem_mapM hrows he
        obtain ⟨id', -, hmap⟩ := Option.bind_eq_some_iff.1 hbind
        obtain ⟨since, -, rfl⟩ := Option.map_eq_some_iff.1 hmap
        rfl
      split at hrow
      · rename_i tbl' htbl'
        rcases upsertMany_cases htbl' hrow with hold | hnew
        · exact Or.inl hold
        · exact Or.inr (hlabel _ hnew)
      · rename_i tbl' htbl'
        rcases upsertMany_cases htbl' hrow with hold | hnew
        · exact Or.inl hold
        · exact Or.inr (hlabel _ hnew)
      · exact Or.inl hrow

/-- So is a row after a tick. -/
lemma tick_row_cases (hrow : Dict.get? (svc.tick stores i).stores.latestPrices id = some row) :
    Dict.get? stores.latestPrices id = some row ∨ row.source = svc.sourceName := by
  obtain ⟨upstream, fetchedAt, stats, -, hcases⟩ := tick_cases svc stores i
  rcases hcases with ⟨-, htick⟩ | ⟨-, -, htick⟩ | ⟨-, -, htick⟩
  · rw [htick] at hrow
    exact Or.inl hrow
  · rw [htick] at hrow
    exact Or.inl hrow
  · rw [htick] at hrow
    have hstored : ((svc.afterRead upstream fetchedAt stats).applyPrices stores i
        upstream).stores.latestPrices =
        (((svc.afterRead upstream fetchedAt stats).restamp upstream i.now).writePostgres
          ((svc.afterRead upstream fetchedAt stats).changedPrices upstream) i.postgres
          stores.latestPrices).store := by
      unfold applyPrices
      dsimp only
      split <;> rfl
    rw [hstored] at hrow
    rcases writePostgres_row_cases hrow with hold | hnew
    · exact Or.inl hold
    · exact Or.inr hnew

lemma settings_tick (svc : PriceService P) (stores : Stores P) (i : TickInput P) :
    (svc.tick stores i).service.settings = svc.settings := by
  obtain ⟨upstream, fetchedAt, stats, -, hcases⟩ := tick_cases svc stores i
  rcases hcases with ⟨-, htick⟩ | ⟨-, -, htick⟩ | ⟨-, -, htick⟩
  · rw [htick]
    rfl
  · rw [htick]
    rfl
  · rw [htick]
    unfold applyPrices
    dsimp only
    split <;> rfl

end PriceService

omit [DecidableEq P] in
/-- The table a start leaves, completed or not, is the reconciled one. -/
lemma PriceService.latestPrices_start (settings : Settings) (stores : Stores P)
    (read : PriceService.CatalogRead) :
    (PriceService.start settings stores read).1.latestPrices =
      (reconcileSource stores.latestPrices settings.priceSource).1 := by
  unfold PriceService.start PriceService.syncCatalog
  dsimp only
  split <;> rfl

omit [DecidableEq P] in
lemma PriceService.latestPrices_cutStart (settings : Settings) (stores : Stores P)
    (read : PriceService.CatalogRead) (cut : PriceService.StartCut) :
    (PriceService.cutStart settings stores read cut).latestPrices =
      (reconcileSource stores.latestPrices settings.priceSource).1 := by
  cases cut <;> rfl

/-! ## Ledgers -/

/-- A world, the source of the last completed start if none was begun since, and the source of the
process that wrote the price of a row, if a process of the run did. -/
structure Ledger (P : Type u) where
  world : World P
  configured : Option PriceSource
  writer : SecurityId → Option PriceSource

namespace Ledger

/-- The stored rows. -/
def table (x : Ledger P) : LatestPrices P := x.world.stores.latestPrices

/-- The configured source after an event. -/
def configuredAfter (x : Ledger P) (w : World P) : FaultEvent P → Option PriceSource
  | .event (.start settings _) => w.service.map fun _ => settings.priceSource
  | .event (.cutStart ..) => none
  | _ => x.configured

/-- Who wrote the price of a row, after an event: the running service, if it is a tick that changed
the row. -/
def writerAfter (x : Ledger P) (w : World P) (e : FaultEvent P) (id : SecurityId) :
    Option PriceSource :=
  match World.tickOf e, x.world.service with
  | some _, some svc =>
    if Dict.get? w.stores.latestPrices id = Dict.get? x.table id then x.writer id
    else some svc.settings.priceSource
  | _, _ => x.writer id

/-- One event. -/
def step (x : Ledger P) (e : FaultEvent P) : Option (Ledger P) :=
  (x.world.faultStep e).map fun w =>
    { world := w, configured := x.configuredAfter w e, writer := x.writerAfter w e }

/-- The system, from any table whose sources are the two, before any start. -/
def system : System (Ledger P) (FaultEvent P) where
  init x := x.world.service = none ∧ x.configured = none ∧ x.table.SourcesKnown ∧
    ∀ id, x.writer id = none
  step := step

/-- What holds of the labels throughout a run: each row has a source the service knows, the source
that was last configured is the one the table has been reconciled with, and no row that the
simulation wrote passes for one of the vendor's. -/
structure Labelled (x : Ledger P) : Prop where
  known : x.table.SourcesKnown
  configured : ∀ c, x.configured = some c → x.table.SourcesAre c
  running : ∀ svc, x.world.service = some svc → x.configured = some svc.settings.priceSource
  simulated : ∀ id row, Dict.get? x.table id = some row → x.writer id = some .simulated →
    row.source = "simulated"

variable {x x' : Ledger P} {e : FaultEvent P} {w' : World P} {svc : PriceService P}

omit [DecidableEq P] in
/-- A reconciliation, which every start begins with. -/
lemma Labelled.reconcile (h : x.Labelled) {settings : Settings} (w' : World P)
    (htable : w'.stores.latestPrices = (reconcileSource x.table settings.priceSource).1)
    {configured : Option PriceSource} (hconfigured : ∀ c, configured = some c →
      c = settings.priceSource)
    (hrunning : ∀ svc, w'.service = some svc → configured = some svc.settings.priceSource) :
    (⟨w', configured, x.writer⟩ : Ledger P).Labelled := by
  have hare := reconcileSource_sourcesAre h.known settings.priceSource
  rw [← htable] at hare
  refine ⟨fun id row hrow => ?_, ?_, hrunning, fun id row hrow hwriter => ?_⟩
  · have hsource := hare id row hrow
    cases hc : settings.priceSource with
    | api => exact Or.inl (by rw [hsource, hc]; rfl)
    | simulated => exact Or.inr (by rw [hsource, hc]; rfl)
  · rintro c hc
    rw [hconfigured c hc]
    exact hare
  · -- a simulated price never comes out of a reconciliation under the other label
    have hrow' : Dict.get? (reconcileSource x.table settings.priceSource).1 id = some row := by
      rw [← htable]
      exact hrow
    cases hc : settings.priceSource with
    | api =>
      rw [hc, get?_reconcileSource_api h.known, Option.filter_eq_some_iff] at hrow'
      exact h.simulated id row hrow'.1 hwriter
    | simulated =>
      have hsource := hare id row hrow
      rw [hc] at hsource
      exact hsource

lemma Labelled.tick (h : x.Labelled) (hsvc : x.world.service = some svc) {i : TickInput P}
    (w' : World P) (htable : w'.stores.latestPrices = (svc.tick x.world.stores i).stores.latestPrices)
    (hservice : ∀ svc', w'.service = some svc' → svc'.settings = svc.settings)
    {writer : SecurityId → Option PriceSource} (hwriter : ∀ id, writer id =
      if Dict.get? w'.stores.latestPrices id = Dict.get? x.table id then x.writer id
      else some svc.settings.priceSource) :
    (⟨w', x.configured, writer⟩ : Ledger P).Labelled := by
  have hconfigured := h.running svc hsvc
  -- a row of the tick is an old one, or has the label of the running source
  have hcases : ∀ id row, Dict.get? w'.stores.latestPrices id = some row →
      Dict.get? x.table id = some row ∨ row.source = svc.settings.priceSource.name := by
    intro id row hrow
    rw [htable] at hrow
    exact PriceService.tick_row_cases hrow
  refine ⟨fun id row hrow => ?_, fun c hc id row hrow => ?_, fun svc' hsvc' => ?_,
    fun id row hrow hsim => ?_⟩
  · rcases hcases id row hrow with hold | hnew
    · exact h.known id row hold
    · cases hsource : svc.settings.priceSource with
      | api => exact Or.inl (by rw [hnew, hsource]; rfl)
      | simulated => exact Or.inr (by rw [hnew, hsource]; rfl)
  · rcases hcases id row hrow with hold | hnew
    · exact h.configured c hc id row hold
    · rw [hnew, Option.some.inj (hconfigured.symm.trans hc)]
  · dsimp only
    rw [hservice svc' hsvc', hconfigured]
  · have hsim := (hwriter id).symm.trans hsim
    split at hsim
    · rename_i hsame
      exact h.simulated id row (hsame.symm.trans hrow) hsim
    · rename_i hchanged
      rcases hcases id row hrow with hold | hnew
      · exact absurd (hrow.trans hold.symm) hchanged
      · rw [hnew, Option.some.inj hsim]
        rfl

/-- **Every event keeps the labels right.** -/
theorem Labelled.step (h : x.Labelled) (hstep : x.step e = some x') : x'.Labelled := by
  obtain ⟨w', hw', rfl⟩ := Option.map_eq_some_iff.1 hstep
  cases htick : World.tickOf e with
  | some i =>
    obtain ⟨svc, hsvc, hstores, -, hservice⟩ := World.tickOf_cases hw' htick
    -- a tick changes neither the configured source nor who is running
    have hconfigured : x.configuredAfter w' e = x.configured := by
      cases e with
      | tickWith i escapes => rfl
      | event e => cases e <;> first | rfl | exact absurd htick (by simp [World.tickOf])
    rw [hconfigured]
    refine h.tick hsvc w' (by rw [hstores]) (fun svc' hsvc' => ?_) fun id => ?_
    · rcases hservice with hnone | ⟨escapes, hsome⟩
      · rw [hnone] at hsvc'
        exact absurd hsvc' (by simp)
      · obtain rfl := Option.some.inj (hsome.symm.trans hsvc')
        rw [(PriceService.tickWith_cases escapes svc x.world.stores i).2.2.1,
          PriceService.settings_tick]
    · simp only [writerAfter, htick, hsvc]
  | none =>
    have hwriter : x.writerAfter w' e = x.writer := by
      funext id
      simp only [writerAfter, htick]
    rw [hwriter]
    cases e with
    | tickWith i escapes => exact absurd htick (by simp [World.tickOf])
    | event e =>
      cases e with
      | tick i => exact absurd htick (by simp [World.tickOf])
      | crashTick i => exact absurd htick (by simp [World.tickOf])
      -- a start relabels or deletes before anything is written
      | start settings read =>
        obtain rfl := Option.some.inj hw'
        refine h.reconcile _ (PriceService.latestPrices_start settings x.world.stores read)
          (fun c hc => ?_) fun svc hsvc => ?_
        · obtain ⟨svc, -, rfl⟩ := Option.map_eq_some_iff.1 hc
          rfl
        · have hsettings := (PriceService.start_service (Prod.ext rfl hsvc)).1
          rw [configuredAfter, hsvc, hsettings]
          rfl
      | cutStart settings read cut =>
        obtain rfl := Option.some.inj hw'
        exact h.reconcile _ (PriceService.latestPrices_cutStart settings x.world.stores read cut)
          (fun c hc => absurd hc (by simp [configuredAfter])) fun svc hsvc => absurd hsvc (by simp)
      | stop =>
        obtain rfl := Option.some.inj hw'
        exact ⟨h.known, h.configured, fun svc hsvc => absurd hsvc (by simp), h.simulated⟩
      | expire key =>
        obtain rfl := Option.some.inj hw'
        exact ⟨h.known, h.configured, h.running, h.simulated⟩

/-- The labels are right in every ledger a run reaches. -/
theorem labelled_of_reachable (h : system.Reachable x) : x.Labelled := by
  refine h.invariant (fun x hinit => ?_) fun x e x' hx hstep => hx.step hstep
  obtain ⟨hstopped, hconfigured, hknown, hwriter⟩ := hinit
  refine ⟨hknown, fun c hc => ?_, fun svc hsvc => ?_, fun id row _ hsim => ?_⟩
  · rw [hconfigured] at hc
    exact absurd hc (by simp)
  · rw [hstopped] at hsvc
    exact absurd hsvc (by simp)
  · rw [hwriter id] at hsim
    exact absurd hsim (by simp)

/-- **Price provenance is never falsified.**  In every run of starts with either source, ticks with
any failures, crashes and cut-off starts, from any table of the two sources: from a completed start
to the next start every row carries the configured source; no price a simulated process wrote is
ever labelled as the vendor's; a start of the vendor keeps exactly the vendor's rows and a start of
the simulator keeps every row, with their prices and stamps, and reports how many rows it deleted or
relabelled; and reconciling again at once is clean, with no rows, and changes nothing. -/
theorem provenance_kept (h : system.Reachable x) :
    (∀ c, x.configured = some c → x.table.SourcesAre c) ∧
    (∀ id row, Dict.get? x.table id = some row → x.writer id = some .simulated →
      row.source ≠ "api") ∧
    ∀ settings read x', x.step (.event (.start settings read)) = some x' →
      (settings.priceSource = .api → ∀ id, Dict.get? x'.table id =
        (Dict.get? x.table id).filter fun row => decide (row.source = "api")) ∧
      (settings.priceSource = .simulated → ∀ id, Dict.get? x'.table id =
        (Dict.get? x.table id).map fun row => { row with source := "simulated" }) ∧
      (∀ id row, Dict.get? x'.table id = some row → ∃ row', Dict.get? x.table id = some row' ∧
        row'.price = row.price ∧ row'.effectiveAt = row.effectiveAt) ∧
      (x.table.keys.filter fun id => decide (Dict.get? x'.table id ≠ Dict.get? x.table id)).length =
        (reconcileSource x.table settings.priceSource).2.rows ∧
      reconcileSource x'.table settings.priceSource = (x'.table, ⟨.clean, 0⟩) := by
  have hx := labelled_of_reachable h
  refine ⟨hx.configured, fun id row hrow hsim => ?_, fun settings read x' hstep => ?_⟩
  · rw [hx.simulated id row hrow hsim]
    decide
  · have htable : x'.table = (reconcileSource x.table settings.priceSource).1 := by
      obtain ⟨w', hw', rfl⟩ := Option.map_eq_some_iff.1 hstep
      obtain rfl := Option.some.inj hw'
      exact PriceService.latestPrices_start settings x.world.stores read
    rw [htable]
    refine ⟨fun hapi id => ?_, fun hsim id => ?_, fun id row => exists_of_get?_reconcileSource,
      rows_reconcileSource hx.known _, reconcileSource_again hx.known _⟩
    · rw [hapi]
      exact get?_reconcileSource_api hx.known id
    · rw [hsim]
      exact get?_reconcileSource_simulated hx.known id

/-- Nothing stored. -/
def fresh : Ledger ℕ := ⟨World.fresh, none, fun _ => none⟩

lemma init_fresh : system.init fresh :=
  ⟨rfl, rfl, fun _ _ hrow => absurd hrow (by simp [fresh, table, World.fresh, Stores.fresh]),
    fun _ => rfl⟩

/-- Prices from the vendor instead. -/
def vendorSettings : Settings := { PriceService.soloSettings with priceSource := .api }

/-- The vendor starts over a row that the simulator wrote. -/
theorem provenance_kept_switch : ∃ x x' : Ledger ℕ,
    system.execWhere (fun _ _ => True) fresh
      [.event (.start PriceService.soloSettings PriceService.soloRead),
        .event (World.writtenTick PriceService.firstReading 101)] = some x ∧
    (Dict.get? x.table 1).map LatestPrice.source = some "simulated" ∧
    x.step (.event (.start vendorSettings PriceService.soloRead)) = some x' ∧
    Dict.get? x'.table 1 = (Dict.get? x.table 1).filter fun row => decide (row.source = "api") := by
  have hrun : ((system.execWhere (fun _ _ => True) fresh
      [.event (.start PriceService.soloSettings PriceService.soloRead),
        .event (World.writtenTick PriceService.firstReading 101)]).bind fun x =>
      (x.step (.event (.start vendorSettings PriceService.soloRead))).map fun _ =>
        (Dict.get? x.table 1).map LatestPrice.source) = some (some "simulated") := by
    decide +kernel
  obtain ⟨x, hx, hrun⟩ := Option.bind_eq_some_iff.1 hrun
  obtain ⟨x', hx', hsource⟩ := Option.map_eq_some_iff.1 hrun
  have hreach : system.Reachable x := ⟨fresh, init_fresh, System.runWhere_of_execWhere hx⟩
  exact ⟨x, x', hx, hsource, hx', ((provenance_kept hreach).2.2 _ _ _ hx').1 rfl 1⟩

end Ledger
end TickerWatch
