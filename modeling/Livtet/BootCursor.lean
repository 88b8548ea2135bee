import Livtet.Bootstrap
import Livtet.Lib.Runs
import Livtet.Offers
import Livtet.Paging
import Livtet.Steps

/-! # The cursor of a bootstrap, while the peer is written to

    `pull_full` reads the latest version and then eleven tables, each in a statement
    of its own, and the offer scan afterwards raises the cursor to the last row of
    every page it reads. The peer goes on writing between any two of them.

    A row is MISSED when its table is not dumped at all, once its table has been read
    without it, or once its entity has been read and a value the triggers emit was left
    out. The cursor stays below every missed row exactly when the version that is read,
    and the last row of every page, do. -/

namespace SyncBootCursor

open SqlRows SyncSchema SyncStore SyncEngine SyncBootstrap SyncOffers SyncPaging Maps

/-! ## The peer and the bootstrap that reads it -/

inductive Phase
  | idle
  | reading (version : Int) (todo : List SyncableEntityKind)
  | scanning (pages : Nat) (probe cursor : Int)
  | done (cursor : Int)
deriving DecidableEq

/-- The cursor the bootstrap would return if it ended here. -/
def Phase.cursor? : Phase → Option Int
  | .idle => none
  | .reading version _ => some version
  | .scanning _ _ cursor => some cursor
  | .done cursor => some cursor

structure State where
  db : Db
  phase : Phase
  /-- The state of the peer in which each table was read. -/
  reads : SyncableEntityKind → Option Db

/-- The dump, as far as it has been read. -/
def State.dump (env : Env) (s : State) : FullDump where
  version := match s.phase with
    | .reading version _ => version
    | _ => 0
  entities k := match s.reads k with
    | some db => queryTable env db k
    | none => []

inductive Action
  | edit (now : String) (edit : LocalEdit)
  | offer (now deviceId inventoryId payload : String)
  | readVersion
  | readTable
  | scan

/-- After a page: the next one, or the end. -/
def afterPage (pages : Nat) (result : Option Int × Int) : Phase :=
  match result.1, pages with
  | some probe, pages + 1 => .scanning (pages + 1) probe result.2
  | _, _ => .done result.2

section Steps

variable (env : Env) (limit : Int)

/-- One statement of the peer or of the bootstrap; a write that fails is rolled back. -/
def step (s : State) : Action → State
  | .edit now edit =>
      match localEdit env now edit s.db with
      | .ok db => { s with db }
      | .error _ => s
  | .offer now deviceId inventoryId payload =>
      match logOffer now deviceId inventoryId payload s.db.log with
      | .ok log => { s with db := { s.db with log } }
      | .error _ => s
  | .readVersion =>
      match s.phase with
      | .idle =>
          { s with phase := .reading (getLatestVersion s.db.log) SyncableEntityKind.dumpOrder }
      | _ => s
  | .readTable =>
      match s.phase with
      | .reading version (k :: todo) =>
          { s with phase := .reading version todo, reads := Function.update s.reads k (some s.db) }
      | .reading version [] => { s with phase := .scanning maxBootstrapPages 0 version }
      | _ => s
  | .scan =>
      match s.phase with
      | .scanning (pages + 1) probe cursor =>
          { s with
            phase := afterPage pages (scanPage (pullChanges env s.db.log probe limit) cursor) }
      | _ => s

/-! ## Missed rows -/

/-- Every value the triggers emit of the row is in its dumped object. -/
def Carries (k : SyncableEntityKind) (x : Row) : Prop :=
  ∀ c ∈ k.emitted, x c ≠ .null →
    ((dumpRow env (k.dumpColumns.getD []) x).lookup c).isSome = true

/-- The entity of the log row is there, and not all of it is dumped. -/
def LeftOut (db : Db) (k : SyncableEntityKind) (r : ChangeRow) : Prop :=
  ∃ x ∈ (db.tables k).rows, triggerEntityId env k x.val = some r.entityId ∧
    ¬ Carries env k x.val

/-- The row's table is not dumped, or was read before the row was logged, or when
    the dump left out part of the row's entity. -/
def Missed (s : State) (r : ChangeRow) : Prop :=
  r ∈ s.db.log.rows ∧ r.entityType ≠ "file_offer" ∧
    ∀ k, SyncableEntityKind.entityTypeToTable r.entityType = some k →
      k ∈ SyncableEntityKind.dumpOrder →
        ∃ read, s.reads k = some read ∧ (r ∉ read.log.rows ∨ LeftOut env read k r)

/-- The row's table is in the dump as it was when the row was there already, and the
    row's entity is in it with every value the triggers emit. -/
def Reflected (s : State) (r : ChangeRow) : Prop :=
  ∃ k, SyncableEntityKind.entityTypeToTable r.entityType = some k ∧
    k ∈ SyncableEntityKind.dumpOrder ∧ ∃ read, s.reads k = some read ∧ r ∈ read.log.rows ∧
      (s.dump env).entities k = queryTable env read k ∧
      ∀ x ∈ (read.tables k).rows, triggerEntityId env k x.val = some r.entityId →
        Carries env k x.val

/-- Every row the bootstrap's cursor has passed is in the dump. -/
def NothingPassed (s : State) (cursor : Int) : Prop :=
  ∀ r ∈ s.db.log.rows, r.entityType ≠ "file_offer" → r.version ≤ cursor → Reflected env s r

/-- The version that is read, and the last row of each page, are below every missed
    row. -/
def Guard (s : State) : Action → Prop
  | .readVersion =>
      s.phase = .idle → ∀ r, Missed env s r → getLatestVersion s.db.log < r.version
  | .readTable => ∀ version k todo, s.phase = .reading version (k :: todo) →
      ∀ r ∈ s.db.log.rows, SyncableEntityKind.entityTypeToTable r.entityType = some k →
        LeftOut env s.db k r → version < r.version
  | .scan => ∀ pages probe cursor, s.phase = .scanning (pages + 1) probe cursor →
      ∀ c, (pullChanges env s.db.log probe limit).changes.getLast? = some c →
        ∀ r, Missed env s r → c.version < r.version
  | _ => True

end Steps

variable {env : Env} {limit : Int} {s : State}

/-! ## The invariant -/

/-- The tables that have been read, phase by phase. -/
def ReadSoFar (s : State) : Prop :=
  match s.phase with
  | .idle => ∀ k, s.reads k = none
  | .reading _ todo => ∃ before, SyncableEntityKind.dumpOrder = before ++ todo ∧
      ∀ k, (s.reads k).isSome ↔ k ∈ before
  | _ => ∀ k, (s.reads k).isSome ↔ k ∈ SyncableEntityKind.dumpOrder

structure Inv (s : State) : Prop where
  reads : ReadSoFar s
  cursor_le : ∀ c, s.phase.cursor? = some c → c ≤ s.db.log.maxVersion
  cursor_i64 : ∀ c, s.phase.cursor? = some c → c ≤ maxI64
  cursor_nonneg : ∀ c, s.phase.cursor? = some c → 0 ≤ c
  probe_le : ∀ pages probe cursor, s.phase = .scanning pages probe cursor → probe ≤ cursor
  max_nonneg : 0 ≤ s.db.log.maxVersion

/-- Every missed row is above the cursor. -/
def AllAbove (env : Env) (s : State) : Prop :=
  ∀ r, Missed env s r → ∀ c, s.phase.cursor? = some c → c < r.version

theorem getLatestVersion_bounds (log : ChangeLog) (h : 0 ≤ log.maxVersion) :
    0 ≤ getLatestVersion log ∧ getLatestVersion log ≤ log.maxVersion ∧
      getLatestVersion log ≤ maxI64 := by
  have hi : (0 : Int) ≤ maxI64 := by decide
  rw [getLatestVersion]
  cases hm : log.maxVersion? with
  | none => exact ⟨le_refl _, h, hi⟩
  | some m =>
      have hmax : log.maxVersion = m := by
        rw [ChangeLog.maxVersion, hm]
        rfl
      rw [Option.bind_some, asI64?]
      split
      · next hbounds =>
          rw [hmax] at h ⊢
          exact ⟨h, le_refl _, hbounds.2⟩
      · exact ⟨le_refl _, h, hi⟩

/-! ## Writes of the peer -/

/-- The rows a write of the peer adds are above every version the bootstrap can
    have reached. -/
structure Wrote (db db' : Db) (new : List ChangeRow) : Prop where
  rows : db'.log.rows = db.log.rows ++ new
  max_le : db.log.maxVersion ≤ db'.log.maxVersion
  above : ∀ r ∈ new, ∀ v, v ≤ db.log.maxVersion → v ≤ maxI64 → v < r.version

theorem wrote_of_localEdit {now : String} {edit : LocalEdit} {db db' : Db}
    (h : localEdit env now edit db = .ok db') : ∃ new, Wrote db db' new := by
  obtain ⟨new, hext⟩ := (Echoed.localEdit h).log.extends
  exact ⟨new, hext.rows, hext.max_le, hext.above⟩

theorem wrote_of_logOffer {now deviceId inventoryId payload : String} {db : Db} {log : ChangeLog}
    (h : logOffer now deviceId inventoryId payload db.log = .ok log) :
    ∃ new, Wrote db { db with log } new := by
  obtain ⟨hrows, _⟩ := ChangeLog.insert_eq_ok h
  refine ⟨_, hrows, ?_, ?_⟩
  · have hmem : ({ offerEntry now deviceId inventoryId payload db.log with
        id := db.log.seq + 1 } : ChangeRow) ∈ log.rows := by
      rw [hrows]
      exact List.mem_append_right _ List.mem_cons_self
    have hb := db.log.maxVersion_bounds
    have hle := ChangeLog.version_le_maxVersion hmem
    have hnext : db.log.maxVersion ≤ db.log.nextVersion := by
      rw [ChangeLog.nextVersion]
      omega
    exact le_trans hnext hle
  · intro r hr v hv hi
    cases List.mem_singleton.1 hr
    exact ChangeLog.lt_nextVersion hv hi

/-- A write misses nothing below the cursor that was not missed before it. -/
theorem allAbove_write {db' : Db} {new : List ChangeRow} (hinv : Inv s) (h : Wrote s.db db' new) :
    AllAbove env { s with db := db' } ↔ AllAbove env s := by
  constructor
  · intro hall r hr c hc
    refine hall r ⟨?_, hr.2⟩ c hc
    show r ∈ db'.log.rows
    rw [h.rows]
    exact List.mem_append_left _ hr.1
  · intro hall r hr c hc
    have hmem : r ∈ db'.log.rows := hr.1
    rw [h.rows] at hmem
    rcases List.mem_append.1 hmem with hold | hnew
    · exact hall r ⟨hold, hr.2⟩ c hc
    · exact h.above r hnew c (hinv.cursor_le c hc) (hinv.cursor_i64 c hc)

theorem inv_write {db' : Db} {new : List ChangeRow} (hinv : Inv s) (h : Wrote s.db db' new) :
    Inv { s with db := db' } where
  reads := hinv.reads
  cursor_le c hc := le_trans (hinv.cursor_le c hc) h.max_le
  cursor_i64 := hinv.cursor_i64
  cursor_nonneg := hinv.cursor_nonneg
  probe_le := hinv.probe_le
  max_nonneg := le_trans hinv.max_nonneg h.max_le

/-! ## The steps of the bootstrap -/

theorem dumpOrder_nodup : SyncableEntityKind.dumpOrder.Nodup := by
  decide

/-- Reading a table misses a row of that table only where part of its entity is left
    out: the rows themselves are all there. -/
theorem missed_readTable {version : Int} {k : SyncableEntityKind}
    {todo : List SyncableEntityKind} (hinv : Inv s) (hphase : s.phase = .reading version (k :: todo))
    (r : ChangeRow) :
    Missed env { s with phase := .reading version todo,
                        reads := Function.update s.reads k (some s.db) } r ↔
      Missed env s r ∨ (r ∈ s.db.log.rows ∧
        SyncableEntityKind.entityTypeToTable r.entityType = some k ∧ LeftOut env s.db k r) := by
  obtain ⟨before, hbefore, hreads⟩ : ∃ before,
      SyncableEntityKind.dumpOrder = before ++ k :: todo ∧
        ∀ k, (s.reads k).isSome ↔ k ∈ before := by
    have := hinv.reads
    rw [ReadSoFar, hphase] at this
    exact this
  have hdumped : k ∈ SyncableEntityKind.dumpOrder := by
    rw [hbefore]
    exact List.mem_append_right _ List.mem_cons_self
  have hfresh : s.reads k = none := by
    rw [← Option.not_isSome_iff_eq_none, hreads]
    have hnodup := dumpOrder_nodup
    rw [hbefore] at hnodup
    intro hk
    exact (List.nodup_append.1 hnodup).2.2 k hk k List.mem_cons_self rfl
  -- the read just made is the only one that is new
  constructor
  · rintro ⟨hmem, hoffer, hmissed⟩
    by_cases hrk : SyncableEntityKind.entityTypeToTable r.entityType = some k
    · obtain ⟨read, hread, hnot⟩ := hmissed k hrk hdumped
      simp only [Function.update_self, Option.some.injEq] at hread
      subst hread
      exact Or.inr ⟨hmem, hrk, hnot.resolve_left (not_not_intro hmem)⟩
    · refine Or.inl ⟨hmem, hoffer, ?_⟩
      intro j hj hdump
      obtain ⟨read, hread, hnot⟩ := hmissed j hj hdump
      have hjk : j ≠ k := by
        rintro rfl
        exact hrk hj
      simp only [Function.update_of_ne hjk] at hread
      exact ⟨read, hread, hnot⟩
  · rintro (⟨hmem, hoffer, hmissed⟩ | ⟨hmem, hrk, hleft⟩)
    · refine ⟨hmem, hoffer, ?_⟩
      intro j hj hdump
      obtain ⟨read, hread, hnot⟩ := hmissed j hj hdump
      have hjk : j ≠ k := by
        rintro rfl
        rw [hfresh] at hread
        cases hread
      refine ⟨read, ?_, hnot⟩
      simp only [Function.update_of_ne hjk]
      exact hread
    · refine ⟨hmem, ?_, ?_⟩
      · intro hoffer
        rw [hoffer, SyncSteps.entityTypeToTable_file_offer] at hrk
        cases hrk
      · intro j hj _
        rw [hrk] at hj
        cases Option.some.inj hj
        exact ⟨s.db, by simp only [Function.update_self], Or.inr hleft⟩

theorem cursor?_afterPage (pages : Nat) (result : Option Int × Int) :
    (afterPage pages result).cursor? = some result.2 := by
  unfold afterPage
  split
  · rfl
  · rfl

theorem readSoFar_afterPage {pages : Nat} {result : Option Int × Int} {db : Db}
    {reads : SyncableEntityKind → Option Db}
    (h : ∀ k, (reads k).isSome ↔ k ∈ SyncableEntityKind.dumpOrder) :
    ReadSoFar { db, phase := afterPage pages result, reads } := by
  unfold afterPage
  split
  · exact h
  · exact h

/-- Scanning a page keeps the missed rows above exactly when its last row is below
    them. -/
theorem allAbove_scan {pages : Nat} {probe cursor : Int} (hinv : Inv s)
    (hphase : s.phase = .scanning (pages + 1) probe cursor) :
    AllAbove env { s with
      phase := afterPage pages (scanPage (pullChanges env s.db.log probe limit) cursor) } ↔
      AllAbove env s ∧ Guard env limit s .scan := by
  have hprobe := hinv.probe_le _ _ _ hphase
  constructor
  · intro hall
    refine ⟨?_, ?_⟩
    · intro r hr c hc
      rw [hphase] at hc
      cases Option.some.inj hc
      exact lt_of_le_of_lt (le_max_left _ _) (hall r hr _ (cursor?_afterPage _ _))
    · intro pages' probe' cursor' hphase' c hlast r hr
      rw [hphase] at hphase'
      cases hphase'
      rcases latestVersion_cases env limit s.db.log probe with ⟨hnone, _⟩ | ⟨c', hc', hlatest, _⟩
      · rw [hnone] at hlast
        cases hlast
      · rw [hc'] at hlast
        cases Option.some.inj hlast
        rw [← hlatest]
        exact lt_of_le_of_lt (le_max_right _ _) (hall r hr _ (cursor?_afterPage _ _))
  · rintro ⟨hall, hguard⟩ r hr c hc
    rw [cursor?_afterPage] at hc
    cases Option.some.inj hc
    have hcursor : cursor < r.version := hall r hr cursor (by rw [hphase]; rfl)
    refine max_lt hcursor ?_
    rcases latestVersion_cases env limit s.db.log probe with ⟨_, hlatest⟩ | ⟨c, hlast, hlatest, _⟩
    · rw [hlatest]
      exact lt_of_le_of_lt hprobe hcursor
    · rw [hlatest]
      exact hguard pages probe cursor hphase c hlast r hr

/-- A cursor that an invariant may hold of. -/
structure CursorFits (s : State) (version : Int) : Prop where
  le_max : version ≤ s.db.log.maxVersion
  le_i64 : version ≤ maxI64
  nonneg : 0 ≤ version

theorem Inv.cursorFits {version : Int} (hinv : Inv s) (h : s.phase.cursor? = some version) :
    CursorFits s version :=
  ⟨hinv.cursor_le version h, hinv.cursor_i64 version h, hinv.cursor_nonneg version h⟩

/-- The next phase has a cursor that fits. -/
theorem inv_setPhase {phase : Phase} {reads : SyncableEntityKind → Option Db} {version : Int}
    (hmax : 0 ≤ s.db.log.maxVersion) (hreads : ReadSoFar { s with phase, reads })
    (hcursor : phase.cursor? = some version) (hfits : CursorFits s version)
    (hprobe : ∀ pages probe cursor, phase = .scanning pages probe cursor → probe ≤ cursor) :
    Inv { s with phase, reads } := by
  have heq : ∀ c, phase.cursor? = some c → c = version := by
    intro c hc
    rw [hcursor] at hc
    exact (Option.some.inj hc).symm
  refine ⟨hreads, ?_, ?_, ?_, hprobe, hmax⟩
  · intro c hc
    rw [heq c hc]
    exact hfits.le_max
  · intro c hc
    rw [heq c hc]
    exact hfits.le_i64
  · intro c hc
    rw [heq c hc]
    exact hfits.nonneg

theorem inv_scan {pages : Nat} {probe cursor : Int} (hinv : Inv s)
    (hphase : s.phase = .scanning (pages + 1) probe cursor) :
    Inv { s with
      phase := afterPage pages (scanPage (pullChanges env s.db.log probe limit) cursor) } := by
  have hcursor : s.phase.cursor? = some cursor := by
    rw [hphase]
    rfl
  have hprobe := hinv.probe_le _ _ _ hphase
  have hle := hinv.cursor_le _ hcursor
  have hi := hinv.cursor_i64 _ hcursor
  -- an empty page ends at the probe, another at one of its rows
  have hlatest : (pullChanges env s.db.log probe limit).latestVersion ≤ s.db.log.maxVersion ∧
      (pullChanges env s.db.log probe limit).latestVersion ≤ maxI64 := by
    rcases latestVersion_cases env limit s.db.log probe with ⟨_, hlatest⟩ |
      ⟨c, _, hlatest, hmax, hbound⟩
    · rw [hlatest]
      exact ⟨le_trans hprobe hle, le_trans hprobe hi⟩
    · rw [hlatest]
      exact ⟨hmax, hbound⟩
  have hreads := hinv.reads
  rw [ReadSoFar, hphase] at hreads
  refine inv_setPhase hinv.max_nonneg (readSoFar_afterPage hreads) (cursor?_afterPage _ _)
    ⟨max_le hle hlatest.1, max_le hi hlatest.2, ?_⟩ ?_
  · exact le_trans (hinv.cursor_nonneg _ hcursor) (le_max_left _ _)
  · intro pages' probe' cursor' hnext
    show probe' ≤ cursor'
    have hpage : afterPage pages (scanPage (pullChanges env s.db.log probe limit) cursor) =
        .scanning pages' probe' cursor' := hnext
    unfold afterPage at hpage
    split at hpage
    · next hmore =>
        cases hpage
        rw [scanPage] at hmore
        split at hmore
        · cases Option.some.inj hmore
          exact le_max_right _ _
        · cases hmore
    · cases hpage

/-- Reading a table keeps the missed rows above exactly when it leaves out nothing of
    an entity with a row below the version. -/
theorem allAbove_readTable (limit : Int) {version : Int} {k : SyncableEntityKind}
    {todo : List SyncableEntityKind} (hinv : Inv s)
    (hphase : s.phase = .reading version (k :: todo)) :
    AllAbove env { s with phase := .reading version todo,
                          reads := Function.update s.reads k (some s.db) } ↔
      AllAbove env s ∧ Guard env limit s .readTable := by
  constructor
  · intro hall
    refine ⟨?_, ?_⟩
    · intro r hr c hc
      rw [hphase] at hc
      exact hall r ((missed_readTable hinv hphase r).2 (Or.inl hr)) c hc
    · intro version' k' todo' hphase' r hr hrk hleft
      rw [hphase] at hphase'
      cases hphase'
      exact hall r ((missed_readTable hinv hphase r).2 (Or.inr ⟨hr, hrk, hleft⟩)) _ rfl
  · rintro ⟨hall, hguard⟩ r hr c hc
    cases Option.some.inj hc
    rcases (missed_readTable hinv hphase r).1 hr with hmissed | ⟨hmem, hrk, hleft⟩
    · exact hall r hmissed version (by rw [hphase]; rfl)
    · exact hguard version k todo hphase r hmem hrk hleft

/-- What one step does to the rows that are missed. -/
theorem allAbove_step (hinv : Inv s) (a : Action) :
    AllAbove env (step env limit s a) ↔ AllAbove env s ∧ Guard env limit s a := by
  cases a with
  | edit now edit =>
      simp only [step, Guard, and_true]
      split
      · next hok =>
          obtain ⟨new, hwrote⟩ := wrote_of_localEdit hok
          exact allAbove_write hinv hwrote
      · exact Iff.rfl
  | offer now deviceId inventoryId payload =>
      simp only [step, Guard, and_true]
      split
      · next hok =>
          obtain ⟨new, hwrote⟩ := wrote_of_logOffer hok
          exact allAbove_write hinv hwrote
      · exact Iff.rfl
  | readVersion =>
      simp only [step, Guard]
      split
      · next hphase =>
          -- An idle bootstrap has no cursor yet, so only the version counts.
          constructor
          · intro hall
            refine ⟨?_, ?_⟩
            · intro r _ c hc
              rw [hphase] at hc
              cases hc
            · intro _ r hr
              exact hall r hr _ rfl
          · rintro ⟨_, hguard⟩ r hr c hc
            cases Option.some.inj hc
            exact hguard hphase r hr
      · next hphase =>
          exact ⟨fun h => ⟨h, fun hidle => absurd hidle hphase⟩, fun h => h.1⟩
  | readTable =>
      simp only [step, Guard]
      split
      · next version k todo hphase => exact allAbove_readTable limit hinv hphase
      · next version hphase =>
          -- Going on to the scan keeps the version as the cursor.
          constructor
          · intro hall
            refine ⟨?_, ?_⟩
            · intro r hr c hc
              rw [hphase] at hc
              exact hall r hr c hc
            · intro version' k todo hphase'
              rw [hphase] at hphase'
              cases hphase'
          · rintro ⟨hall, _⟩ r hr c hc
            refine hall r hr c ?_
            rw [hphase]
            exact hc
      · next hcons _ =>
          refine ⟨fun h => ⟨h, ?_⟩, fun h => h.1⟩
          intro version k todo hphase
          exact absurd hphase (hcons version k todo)
  | scan =>
      simp only [step]
      split
      · next pages probe cursor hphase => exact allAbove_scan hinv hphase
      · next hphase =>
          refine ⟨fun h => ⟨h, ?_⟩, fun h => h.1⟩
          intro pages probe cursor hscan
          exact absurd hscan (hphase pages probe cursor)

theorem inv_readTable {version : Int} {k : SyncableEntityKind} {todo : List SyncableEntityKind}
    (hinv : Inv s) (hphase : s.phase = .reading version (k :: todo)) :
    Inv { s with phase := .reading version todo,
                 reads := Function.update s.reads k (some s.db) } := by
  have hcursor : s.phase.cursor? = some version := by
    rw [hphase]
    rfl
  refine inv_setPhase hinv.max_nonneg ?_ rfl (hinv.cursorFits hcursor) fun _ _ _ h => by
    cases h
  have hreads := hinv.reads
  rw [ReadSoFar, hphase] at hreads
  obtain ⟨before, hbefore, hreads⟩ := hreads
  refine ⟨before ++ [k], ?_, ?_⟩
  · rw [hbefore, List.append_assoc]
    rfl
  · intro j
    rw [List.mem_append, List.mem_singleton]
    by_cases hj : j = k
    · simp [hj]
    · simp [hj, hreads]

theorem inv_step (hinv : Inv s) (a : Action) : Inv (step env limit s a) := by
  cases a with
  | edit now edit =>
      simp only [step]
      split
      · next hok =>
          obtain ⟨new, hwrote⟩ := wrote_of_localEdit hok
          exact inv_write hinv hwrote
      · exact hinv
  | offer now deviceId inventoryId payload =>
      simp only [step]
      split
      · next hok =>
          obtain ⟨new, hwrote⟩ := wrote_of_logOffer hok
          exact inv_write hinv hwrote
      · exact hinv
  | readVersion =>
      simp only [step]
      split
      · next hphase =>
          -- the cursor is read before any table, when nothing has been read
          have hb := getLatestVersion_bounds s.db.log hinv.max_nonneg
          have hreads := hinv.reads
          rw [ReadSoFar, hphase] at hreads
          exact inv_setPhase hinv.max_nonneg ⟨[], rfl, fun k => by simp [hreads k]⟩ rfl
            ⟨hb.2.1, hb.2.2, hb.1⟩ (fun _ _ _ h => by cases h)
      · exact hinv
  | readTable =>
      simp only [step]
      split
      · next version k todo hphase => exact inv_readTable hinv hphase
      · next version hphase =>
          have hcursor : s.phase.cursor? = some version := by
            rw [hphase]
            rfl
          have hreads := hinv.reads
          rw [ReadSoFar, hphase] at hreads
          obtain ⟨before, hbefore, hreads⟩ := hreads
          rw [List.append_nil] at hbefore
          refine inv_setPhase hinv.max_nonneg ?_ rfl (hinv.cursorFits hcursor) ?_
          · intro k
            rw [hbefore]
            exact hreads k
          · -- the first page is probed from below every version
            intro pages probe cursor h
            cases h
            exact hinv.cursor_nonneg version hcursor
      · exact hinv
  | scan =>
      simp only [step]
      split
      · next pages probe cursor hphase => exact inv_scan hinv hphase
      · exact hinv

/-! ## Whole runs -/

theorem inv_of_idle (hidle : s.phase = .idle) (hreads : ∀ k, s.reads k = none)
    (hmax : 0 ≤ s.db.log.maxVersion) : Inv s := by
  have hnone : ∀ c, s.phase.cursor? ≠ some c := by
    intro c hc
    rw [hidle] at hc
    cases hc
  refine ⟨?_, fun c hc => absurd hc (hnone c), fun c hc => absurd hc (hnone c),
    fun c hc => absurd hc (hnone c), ?_, hmax⟩
  · rw [ReadSoFar, hidle]
    exact hreads
  · intro _ _ _ h
    rw [hidle] at h
    cases h

theorem inv_exec (run : List Action) : ∀ {s : State}, Inv s →
    Inv (Runs.exec (step env limit) s run) := by
  induction run with
  | nil =>
      intro s h
      exact h
  | cons a rest ih =>
      intro s h
      exact ih (inv_step h a)

/-- By induction on the run: the missed rows stay above the cursor exactly when every
    step meets the guard. -/
theorem allAbove_exec (run : List Action) : ∀ {s : State}, Inv s →
    (AllAbove env (Runs.exec (step env limit) s run) ↔
      AllAbove env s ∧ Runs.Admitted (step env limit) (Guard env limit) s run) := by
  induction run with
  | nil =>
      intro s _
      exact ⟨fun h => ⟨h, trivial⟩, fun h => h.1⟩
  | cons a rest ih =>
      intro s h
      rw [Runs.exec_cons, ih (inv_step h a), allAbove_step h a, and_assoc]
      rfl

/-- Once every table is read, a row that is not missed is in the dump. -/
theorem reflected_iff_not_missed {cursor : Int} (hinv : Inv s) (hdone : s.phase = .done cursor)
    {r : ChangeRow} (hr : r ∈ s.db.log.rows) (hoffer : r.entityType ≠ "file_offer") :
    Reflected env s r ↔ ¬ Missed env s r := by
  have hreads := hinv.reads
  rw [ReadSoFar, hdone] at hreads
  constructor
  · rintro ⟨k, hk, hdump, read, hread, hmem, _, hcarries⟩ ⟨_, _, hmissed⟩
    obtain ⟨read', hread', hnot⟩ := hmissed k hk hdump
    rw [hread] at hread'
    cases Option.some.inj hread'
    rcases hnot with hnot | ⟨x, hx, hid, hleft⟩
    · exact hnot hmem
    · exact hleft (hcarries x hx hid)
  · intro hnot
    by_contra hcon
    refine hnot ⟨hr, hoffer, ?_⟩
    intro k hk hdump
    obtain ⟨read, hread⟩ := Option.isSome_iff_exists.1 ((hreads k).2 hdump)
    refine ⟨read, hread, ?_⟩
    by_contra hfound
    obtain ⟨hmem, hcarried⟩ := not_or.1 hfound
    refine hcon ⟨k, hk, hdump, read, hread, not_not.1 hmem, ?_, ?_⟩
    · rw [State.dump]
      simp only [hread]
    · intro x hx hid
      by_contra hleft
      exact hcarried ⟨x, hx, hid, hleft⟩

theorem nothingPassed_iff {cursor : Int} (hinv : Inv s) (hdone : s.phase = .done cursor) :
    NothingPassed env s cursor ↔ AllAbove env s := by
  constructor
  · intro h r hr c hc
    rw [hdone] at hc
    cases Option.some.inj hc
    by_contra hle
    exact (reflected_iff_not_missed hinv hdone hr.1 hr.2.1).1
      (h r hr.1 hr.2.1 (not_lt.1 hle)) hr
  · intro h r hr hoffer hle
    refine (reflected_iff_not_missed hinv hdone hr hoffer).2 ?_
    intro hmissed
    have := h r hmissed cursor (by rw [hdone]; rfl)
    omega

/-- **THE CURSOR OF A BOOTSTRAP.** However the peer's writes fall between the
    statements of the dump and the pages of the scan: the cursor has passed no row
    that is not in the dump exactly when the version that is read, and the last row
    of every page, are below every row missed by then. -/
theorem nothingPassed_iff_admitted (env : Env) (limit : Int) (start : State) (run : List Action)
    (cursor : Int) (hidle : start.phase = .idle) (hreads : ∀ k, start.reads k = none)
    (hmax : 0 ≤ start.db.log.maxVersion)
    (hdone : (Runs.exec (step env limit) start run).phase = .done cursor) :
    NothingPassed env (Runs.exec (step env limit) start run) cursor ↔
      Runs.Admitted (step env limit) (Guard env limit) start run := by
  have hinv := inv_of_idle hidle hreads hmax
  have hstart : AllAbove env start := by
    intro r _ c hc
    rw [hidle] at hc
    cases hc
  rw [nothingPassed_iff (inv_exec run hinv) hdone, allAbove_exec run hinv]
  exact ⟨fun h => h.2, fun h => ⟨hstart, h⟩⟩

/-! ## A quiet peer, and a busy one -/

def quietPeer : State where
  db := Db.empty false
  phase := .idle
  reads _ := none

/-- The dump, up to the scan. -/
def dumping : List Action := .readVersion :: List.replicate 12 .readTable

def newBook : Action :=
  .edit "2026-01-01 00:00:00"
    (.insert .work [("id", .blob (List.replicate 16 1)), ("title", .text "Dune")])

/-- A book added before the dump. -/
def quietRun : List Action := newBook :: dumping ++ [.scan]

/-- A book added between the dump and the scan. -/
def busyRun : List Action := dumping ++ [newBook, .scan]

/-- Where a run against the quiet peer ends. -/
abbrev reached (run : List Action) : State :=
  Runs.exec (step Env.reference 100) quietPeer run

/-- A book added before the dump is in it. -/
theorem reflected_newBook (r : ChangeRow)
    (hr : r ∈ (reached quietRun).db.log.rows) :
    Reflected Env.reference (reached quietRun) r := by
  have hwork : ∀ r ∈ (reached quietRun).db.log.rows,
      SyncableEntityKind.entityTypeToTable r.entityType = some .work := by decide
  refine ⟨.work, hwork r hr, by decide, (reached [newBook]).db, rfl, ?_, rfl, ?_⟩
  · have hrows : (reached quietRun).db.log.rows = (reached [newBook]).db.log.rows := rfl
    rw [← hrows]
    exact hr
  · have hcarries : ∀ x ∈ ((reached [newBook]).db.tables .work).rows,
        ∀ c ∈ SyncableEntityKind.work.emitted, x.val c ≠ .null →
          ((dumpRow Env.reference (SyncableEntityKind.work.dumpColumns.getD [])
            x.val).lookup c).isSome = true := by decide
    intro x hx _
    exact hcarries x hx

theorem admitted_newBook :
    NothingPassed Env.reference (reached quietRun) 1 ∧
    Runs.Admitted (step Env.reference 100) (Guard Env.reference 100) quietPeer
      quietRun := by
  have hnothing : NothingPassed Env.reference (reached quietRun) 1 :=
    fun r hr _ _ => reflected_newBook r hr
  have hmax : 0 ≤ quietPeer.db.log.maxVersion := by decide
  have hdone : (reached quietRun).phase = .done 1 := by decide
  refine ⟨hnothing, ?_⟩
  exact (nothingPassed_iff_admitted Env.reference 100 quietPeer quietRun 1 rfl (fun _ => rfl)
    hmax hdone).1 hnothing

/-- A book added between the dump and the scan is passed by the cursor. -/
theorem not_nothingPassed_newBook :
    (reached busyRun).phase = .done 1 ∧
    ¬ NothingPassed Env.reference (reached busyRun) 1 := by
  refine ⟨by decide, ?_⟩
  intro h
  have hrow : ∃ r ∈ (reached busyRun).db.log.rows,
      r.entityType = "work" ∧ r.version ≤ 1 := by decide
  obtain ⟨r, hr, hwork, hversion⟩ := hrow
  have hoffer : r.entityType ≠ "file_offer" := by
    rw [hwork]
    decide
  obtain ⟨k, hk, _, read, hread, hmem, _⟩ := h r hr hoffer hversion
  have hkind : SyncableEntityKind.entityTypeToTable r.entityType = some .work := by
    rw [hwork]
    decide
  rw [hkind] at hk
  cases Option.some.inj hk
  -- The works were read while the log was empty.
  have hempty : ((reached busyRun).reads .work).map
      (fun db => db.log.rows) = some [] := by decide
  rw [hread, Option.map_some, Option.some.injEq] at hempty
  rw [hempty] at hmem
  cases hmem

end SyncBootCursor
