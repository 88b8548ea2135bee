import Livtet.Engine

/-! # What one change can do

    One inversion lemma for each of the two write paths: a pulled change is
    ignored, recorded as a conflict, or written and logged; a pushed change is
    known already, recorded as a conflict, or written and logged. The loops over a
    batch are these steps one after the other. -/

namespace SyncSteps

open SqlRows JsonText SyncSchema SyncStore SyncEngine Outcomes

variable {env : Env} {now : String} {options : ApplyOptions} {change : SyncChange} {db db' : Db}

/-! ## Table writes echo into the log -/

theorem echoed_statement {x : Except SqlError Db} (h : statement x = .ok db')
    (hx : ∀ d, x = .ok d → Echoed db d) : Echoed db db' :=
  hx db' (statement_eq_ok h)

theorem echoed_deleteEntity {k : SyncableEntityKind} {entityId : String}
    (h : deleteEntity env now k entityId db = .ok db') : Echoed db db' := by
  rw [deleteEntity] at h
  split at h
  · split at h
    · cases h
    split at h
    · cases h
    · exact echoed_statement h fun _ => Echoed.deleteMatching
  · split at h
    · cases h
    · exact echoed_statement h fun _ => Echoed.deleteMatching

theorem echoed_upsertPayload {k : SyncableEntityKind} {payload : Json}
    (h : upsertPayload env now k payload db = .ok db') : Echoed db db' := by
  unfold upsertPayload at h
  split at h
  · split at h
    · cases h
    split at h
    · cases h
    · exact echoed_statement h fun _ => Echoed.upsertInto
  · cases h

theorem echoed_writeEntity {k : SyncableEntityKind}
    (h : writeEntity env now options k change db = .ok db') : Echoed db db' := by
  rw [writeEntity] at h
  split at h
  · exact echoed_deleteEntity h
  split at h
  · cases h
  · exact echoed_upsertPayload h

theorem echoed_deleteOne {k : SyncableEntityKind} (h : deleteOne env now k change db = .ok db') :
    Echoed db db' := by
  obtain ⟨resolved, _, h⟩ := bind_eq_ok.1 h
  obtain ⟨values, _, h⟩ := bind_eq_ok.1 h
  exact echoed_statement h fun _ => Echoed.deleteMatching

theorem echoed_upsertOne {k : SyncableEntityKind} (h : upsertOne env now k change db = .ok db') :
    Echoed db db' := by
  obtain ⟨payload, _, h⟩ := bind_eq_ok.1 h
  obtain ⟨resolved, _, h⟩ := bind_eq_ok.1 h
  obtain ⟨values, _, h⟩ := bind_eq_ok.1 h
  split at h
  · cases Except.ok.inj h
    exact Echoed.refl db
  · exact echoed_statement h fun _ => Echoed.upsertOnKey

theorem echoed_applyOne {k : SyncableEntityKind} (h : applyOne env now k change db = .ok db') :
    Echoed db db' := by
  rw [applyOne] at h
  split at h
  · exact echoed_deleteOne h
  · exact echoed_upsertOne h
  · exact echoed_upsertOne h
  · cases h

/-! ## Recording a change -/

/-- The row a recorded change becomes. -/
def recordedRow (now operation : String) (change : SyncChange) (seq : Nat) : ChangeRow :=
  { changeEntry now operation change with id := seq + 1 }

theorem insertChangeRow_eq_ok {operation : String}
    (h : insertChangeRow now operation change db = .ok db') :
    ∃ log, db' = { db with log } ∧ log.rows = db.log.rows ++ [recordedRow now operation change
      db.log.seq] ∧ log.seq = db.log.seq + 1 := by
  rw [insertChangeRow] at h
  split at h
  · next log hlog =>
      cases Except.ok.inj h
      obtain ⟨hrows, hseq⟩ := ChangeLog.insert_eq_ok hlog
      exact ⟨log, rfl, hrows, hseq⟩
  · cases h

/-- The rows a statement's triggers write are above the version it began at. -/
theorem latestVersionIn_lt {log log' : ChangeLog} {new : List ChangeRow}
    (h : ChangeLog.Extends log log' new) {r : ChangeRow} (hr : r ∈ new) :
    latestVersionIn log < r.version := by
  have hbounds := log.maxVersion_bounds
  have hzero : (0 : Int) ≤ maxI64 := by decide
  refine h.above r hr _ ?_ ?_
  · rw [latestVersionIn, asI64?]
    split
    · exact le_refl _
    · rw [Option.getD_none]
      omega
  · rw [latestVersionIn, asI64?]
    split
    · next hin => exact hin.2
    · exact hzero

/-! ## Pulled changes -/

/-- Changes `apply_changes` passes over: offers, unknown entity types, and unknown
    operations on an entity the log knows nothing newer of. -/
def Ignored (env : Env) (log : ChangeLog) (change : SyncChange) : Prop :=
  SyncableEntityKind.entityTypeToTable change.entityType = none ∨
    (newerPayload? env log change = none ∧ isOperation change.operation = false)

/-- `file_offer` is not an entity type. -/
theorem entityTypeToTable_file_offer :
    SyncableEntityKind.entityTypeToTable "file_offer" = none := by
  decide

/-- The outcomes of one pulled change. -/
inductive ApplyCase (env : Env) (now : String) (options : ApplyOptions) (change : SyncChange)
    (db : Db) : ApplyStep → Db → Prop
  | ignored (h : Ignored env db.log change) : ApplyCase env now options change db .skipped db
  | conflict {k : SyncableEntityKind} {localPayload : String}
      (hk : SyncableEntityKind.entityTypeToTable change.entityType = some k)
      (hnew : newerPayload? env db.log change = some localPayload) :
      ApplyCase env now options change db
        (.conflicted ((recordConflict now change localPayload db).conflicts.latest?
          change.entityType change.entityId)) (recordConflict now change localPayload db)
  | applied {k : SyncableEntityKind} {db1 db' : Db}
      (hk : SyncableEntityKind.entityTypeToTable change.entityType = some k)
      (hnew : newerPayload? env db.log change = none)
      (hop : isOperation change.operation = true)
      (hwrite : writeEntity env now options k change db = .ok db1)
      (hrecord : insertChangeRow now change.operation change
        (discardEchoes change (latestVersionIn db.log) db1) = .ok db') :
      ApplyCase env now options change db .applied db'

theorem applyChange_cases {step : ApplyStep}
    (h : applyChange env now options change db = .ok (step, db')) :
    ApplyCase env now options change db step db' := by
  rw [applyChange] at h
  split at h
  · next hoffer =>
      obtain ⟨rfl, rfl⟩ := Prod.mk.inj (Except.ok.inj h)
      exact .ignored (Or.inl (hoffer ▸ entityTypeToTable_file_offer))
  split at h
  · next hk =>
      obtain ⟨rfl, rfl⟩ := Prod.mk.inj (Except.ok.inj h)
      exact .ignored (Or.inl hk)
  next k hk =>
    split at h
    · next localPayload hnew =>
        obtain ⟨rfl, rfl⟩ := Prod.mk.inj (Except.ok.inj h)
        exact .conflict hk hnew
    next hnew =>
      split at h
      · next hop =>
          obtain ⟨db1, hwrite, h⟩ := bind_eq_ok.1 h
          obtain ⟨db2, hrecord, h⟩ := bind_eq_ok.1 h
          obtain ⟨rfl, rfl⟩ := Prod.mk.inj (Except.ok.inj h)
          exact .applied hk hnew hop hwrite hrecord
      · next hop =>
          obtain ⟨rfl, rfl⟩ := Prod.mk.inj (Except.ok.inj h)
          exact .ignored (Or.inr ⟨hnew, by simpa using hop⟩)

/-- An ignored change is skipped and leaves no trace. -/
theorem applyChange_of_ignored (h : Ignored env db.log change) :
    applyChange env now options change db = .ok (.skipped, db) := by
  rw [applyChange]
  split
  · rfl
  rcases h with hk | ⟨hnew, hop⟩
  · rw [hk]
  · split
    · rfl
    · rw [hnew, hop]
      rfl

theorem applyOrdered_cons {rest : List SyncChange} {state state' : ApplyOutcome × Db} :
    applyOrdered env now options (change :: rest) state = .ok state' ↔
      ∃ step db1, applyChange env now options change state.2 = .ok (step, db1) ∧
        applyOrdered env now options rest (state.1.record step, db1) = .ok state' := by
  rw [applyOrdered, foldlM_cons_eq_ok]
  constructor
  · rintro ⟨mid, hstep, hrest⟩
    obtain ⟨⟨step, db1⟩, hchange, hmid⟩ := bind_eq_ok.1 hstep
    cases Except.ok.inj hmid
    exact ⟨step, db1, hchange, hrest⟩
  · rintro ⟨step, db1, hchange, hrest⟩
    exact ⟨_, bind_eq_ok.2 ⟨(step, db1), hchange, rfl⟩, hrest⟩

/-! ## Pushed changes -/

/-- The outcomes of one pushed change. -/
inductive PushCase (env : Env) (now : String) (change : SyncChange) (db : Db) :
    Option ConflictRow → Db → Prop
  | known {k : SyncableEntityKind}
      (hk : SyncableEntityKind.entityTypeToTable change.entityType = some k)
      (h : alreadyLogged db.log (toAsciiUppercase change.operation) change = true) :
      PushCase env now change db none db
  | conflict {k : SyncableEntityKind} {localPayload : String}
      (hk : SyncableEntityKind.entityTypeToTable change.entityType = some k)
      (hseen : alreadyLogged db.log (toAsciiUppercase change.operation) change = false)
      (hdiv : divergentPayload? env db.log change = some localPayload) :
      PushCase env now change db
        ((recordConflict now change localPayload db).conflicts.latest? change.entityType
          change.entityId) (recordConflict now change localPayload db)
  | applied {k : SyncableEntityKind} {db1 db' : Db}
      (hk : SyncableEntityKind.entityTypeToTable change.entityType = some k)
      (hseen : alreadyLogged db.log (toAsciiUppercase change.operation) change = false)
      (hdiv : divergentPayload? env db.log change = none)
      (hwrite : applyOne env now k change db = .ok db1)
      (hrecord : insertChangeRow now (toAsciiUppercase change.operation) change db1 = .ok db') :
      PushCase env now change db none db'

theorem pushChange_cases {conflict : Option ConflictRow}
    (h : pushChange env now change db = .ok (conflict, db')) :
    PushCase env now change db conflict db' := by
  rw [pushChange] at h
  split at h
  · cases h
  next k hk =>
    simp only at h
    split at h
    · next hseen =>
        obtain ⟨rfl, rfl⟩ := Prod.mk.inj (Except.ok.inj h)
        exact .known hk hseen
    next hseen =>
      split at h
      · next localPayload hdiv =>
          obtain ⟨rfl, rfl⟩ := Prod.mk.inj (Except.ok.inj h)
          exact .conflict hk (by simpa using hseen) hdiv
      · next hdiv =>
          obtain ⟨db1, hwrite, h⟩ := bind_eq_ok.1 h
          obtain ⟨db2, hrecord, h⟩ := bind_eq_ok.1 h
          obtain ⟨rfl, rfl⟩ := Prod.mk.inj (Except.ok.inj h)
          exact .applied hk (by simpa using hseen) hdiv hwrite hrecord

theorem pushLoop_cons {rest : List SyncChange} {state state' : List ConflictRow × Db} :
    pushLoop env now (change :: rest) state = .ok state' ↔
      ∃ conflict db1, pushChange env now change state.2 = .ok (conflict, db1) ∧
        pushLoop env now rest (state.1 ++ conflict.toList, db1) = .ok state' := by
  rw [pushLoop, foldlM_cons_eq_ok]
  constructor
  · rintro ⟨mid, hstep, hrest⟩
    obtain ⟨⟨conflict, db1⟩, hchange, hmid⟩ := bind_eq_ok.1 hstep
    cases Except.ok.inj hmid
    exact ⟨conflict, db1, hchange, hrest⟩
  · rintro ⟨conflict, db1, hchange, hrest⟩
    exact ⟨_, bind_eq_ok.2 ⟨(conflict, db1), hchange, rfl⟩, hrest⟩

end SyncSteps
