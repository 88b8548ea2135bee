import Livtet.Steps

/-! # When the two write paths call a change a conflict

    `push_changes` and `apply_changes` each decide on their own whether a change
    clashes with the latest logged row of its entity: a push compares versions and
    payload texts, an apply only versions, and neither compares operations. They
    agree, and never overwrite a different change of the same age, exactly when
    the latest row has a version that decodes and, at the change's own version, the
    change's operation and payload. -/

namespace SyncConflict

open SqlRows JsonText SyncSchema SyncStore SyncEngine SyncSteps Outcomes

/-- A conflict row was added and the tables were left alone. -/
def Conflicted (db db' : Db) : Prop :=
  (∃ row, db'.conflicts.rows = db.conflicts.rows ++ [row]) ∧ db'.tables = db.tables

section Paths

variable (env : Env) (now : String) (options : ApplyOptions) (db : Db) (change : SyncChange)

def PushConflicts : Prop :=
  ∃ response db', pushChanges env now [change] db = .ok (response, db') ∧ Conflicted db db'

def ApplyConflicts : Prop :=
  ∃ outcome db', applyChanges env now [change] options db = .ok (outcome, db') ∧ Conflicted db db'

/-- The latest row is newer, or as old and a different change. -/
def LatestDiverges : Prop :=
  ∃ r, latestRow env db.log change.entityType change.entityId = some r ∧
    (change.version < r.version ∨ (r.version = change.version ∧
      (r.operation ≠ change.operation ∨ r.payload ≠ change.payload)))

/-- The two paths raise a conflict together, and always on a divergent latest row. -/
def PathsAgree : Prop :=
  (PushConflicts env now db change ↔ ApplyConflicts env now options db change) ∧
    (LatestDiverges env db change →
      PushConflicts env now db change ∧ ApplyConflicts env now options db change)

/-- The latest row's version decodes and, where it is the change's version, so are
    its operation and payload. -/
def LatestMatches : Prop :=
  ∀ r, latestRow env db.log change.entityType change.entityId = some r →
    r.version ≤ maxI64 ∧
      (r.version = change.version → r.operation = change.operation ∧ r.payload = change.payload)

end Paths

variable {env : Env} {now : String} {options : ApplyOptions} {db db' : Db} {change : SyncChange}

theorem not_conflicted_of_eq (h : db'.conflicts = db.conflicts) : ¬ Conflicted db db' := by
  rintro ⟨⟨row, hrow⟩, _⟩
  have := congrArg List.length hrow
  rw [h, List.length_append, List.length_singleton] at this
  omega

theorem conflicted_recordConflict (localPayload : String) :
    Conflicted db (recordConflict now change localPayload db) :=
  ⟨⟨_, rfl⟩, rfl⟩

theorem toAsciiUppercase_of_isOperation {operation : String} (h : isOperation operation = true) :
    toAsciiUppercase operation = operation := by
  simp only [isOperation, Bool.or_eq_true, beq_iff_eq] at h
  rcases h with (rfl | rfl) | rfl <;> decide

/-- An applied change of an apply leaves the conflicts alone. -/
theorem conflicts_of_applied {operation : String} {db1 : Db} {baseline : Int}
    (hwrite : Echoed db db1)
    (hrecord : insertChangeRow now operation change (discardEchoes change baseline db1) = .ok db') :
    db'.conflicts = db.conflicts := by
  obtain ⟨log, rfl, _, _⟩ := insertChangeRow_eq_ok hrecord
  exact hwrite.conflicts

theorem applyConflicts_iff {k : SyncableEntityKind}
    (hk : SyncableEntityKind.entityTypeToTable change.entityType = some k) :
    ApplyConflicts env now options db change ↔
      ∃ localPayload, newerPayload? env db.log change = some localPayload := by
  constructor
  · rintro ⟨outcome, db', h, hconf⟩
    obtain ⟨step, db1, hchange, hrest⟩ := applyOrdered_cons.1 h
    obtain ⟨_, rfl⟩ := Prod.mk.inj (Except.ok.inj hrest)
    cases applyChange_cases hchange with
    | ignored _ => exact absurd hconf (not_conflicted_of_eq rfl)
    | conflict _ hnew => exact ⟨_, hnew⟩
    | applied _ _ _ hwrite hrecord =>
        exact absurd hconf (not_conflicted_of_eq
          (conflicts_of_applied (echoed_writeEntity hwrite) hrecord))
  · rintro ⟨localPayload, hnew⟩
    have hoffer : change.entityType ≠ "file_offer" := by
      intro he
      rw [he, entityTypeToTable_file_offer] at hk
      cases hk
    have hstep : applyChange env now options change db =
        .ok (.conflicted ((recordConflict now change localPayload db).conflicts.latest?
          change.entityType change.entityId), recordConflict now change localPayload db) := by
      simp only [applyChange, if_neg hoffer, hk, hnew]
    exact ⟨_, _, applyOrdered_cons.2 ⟨_, _, hstep, rfl⟩, conflicted_recordConflict localPayload⟩

theorem pushConflicts_iff {k : SyncableEntityKind}
    (hk : SyncableEntityKind.entityTypeToTable change.entityType = some k)
    (hnew : alreadyLogged db.log (toAsciiUppercase change.operation) change = false) :
    PushConflicts env now db change ↔
      ∃ localPayload, divergentPayload? env db.log change = some localPayload := by
  constructor
  · rintro ⟨response, db', h, hconf⟩
    obtain ⟨⟨conflicts, db2⟩, hloop, h⟩ := bind_eq_ok.1 h
    obtain ⟨conflict, db1, hchange, hrest⟩ := pushLoop_cons.1 hloop
    obtain ⟨_, rfl⟩ := Prod.mk.inj (Except.ok.inj hrest)
    obtain ⟨_, rfl⟩ := Prod.mk.inj (Except.ok.inj h)
    cases pushChange_cases hchange with
    | known _ _ => exact absurd hconf (not_conflicted_of_eq rfl)
    | conflict _ _ hdiv => exact ⟨_, hdiv⟩
    | applied _ _ _ hwrite hrecord =>
        obtain ⟨log, rfl, _, _⟩ := insertChangeRow_eq_ok hrecord
        exact absurd hconf (not_conflicted_of_eq (echoed_applyOne hwrite).conflicts)
  · rintro ⟨localPayload, hdiv⟩
    let loud : Db := { db with syncApply := some "1" }
    have hstep : pushChange env now change loud =
        .ok ((recordConflict now change localPayload loud).conflicts.latest? change.entityType
          change.entityId, recordConflict now change localPayload loud) := by
      simp only [pushChange, hk, loud, hnew, hdiv, Bool.false_eq_true, if_false]
    refine ⟨_, { recordConflict now change localPayload loud with syncApply := none },
      bind_eq_ok.2 ⟨_, pushLoop_cons.2 ⟨_, _, hstep, rfl⟩, rfl⟩, ⟨⟨_, rfl⟩, rfl⟩⟩

/-! ## The two rules on the latest row -/

variable {r : ChangeRow}

theorem newerPayload?_none
    (h : latestRow env db.log change.entityType change.entityId = none) :
    newerPayload? env db.log change = none := by
  simp only [newerPayload?, latestChange, h, Option.bind_none]

theorem divergentPayload?_none
    (h : latestRow env db.log change.entityType change.entityId = none) :
    divergentPayload? env db.log change = none := by
  simp only [divergentPayload?, h]

/-- An apply raises a conflict when the latest version decodes and is above. -/
theorem newerPayload?_isSome
    (h : latestRow env db.log change.entityType change.entityId = some r)
    (hlow : minI64 ≤ r.version) :
    (∃ p, newerPayload? env db.log change = some p) ↔
      r.version ≤ maxI64 ∧ change.version < r.version := by
  by_cases hdec : r.version ≤ maxI64
  · have hasI : asI64? r.version = some r.version := if_pos ⟨hlow, hdec⟩
    simp only [newerPayload?, latestChange, h, Option.bind_some, hasI, Option.map_some]
    by_cases hlt : change.version < r.version
    · simp [hlt, hdec]
    · simp [hlt]
  · have hasI : asI64? r.version = none := if_neg fun hb => hdec hb.2
    simp [newerPayload?, latestChange, h, hasI, hdec]

/-- A push raises a conflict when the latest version, or 0 in place of one that
    does not decode, is above or has another payload. -/
theorem divergentPayload?_isSome
    (h : latestRow env db.log change.entityType change.entityId = some r) :
    (∃ p, divergentPayload? env db.log change = some p) ↔
      change.version < (asI64? r.version).getD 0 ∨
        ((asI64? r.version).getD 0 = change.version ∧ r.payload ≠ change.payload) := by
  simp only [divergentPayload?, h]
  split
  · next hc => exact iff_of_true ⟨_, rfl⟩ hc
  · next hc => exact iff_of_false (fun h => by cases h.choose_spec) hc

theorem mem_of_latestRow (h : latestRow env db.log change.entityType change.entityId = some r) :
    r ∈ db.log.rows := by
  have hmem := SortedPages.mem_of_mem_limited (List.mem_of_mem_head? h)
  exact List.mem_of_mem_filter ((env.desc.perm _ _).mem_iff.1 hmem)

/-- **THE TWO PATHS AGREE** exactly when the latest row of the entity has a version
    that decodes and, at the change's version, is the same change. -/
theorem pathsAgree_iff (env : Env) (now : String) (options : ApplyOptions) (db : Db)
    (change : SyncChange)
    (hknown : (SyncableEntityKind.entityTypeToTable change.entityType).isSome)
    (hop : isOperation change.operation = true)
    (hnew : alreadyLogged db.log change.operation change = false) :
    PathsAgree env now options db change ↔ LatestMatches env db change := by
  obtain ⟨k, hk⟩ := Option.isSome_iff_exists.1 hknown
  rw [← toAsciiUppercase_of_isOperation hop] at hnew
  rw [PathsAgree, pushConflicts_iff hk hnew, applyConflicts_iff hk]
  cases hrow : latestRow env db.log change.entityType change.entityId with
  | none =>
      -- a change of an entity that was never logged conflicts on neither path
      rw [newerPayload?_none hrow, divergentPayload?_none hrow]
      refine iff_of_true ⟨Iff.rfl, ?_⟩ ?_
      · rintro ⟨r, hr, _⟩
        rw [hrow] at hr
        cases hr
      · intro r hr
        rw [hrow] at hr
        cases hr
  | some r =>
      have hbounds := db.log.bounded r (mem_of_latestRow hrow)
      have hversion := change.version_i64
      rw [newerPayload?_isSome hrow hbounds.1, divergentPayload?_isSome hrow]
      have hdiverges : LatestDiverges env db change ↔
          (change.version < r.version ∨ (r.version = change.version ∧
            (r.operation ≠ change.operation ∨ r.payload ≠ change.payload))) := by
        constructor
        · rintro ⟨r', hr', h⟩
          rw [hrow] at hr'
          cases Option.some.inj hr'
          exact h
        · intro h
          exact ⟨r, hrow, h⟩
      have hmatches : LatestMatches env db change ↔ r.version ≤ maxI64 ∧
          (r.version = change.version →
            r.operation = change.operation ∧ r.payload = change.payload) := by
        constructor
        · intro h
          exact h r hrow
        · intro h r' hr'
          rw [hrow] at hr'
          cases Option.some.inj hr'
          exact h
      rw [hdiverges, hmatches]
      by_cases hdec : r.version ≤ maxI64
      · have hasI : asI64? r.version = some r.version := if_pos ⟨hbounds.1, hdec⟩
        rw [hasI, Option.getD_some]
        -- below, at and above the change's version
        rcases lt_trichotomy r.version change.version with hlt | heq | hgt
        · have h1 : ¬ change.version < r.version := by omega
          have h2 : r.version ≠ change.version := by omega
          simp [h1, h2, hdec]
        · rw [heq] at hdec ⊢
          by_cases hp : r.payload = change.payload
          · by_cases ho : r.operation = change.operation
            · simp [hp, ho, hdec]
            · simp [hp, ho]
          · simp [hp]
        · have h2 : r.version ≠ change.version := by omega
          simp [hgt, h2, hdec]
      · -- a version that does not decode is above every change, and no apply sees it
        have hgt : change.version < r.version := by omega
        simp [hdec, hgt]

/-! ## Two deletes of one work at one version -/

def deleteWork (deviceId payload : String) : SyncChange :=
  { id := 0, entityType := "work", entityId := "aaaaaaaaaaaaaaaaaaaaaaaaaaaaaaaa"
    operation := "DELETE", version := 1, payload, changedAt := "2026-01-01 00:00:00", deviceId
    version_i64 := one_i64 }

/-- The database after the tablet pushed its delete. -/
def tabletDeleted : Db :=
  match pushChanges Env.reference "2026-01-01 00:00:00" [deleteWork "tablet" "null"]
      (Db.empty false) with
  | .ok p => p.2
  | .error _ => Db.empty false

theorem pathsAgree_same_delete :
    alreadyLogged tabletDeleted.log "DELETE" (deleteWork "phone" "null") = false ∧
    PathsAgree Env.reference "2026-01-01 00:00:01" {} tabletDeleted
      (deleteWork "phone" "null") := by
  refine ⟨by decide, (pathsAgree_iff _ _ _ _ _ (by decide) (by decide) (by decide)).2 ?_⟩
  intro r hr
  have hrow : latestRow Env.reference tabletDeleted.log "work"
      "aaaaaaaaaaaaaaaaaaaaaaaaaaaaaaaa" = tabletDeleted.log.rows.head? := by
    decide
  rw [show latestRow Env.reference tabletDeleted.log (deleteWork "phone" "null").entityType
    (deleteWork "phone" "null").entityId = tabletDeleted.log.rows.head? from hrow] at hr
  cases Option.some.inj hr
  decide

/-- With another payload a push raises a conflict and an apply overwrites. -/
theorem not_pathsAgree_other_payload :
    (SyncableEntityKind.entityTypeToTable (deleteWork "phone" "true").entityType).isSome ∧
    isOperation (deleteWork "phone" "true").operation = true ∧
    alreadyLogged tabletDeleted.log "DELETE" (deleteWork "phone" "true") = false ∧
    ¬ PathsAgree Env.reference "2026-01-01 00:00:01" {} tabletDeleted
      (deleteWork "phone" "true") := by
  refine ⟨by decide, by decide, by decide, ?_⟩
  rintro ⟨hagree, _⟩
  have hk : SyncableEntityKind.entityTypeToTable (deleteWork "phone" "true").entityType =
      some .work := by
    decide
  rw [pushConflicts_iff hk (by decide), applyConflicts_iff hk] at hagree
  have hpush : divergentPayload? Env.reference tabletDeleted.log (deleteWork "phone" "true") =
      some "null" := by
    decide
  have happly : newerPayload? Env.reference tabletDeleted.log (deleteWork "phone" "true") =
      none := by
    decide
  obtain ⟨p, hp⟩ := hagree.1 ⟨_, hpush⟩
  rw [happly] at hp
  cases hp

end SyncConflict
