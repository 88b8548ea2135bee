import Livtet.Conflict
import Livtet.Contents
import Livtet.Lib.Replicas

/-! # What applying a change does

    A change that a trigger wrote on one device, applied on another: the entity is
    left as the change says, every other entity as it was, the rows the apply's own
    triggers wrote are gone again, and the change is the last row of the log. The one
    thing that can go wrong is an upsert that finds another entity's row under a
    secondary key. -/

namespace SyncApplied

open SqlRows JsonText SyncSchema SyncStore SyncEngine SyncSteps SyncWire SyncContents Outcomes

/-- A row that an upsert of the change would overwrite is the change's own. -/
def FindsOwn (env : Env) (now : String) (change : SyncChange) (db : Db) : Prop :=
  ∀ k, SyncableEntityKind.entityTypeToTable change.entityType = some k →
    change.operation ≠ "DELETE" → ∀ members, env.json.parse change.payload = .ok (.obj members) →
      ∀ r, Table.candidate env.affinity now k.layout
          (members.map fun m => (m.1, sqlValue env m.1 m.2)) = .ok r →
        ∀ old, k.layout.clash? (db.tables k).rows r = some old →
          triggerEntityId env k old.val = some change.entityId

/-- The entity is set, the rest stays, and only rows of the entity are logged. -/
structure Effect (env : Env) (now : String) (db db' : Db) (e : String × String)
    (v : Option (List Value)) : Prop where
  clean : Clean db'
  here : content env db' e = v
  others : ∀ e', e' ≠ e → content env db' e' = content env db e'
  echo : db'.log = db.log ∨
    ∃ operation payload, db'.log = db.log.logLocal now e.1 e.2 operation payload

section Write

variable {env : Env} {now : String} {k : SyncableEntityKind} {x : Row} {db db' : Db}

theorem clean_of_tables (hclean : Clean db) {t : Table k.layout}
    (htables : db'.tables = (db.setTable k t).tables) (ht : ∀ y ∈ t.rows, Sendable k y.val) :
    Clean db' := by
  intro k' y hy
  by_cases hk : k' = k
  · subst hk
    rw [rows_of_tables htables] at hy
    exact ht y hy
  · have hother : db'.tables k' = db.tables k' := by
      rw [htables]
      exact Function.update_of_ne hk ..
    rw [hother] at hy
    exact hclean k' y hy

/-- A row with the emitted values of a sendable row is sendable. -/
theorem sendable_congr (h : Sendable k x) {r : k.layout.StoredRow}
    (hr : ∀ c ∈ k.emitted, r.val c = x c) : Sendable k r.val where
  ok := r.property
  ids c hc b hb := h.ids c hc b ((hr c hc).symm.trans hb)

theorem name_congr {y : Row} (hr : ∀ c ∈ k.emitted, y c = x c) :
    triggerEntityId env k y = triggerEntityId env k x :=
  triggerEntityId_congr fun c hc => hr c (k.primaryKey_emitted c hc).1

theorem emittedValues_congr {y : Row} (hr : ∀ c ∈ k.emitted, y c = x c) :
    emittedValues k y = emittedValues k x :=
  List.map_congr_left hr

/-- Values that name every emitted column, each with the row's own value. -/
def Names (k : SyncableEntityKind) (x : Row) (values : Assignments) : Prop :=
  (∀ p ∈ values, p.2 = x p.1) ∧ ∀ c ∈ k.emitted, c ∈ values.map Prod.fst

theorem names_of_perm {values : Assignments}
    (h : values.Perm (k.emitted.map fun c => (c, x c))) : Names k x values := by
  constructor
  · intro p hp
    obtain ⟨c, _, rfl⟩ := List.mem_map.1 (h.mem_iff.1 hp)
    rfl
  · intro c hc
    refine (h.map Prod.fst).mem_iff.2 ?_
    rw [List.map_map]
    exact List.mem_map.2 ⟨c, hc, rfl⟩

/-- An emitted column with the row's own value is stored as it is. -/
theorem stored_emitted (h : Sendable k x) {new : Row} {c : String} (hc : c ∈ k.emitted)
    (hnew : new c = x c) : k.layout.stored env.affinity new c = x c := by
  obtain ⟨col, hcol⟩ := Option.isSome_iff_exists.1 (k.emitted_subset c hc)
  rw [Layout.stored_of_typed hcol, hnew]
  rw [hnew]
  exact h.ok.typed c col hcol

theorem candidate_emitted (h : Sendable k x) {values : Assignments} (hvalues : Names k x values)
    {r : k.layout.StoredRow} (hr : Table.candidate env.affinity now k.layout values = .ok r) :
    ∀ c ∈ k.emitted, r.val c = x c := by
  rw [Table.candidate] at hr
  split at hr
  · cases hr
  · intro c hc
    rw [(Layout.store_eq_ok hr).2]
    exact stored_emitted h hc (overlay_of_named hvalues.1 (hvalues.2 c hc))

/-- **AN UPSERT SETS ITS ENTITY** when what it overwrites is its own. -/
theorem upsertInto_effect (hdb : Auditing db) (hclean : Clean db) (h : Sendable k x) {i : String}
    (hi : triggerEntityId env k x = some i) {values : Assignments} (hvalues : Names k x values)
    (hown : ∀ r, Table.candidate env.affinity now k.layout values = .ok r →
      ∀ old, k.layout.clash? (db.tables k).rows r = some old →
        triggerEntityId env k old.val = some i)
    (hok : upsertInto env now k values db = .ok db') :
    Effect env now db db' (k.entityTypeName, i) (some (emittedValues k x)) := by
  obtain ⟨r, hr, hok⟩ := bind_eq_ok.1 hok
  have hemitted := candidate_emitted h hvalues hr
  split at hok
  · obtain ⟨hclash, i', payload, haudit⟩ := insertRow_eq_ok hdb.triggers hok
    have hname := haudit.name
    rw [name_congr hemitted, hi] at hname
    cases Option.some.inj hname
    have ht : ∀ y ∈ ((db.tables k).append r hclash).rows, Sendable k y.val := by
      intro y hy
      rcases List.mem_append.1 hy with hy | hy
      · exact hclean k y hy
      · cases List.mem_singleton.1 hy
        exact sendable_congr h hemitted
    obtain ⟨hhere, hothers⟩ := content_of_setsIn (setsIn_append ht haudit.name) haudit.tables
    rw [emittedValues_congr hemitted] at hhere
    exact ⟨clean_of_tables hclean haudit.tables ht, hhere, hothers, Or.inr ⟨_, _, haudit.log⟩⟩
  · next old hclash =>
      have hold := Layout.mem_of_clash? hclash
      have hkey := key_of_entityId (hclean k old hold) h (hown r hr old hclash) hi
      -- the named columns take the values of the candidate, which are the row's
      have hnew : ∀ c ∈ k.emitted,
          overlay old.val (values.map fun p => (p.1, r.val p.1)) c = x c := by
        intro c hc
        rw [← hemitted c hc]
        refine overlay_of_named ?_ ?_
        · intro p hp
          obtain ⟨q, _, rfl⟩ := List.mem_map.1 hp
          rfl
        · rw [List.map_map]
          exact hvalues.2 c hc
      obtain ⟨r', hr', hsend, i', t, hi', htables, hrows, hsets, hlog⟩ :=
        update_effect hdb hclean hold
          (fun c hc => (hnew c (k.primaryKey_emitted c hc).1).trans (hkey c hc).symm)
          (fun r' hr' _ => sendable_congr h fun c hc => by
            rw [hr']
            exact stored_emitted h hc (hnew c hc))
          hok
      have hii := hown r hr old hclash
      rw [hi'] at hii
      cases Option.some.inj hii
      have hvalues' : emittedValues k r'.val = emittedValues k x :=
        emittedValues_congr fun c hc => by rw [hr']; exact stored_emitted h hc (hnew c hc)
      obtain ⟨hhere, hothers⟩ := content_of_setsIn hsets htables
      rw [hvalues'] at hhere
      refine ⟨clean_of_tables hclean htables ?_, hhere, hothers, ?_⟩
      · intro y hy
        rcases hrows y hy with rfl | hy
        · exact hsend
        · exact hclean k y hy
      · rcases hlog with ⟨_, hlog⟩ | ⟨payload, haudit⟩
        · exact Or.inl hlog
        · exact Or.inr ⟨_, _, haudit.log⟩

/-- Deleting by the name of a row removes its entity. -/
theorem deleteEntity_effect (hdb : Auditing db) (hclean : Clean db) (h : Sendable k x) {i : String}
    (hi : triggerEntityId env k x = some i) (hok : deleteEntity env now k i db = .ok db') :
    Effect env now db db' (k.entityTypeName, i) none := by
  rw [deleteEntity_eq h hi] at hok
  rcases deleteFrom_same_eq_ok hdb (statement_eq_ok hok) with ⟨hnone, rfl⟩ |
    ⟨old, hold, hsame, i', payload, haudit⟩
  · refine ⟨hclean, ?_, fun _ _ => rfl, Or.inl rfl⟩
    simp only [content, k.entityTypeToTable_name]
    refine Option.eq_none_iff_forall_ne_some.2 fun v hv => ?_
    obtain ⟨y, hy, hiy, _⟩ := (contentOf_eq_some_iff (hclean k)).1 hv
    have hsame := (same_iff y.property).2 (key_of_entityId (hclean k y hy) h hiy hi)
    rw [hnone y hy] at hsame
    cases hsame
  · have hname := haudit.name
    rw [triggerEntityId_congr ((same_iff old.property).1 hsame), hi] at hname
    cases Option.some.inj hname
    obtain ⟨hhere, hothers⟩ := content_of_setsIn (setsIn_erase (hclean k) hold haudit.name)
      haudit.tables
    refine ⟨clean_of_tables hclean haudit.tables ?_, hhere, hothers, Or.inr ⟨_, _, haudit.log⟩⟩
    intro y hy
    exact hclean k y (List.mem_of_mem_filter hy)

theorem applyInventoryPaths_nil (payload : Json) (change : SyncChange) :
    applyInventoryPaths payload change {} = payload := by
  have hpaths : ((([] : List (String × InventoryPaths)).lookup change.entityId).or
      (((payload.get? "id").bind Json.asStr?).bind fun id =>
        ([] : List (String × InventoryPaths)).lookup id)) = none := by
    cases (payload.get? "id").bind Json.asStr? <;> rfl
  simp only [applyInventoryPaths, hpaths]

/-- The table write of a change that a trigger wrote. -/
theorem writeEntity_effect (hdb : Auditing db) (hclean : Clean db) {change : SyncChange}
    (hk : SyncableEntityKind.entityTypeToTable change.entityType = some k)
    (hshaped : Shaped env change.entityType change.entityId change.operation change.payload)
    (hown : FindsOwn env now change db) (hok : writeEntity env now {} k change db = .ok db') :
    Effect env now db db' (change.entityType, change.entityId)
      (bodyOf env change.entityType change.operation change.payload) := by
  obtain ⟨k', x, hsend, htype, hi, hpayload, _⟩ := hshaped
  have hkk : k' = k := by
    rw [htype, k'.entityTypeToTable_name] at hk
    exact Option.some.inj hk
  subst hkk
  rw [writeEntity] at hok
  split at hok
  · next hdelete =>
      rw [hdelete, bodyOf_delete, htype]
      exact deleteEntity_effect hdb hclean hsend hi hok
  · next hop =>
      obtain ⟨members, hparse, hperm⟩ := bound_payload hsend hpayload
      rw [hparse] at hok
      simp only [applyInventoryPaths_nil, ite_self, upsertPayload] at hok
      split at hok
      · cases hok
      split at hok
      · cases hok
      have hbody : bodyOf env change.entityType change.operation change.payload =
          some (emittedValues k' x) := by
        rw [htype]
        exact bodyOf_trigger hsend hpayload hop
      rw [hbody, htype]
      exact upsertInto_effect hdb hclean hsend hi (names_of_perm hperm)
        (fun r hr old hclash => hown k' hk hop members hparse r hr old hclash)
        (statement_eq_ok hok)

end Write

/-! ## The log -/

section Log

variable {env : Env} {now : String} {db db' db1 : Db} {change : SyncChange}

/-- Every version decodes. -/
def InRange (log : ChangeLog) : Prop := ∀ r ∈ log.rows, r.version ≤ maxI64

theorem maxVersion_le_maxI64 {log : ChangeLog} (h : InRange log) : log.maxVersion ≤ maxI64 :=
  ChangeLog.maxVersion_le (by decide) h

theorem latestVersionIn_eq {log : ChangeLog} (h : InRange log) :
    latestVersionIn log = log.maxVersion := by
  rw [latestVersionIn, asI64?, if_pos ⟨log.maxVersion_bounds.1, maxVersion_le_maxI64 h⟩]
  rfl

/-- No row of the entity is newer than a change that meets nothing newer. -/
theorem version_le_of_newerPayload? (hrange : InRange db.log)
    (h : newerPayload? env db.log change = none) {r : ChangeRow} (hr : r ∈ db.log.rows)
    (htype : r.entityType = change.entityType) (hid : r.entityId = change.entityId) :
    r.version ≤ change.version := by
  have hfilter : r ∈ db.log.rows.filter fun r =>
      r.entityType == change.entityType && r.entityId == change.entityId :=
    List.mem_filter.2 ⟨hr, by simp [htype, hid]⟩
  have hsorted := env.desc.sorted 1 (db.log.rows.filter fun r =>
    r.entityType == change.entityType && r.entityId == change.entityId)
  have hmem := (env.desc.perm 1 _).mem_iff.2 hfilter
  -- the query returns the first row it visits, and that is a newest one
  cases hvisit : env.desc.visit 1 (db.log.rows.filter fun r =>
      r.entityType == change.entityType && r.entityId == change.entityId) with
  | nil =>
      rw [hvisit] at hmem
      cases hmem
  | cons a rest =>
      rw [hvisit] at hmem hsorted
      have hlatest : latestRow env db.log change.entityType change.entityId = some a := by
        rw [latestRow, hvisit]
        rfl
      have ha := SyncConflict.mem_of_latestRow hlatest
      have hle : ¬ change.version < a.version := by
        intro hlt
        obtain ⟨p, hp⟩ := (SyncConflict.newerPayload?_isSome hlatest (db.log.bounded a ha).1).2
          ⟨hrange a ha, hlt⟩
        rw [h] at hp
        cases hp
      rcases List.mem_cons.1 hmem with rfl | hrest
      · exact not_lt.1 hle
      · exact le_trans ((List.pairwise_cons.1 hsorted).1 r hrest) (not_lt.1 hle)

/-- The rows an apply's own triggers wrote are gone again. -/
theorem discardEchoes_rows (hrange : InRange db.log)
    (hecho : db1.log = db.log ∨ ∃ operation payload, db1.log =
      db.log.logLocal now change.entityType change.entityId operation payload) :
    (discardEchoes change (latestVersionIn db.log) db1).log.rows = db.log.rows := by
  have hkeep : db.log.rows.filter (fun r => !(r.entityType == change.entityType
      && r.entityId == change.entityId && decide (latestVersionIn db.log < r.version))) =
      db.log.rows := by
    refine List.filter_eq_self.2 fun r hr => ?_
    have hle := ChangeLog.version_le_maxVersion hr
    have hnot : ¬ latestVersionIn db.log < r.version := by
      rw [latestVersionIn_eq hrange]
      omega
    simp [hnot]
  rcases hecho with hsame | ⟨operation, payload, hlog⟩
  · rw [discardEchoes, ChangeLog.deleteWhere_rows, hsame]
    exact hkeep
  · rw [discardEchoes, ChangeLog.deleteWhere_rows, hlog, ChangeLog.logLocal_rows,
      List.filter_append, hkeep]
    have hnext : latestVersionIn db.log < db.log.nextVersion := by
      rw [latestVersionIn_eq hrange]
      exact ChangeLog.lt_nextVersion (le_refl _) (maxVersion_le_maxI64 hrange)
    simp [ChangeLog.localRow, hnext]

end Log

/-! ## One change -/

/-- The log as entries: what each row leaves its entity with. -/
def rowEntry (env : Env) (r : ChangeRow) : Replicas.Entry (String × String) (List Value) where
  entity := (r.entityType, r.entityId)
  version := r.version
  body := bodyOf env r.entityType r.operation r.payload

def entries (env : Env) (log : ChangeLog) : List (Replicas.Entry (String × String) (List Value)) :=
  log.rows.map (rowEntry env)

def sentEntry (env : Env) (c : SyncChange) : Replicas.Entry (String × String) (List Value) where
  entity := (c.entityType, c.entityId)
  version := c.version
  body := bodyOf env c.entityType c.operation c.payload

/-- A change and a row do the same to their entity. -/
def SameEffect (r : ChangeRow) (change : SyncChange) : Prop :=
  (r.operation = "DELETE" ↔ change.operation = "DELETE") ∧
    (change.operation ≠ "DELETE" → r.payload = change.payload)

/-- What the log has of the entity at the change's version is the same change. -/
def TiesAgree (change : SyncChange) (db : Db) : Prop :=
  ∀ r ∈ db.log.rows, r.entityType = change.entityType → r.entityId = change.entityId →
    r.version = change.version → SameEffect r change

/-- A conflict nobody has resolved. -/
def HasConflict (db : Db) : Prop := ∃ r ∈ db.conflicts.rows, r.resolved = false

/-- A change that a trigger wrote. -/
structure Sent (env : Env) (c : SyncChange) : Prop where
  shaped : Shaped env c.entityType c.entityId c.operation c.payload
  positive : 0 < c.version

/-- A row that a trigger wrote, here or elsewhere, and that a page can carry. -/
structure Wellformed (env : Env) (r : ChangeRow) : Prop where
  shaped : Shaped env r.entityType r.entityId r.operation r.payload
  device : r.deviceId.isSome
  positive : 0 < r.version
  range : r.version ≤ maxI64

/-- A device whose contents are what its log says, on top of what it started with. -/
structure Consistent (env : Env) (base : String × String → Option (List Value)) (db : Db) :
    Prop where
  auditing : Auditing db
  clean : Clean db
  rows : ∀ r ∈ db.log.rows, Wellformed env r
  reflects : Replicas.Reflects base (content env db) (entries env db.log)

section Change

variable {env : Env} {now : String} {base : String × String → Option (List Value)}
  {db db' : Db} {change : SyncChange}

theorem Consistent.inRange (h : Consistent env base db) : InRange db.log :=
  fun r hr => (h.rows r hr).range

theorem Consistent.max_nonneg (h : Consistent env base db) : 0 ≤ db.log.maxVersion := by
  cases hm : db.log.maxVersion? with
  | none =>
      rw [ChangeLog.maxVersion, hm]
      exact le_refl _
  | some m =>
      rw [ChangeLog.maxVersion, hm]
      obtain ⟨r, hr, rfl⟩ := List.mem_map.1 (List.max?_eq_some_iff.1 hm).1
      exact le_of_lt (h.rows r hr).positive

theorem body_of_sameEffect {r : ChangeRow} (htype : r.entityType = change.entityType)
    (h : SameEffect r change) :
    bodyOf env r.entityType r.operation r.payload =
      bodyOf env change.entityType change.operation change.payload := by
  by_cases hdelete : change.operation = "DELETE"
  · rw [h.1.2 hdelete, hdelete, bodyOf_delete, bodyOf_delete]
  · rw [bodyOf, bodyOf, if_neg hdelete, if_neg fun hr => hdelete (h.1.1 hr), htype, h.2 hdelete]

theorem hasConflict_recordConflict (localPayload : String) :
    HasConflict (recordConflict now change localPayload db) :=
  ⟨_, List.mem_append_right _ List.mem_cons_self, rfl⟩

theorem insertChangeRow_content (env : Env) {operation : String}
    (h : insertChangeRow now operation change db = .ok db') :
    content env db' = content env db ∧ (Clean db → Clean db') ∧ (Auditing db → Auditing db') ∧
      db'.conflicts = db.conflicts := by
  obtain ⟨log, rfl, _⟩ := insertChangeRow_eq_ok h
  exact ⟨rfl, fun hclean => hclean, fun haudit => ⟨haudit.foreignKeys, haudit.triggers⟩, rfl⟩

/-- **ONE CHANGE.** It is recorded as a conflict, or it becomes the last row of a log
    that the contents still reflect. -/
theorem applyChange_consistent (hdb : Consistent env base db) (hsent : Sent env change)
    (hties : TiesAgree change db) (hown : FindsOwn env now change db) {step : ApplyStep}
    (h : applyChange env now {} change db = .ok (step, db')) :
    HasConflict db' ∨ (Consistent env base db' ∧
      entries env db'.log = entries env db.log ++ [sentEntry env change]) := by
  have hrange := hdb.inRange
  cases applyChange_cases h with
  | ignored hign =>
      -- a trigger's change names a table and an operation
      obtain ⟨k, _, _, htype, _, _, hop⟩ := hsent.shaped
      rcases hign with hnone | ⟨_, hnot⟩
      · rw [htype, k.entityTypeToTable_name] at hnone
        cases hnone
      · rw [hop] at hnot
        cases hnot
  | conflict _ _ => exact Or.inl (hasConflict_recordConflict _)
  | applied hk hnew hop hwrite hrecord =>
      have heffect := writeEntity_effect hdb.auditing hdb.clean hk hsent.shaped hown hwrite
      have haudit := hdb.auditing.of_echoed (echoed_writeEntity hwrite)
      obtain ⟨hcontent, hclean, haudit', _⟩ := insertChangeRow_content env hrecord
      obtain ⟨log, hdb', hrows, _⟩ := insertChangeRow_eq_ok hrecord
      rw [discardEchoes_rows hrange heffect.echo] at hrows
      have hlog : db'.log = log := by rw [hdb']
      have hentries : entries env db'.log = entries env db.log ++ [sentEntry env change] := by
        rw [entries, hlog, hrows, List.map_append]
        rfl
      refine Or.inr ⟨⟨haudit' ⟨haudit.foreignKeys, haudit.triggers⟩, hclean heffect.clean, ?_, ?_⟩,
        hentries⟩
      · intro r hr
        rw [hlog, hrows] at hr
        rcases List.mem_append.1 hr with hr | hr
        · exact hdb.rows r hr
        · cases List.mem_singleton.1 hr
          exact ⟨hsent.shaped, rfl, hsent.positive, change.version_i64.2⟩
      · rw [hentries, hcontent]
        refine hdb.reflects.append ?_ heffect.here heffect.others
        intro y hy hentity
        obtain ⟨r, hr, rfl⟩ := List.mem_map.1 hy
        obtain ⟨htype, hid⟩ := Prod.mk.inj hentity
        refine ⟨version_le_of_newerPayload? hrange hnew hr htype hid, fun hversion => ?_⟩
        exact body_of_sameEffect htype (hties r hr htype hid hversion)

/-! ## A page of changes -/

theorem hasConflict_applyChange {step : ApplyStep} (hdb : HasConflict db)
    (h : applyChange env now {} change db = .ok (step, db')) : HasConflict db' := by
  obtain ⟨r, hr, hopen⟩ := hdb
  cases applyChange_cases h with
  | ignored _ => exact ⟨r, hr, hopen⟩
  | conflict _ _ => exact ⟨r, List.mem_append_left _ hr, hopen⟩
  | applied _ _ _ hwrite hrecord =>
      refine ⟨r, ?_, hopen⟩
      rw [(insertChangeRow_content env hrecord).2.2.2]
      rw [discardEchoes, (echoed_writeEntity hwrite).conflicts]
      exact hr

theorem hasConflict_applyOrdered : ∀ (changes : List SyncChange) (state state' : ApplyOutcome × Db),
    HasConflict state.2 → applyOrdered env now {} changes state = .ok state' →
      HasConflict state'.2 := by
  intro changes
  induction changes with
  | nil =>
      intro state state' hdb h
      cases Except.ok.inj h
      exact hdb
  | cons c rest ih =>
      intro state state' hdb h
      obtain ⟨step, db1, hstep, hrest⟩ := applyOrdered_cons.1 h
      exact ih _ _ (hasConflict_applyChange hdb hstep) hrest

/-- Every change, in the state it finds, meets no other change of its version and no
    other entity's row. -/
def Uncontested (env : Env) (now : String) : List SyncChange → Db → Prop
  | [], _ => True
  | change :: rest, db => (TiesAgree change db ∧ FindsOwn env now change db) ∧
      ∀ step db', applyChange env now {} change db = .ok (step, db') → Uncontested env now rest db'

/-- **A PAGE.** By induction on the changes: a conflict is left behind, or the log has
    grown by the page. -/
theorem applyOrdered_consistent : ∀ (changes : List SyncChange) (state state' : ApplyOutcome × Db),
    Consistent env base state.2 → (∀ c ∈ changes, Sent env c) →
    Uncontested env now changes state.2 → applyOrdered env now {} changes state = .ok state' →
      HasConflict state'.2 ∨ (Consistent env base state'.2 ∧
        entries env state'.2.log = entries env state.2.log ++ changes.map (sentEntry env)) := by
  intro changes
  induction changes with
  | nil =>
      intro state state' hdb _ _ h
      cases Except.ok.inj h
      exact Or.inr ⟨hdb, (List.append_nil _).symm⟩
  | cons c rest ih =>
      intro state state' hdb hsent huncontested h
      obtain ⟨step, db1, hstep, hrest⟩ := applyOrdered_cons.1 h
      obtain ⟨⟨hties, hown⟩, hnext⟩ := huncontested
      rcases applyChange_consistent hdb (hsent c List.mem_cons_self) hties hown hstep with
        hconflict | ⟨hdb1, hentries⟩
      · exact Or.inl (hasConflict_applyOrdered rest _ _ hconflict hrest)
      · rcases ih _ _ hdb1 (fun c' hc' => hsent c' (List.mem_cons_of_mem _ hc'))
          (hnext step db1 hstep) hrest with hconflict | ⟨hdb', hentries'⟩
        · exact Or.inl hconflict
        · refine Or.inr ⟨hdb', ?_⟩
          rw [hentries', hentries, List.append_assoc]
          rfl

end Change

end SyncApplied
