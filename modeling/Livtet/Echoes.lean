import Livtet.Applied
import Livtet.OwnRow
import Livtet.Push

/-! # Echoes

    The audit triggers also fire for what `apply_changes` writes. Their rows, the echoes,
    are deleted again, but only under the change's own name: `discard_echoes` looks for
    the type and id of the change above the version the log had before. A trigger names
    the row it saw. Where that is another name (a child that a delete cascades to, an id
    in another spelling, a row found under a secondary key) the echo stays, and once the
    log has reached a version that no longer decodes, older rows of the entity go with
    the echoes. -/

namespace SyncEchoes

open SqlRows JsonText SyncSchema SyncStore SyncEngine SyncSteps SyncContents SyncApplied
open SyncOwnRow Outcomes
open SyncPush (Suppressed)

variable {env : Env} {now : String} {options : ApplyOptions} {k : SyncableEntityKind}
  {change : SyncChange} {db db' mid : Db}

/-! ## The rows that triggers add -/

/-- A row that the triggers wrote between two states. -/
def NewRow (db db' : Db) (r : ChangeRow) : Prop := r ∈ db'.log.rows ∧ db.log.seq < r.id

/-- Every row that the triggers wrote has the name of the change. -/
def AllNamed (change : SyncChange) (db db' : Db) : Prop :=
  ∀ r, NewRow db db' r → r.entityType = change.entityType ∧ r.entityId = change.entityId

theorem newRow_iff {new : List ChangeRow} (h : ChangeLog.Extends db.log db'.log new)
    {r : ChangeRow} : NewRow db db' r ↔ r ∈ new := by
  constructor
  · rintro ⟨hr, hid⟩
    rw [h.rows] at hr
    rcases List.mem_append.1 hr with hold | hnew
    · have := db.log.ids_le r hold
      omega
    · exact hnew
  · intro hr
    exact ⟨by rw [h.rows]; exact List.mem_append_right _ hr, h.fresh r hr⟩

theorem AllNamed.refl (change : SyncChange) (db : Db) : AllNamed change db db := by
  rintro r ⟨hr, hid⟩
  have := db.log.ids_le r hr
  omega

/-- Two statements name their rows after the change when each does. -/
theorem allNamed_trans (h : Echoed db mid) (h' : Echoed mid db') :
    AllNamed change db db' ↔ AllNamed change db mid ∧ AllNamed change mid db' := by
  obtain ⟨first, hfirst⟩ := h.log.extends
  obtain ⟨second, hsecond⟩ := h'.log.extends
  constructor
  · intro hall
    refine ⟨fun r hr => hall r ⟨?_, hr.2⟩, fun r hr => hall r ⟨hr.1, ?_⟩⟩
    · rw [hsecond.rows]
      exact List.mem_append_left _ hr.1
    · have := hfirst.seq_le
      have := hr.2
      omega
  · rintro ⟨hbefore, hafter⟩ r ⟨hr, hid⟩
    rw [hsecond.rows] at hr
    rcases List.mem_append.1 hr with hr | hr
    · exact hbefore r ⟨hr, hid⟩
    · exact hafter r ((newRow_iff hsecond).2 hr)

theorem allNamed_congr {a : Db} (h : a.log = db.log) :
    AllNamed change a db' ↔ AllNamed change db db' := by
  unfold AllNamed NewRow
  rw [h]

theorem allNamed_suppressed (hdb : Suppressed db) (h : Echoed db db') :
    AllNamed change db db' := by
  rintro r ⟨hr, hid⟩
  rw [h.quiet hdb] at hr
  have := db.log.ids_le r hr
  omega

/-- The one row of a local log entry. -/
theorem allNamed_logLocal {entityType entityId operation payload : String}
    (h : db'.log = db.log.logLocal now entityType entityId operation payload) :
    AllNamed change db db' ↔ entityType = change.entityType ∧ entityId = change.entityId := by
  have hrows : db'.log.rows =
      db.log.rows ++ [db.log.localRow now entityType entityId operation payload] := by
    rw [h]
    rfl
  constructor
  · intro hall
    exact hall (db.log.localRow now entityType entityId operation payload)
      ⟨by rw [hrows]; exact List.mem_append_right _ List.mem_cons_self, Nat.lt_succ_self _⟩
  · rintro hname r ⟨hr, hid⟩
    rw [hrows] at hr
    rcases List.mem_append.1 hr with hold | hnew
    · have := db.log.ids_le r hold
      omega
    · cases List.mem_singleton.1 hnew
      exact hname

/-- The trigger of this table and operation writes no row, or one with the id. -/
def NamesRow (env : Env) (k : SyncableEntityKind) (op : Operation) (r : Row) (entityId : String) :
    Prop :=
  (op = .update ∧ k.auditTrigger.onUpdate = false) ∨ triggerEntityId env k r = some entityId

theorem allNamed_fireTrigger (hloud : ¬ Suppressed db)
    (hk : SyncableEntityKind.entityTypeToTable change.entityType = some k) {op : Operation}
    {r : Row} (h : fireTrigger env now k op r db = .ok db') :
    AllNamed change db db' ↔ NamesRow env k op r change.entityId := by
  have hname := SyncableEntityKind.name_of_entityTypeToTable hk
  have hwriting : ¬ db.syncApply.getD "0" = "1" := hloud
  rw [fireTrigger, if_neg hwriting] at h
  split at h
  · next hquiet =>
      cases Except.ok.inj h
      exact ⟨fun _ => Or.inl hquiet, fun _ => AllNamed.refl change db⟩
  next hwrites =>
    split at h
    · next i payload hi hpayload =>
        cases Except.ok.inj h
        rw [allNamed_logLocal rfl, NamesRow, hi]
        simp [hname, hwrites]
    · cases h

/-! ## When an upsert names its row after the change -/

/-- The trigger an upsert fires and the row it stores: the candidate, or the row it
    agrees with on a key, overwritten in the columns the statement names. -/
def upsertedRow (env : Env) (now : String) (k : SyncableEntityKind) (values : Assignments)
    (t : Table k.layout) : Except SqlError (Operation × k.layout.StoredRow) := do
  let r ← Table.candidate env.affinity now k.layout values
  match k.layout.clash? t.rows r with
  | none => .ok (.insert, r)
  | some old => do
      let s ← k.layout.store env.affinity (overlay old.val (values.map fun p => (p.1, r.val p.1)))
      .ok (.update, s)

/-- The row that an upsert of the change stores has the change's id. -/
def UpsertNamed (env : Env) (now : String) (options : ApplyOptions) (k : SyncableEntityKind)
    (change : SyncChange) (db : Db) : Prop :=
  ∀ op r, upsertedRow env now k (upsertValues env options change) (db.tables k) = .ok (op, r) →
    NamesRow env k op r.val change.entityId

theorem upsertNamed_of_eq {op : Operation} {r : k.layout.StoredRow}
    (h : upsertedRow env now k (upsertValues env options change) (db.tables k) = .ok (op, r)) :
    UpsertNamed env now options k change db ↔ NamesRow env k op r.val change.entityId := by
  constructor
  · intro hnamed
    exact hnamed op r h
  · intro hnamed op' r' h'
    rw [h] at h'
    obtain ⟨rfl, rfl⟩ := Prod.mk.inj (Except.ok.inj h')
    exact hnamed

theorem allNamed_upsert (hloud : ¬ Suppressed db)
    (hk : SyncableEntityKind.entityTypeToTable change.entityType = some k)
    (h : upsertInto env now k (upsertValues env options change) db = .ok db') :
    AllNamed change db db' ↔ UpsertNamed env now options k change db := by
  cases upsertInto_cases h with
  | added r hclash hr hfire =>
      have hrow : upsertedRow env now k (upsertValues env options change) (db.tables k) =
          .ok (.insert, r) := by
        simp only [upsertedRow, hr, ok_bind, hclash]
      have hset : ¬ Suppressed (db.setTable k ((db.tables k).append r hclash)) := hloud
      rw [upsertNamed_of_eq hrow, ← allNamed_fireTrigger hset hk hfire]
      exact (allNamed_congr rfl).symm
  | replaced r old s hr hold hs hclash hfire =>
      have hrow : upsertedRow env now k (upsertValues env options change) (db.tables k) =
          .ok (.update, s) := by
        simp only [upsertedRow, hr, ok_bind, hold, hs]
      have hset : ¬ Suppressed (db.setTable k ((db.tables k).replace old s hclash)) := hloud
      rw [upsertNamed_of_eq hrow, ← allNamed_fireTrigger hset hk hfire]
      exact (allNamed_congr rfl).symm

/-! ## When a delete names its rows after the change -/

/-- The rows that a delete of the change removes. -/
def isTarget (env : Env) (k : SyncableEntityKind) (change : SyncChange) (r : Row) : Bool :=
  (namedKey env change.entityId).all (columnEquals env k r)

/-- The row has the change's id and, where foreign keys are enforced, no row of another
    table points to it. -/
def Alone (env : Env) (k : SyncableEntityKind) (change : SyncChange) (db : Db) (r : Row) : Prop :=
  triggerEntityId env k r = some change.entityId ∧
    (db.foreignKeys = true → ∀ p ∈ k.references, db.referencing p.1 p.2 r = [])

def DeleteNamed (env : Env) (k : SyncableEntityKind) (change : SyncChange) (db : Db) : Prop :=
  ∀ x ∈ (db.tables k).rows, isTarget env k change x.val = true → Alone env k change db x.val

/-- A trigger that fires for a table of another type leaves a row of that type. -/
theorem not_allNamed_fireTrigger (hloud : ¬ Suppressed db)
    (hk : k.entityTypeName ≠ change.entityType) {op : Operation} {r : Row}
    (hop : op = .update → k.auditTrigger.onUpdate = true)
    (h : fireTrigger env now k op r db = .ok db') : ¬ AllNamed change db db' := by
  have hwriting : ¬ db.syncApply.getD "0" = "1" := hloud
  rw [fireTrigger, if_neg hwriting] at h
  split at h
  · next hquiet =>
      rw [hop hquiet.1] at hquiet
      cases hquiet.2
  · split at h
    · cases Except.ok.inj h
      rw [allNamed_logLocal rfl]
      exact fun hname => hk hname.1
    · cases h

theorem not_allNamed_updateRow (hloud : ¬ Suppressed db)
    (hk : k.entityTypeName ≠ change.entityType) (hquiet : k.auditTrigger.onUpdate = true)
    {old : k.layout.StoredRow} {new : Row} (h : updateRow env now k old new db = .ok db') :
    ¬ AllNamed change db db' := by
  obtain ⟨s, t, _, hfire, _⟩ := updateRow_eq_ok_iff.1 h
  have hset : ¬ Suppressed (db.setTable k t) := hloud
  have hnot := not_allNamed_fireTrigger hset hk (fun _ => hquiet) hfire
  exact fun hall => hnot ((allNamed_congr rfl).2 hall)

theorem not_suppressed (hloud : ¬ Suppressed db) (h : Echoed db db') : ¬ Suppressed db' := by
  intro hs
  refine hloud ?_
  show db.syncApply.getD "0" = "1"
  rw [← h.syncApply]
  exact hs

theorem not_allNamed_removeRow (hloud : ¬ Suppressed db)
    (hk : k.entityTypeName ≠ change.entityType) {depth : Nat} {r : k.layout.StoredRow}
    (h : removeRow env now (depth + 1) true k r db = .ok db') : ¬ AllNamed change db db' := by
  obtain ⟨db1, hact, hfire⟩ := removeRow_eq_ok_iff.1 h
  have hbefore : Echoed db db1 := (Echoed.setTable db ((db.tables k).erase r)).trans
    (Echoed.deleteActions (fun _ _ _ _ => Echoed.removeRow depth) hact)
  have hop : Operation.delete = .update → k.auditTrigger.onUpdate = true := fun hop => by cases hop
  rw [allNamed_trans hbefore (Echoed.fireTrigger hfire)]
  exact fun hall => not_allNamed_fireTrigger (not_suppressed hloud hbefore) hk hop hfire hall.2

/-- What the foreign keys do to one row that points to a removed one. -/
theorem not_allNamed_child (hloud : ¬ Suppressed db)
    (hk : SyncableEntityKind.entityTypeToTable change.entityType = some k) {depth : Nat}
    {p : SyncableEntityKind × ForeignKey} (hp : p ∈ k.references) {child : p.1.layout.StoredRow}
    (h : (match p.2.onDelete with
      | .cascade => removeRow env now (depth + 1) true p.1 child db
      | .setNull => updateRow env now p.1 child (overlay child.val [(p.2.column, .null)]) db) =
        .ok db') : ¬ AllNamed change db db' := by
  obtain ⟨hne, hnull⟩ := k.references_facts p hp
  have hname : p.1.entityTypeName ≠ change.entityType := by
    rw [← SyncableEntityKind.name_of_entityTypeToTable hk]
    exact SyncableEntityKind.entityTypeName_ne hne
  split at h
  · exact not_allNamed_removeRow hloud hname h
  · next hset => exact not_allNamed_updateRow hloud hname (hnull hset) h

/-- The step that the foreign keys take for one row that points to a removed one. -/
theorem echoed_child {depth : Nat} {p : SyncableEntityKind × ForeignKey}
    {child : p.1.layout.StoredRow}
    (h : (match p.2.onDelete with
      | .cascade => removeRow env now depth true p.1 child db
      | .setNull => updateRow env now p.1 child (overlay child.val [(p.2.column, .null)]) db) =
        .ok db') : Echoed db db' := by
  split at h
  · exact Echoed.removeRow depth h
  · exact Echoed.updateRow h

/-- The actions of the foreign keys, by induction on the keys: the first one through which
    a row points to the removed one leaves an echo of another type; before it nothing
    happens, so the rows that point here are still those of the start. -/
theorem not_allNamed_actions (hk : SyncableEntityKind.entityTypeToTable change.entityType = some k)
    {depth : Nat} {r : Row} : ∀ (refs : List (SyncableEntityKind × ForeignKey)) (db db' : Db),
    ¬ Suppressed db → (∀ p ∈ refs, p ∈ k.references) →
    (∃ p ∈ refs, db.referencing p.1 p.2 r ≠ []) →
    refs.foldlM (fun db p =>
      (db.referencing p.1 p.2 r).foldlM (fun db child =>
        match p.2.onDelete with
        | .cascade => removeRow env now (depth + 1) true p.1 child db
        | .setNull => updateRow env now p.1 child (overlay child.val [(p.2.column, .null)]) db)
        db) db = .ok db' →
    ¬ AllNamed change db db' := by
  intro refs
  induction refs with
  | nil =>
      intro db db' _ _ hex _
      obtain ⟨p, hp, _⟩ := hex
      cases hp
  | cons p rest ih =>
      intro db db' hloud hrefs hex h
      obtain ⟨mid, hfirst, hrest⟩ := foldlM_cons_eq_ok.1 h
      have hstep : ∀ t child t', child ∈ db.referencing p.1 p.2 r →
          (match p.2.onDelete with
            | .cascade => removeRow env now (depth + 1) true p.1 child t
            | .setNull => updateRow env now p.1 child (overlay child.val [(p.2.column, .null)]) t) =
            .ok t' → Echoed db t → Echoed db t' :=
        fun t child t' _ hchild ht => ht.trans (echoed_child hchild)
      have hmid : Echoed db mid := foldlM_invariant (Echoed db) hstep hfirst (Echoed.refl db)
      have hlast : Echoed mid db' := by
        refine foldlM_invariant (Echoed mid) ?_ hrest (Echoed.refl mid)
        intro t q t' _ hq ht
        refine foldlM_invariant (Echoed mid) ?_ hq ht
        intro u child u' _ hchild hu
        exact hu.trans (echoed_child hchild)
      rw [allNamed_trans hmid hlast]
      rintro ⟨hall, hall'⟩
      cases hchildren : db.referencing p.1 p.2 r with
      | nil =>
          -- nothing points here through this key
          rw [hchildren] at hfirst
          cases Except.ok.inj hfirst
          refine ih db db' hloud (fun q hq => hrefs q (List.mem_cons_of_mem _ hq)) ?_ hrest hall'
          obtain ⟨q, hq, hne⟩ := hex
          rcases List.mem_cons.1 hq with rfl | hq
          · exact absurd hchildren hne
          · exact ⟨q, hq, hne⟩
      | cons child children =>
          -- the first row that points here is touched, and what it logs stays in the log
          rw [hchildren] at hfirst
          obtain ⟨next, hchild, hothers⟩ := foldlM_cons_eq_ok.1 hfirst
          have hone := not_allNamed_child hloud hk (hrefs p List.mem_cons_self) hchild
          have hnext : Echoed next mid := by
            refine foldlM_invariant (Echoed next) ?_ hothers (Echoed.refl next)
            intro u child u' _ hchild hu
            exact hu.trans (echoed_child hchild)
          exact hone ((allNamed_trans (echoed_child hchild) hnext).1 hall).1

/-- Without a row that points to it, a row is removed and nothing else happens. -/
theorem deleteActions_alone {remove : (k : SyncableEntityKind) → k.layout.StoredRow → Db →
      Except SqlError Db} {r : k.layout.StoredRow}
    (hfree : db.foreignKeys = true → ∀ p ∈ k.references, db.referencing p.1 p.2 r.val = []) :
    deleteActions env now remove k r db = .ok db := by
  unfold deleteActions
  split
  · next hon =>
      have hfree := hfree hon
      generalize k.references = refs at hfree
      induction refs with
      | nil => rfl
      | cons p rest ih =>
          rw [List.foldlM_cons, hfree p List.mem_cons_self]
          exact ih fun q hq => hfree q (List.mem_cons_of_mem _ hq)
  · rfl

/-- Erasing a row leaves the rows of the other tables that point to it. -/
theorem referencing_setTable {t : Table k.layout} {p : SyncableEntityKind × ForeignKey}
    (hp : p ∈ k.references) (r : Row) :
    (db.setTable k t).referencing p.1 p.2 r = db.referencing p.1 p.2 r := by
  unfold Db.referencing
  rw [Db.setTable]
  simp only [Function.update_of_ne (k.references_facts p hp).1]

theorem namesRow_delete {r : Row} {entityId : String} :
    NamesRow env k .delete r entityId ↔ triggerEntityId env k r = some entityId := by
  constructor
  · rintro (⟨hop, _⟩ | hname)
    · cases hop
    · exact hname
  · intro hname
    exact Or.inr hname

theorem removeRow_free {depth : Nat} {r : k.layout.StoredRow}
    (hfree : db.foreignKeys = true → ∀ p ∈ k.references, db.referencing p.1 p.2 r.val = []) :
    removeRow env now (depth + 1) true k r db =
      fireTrigger env now k .delete r.val (db.setTable k ((db.tables k).erase r)) := by
  rw [removeRow, deleteActions_alone, ok_bind, if_pos rfl]
  intro hon p hp
  rw [referencing_setTable hp]
  exact hfree hon p hp

/-- Removing one row. -/
theorem allNamed_removeRow (hloud : ¬ Suppressed db)
    (hk : SyncableEntityKind.entityTypeToTable change.entityType = some k) {depth : Nat}
    {r : k.layout.StoredRow} (h : removeRow env now (depth + 2) true k r db = .ok db') :
    AllNamed change db db' ↔ Alone env k change db r.val := by
  by_cases hfree : db.foreignKeys = true → ∀ p ∈ k.references, db.referencing p.1 p.2 r.val = []
  · rw [removeRow_free hfree] at h
    have hset : ¬ Suppressed (db.setTable k ((db.tables k).erase r)) := hloud
    have hnamed := allNamed_fireTrigger hset hk h
    rw [namesRow_delete] at hnamed
    constructor
    · intro hall
      exact ⟨hnamed.1 ((allNamed_congr rfl).2 hall), hfree⟩
    · rintro ⟨hname, _⟩
      exact (allNamed_congr rfl).1 (hnamed.2 hname)
  · refine ⟨fun hall => absurd hall ?_, fun halone => absurd halone.2 hfree⟩
    have hset : ¬ Suppressed (db.setTable k ((db.tables k).erase r)) := hloud
    simp only [Classical.not_imp, not_forall] at hfree
    obtain ⟨hon, p, hp, hne⟩ := hfree
    obtain ⟨db1, hact, hfire⟩ := removeRow_eq_ok_iff.1 h
    have hecho := Echoed.deleteActions (fun _ _ _ _ => Echoed.removeRow (depth + 1)) hact
    have hon' : (db.setTable k ((db.tables k).erase r)).foreignKeys = true := hon
    rw [deleteActions, if_pos hon'] at hact
    have hnot := not_allNamed_actions hk k.references _ _ hset (fun _ hq => hq)
      ⟨p, hp, by rw [referencing_setTable hp]; exact hne⟩ hact
    intro hall
    refine hnot ((allNamed_trans hecho (Echoed.fireTrigger hfire)).1 ?_).1
    exact (allNamed_congr rfl).2 hall

/-- A lone row is removed without a trace in the other tables. -/
theorem alone_removeRow {depth : Nat} {r : k.layout.StoredRow}
    (hfree : Alone env k change db r.val)
    (h : removeRow env now (depth + 1) true k r db = .ok db') (x : Row) :
    Alone env k change db' x ↔ Alone env k change db x := by
  rw [removeRow_free hfree.2] at h
  have hfk : db'.foreignKeys = db.foreignKeys := (Echoed.fireTrigger h).foreignKeys
  have hrefs : ∀ p ∈ k.references, db'.referencing p.1 p.2 x = db.referencing p.1 p.2 x := by
    intro p hp
    have hset : (db.setTable k ((db.tables k).erase r)).referencing p.1 p.2 x =
        db.referencing p.1 p.2 x := referencing_setTable hp x
    rw [← hset]
    unfold Db.referencing
    rw [tables_of_fireTrigger h]
  unfold Alone
  rw [hfk]
  constructor
  · rintro ⟨hname, hnone⟩
    exact ⟨hname, fun hon p hp => (hrefs p hp).symm.trans (hnone hon p hp)⟩
  · rintro ⟨hname, hnone⟩
    exact ⟨hname, fun hon p hp => (hrefs p hp).trans (hnone hon p hp)⟩

/-- Removing rows one after the other, by induction on the list: up to the first row that
    is not alone, the others stay as alone as they were. -/
theorem allNamed_removeAll (hk : SyncableEntityKind.entityTypeToTable change.entityType = some k) :
    ∀ (xs : List k.layout.StoredRow) (db db' : Db), ¬ Suppressed db →
    xs.foldlM (fun db r => removeRow env now 3 true k r db) db = .ok db' →
    (AllNamed change db db' ↔ ∀ x ∈ xs, Alone env k change db x.val) := by
  intro xs
  induction xs with
  | nil =>
      intro db db' _ h
      cases Except.ok.inj h
      exact ⟨fun _ x hx => (by cases hx), fun _ => AllNamed.refl change db⟩
  | cons r rest ih =>
      intro db db' hloud h
      obtain ⟨mid, hfirst, hrest⟩ := foldlM_cons_eq_ok.1 h
      have hmid : Echoed db mid := Echoed.removeRow 3 hfirst
      have hlast : Echoed mid db' := by
        refine foldlM_invariant (Echoed mid) ?_ hrest (Echoed.refl mid)
        intro t x t' _ hx ht
        exact ht.trans (Echoed.removeRow 3 hx)
      rw [allNamed_trans hmid hlast, allNamed_removeRow hloud hk hfirst,
        ih mid db' (not_suppressed hloud hmid) hrest]
      constructor
      · rintro ⟨halone, hothers⟩ x hx
        rcases List.mem_cons.1 hx with rfl | hx
        · exact halone
        · exact (alone_removeRow halone hfirst x.val).1 (hothers x hx)
      · intro hall
        have halone := hall r List.mem_cons_self
        exact ⟨halone, fun x hx =>
          (alone_removeRow halone hfirst x.val).2 (hall x (List.mem_cons_of_mem _ hx))⟩

/-- A delete that succeeds removes the rows of the key its id names. -/
theorem deleteEntity_eq_ok (h : deleteEntity env now k change.entityId db = .ok db') :
    deleteFrom env now k (isTarget env k change) db = .ok db' := by
  unfold deleteEntity at h
  split at h
  · next key hparse =>
      have hkey : isTarget env k change = fun r =>
          (key.map fun p => (p.1, sqlValue env p.1 p.2)).all (columnEquals env k r) := by
        funext r
        rw [isTarget, namedKey, hparse]
      rw [hkey]
      split at h
      · cases h
      split at h
      · cases h
      · have h := statement_eq_ok h
        unfold deleteMatching at h
        split at h
        · cases h
        · exact h
  · next hparse =>
      split at h
      · cases h
      next id hid =>
        have hkey : isTarget env k change = fun r =>
            [("id", Value.blob id)].all (columnEquals env k r) := by
          funext r
          rw [isTarget, namedKey]
          split
          · next key hobj => exact absurd hobj (hparse key)
          · rw [hid]
        rw [hkey]
        have h := statement_eq_ok h
        unfold deleteMatching at h
        split at h
        · cases h
        · exact h

theorem allNamed_delete (hloud : ¬ Suppressed db)
    (hk : SyncableEntityKind.entityTypeToTable change.entityType = some k)
    (h : deleteEntity env now k change.entityId db = .ok db') :
    AllNamed change db db' ↔ DeleteNamed env k change db := by
  have h := deleteEntity_eq_ok h
  unfold deleteFrom at h
  rw [allNamed_removeAll hk _ db db' hloud h]
  constructor
  · intro hall x hx htarget
    exact hall x (List.mem_filter.2 ⟨hx, htarget⟩)
  · intro hall x hx
    obtain ⟨hmem, htarget⟩ := List.mem_filter.1 hx
    exact hall x hmem htarget

/-! ## One change -/

/-- The triggers are suppressed, or name what the change writes after the change. -/
def Echoless (env : Env) (now : String) (options : ApplyOptions) (change : SyncChange) (db : Db) :
    Prop :=
  Suppressed db ∨ ∀ k, SyncableEntityKind.entityTypeToTable change.entityType = some k →
    if change.operation = "DELETE" then DeleteNamed env k change db
    else UpsertNamed env now options k change db

/-- The log holds no row of the entity above the version it is taken to have reached. -/
def HistorySafe (change : SyncChange) (db : Db) : Prop :=
  ∀ r ∈ db.log.rows, r.entityType = change.entityType → r.entityId = change.entityId →
    r.version ≤ latestVersionIn db.log

theorem allNamed_write (hk : SyncableEntityKind.entityTypeToTable change.entityType = some k)
    (h : writeEntity env now options k change db = .ok db') :
    AllNamed change db db' ↔ Echoless env now options change db := by
  by_cases hloud : Suppressed db
  · exact ⟨fun _ => Or.inl hloud, fun _ => allNamed_suppressed hloud (echoed_writeEntity h)⟩
  have hcases : Echoless env now options change db ↔
      if change.operation = "DELETE" then DeleteNamed env k change db
      else UpsertNamed env now options k change db := by
    unfold Echoless
    rw [hk]
    simp [hloud]
  rw [hcases]
  by_cases hop : change.operation = "DELETE"
  · rw [if_pos hop]
    rw [writeEntity, if_pos hop] at h
    exact allNamed_delete hloud hk h
  · rw [if_neg hop]
    exact allNamed_upsert hloud hk (writeEntity_upsert hop h)

/-- The rows that `discard_echoes` leaves. -/
def keeps (change : SyncChange) (baseline : Int) (r : ChangeRow) : Bool :=
  !(r.entityType == change.entityType && r.entityId == change.entityId &&
    decide (baseline < r.version))

/-- Every echo is discarded exactly when all have the change's name. -/
theorem filter_new_eq_nil {new : List ChangeRow} (h : ChangeLog.Extends db.log mid.log new) :
    new.filter (keeps change (latestVersionIn db.log)) = [] ↔ AllNamed change db mid := by
  rw [List.filter_eq_nil_iff]
  constructor
  · intro hnone r hr
    have hmem := (newRow_iff h).1 hr
    have := hnone r hmem
    simpa [keeps, latestVersionIn_lt h hmem] using this
  · intro hall r hr
    have hname := hall r ((newRow_iff h).2 hr)
    simp [keeps, hname.1, hname.2, latestVersionIn_lt h hr]

/-- No older row is discarded where the log holds none above the baseline. -/
theorem filter_old_eq_self (h : HistorySafe change db) :
    db.log.rows.filter (keeps change (latestVersionIn db.log)) = db.log.rows := by
  refine List.filter_eq_self.2 ?_
  intro r hr
  rw [keeps, Bool.not_eq_true', Bool.eq_false_iff]
  intro hdrop
  simp only [Bool.and_eq_true, beq_iff_eq, decide_eq_true_eq] at hdrop
  have := h r hr hdrop.1.1 hdrop.1.2
  omega

theorem historySafe_of_inRange (h : InRange db.log) : HistorySafe change db := by
  intro r hr _ _
  rw [latestVersionIn_eq h]
  exact ChangeLog.version_le_maxVersion hr

/-- The log after a change was written: the rows that were kept, the echoes that were
    kept, and the change's own. -/
theorem rows_of_applied {new : List ChangeRow} (hnew : ChangeLog.Extends db.log mid.log new)
    (hrecord : insertChangeRow now change.operation change
      (discardEchoes change (latestVersionIn db.log) mid) = .ok db') :
    db'.log.rows = db.log.rows.filter (keeps change (latestVersionIn db.log)) ++
      new.filter (keeps change (latestVersionIn db.log)) ++
      [recordedRow now change.operation change mid.log.seq] := by
  obtain ⟨log, rfl, hrows, _⟩ := insertChangeRow_eq_ok hrecord
  rw [← List.filter_append, ← hnew.rows]
  exact hrows

/-- What one change has to meet: no echo and no older row is out of place. -/
def Unechoed (env : Env) (now : String) (options : ApplyOptions) (change : SyncChange) (db : Db) :
    Prop :=
  Echoless env now options change db ∧ HistorySafe change db

theorem rows_of_unechoed (hk : SyncableEntityKind.entityTypeToTable change.entityType = some k)
    (h : Unechoed env now options change db)
    (hwrite : writeEntity env now options k change db = .ok mid)
    (hrecord : insertChangeRow now change.operation change
      (discardEchoes change (latestVersionIn db.log) mid) = .ok db') :
    db'.log.rows = db.log.rows ++ [recordedRow now change.operation change mid.log.seq] := by
  obtain ⟨new, hnew⟩ := (echoed_writeEntity hwrite).log.extends
  rw [rows_of_applied hnew hrecord, filter_old_eq_self h.2,
    (filter_new_eq_nil hnew).2 ((allNamed_write hk hwrite).2 h.1), List.append_nil]

/-- With every version in range a change adds its row, and more only where it leaves an
    echo. -/
theorem length_of_applied (hk : SyncableEntityKind.entityTypeToTable change.entityType = some k)
    (hrange : InRange db.log) (hwrite : writeEntity env now options k change db = .ok mid)
    (hrecord : insertChangeRow now change.operation change
      (discardEchoes change (latestVersionIn db.log) mid) = .ok db') :
    db.log.rows.length + 1 ≤ db'.log.rows.length ∧
      (db'.log.rows.length = db.log.rows.length + 1 → Unechoed env now options change db) := by
  obtain ⟨new, hnew⟩ := (echoed_writeEntity hwrite).log.extends
  have hsafe : HistorySafe change db := historySafe_of_inRange hrange
  have hrows := rows_of_applied hnew hrecord
  rw [filter_old_eq_self hsafe] at hrows
  have hlen := congrArg List.length hrows
  rw [List.length_append, List.length_append, List.length_singleton] at hlen
  refine ⟨by omega, fun heq => ⟨?_, hsafe⟩⟩
  rw [← allNamed_write hk hwrite, ← filter_new_eq_nil hnew]
  exact List.eq_nil_of_length_eq_zero (by omega)

/-! ## A batch -/

section Batch

variable (env : Env) (now : String) (options : ApplyOptions)

/-- The changes of a batch that are applied, in the order they are. -/
def appliedIn : List SyncChange → Db → List SyncChange
  | [], _ => []
  | change :: rest, db =>
      match applyChange env now options change db with
      | .ok (.applied, db') => change :: appliedIn rest db'
      | .ok (_, db') => appliedIn rest db'
      | .error _ => []

/-- A condition on every change that is applied, in the state it is applied to. -/
def Along (P : SyncChange → Db → Prop) : List SyncChange → Db → Prop
  | [], _ => True
  | change :: rest, db =>
      ∀ step db', applyChange env now options change db = .ok (step, db') →
        (step = .applied → P change db) ∧ Along P rest db'

/-- The log is the old one with one row for each applied change. -/
def LogsExactly (changes : List SyncChange) (db db' : Db) : Prop :=
  ∃ new : List ChangeRow, db'.log.rows = db.log.rows ++ new ∧
    new.map (fun r => r.toChangeEntry) = (appliedIn env now options changes db).map fun change =>
      changeEntry now change.operation change

end Batch

theorem appliedIn_cons_applied {rest : List SyncChange}
    (h : applyChange env now options change db = .ok (.applied, mid)) :
    appliedIn env now options (change :: rest) db =
      change :: appliedIn env now options rest mid := by
  rw [appliedIn, h]

theorem appliedIn_cons_other {rest : List SyncChange} {step : ApplyStep}
    (h : applyChange env now options change db = .ok (step, mid)) (hstep : step ≠ .applied) :
    appliedIn env now options (change :: rest) db = appliedIn env now options rest mid := by
  rw [appliedIn, h]
  cases step with
  | applied => exact absurd rfl hstep
  | skipped => rfl
  | conflicted conflict => rfl

/-- A change that is not applied leaves the log alone. -/
theorem log_of_not_applied {step : ApplyStep}
    (h : applyChange env now options change db = .ok (step, mid)) (hstep : step ≠ .applied) :
    mid.log = db.log := by
  cases applyChange_cases h with
  | ignored _ => rfl
  | conflict _ _ => rfl
  | applied _ _ _ _ _ => exact absurd rfl hstep

/-- By induction on the batch: each applied change adds its row to the end. -/
theorem logsExactly_of_along : ∀ (changes : List SyncChange) (state state' : ApplyOutcome × Db),
    applyOrdered env now options changes state = .ok state' →
    Along env now options (Unechoed env now options) changes state.2 →
    LogsExactly env now options changes state.2 state'.2 := by
  intro changes
  induction changes with
  | nil =>
      intro state state' h _
      cases Except.ok.inj h
      exact ⟨[], (List.append_nil _).symm, rfl⟩
  | cons change rest ih =>
      intro state state' h halong
      obtain ⟨step, mid, hstep, hrest⟩ := applyOrdered_cons.1 h
      obtain ⟨hmet, halong⟩ := halong step mid hstep
      obtain ⟨new, hrows, hnew⟩ := ih _ _ hrest halong
      by_cases happlied : step = .applied
      · subst happlied
        cases applyChange_cases hstep with
        | @applied k written _ hk _ _ hwrite hrecord =>
            have hfirst := rows_of_unechoed hk (hmet rfl) hwrite hrecord
            refine ⟨recordedRow now change.operation change written.log.seq :: new, ?_, ?_⟩
            · rw [hrows, hfirst, List.append_assoc]
              rfl
            · rw [appliedIn_cons_applied hstep, List.map_cons, List.map_cons, hnew]
              rfl
      · refine ⟨new, ?_, ?_⟩
        · rw [hrows, log_of_not_applied hstep happlied]
        · rw [appliedIn_cons_other hstep happlied, hnew]

/-- By induction on the batch: while every version is in range no row is lost, so the
    length of the log counts the echoes that were left. -/
theorem along_of_length : ∀ (changes : List SyncChange) (state state' : ApplyOutcome × Db),
    applyOrdered env now options changes state = .ok state' →
    Along env now options (fun _ db => InRange db.log) changes state.2 →
    state.2.log.rows.length + (appliedIn env now options changes state.2).length ≤
        state'.2.log.rows.length ∧
      (state'.2.log.rows.length =
          state.2.log.rows.length + (appliedIn env now options changes state.2).length →
        Along env now options (Unechoed env now options) changes state.2) := by
  intro changes
  induction changes with
  | nil =>
      intro state state' h _
      cases Except.ok.inj h
      exact ⟨le_refl _, fun _ => trivial⟩
  | cons change rest ih =>
      intro state state' h halong
      obtain ⟨step, mid, hstep, hrest⟩ := applyOrdered_cons.1 h
      obtain ⟨hrange, halong⟩ := halong step mid hstep
      obtain ⟨hle, hmet⟩ := ih _ _ hrest halong
      simp only at hle hmet
      -- the step that was taken is the only one the batch can take here
      have hcons : (step = .applied → Unechoed env now options change state.2) →
          Along env now options (Unechoed env now options) rest mid →
          Along env now options (Unechoed env now options) (change :: rest) state.2 := by
        intro hfirst hothers step' mid' hstep'
        rw [hstep] at hstep'
        obtain ⟨rfl, rfl⟩ := Prod.mk.inj (Except.ok.inj hstep')
        exact ⟨hfirst, hothers⟩
      by_cases happlied : step = .applied
      · subst happlied
        cases applyChange_cases hstep with
        | applied hk _ _ hwrite hrecord =>
            obtain ⟨hone, hclean⟩ := length_of_applied hk (hrange rfl) hwrite hrecord
            rw [appliedIn_cons_applied hstep, List.length_cons]
            refine ⟨by omega, fun heq => hcons (fun _ => hclean (by omega)) (hmet (by omega))⟩
      · rw [appliedIn_cons_other hstep happlied]
        rw [log_of_not_applied hstep happlied] at hle hmet
        exact ⟨hle, fun heq => hcons (fun h => absurd h happlied) (hmet heq)⟩

/-- **NO ECHO IS LEFT AND NO HISTORY LOST** in every batch whose applied changes are all
    unechoed; and while the versions stay in range, in no other batch. -/
theorem logsExactly_iff_unechoed (env : Env) (now : String) (options : ApplyOptions)
    (changes : List SyncChange) (db db' : Db) (outcome : ApplyOutcome)
    (h : applyChanges env now changes options db = .ok (outcome, db')) :
    (Along env now options (Unechoed env now options) (sortByRank changes) db →
        LogsExactly env now options (sortByRank changes) db db') ∧
      (Along env now options (fun _ db => InRange db.log) (sortByRank changes) db →
        LogsExactly env now options (sortByRank changes) db db' →
        Along env now options (Unechoed env now options) (sortByRank changes) db) := by
  refine ⟨fun halong => logsExactly_of_along _ _ _ h halong, ?_⟩
  rintro hrange ⟨new, hrows, hnew⟩
  refine (along_of_length _ _ _ h hrange).2 ?_
  have hlen := congrArg List.length hnew
  rw [List.length_map, List.length_map] at hlen
  rw [hrows, List.length_append, hlen]

/-- The one row of an added file is named after its change. -/
theorem unechoed_addedFile :
    Unechoed Env.reference "2026" {} addedFile (Db.empty false) := by
  refine ⟨Or.inr ?_, fun r hr => by cases hr⟩
  intro k hk
  have hname : SyncableEntityKind.entityTypeToTable addedFile.entityType =
      some .digitalInventory := by
    decide
  rw [hname] at hk
  cases Option.some.inj hk
  rw [if_neg (by decide)]
  obtain ⟨r, hr, hnamed⟩ : ∃ r, upsertedRow Env.reference "2026" .digitalInventory
      (upsertValues Env.reference {} addedFile) ((Db.empty false).tables .digitalInventory) =
        .ok (.insert, r) ∧
      triggerEntityId Env.reference .digitalInventory r.val = some addedFile.entityId :=
    ⟨_, rfl, by decide⟩
  exact (upsertNamed_of_eq hr).2 (Or.inr hnamed)

/-- A file that is new to the device: its echo is discarded, its change is logged. -/
theorem logsExactly_addedFile :
    ∃ outcome db', applyChanges Env.reference "2026" [addedFile] {} (Db.empty false) =
        .ok (outcome, db') ∧
      LogsExactly Env.reference "2026" {} (sortByRank [addedFile]) (Db.empty false) db' := by
  obtain ⟨outcome, db', h⟩ : ∃ outcome db', applyChanges Env.reference "2026" [addedFile] {}
      (Db.empty false) = .ok (outcome, db') := ⟨_, _, rfl⟩
  refine ⟨outcome, db', h, (logsExactly_iff_unechoed _ _ _ _ _ _ _ h).1 ?_⟩
  intro step mid _
  exact ⟨fun _ => unechoed_addedFile, trivial⟩

/-! ## A work deleted with its edition -/

/-- A device that enforces foreign keys, with a work and an edition of it. -/
def library : Db :=
  [LocalEdit.insert .work [("id", .blob (List.replicate 16 1)), ("title", .text "Dune")],
    LocalEdit.insert .edition [("id", .blob (List.replicate 16 2)),
      ("work_id", .blob (List.replicate 16 1))]].foldl
    (fun db edit => (localEdit Env.reference "2026" edit db).toOption.getD db) (Db.empty true)

def deletedWork : SyncChange :=
  { id := 1, entityType := "work", entityId := "01010101010101010101010101010101"
    operation := "DELETE", version := 5, payload := "null", changedAt := "2026"
    deviceId := "tablet", version_i64 := five_i64 }

/-- The device after it applied the delete. -/
def emptied : Db :=
  match applyChanges Env.reference "2026" [deletedWork] {} library with
  | .ok p => p.2
  | .error _ => library

/-- The delete cascades to the edition, and the edition's echo stays. -/
theorem not_logsExactly_cascade :
    (∃ outcome, applyChanges Env.reference "2026" [deletedWork] {} library =
      .ok (outcome, emptied)) ∧
      ¬ LogsExactly Env.reference "2026" {} (sortByRank [deletedWork]) library emptied := by
  refine ⟨⟨_, rfl⟩, ?_⟩
  rintro ⟨new, hrows, hnew⟩
  have hbefore : library.log.rows.length = 2 := by decide
  have hafter : emptied.log.rows.length = 4 := by decide
  have happlied : (appliedIn Env.reference "2026" {} (sortByRank [deletedWork]) library).length =
      1 := by
    decide
  have hlen := congrArg List.length hnew
  rw [List.length_map, List.length_map, happlied] at hlen
  have hall := congrArg List.length hrows
  rw [List.length_append, hbefore, hafter, hlen] at hall
  cases hall

end SyncEchoes
