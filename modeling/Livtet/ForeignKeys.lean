import Livtet.Applied
import Livtet.Lib.Histories

/-! # What a device logs while it enforces its foreign keys

    The rows of a device are a keyed store, and its change log is a history of them:
    an insert or update puts a row, and a delete drops one, after the rows that went
    with it through cascades. Each statement does to the rows what its log rows say, a
    row that it puts finds its parents in place, and no row is left behind that points
    to a row it dropped.

    The exception is a delete that sets columns to NULL. It logs updates of rows that
    pointed to a row it deletes: `Tangled`. -/

namespace SyncHistory

open SqlRows SyncSchema SyncStore SyncEngine SyncWire SyncContents SyncApplied
open Outcomes Histories Runs

/-! ## Facts about the lists -/

/-- A foreign key of a syncable table leads to a table keyed by `id`, another one, and
    its trigger writes the id. -/
theorem foreignKey_parent : ∀ child : SyncableEntityKind, ∀ fk ∈ child.foreignKeys,
    ∀ p : SyncableEntityKind, fk.parent = .synced p →
      p ≠ child ∧ p.layout.primaryKey = ["id"] ∧ p.auditTrigger.entityId = .hexId := by
  decide

theorem mem_references : ∀ child : SyncableEntityKind, ∀ fk ∈ child.foreignKeys,
    ∀ p : SyncableEntityKind, fk.parent = .synced p → (child, fk) ∈ p.references := by
  decide

theorem of_mem_references : ∀ p : SyncableEntityKind, ∀ q ∈ p.references,
    q.2 ∈ q.1.foreignKeys ∧ q.2.parent = .synced p := by
  decide

/-- How many cascades can follow a delete, one under the other. -/
def cascadeHeight (k : SyncableEntityKind) : Nat :=
  if k.cascades = [] then 0
  else if k.cascades.flatMap SyncableEntityKind.cascades = [] then 1
  else 2

theorem cascadeHeight_lt : ∀ p : SyncableEntityKind, ∀ q ∈ p.references,
    q.2.onDelete = .cascade → cascadeHeight q.1 < cascadeHeight p := by
  decide

theorem cascadeHeight_lt_three : ∀ k : SyncableEntityKind, cascadeHeight k < 3 := by
  decide

/-- A column that no trigger emits has a constant default, which satisfies NOT NULL. -/
theorem unlogged_default : ∀ k : SyncableEntityKind, ∀ col ∈ k.layout.columns,
    col.name ∉ k.emitted →
      col.default ≠ .currentTimestamp ∧ (col.notNull = true → col.default.eval "" ≠ .null) := by
  decide

/-! ## Rows and their keys -/

/-- A row with its table. -/
abbrev Entry := (k : SyncableEntityKind) × k.layout.StoredRow

abbrev Key := SyncableEntityKind × List Value

/-- The table and the primary key of a row. -/
def Entry.key (e : Entry) : Key := (e.1, e.1.layout.primaryKey.map e.2.val)

/-- The rows of a device. -/
def held (db : Db) : Set Entry := {e | e.2 ∈ (db.tables e.1).rows}

/-- The row points, through the foreign key, to the row of this key. -/
structure PointsTo (y : Entry) (fk : ForeignKey) (c : Key) : Prop where
  mem : fk ∈ y.1.foreignKeys
  parent : fk.parent = .synced c.1
  id : c.2 = [y.2.val fk.column]

section Keys

variable {k : SyncableEntityKind} {x y : k.layout.StoredRow} {db db' : Db} {e : Entry}

theorem key_eq_iff : Entry.key ⟨k, x⟩ = Entry.key ⟨k, y⟩ ↔ k.layout.same x.val y.val = true := by
  rw [same_iff x.property, Entry.key, Entry.key, Prod.mk.injEq, List.map_inj_left]
  exact and_iff_right rfl

/-- A device holds one row per key. -/
theorem injOn_key (db : Db) : Set.InjOn Entry.key (held db) := by
  rintro ⟨k, x⟩ hx ⟨k', y⟩ hy hkey
  obtain rfl : k = k' := congrArg Prod.fst hkey
  exact congrArg (Sigma.mk k) (eq_of_same hx hy (key_eq_iff.1 hkey))

theorem held_of_tables {t : Table k.layout} (htables : db'.tables = (db.setTable k t).tables) :
    e ∈ held db' ↔ (e.1 ≠ k ∧ e ∈ held db) ∨ ∃ x ∈ t.rows, e = ⟨k, x⟩ := by
  obtain ⟨k', y⟩ := e
  by_cases hk : k' = k
  · subst hk
    show y ∈ (db'.tables k').rows ↔ _
    rw [rows_of_tables htables]
    constructor
    · exact fun hy => Or.inr ⟨y, hy, rfl⟩
    · rintro (⟨hne, _⟩ | ⟨x, hx, heq⟩)
      · exact absurd rfl hne
      · cases heq
        exact hx
  · have hother : db'.tables k' = db.tables k' := by
      rw [htables]
      exact Function.update_of_ne hk ..
    show y ∈ (db'.tables k').rows ↔ _
    rw [hother]
    constructor
    · exact fun hy => Or.inl ⟨hk, hy⟩
    · rintro (⟨_, hy⟩ | ⟨x, _, heq⟩)
      · exact hy
      · exact absurd (congrArg Sigma.fst heq) hk

theorem held_congr (h : db'.tables = db.tables) : held db' = held db := by
  rw [held, held, h]

/-- The key of a row that a foreign key can lead to is its id. -/
theorem key_of_parent {child : SyncableEntityKind} {fk : ForeignKey} (hfk : fk ∈ child.foreignKeys)
    (hparent : fk.parent = .synced k) : Entry.key ⟨k, x⟩ = (k, [x.val "id"]) := by
  rw [Entry.key, (foreignKey_parent child fk hfk k hparent).2.1]
  rfl

theorem pointsTo_iff {fk : ForeignKey} (hfk : fk ∈ e.1.foreignKeys)
    (hparent : fk.parent = .synced k) :
    PointsTo e fk (Entry.key ⟨k, x⟩) ↔ e.2.val fk.column = x.val "id" := by
  rw [key_of_parent hfk hparent]
  constructor
  · intro h
    exact (List.cons.inj h.id).1.symm
  · intro h
    exact ⟨hfk, hparent, by rw [h]⟩

end Keys

/-! ## Records -/

/-- A change together with the row it tells of, as a trigger wrote it. -/
structure Record (env : Env) where
  change : SyncChange
  op : Operation
  entry : Entry
  sendable : Sendable entry.1 entry.2.val
  entityType : change.entityType = entry.1.entityTypeName
  name : triggerEntityId env entry.1 entry.2.val = some change.entityId
  payload : triggerPayload env entry.1 entry.2.val = some change.payload
  operation : change.operation = op.text
  device : change.deviceId = "local"

theorem Record.of_entry {env : Env} (r : Record env) {k : SyncableEntityKind}
    {x : k.layout.StoredRow} (h : r.entry = ⟨k, x⟩) :
    Sendable k x.val ∧ r.change.entityType = k.entityTypeName ∧
      triggerEntityId env k x.val = some r.change.entityId ∧
      triggerPayload env k x.val = some r.change.payload := by
  obtain ⟨change, op, entry, hsend, htype, hname, hpayload, _, _⟩ := r
  cases h
  exact ⟨hsend, htype, hname, hpayload⟩

/-- What a record does to the rows. -/
def feed (env : Env) : Feed (Record env) Entry Key where
  row := Record.entry
  drops r := decide (r.op = .delete)
  key := Entry.key

/-- The log grew by rows that are sent as the records' changes. -/
def Wrote {env : Env} (log log' : ChangeLog) (records : List (Record env)) : Prop :=
  ∃ new, log'.rows = log.rows ++ new ∧ new.map toSyncChange = records.map fun r => some r.change

/-- A parent is among the rows, or in a table that does not sync, or there is none. -/
def ParentIn (parents : String → List (List UInt8)) (S : Set Entry) (fk : ForeignKey) (v : Value) :
    Prop :=
  v = .null ∨ (∃ p, fk.parent = .synced p ∧ ∃ x : p.layout.StoredRow, ⟨p, x⟩ ∈ S ∧ x.val "id" = v) ∨
    ∃ t b, fk.parent = .other t ∧ v = .blob b ∧ b ∈ parents t

/-- What a record found when it was written: a deleted row is the one of its key; a row
    that is put shares no secondary key with another one, is as its triggers tell it in
    the columns they emit and as its predecessor or its defaults in the others, and has
    its parents where it names new ones. -/
structure Fits {env : Env} (parents : String → List (List UInt8)) (S : Set Entry)
    (r : Record env) : Prop where
  own : r.op = .delete → ∀ e ∈ S, e.key = r.entry.key → e = r.entry
  apart : r.op ≠ .delete → ∀ x : r.entry.1.layout.StoredRow, ⟨r.entry.1, x⟩ ∈ S →
    r.entry.1.layout.same x.val r.entry.2.val = false → r.entry.1.layout.Apart x r.entry.2
  put : r.op ≠ .delete →
    ((∀ e ∈ S, e.key ≠ r.entry.key) ∧
      (∀ now, ∀ c ∉ r.entry.1.emitted, r.entry.2.val c = r.entry.1.layout.defaults now c) ∧
      ∀ fk ∈ r.entry.1.foreignKeys, ParentIn parents S fk (r.entry.2.val fk.column)) ∨
    ∃ x : r.entry.1.layout.StoredRow, ⟨r.entry.1, x⟩ ∈ S ∧
      r.entry.1.layout.same x.val r.entry.2.val = true ∧
      (∀ c ∉ r.entry.1.emitted, r.entry.2.val c = x.val c) ∧
      ∀ fk ∈ r.entry.1.foreignKeys, x.val fk.column ≠ r.entry.2.val fk.column →
        ParentIn parents S fk (r.entry.2.val fk.column)

/-- The statements between two states did to the rows what the records say. -/
structure Told (env : Env) (db db' : Db) (records : List (Record env)) : Prop where
  wrote : Wrote db.log db'.log records
  rows : held db' = exec (feed env).step (held db) records
  fits : Admitted (feed env).step (Fits db.parents) (held db) records
  orphans : ∀ r ∈ records, r.op = .delete → ∀ y ∈ held db,
    (∀ r' ∈ records, r'.entry.key ≠ y.key) → ∀ fk, ¬ PointsTo y fk r.entry.key

/-- One statement: the rows it put are there when it ends. -/
structure Stated (env : Env) (db db' : Db) (records : List (Record env)) : Prop
    extends Told env db db' records where
  placed : ∀ r ∈ records, r.op ≠ .delete → r.entry ∈ held db'

/-- A row pointed, through a foreign key that is set to NULL, to a row whose delete is
    logged. -/
def Tangled (db db' : Db) : Prop :=
  ∃ y ∈ held db, ∃ fk ∈ y.1.foreignKeys, ∃ p, fk.parent = .synced p ∧ fk.onDelete = .setNull ∧
    ∃ row ∈ db'.log.rows, row.operation = "DELETE" ∧ row.entityType = p.entityTypeName ∧
      row.entityId = lowerHex (y.2.val fk.column) ∧ db.log.maxVersion < row.version

section Records

variable {env : Env} {now : String} {k : SyncableEntityKind} {db mid db' : Db}
  {records records' : List (Record env)}

theorem drops_eq {r : Record env} : (feed env).drops r = true ↔ r.op = .delete :=
  decide_eq_true_iff

theorem Wrote.refl (log : ChangeLog) : Wrote log log ([] : List (Record env)) :=
  ⟨[], (List.append_nil _).symm, rfl⟩

theorem Wrote.trans {a b c : ChangeLog} (h : Wrote a b records) (h' : Wrote b c records') :
    Wrote a c (records ++ records') := by
  obtain ⟨new, hrows, hmap⟩ := h
  obtain ⟨new', hrows', hmap'⟩ := h'
  refine ⟨new ++ new', ?_, ?_⟩
  · rw [hrows', hrows, List.append_assoc]
  · rw [List.map_append, List.map_append, hmap, hmap']

/-- A trigger's row is a record. -/
theorem exists_record {op : Operation} {x : k.layout.StoredRow} {i payload : String}
    (hsend : Sendable k x.val) (hi : triggerEntityId env k x.val = some i)
    (hpayload : triggerPayload env k x.val = some payload) {log : ChangeLog}
    (hrange : InRange (log.logLocal now k.entityTypeName i op.text payload)) :
    ∃ r : Record env, r.op = op ∧ r.entry = ⟨k, x⟩ ∧
      Wrote log (log.logLocal now k.entityTypeName i op.text payload) [r] := by
  have hmem : log.localRow now k.entityTypeName i op.text payload ∈
      (log.logLocal now k.entityTypeName i op.text payload).rows := by
    rw [ChangeLog.logLocal_rows]
    exact List.mem_append_right _ List.mem_cons_self
  have hversion : minI64 ≤ log.nextVersion ∧ log.nextVersion ≤ maxI64 :=
    ⟨log.nextVersion_bounds.1, hrange _ hmem⟩
  refine ⟨{ change := { id := ((log.seq + 1 : Nat) : Int), entityType := k.entityTypeName
                        entityId := i, operation := op.text, version := log.nextVersion, payload
                        changedAt := now, deviceId := "local", version_i64 := hversion }
            op, entry := ⟨k, x⟩, sendable := hsend, entityType := rfl, name := hi
            payload := hpayload, operation := rfl, device := rfl }, rfl, rfl, ?_⟩
  refine ⟨[log.localRow now k.entityTypeName i op.text payload], ChangeLog.logLocal_rows .., ?_⟩
  rw [List.map_singleton, List.map_singleton, toSyncChange]
  exact congrArg (fun c => [c]) (dif_pos hversion)

theorem inRange_of_echoed (h : Echoed db db') (hrange : InRange db'.log) : InRange db.log := by
  obtain ⟨new, hext⟩ := h.log.extends
  intro r hr
  refine hrange r ?_
  rw [hext.rows]
  exact List.mem_append_left _ hr

theorem Told.refl (env : Env) (db : Db) : Told env db db [] where
  wrote := Wrote.refl _
  rows := rfl
  fits := trivial
  orphans _ hr := by cases hr

theorem Stated.refl (env : Env) (db : Db) : Stated env db db [] :=
  ⟨Told.refl env db, fun _ hr => by cases hr⟩

/-- One stretch after the other. -/
theorem Told.trans (h : Told env db mid records) (h' : Told env mid db' records')
    (hparents : mid.parents = db.parents) : Told env db db' (records ++ records') where
  wrote := h.wrote.trans h'.wrote
  rows := by
    rw [exec_append, ← h.rows]
    exact h'.rows
  fits := by
    refine Admitted.append records h.fits ?_
    rw [← h.rows, ← hparents]
    exact h'.fits
  orphans := by
    intro r hr hop y hy huntouched
    have hfirst : ∀ r' ∈ records, r'.entry.key ≠ y.key :=
      fun r' hr' => huntouched r' (List.mem_append_left _ hr')
    rcases List.mem_append.1 hr with hr | hr
    · exact h.orphans r hr hop y hy hfirst
    · -- the row is still there when the second stretch begins
      refine h'.orphans r hr hop y ?_ fun r' hr' => huntouched r' (List.mem_append_right _ hr')
      rw [h.rows]
      exact Feed.mem_exec_of_untouched records hy hfirst

theorem maxVersion_le_of_grows {log log' : ChangeLog} (h : ChangeLog.Grows log log') :
    log.maxVersion ≤ log'.maxVersion := by
  obtain ⟨new, hext⟩ := h.extends
  exact hext.max_le

theorem Tangled.later (h : Tangled db mid) (he : Echoed mid db') : Tangled db db' := by
  obtain ⟨y, hy, fk, hfk, p, hparent, hnull, row, hrow, hrest⟩ := h
  obtain ⟨new, hext⟩ := he.log.extends
  refine ⟨y, hy, fk, hfk, p, hparent, hnull, row, ?_, hrest⟩
  rw [hext.rows]
  exact List.mem_append_left _ hrow

theorem Tangled.earlier (h : Tangled mid db') (he : Echoed db mid) (hsub : held mid ⊆ held db) :
    Tangled db db' := by
  obtain ⟨y, hy, fk, hfk, p, hparent, hnull, row, hrow, hop, htype, hid, hversion⟩ := h
  exact ⟨y, hsub hy, fk, hfk, p, hparent, hnull, row, hrow, hop, htype, hid,
    lt_of_le_of_lt (maxVersion_le_of_grows he.log) hversion⟩

end Records

/-! ## Deletes -/

/-- Rows are dropped, each of `W`, the rest stays, and nothing that stays points to a
    dropped row. -/
structure Dropped (env : Env) (W : Set Entry) (db db' : Db) (records : List (Record env)) :
    Prop where
  wrote : Wrote db.log db'.log records
  drops : ∀ r ∈ records, r.op = .delete ∧ r.entry ∈ W
  rows : ∀ e, e ∈ held db' ↔ e ∈ held db ∧ ∀ r ∈ records, r.entry.key ≠ e.key
  orphans : ∀ r ∈ records, ∀ y ∈ held db', ∀ fk, ¬ PointsTo y fk r.entry.key

/-- A device that enforces its foreign keys and whose triggers write. -/
structure Enforcing (db : Db) : Prop where
  foreignKeys : db.foreignKeys = true
  triggers : db.syncApply.getD "0" ≠ "1"

theorem Enforcing.of_echoed {db db' : Db} (h : Enforcing db) (he : Echoed db db') :
    Enforcing db' where
  foreignKeys := he.foreignKeys.trans h.foreignKeys
  triggers := by
    rw [he.syncApply]
    exact h.triggers

section Deletes

variable {env : Env} {now : String} {W : Set Entry} {k : SyncableEntityKind} {db mid db' : Db}
  {records records' : List (Record env)}

theorem Dropped.refl (env : Env) (W : Set Entry) (db : Db) : Dropped env W db db [] where
  wrote := Wrote.refl _
  drops _ hr := by cases hr
  rows e := by simp
  orphans _ hr := by cases hr

theorem Dropped.sub (h : Dropped env W db db' records) : held db' ⊆ held db :=
  fun e he => ((h.rows e).1 he).1

theorem Dropped.trans (h : Dropped env W db mid records) (h' : Dropped env W mid db' records') :
    Dropped env W db db' (records ++ records') where
  wrote := h.wrote.trans h'.wrote
  drops r hr := (List.mem_append.1 hr).elim (h.drops r) (h'.drops r)
  rows e := by
    rw [h'.rows, h.rows, List.forall_mem_append, and_assoc]
  orphans := by
    intro r hr y hy
    rcases List.mem_append.1 hr with hr | hr
    · exact h.orphans r hr y (h'.sub hy)
    · exact h'.orphans r hr y hy

theorem mem_erase_iff {t : Table k.layout} {x old : k.layout.StoredRow} :
    x ∈ (t.erase old).rows ↔ x ∈ t.rows ∧ k.layout.same x.val old.val = false := by
  rw [Table.erase, Table.filter, List.mem_filter, Bool.not_eq_true']

theorem held_erase {old : k.layout.StoredRow}
    (htables : db'.tables = (db.setTable k ((db.tables k).erase old)).tables) (e : Entry) :
    e ∈ held db' ↔ e ∈ held db ∧ Entry.key ⟨k, old⟩ ≠ e.key := by
  obtain ⟨k', y⟩ := e
  rw [held_of_tables htables]
  by_cases hk : k' = k
  · subst hk
    have hkey : Entry.key ⟨k', old⟩ ≠ Entry.key ⟨k', y⟩ ↔ k'.layout.same y.val old.val = false := by
      rw [ne_comm, ne_eq, key_eq_iff, Bool.not_eq_true]
    rw [hkey]
    constructor
    · rintro (⟨hne, _⟩ | ⟨x, hx, heq⟩)
      · exact absurd rfl hne
      · cases heq
        exact mem_erase_iff.1 hx
    · exact fun hy => Or.inr ⟨y, mem_erase_iff.2 hy, rfl⟩
  · have hkey : Entry.key ⟨k, old⟩ ≠ Entry.key ⟨k', y⟩ :=
      fun heq => hk (congrArg Prod.fst heq).symm
    constructor
    · rintro (⟨_, hy⟩ | ⟨x, _, heq⟩)
      · exact ⟨hy, hkey⟩
      · exact absurd (congrArg Sigma.fst heq) hk
    · exact fun hy => Or.inl ⟨hk, hy.1⟩

/-- A row that is there points to `r` through a foreign key that is set to NULL. -/
def Pending (db : Db) (k : SyncableEntityKind) (r : k.layout.StoredRow) : Prop :=
  ∃ y ∈ held db, ∃ fk ∈ y.1.foreignKeys, fk.parent = .synced k ∧ fk.onDelete = .setNull ∧
    y.2.val fk.column = r.val "id"

/-- What is known of a stretch of a delete of `r`: it dropped rows, or a column will be,
    or was, set to NULL. -/
def Progress (env : Env) (W : Set Entry) (k : SyncableEntityKind) (r : k.layout.StoredRow)
    (db db' : Db) (settled : Db → Prop) : Prop :=
  (∃ records, Dropped env W db db' records ∧ settled db') ∨ Pending db k r ∨ Tangled db db'

/-- What the removal of a row is known to do. -/
def Removes (env : Env) (now : String) (W : Set Entry) (depth : Nat) : Prop :=
  ∀ (k : SyncableEntityKind) (r : k.layout.StoredRow) (db db' : Db), cascadeHeight k < depth →
    (⟨k, r⟩ : Entry) ∈ W → held db ⊆ W → Enforcing db → InRange db'.log →
    removeRow env now depth true k r db = .ok db' →
      (∃ records : List (Record env), Dropped env W db db' records ∧
        ∃ d ∈ records, d.entry = ⟨k, r⟩) ∨ Tangled db db'

/-- The children of one foreign key go one by one. By induction on their list: those
    already visited are gone. -/
theorem cascade_children {depth : Nat} (ih : Removes env now W depth)
    (hdepth : cascadeHeight k < depth) : ∀ (children : List k.layout.StoredRow) {db db' : Db},
    (∀ c ∈ children, (⟨k, c⟩ : Entry) ∈ W) → held db ⊆ W → Enforcing db → InRange db'.log →
    children.foldlM (fun db child => removeRow env now depth true k child db) db = .ok db' →
      (∃ records : List (Record env), Dropped env W db db' records ∧
        ∀ c ∈ children, (⟨k, c⟩ : Entry) ∉ held db') ∨ Tangled db db' := by
  intro children
  induction children with
  | nil =>
      intro db db' _ _ _ _ h
      cases Except.ok.inj h
      exact Or.inl ⟨[], Dropped.refl env W db, fun _ hc => by cases hc⟩
  | cons child rest irest =>
      intro db db' hchildren hsub hdb hrange h
      obtain ⟨mid, hchild, hrest⟩ := foldlM_cons_eq_ok.1 h
      have hecho : Echoed db mid := Echoed.removeRow depth hchild
      have hecho' : Echoed mid db' := by
        refine foldlM_invariant (Echoed mid) ?_ hrest (Echoed.refl mid)
        intro t c t' _ hc ht
        exact ht.trans (Echoed.removeRow depth hc)
      rcases ih k child db mid hdepth (hchildren child List.mem_cons_self) hsub hdb
        (inRange_of_echoed hecho' hrange) hchild with ⟨records, hdrop, d, hd, hentry⟩ | htangled
      · rcases irest (fun c hc => hchildren c (List.mem_cons_of_mem _ hc))
          (hdrop.sub.trans hsub) (hdb.of_echoed hecho) hrange hrest with
          ⟨records', hdrop', hgone⟩ | htangled
        · refine Or.inl ⟨records ++ records', hdrop.trans hdrop', ?_⟩
          intro c hc hheld
          rcases List.mem_cons.1 hc with rfl | hc
          · refine ((hdrop.rows _).1 (hdrop'.sub hheld)).2 d hd ?_
            rw [hentry]
          · exact hgone c hc hheld
        · exact Or.inr (htangled.earlier hecho hdrop.sub)
      · exact Or.inr (htangled.later hecho')

/-- What a delete of `r` asks of one foreign key. -/
def deleteAction (env : Env) (now : String) (depth : Nat) {k : SyncableEntityKind}
    (r : k.layout.StoredRow) (db : Db) (p : SyncableEntityKind × ForeignKey) : Except SqlError Db :=
  (db.referencing p.1 p.2 r.val).foldlM (fun db child =>
    match p.2.onDelete with
    | .cascade => removeRow env now depth true p.1 child db
    | .setNull => updateRow env now p.1 child (overlay child.val [(p.2.column, .null)]) db) db

theorem echoed_deleteAction {depth : Nat} {r : k.layout.StoredRow}
    {p : SyncableEntityKind × ForeignKey} (h : deleteAction env now depth r db p = .ok db') :
    Echoed db db' := by
  refine foldlM_invariant (Echoed db) ?_ h (Echoed.refl db)
  intro t child t' _ hchild ht
  split at hchild
  · exact ht.trans (Echoed.removeRow depth hchild)
  · exact ht.trans (Echoed.updateRow hchild)

/-- The rows of a table do not point to `r` through this foreign key. -/
def NonePoints (r : Row) (p : SyncableEntityKind × ForeignKey) (db : Db) : Prop :=
  ∀ y ∈ (db.tables p.1).rows, y.val p.2.column ≠ r "id"

theorem mem_referencing {p : SyncableEntityKind × ForeignKey} {r : Row}
    {y : p.1.layout.StoredRow} :
    y ∈ db.referencing p.1 p.2 r ↔ y ∈ (db.tables p.1).rows ∧ y.val p.2.column = r "id" := by
  rw [Db.referencing, List.mem_filter, decide_eq_true_iff]

theorem deleteAction_progress {depth : Nat} (ih : Removes env now W depth)
    {r : k.layout.StoredRow} {p : SyncableEntityKind × ForeignKey} (hp : p ∈ k.references)
    (hdepth : cascadeHeight k ≤ depth) (hsub : held db ⊆ W) (hdb : Enforcing db)
    (hrange : InRange db'.log) (h : deleteAction env now depth r db p = .ok db') :
    Progress env W k r db db' (NonePoints r.val p) := by
  obtain ⟨hfk, hparent⟩ := of_mem_references k p hp
  have hmem : ∀ c ∈ db.referencing p.1 p.2 r.val, (⟨p.1, c⟩ : Entry) ∈ held db :=
    fun c hc => (mem_referencing.1 hc).1
  cases hdelete : p.2.onDelete with
  | cascade =>
      simp only [deleteAction, hdelete] at h
      have hlt := cascadeHeight_lt k p hp hdelete
      rcases cascade_children ih (lt_of_lt_of_le hlt hdepth) _ (fun c hc => hsub (hmem c hc)) hsub
        hdb hrange h with ⟨records, hdrop, hgone⟩ | htangled
      · refine Or.inl ⟨records, hdrop, fun y hy hpoints => ?_⟩
        -- a row that still points to `r` was on the list
        have hyheld : (⟨p.1, y⟩ : Entry) ∈ held db' := hy
        exact hgone y (mem_referencing.2 ⟨hdrop.sub hyheld, hpoints⟩) hyheld
      · exact Or.inr (Or.inr htangled)
  | setNull =>
      cases hlist : db.referencing p.1 p.2 r.val with
      | nil =>
          rw [deleteAction, hlist] at h
          cases Except.ok.inj h
          refine Or.inl ⟨[], Dropped.refl env W db, fun y hy hpoints => ?_⟩
          have : y ∈ db.referencing p.1 p.2 r.val := mem_referencing.2 ⟨hy, hpoints⟩
          rw [hlist] at this
          cases this
      | cons c rest =>
          have hc : c ∈ db.referencing p.1 p.2 r.val := by
            rw [hlist]
            exact List.mem_cons_self
          exact Or.inr (Or.inl ⟨⟨p.1, c⟩, hmem c hc, p.2, hfk, hparent, hdelete,
            (mem_referencing.1 hc).2⟩)

/-- The foreign keys that point to a table are followed one by one. -/
theorem deleteActions_progress {depth : Nat} (ih : Removes env now W depth)
    {r : k.layout.StoredRow} (hdepth : cascadeHeight k ≤ depth) :
    ∀ (refs : List (SyncableEntityKind × ForeignKey)) {db db' : Db}, refs ⊆ k.references →
    held db ⊆ W → Enforcing db → InRange db'.log →
    refs.foldlM (deleteAction env now depth r) db = .ok db' →
      Progress env W k r db db' fun db' => ∀ p ∈ refs, NonePoints r.val p db' := by
  intro refs
  induction refs with
  | nil =>
      intro db db' _ _ _ _ h
      cases Except.ok.inj h
      exact Or.inl ⟨[], Dropped.refl env W db, fun _ hp => by cases hp⟩
  | cons p rest irest =>
      intro db db' hrefs hsub hdb hrange h
      obtain ⟨mid, hfirst, hrest⟩ := foldlM_cons_eq_ok.1 h
      -- what one action leaves is in reach of the next, unless a reference to it is left over
      have hecho : Echoed db mid := echoed_deleteAction hfirst
      have hecho' : Echoed mid db' :=
        foldlM_invariant (Echoed mid) (fun t q t' _ hq ht => ht.trans (echoed_deleteAction hq))
          hrest (Echoed.refl mid)
      rcases deleteAction_progress ih (hrefs List.mem_cons_self) hdepth hsub hdb
        (inRange_of_echoed hecho' hrange) hfirst with ⟨records, hdrop, hnone⟩ | hpending | htangled
      · rcases irest (fun q hq => hrefs (List.mem_cons_of_mem _ hq)) (hdrop.sub.trans hsub)
          (hdb.of_echoed hecho) hrange hrest with ⟨records', hdrop', hnone'⟩ | hpending | htangled
        · refine Or.inl ⟨records ++ records', hdrop.trans hdrop', fun q hq => ?_⟩
          rcases List.mem_cons.1 hq with rfl | hq
          · intro y hy
            have hyheld : (⟨q.1, y⟩ : Entry) ∈ held db' := hy
            exact hnone y (hdrop'.sub hyheld)
          · exact hnone' q hq
        · obtain ⟨y, hy, hpoints⟩ := hpending
          exact Or.inr (Or.inl ⟨y, hdrop.sub hy, hpoints⟩)
        · exact Or.inr (Or.inr (htangled.earlier hecho hdrop.sub))
      · exact Or.inr (Or.inl hpending)
      · exact Or.inr (Or.inr (htangled.later hecho'))

/-- The delete of a row that another one points to is logged. -/
theorem tangled_of_pending {r : k.layout.StoredRow} {i payload : String} {log : ChangeLog}
    (hpending : Pending db k r) (hgrows : ChangeLog.Grows db.log log)
    (hi : triggerEntityId env k r.val = some i)
    (hlog : db'.log = log.logLocal now k.entityTypeName i "DELETE" payload)
    (hrange : InRange db'.log) : Tangled db db' := by
  obtain ⟨y, hy, fk, hfk, hparent, hnull, hpoints⟩ := hpending
  have hmem : log.localRow now k.entityTypeName i "DELETE" payload ∈ db'.log.rows := by
    rw [hlog, ChangeLog.logLocal_rows]
    exact List.mem_append_right _ List.mem_cons_self
  have hname : i = lowerHex (y.2.val fk.column) := by
    rw [triggerEntityId, (foreignKey_parent y.1 fk hfk k hparent).2.2] at hi
    rw [hpoints]
    exact (Option.some.inj hi).symm
  refine ⟨y, hy, fk, hfk, k, hparent, hnull, _, hmem, rfl, rfl, hname, ?_⟩
  have hold : InRange log := by
    intro row hrow
    refine hrange row ?_
    rw [hlog, ChangeLog.logLocal_rows]
    exact List.mem_append_left _ hrow
  have hle := maxVersion_le_of_grows hgrows
  exact ChangeLog.lt_nextVersion hle (le_trans hle (maxVersion_le_maxI64 hold))

/-- **REMOVING A ROW** drops it and what went with it, or a column is set to NULL. By
    induction on the depth, which the cascades do not use up. -/
theorem removes (hW : ∀ e ∈ W, Sendable e.1 e.2.val) : ∀ depth, Removes env now W depth := by
  intro depth
  induction depth with
  | zero =>
      intro k r db db' hdepth
      exact absurd hdepth (Nat.not_lt_zero _)
  | succ depth ih =>
      intro k r db db' hdepth hr hsub hdb hrange h
      obtain ⟨mid, hactions, hfire⟩ := bind_eq_ok.1 h
      rw [if_pos rfl] at hfire
      have hbase : Echoed db (db.setTable k ((db.tables k).erase r)) := Echoed.setTable db _
      have hecho : Echoed (db.setTable k ((db.tables k).erase r)) mid :=
        Echoed.deleteActions (fun _ _ _ _ => Echoed.removeRow depth) hactions
      have hmid := hdb.of_echoed (hbase.trans hecho)
      -- the row goes first, then its cascades run, and only then is it logged
      have herased : ∀ e, e ∈ held (db.setTable k ((db.tables k).erase r)) ↔
          e ∈ held db ∧ Entry.key ⟨k, r⟩ ≠ e.key := held_erase rfl
      have herase : held (db.setTable k ((db.tables k).erase r)) ⊆ held db :=
        fun e he => ((herased e).1 he).1
      rcases fireTrigger_eq_ok hfire hmid.triggers with ⟨hop, _⟩ | ⟨i, payload, hi, hpayload, hdb'⟩
      · cases hop
      have hlog : db'.log = mid.log.logLocal now k.entityTypeName i Operation.delete.text payload := by
        rw [hdb']
      have hheld : held db' = held mid := held_congr (by rw [hdb'])
      have hon : (db.setTable k ((db.tables k).erase r)).foreignKeys = true := hdb.foreignKeys
      rw [deleteActions, if_pos hon] at hactions
      rcases deleteActions_progress ih (Nat.le_of_lt_succ hdepth) k.references (List.Subset.refl _)
        (herase.trans hsub) (hdb.of_echoed hbase) (inRange_of_echoed (Echoed.fireTrigger hfire) hrange)
        hactions with ⟨records, hdrop, hnone⟩ | hpending | htangled
      · rw [hlog] at hrange
        obtain ⟨d, hdop, hdentry, hdwrote⟩ := exists_record (hW _ hr) hi hpayload hrange
        refine Or.inl ⟨records ++ [d], ⟨?_, ?_, ?_, ?_⟩, d, List.mem_append_right _
          List.mem_cons_self, hdentry⟩
        · rw [hlog]
          exact hdrop.wrote.trans hdwrote
        · intro c hc
          rcases List.mem_append.1 hc with hc | hc
          · exact hdrop.drops c hc
          · cases List.mem_singleton.1 hc
            rw [hdentry]
            exact ⟨hdop, hr⟩
        · intro e
          rw [hheld, hdrop.rows, herased, List.forall_mem_append, List.forall_mem_singleton,
            hdentry, and_assoc, and_comm (a := Entry.key _ ≠ _)]
        · intro c hc y hy fk hpoints
          rw [hheld] at hy
          rcases List.mem_append.1 hc with hc | hc
          · exact hdrop.orphans c hc y hy fk hpoints
          · cases List.mem_singleton.1 hc
            rw [hdentry] at hpoints
            have hparent : fk.parent = .synced k := hpoints.parent
            -- the cascades have left no row that points to this one
            exact hnone (y.1, fk) (mem_references y.1 fk hpoints.mem k hparent) y.2 hy
              ((pointsTo_iff hpoints.mem hparent).1 hpoints)
      · refine Or.inr (tangled_of_pending ?_ (hbase.trans hecho).log hi hlog hrange)
        obtain ⟨y, hy, hpoints⟩ := hpending
        exact ⟨y, herase hy, hpoints⟩
      · exact Or.inr ((htangled.later (Echoed.fireTrigger hfire)).earlier hbase herase)

theorem admitted_drops {parents : String → List (List UInt8)} (hinj : Set.InjOn Entry.key W) :
    ∀ (records : List (Record env)) {S : Set Entry}, S ⊆ W →
    (∀ r ∈ records, r.op = .delete ∧ r.entry ∈ W) →
      Admitted (feed env).step (Fits parents) S records := by
  intro records
  induction records with
  | nil =>
      intro S _ _
      exact trivial
  | cons r rest ih =>
      intro S hsub hdrops
      obtain ⟨hop, hr⟩ := hdrops r List.mem_cons_self
      refine ⟨⟨fun _ e he hkey => hinj (hsub he) hr hkey, fun hne => absurd hop hne,
        fun hne => absurd hop hne⟩, ih ?_ fun c hc => hdrops c (List.mem_cons_of_mem _ hc)⟩
      rintro e (⟨he, _⟩ | ⟨hput, _⟩)
      · exact hsub he
      · rw [drops_eq.2 hop] at hput
        cases hput

theorem Dropped.stated (h : Dropped env (held db) db db' records) : Stated env db db' records where
  wrote := h.wrote
  rows := by
    ext e
    rw [h.rows, Feed.mem_exec_drops records fun r hr => drops_eq.2 (h.drops r hr).1]
    rfl
  fits := admitted_drops (injOn_key db) records subset_rfl h.drops
  orphans r hr _ y hy huntouched := h.orphans r hr y ((h.rows y).2 ⟨hy, huntouched⟩)
  placed r hr hput := absurd (h.drops r hr).1 hput

/-- Deleting by key. -/
theorem deleteFrom_stated (hdb : Enforcing db) (hclean : Clean db) (hrange : InRange db'.log)
    {key : Row} (h : deleteFrom env now k (fun r => k.layout.same r key) db = .ok db') :
    (∃ records, Stated env db db' records) ∨ Tangled db db' := by
  rw [deleteFrom] at h
  rcases filter_same_cases (db.tables k) key with hnone | ⟨old, hold, _, hone⟩
  · rw [hnone] at h
    cases Except.ok.inj h
    exact Or.inl ⟨[], Stated.refl env db⟩
  · rw [hone, foldlM_cons_eq_ok] at h
    obtain ⟨mid, hremove, hrest⟩ := h
    cases Except.ok.inj hrest
    have hW : ∀ e ∈ held db, Sendable e.1 e.2.val := fun e he => hclean e.1 e.2 he
    have holdheld : (⟨k, old⟩ : Entry) ∈ held db := hold
    rcases removes hW 3 k old db db' (cascadeHeight_lt_three k) holdheld subset_rfl hdb hrange
      hremove with ⟨records, hdrop, _⟩ | htangled
    · exact Or.inl ⟨records, hdrop.stated⟩
    · exact Or.inr htangled

end Deletes

/-! ## Inserts and updates -/

section Puts

variable {env : Env} {now : String} {k : SyncableEntityKind} {db db' : Db}
  {x : k.layout.StoredRow} {t : Table k.layout} {r : Record env}

theorem hasParent_iff {fk : ForeignKey} {v : Value} :
    db.hasParent fk v = true ↔ ParentIn db.parents (held db) fk v := by
  unfold ParentIn
  cases hfk : fk.parent with
  | synced k =>
      rw [hasParent_synced hfk]
      refine or_congr_right ⟨?_, ?_⟩
      · rintro ⟨x, hx, hid⟩
        exact Or.inl ⟨k, rfl, x, hx, hid⟩
      · rintro (⟨p, hp, x, hx, hid⟩ | ⟨t, b, hp, _⟩)
        · cases hp
          exact ⟨x, hx, hid⟩
        · cases hp
  | other t =>
      rw [hasParent_other hfk]
      refine or_congr_right ⟨?_, ?_⟩
      · rintro ⟨b, hb, hv⟩
        exact Or.inr ⟨t, b, rfl, hv, hb⟩
      · rintro (⟨p, hp, _⟩ | ⟨t', b, hp, hv, hb⟩)
        · cases hp
        · cases hp
          exact ⟨b, hb, hv⟩

/-- The parents of a row are looked for in other tables than its own. -/
theorem hasParent_after {fk : ForeignKey} (hfk : fk ∈ k.foreignKeys)
    (htables : db'.tables = (db.setTable k t).tables) (hparents : db'.parents = db.parents)
    (v : Value) : db'.hasParent fk v = db.hasParent fk v := by
  have hother : fk.parent ≠ .synced k ∨ v = .null :=
    Or.inl fun hself => (foreignKey_parent k fk hfk k hself).1 rfl
  have hcongr : db'.hasParent fk v = (db.setTable k t).hasParent fk v := by
    simp only [Db.hasParent, htables, hparents]
    rfl
  exact hcongr.trans (hasParent_setTable hother)

theorem held_put (hentry : r.entry = ⟨k, x⟩) (hop : r.op ≠ .delete)
    (htables : db'.tables = (db.setTable k t).tables)
    (ht : ∀ y, y ∈ t.rows ↔
      (y ∈ (db.tables k).rows ∧ k.layout.same y.val x.val = false) ∨ y = x) :
    held db' = (feed env).step (held db) r := by
  have hput : (feed env).drops r = false := decide_eq_false hop
  ext ⟨k', y⟩
  rw [held_of_tables htables, Feed.mem_step, show (feed env).row r = ⟨k, x⟩ from hentry, hput]
  -- only rows of the same kind can have the same key
  by_cases hk : k' = k
  · subst hk
    have hkey : (feed env).key ⟨k', y⟩ ≠ (feed env).key ⟨k', x⟩ ↔
        k'.layout.same y.val x.val = false := by
      show ¬ Entry.key ⟨k', y⟩ = Entry.key ⟨k', x⟩ ↔ _
      rw [key_eq_iff, Bool.not_eq_true]
    rw [hkey]
    constructor
    · rintro (⟨hne, _⟩ | ⟨z, hz, heq⟩)
      · exact absurd rfl hne
      · cases heq
        rcases (ht y).1 hz with hkept | rfl
        · exact Or.inl hkept
        · exact Or.inr ⟨rfl, rfl⟩
    · rintro (hkept | ⟨_, heq⟩)
      · exact Or.inr ⟨y, (ht y).2 (Or.inl hkept), rfl⟩
      · cases heq
        exact Or.inr ⟨y, (ht y).2 (Or.inr rfl), rfl⟩
  · have hkey : (feed env).key ⟨k', y⟩ ≠ (feed env).key ⟨k, x⟩ :=
      fun heq => hk (congrArg Prod.fst heq)
    constructor
    · rintro (⟨_, hy⟩ | ⟨z, _, heq⟩)
      · exact Or.inl ⟨hy, hkey⟩
      · exact absurd (congrArg Sigma.fst heq) hk
    · rintro (⟨hy, _⟩ | ⟨_, heq⟩)
      · exact Or.inl ⟨hk, hy⟩
      · exact absurd (congrArg Sigma.fst heq) hk

theorem stated_put (hop : r.op ≠ .delete) (hwrote : Wrote db.log db'.log [r])
    (hrows : held db' = (feed env).step (held db) r) (hfits : Fits db.parents (held db) r) :
    Stated env db db' [r] where
  wrote := hwrote
  rows := hrows
  fits := ⟨hfits, trivial⟩
  orphans r' hr' hdelete := by
    cases List.mem_singleton.1 hr'
    exact absurd hdelete hop
  placed r' hr' _ := by
    cases List.mem_singleton.1 hr'
    rw [hrows]
    exact Or.inr ⟨decide_eq_false hop, rfl⟩

/-- What a row that is put finds in the tables: no other row with a secondary key of it,
    and its parents, where it is new or names new ones. -/
def FitsIn (db : Db) (k : SyncableEntityKind) (x : k.layout.StoredRow) : Prop :=
  (∀ y ∈ (db.tables k).rows, k.layout.same y.val x.val = false → k.layout.Apart y x) ∧
    (((∀ y ∈ (db.tables k).rows, k.layout.same y.val x.val = false) ∧
        (∀ now, ∀ c ∉ k.emitted, x.val c = k.layout.defaults now c) ∧
        ∀ fk ∈ k.foreignKeys, db.hasParent fk (x.val fk.column) = true) ∨
      ∃ y ∈ (db.tables k).rows, k.layout.same y.val x.val = true ∧
        (∀ c ∉ k.emitted, x.val c = y.val c) ∧
        ∀ fk ∈ k.foreignKeys, y.val fk.column ≠ x.val fk.column →
          db.hasParent fk (x.val fk.column) = true)

/-- The same, told of the rows of the device. -/
theorem fits_iff (hentry : r.entry = ⟨k, x⟩) (hop : r.op ≠ .delete) :
    Fits db.parents (held db) r ↔ FitsIn db k x := by
  obtain ⟨change, op, entry, _, _, _, _, _, _⟩ := r
  cases hentry
  constructor
  · intro h
    refine ⟨h.apart hop, (h.put hop).imp ?_ ?_⟩
    · rintro ⟨hnone, hdefault, hparents⟩
      refine ⟨fun y hy => ?_, hdefault, fun fk hfk => hasParent_iff.2 (hparents fk hfk)⟩
      rw [Bool.eq_false_iff]
      exact fun hsame => hnone ⟨k, y⟩ hy (key_eq_iff.2 hsame)
    · rintro ⟨y, hy, hsame, hkept, hparents⟩
      exact ⟨y, hy, hsame, hkept, fun fk hfk hne => hasParent_iff.2 (hparents fk hfk hne)⟩
  · rintro ⟨hapart, hput⟩
    refine ⟨fun hdelete => absurd hdelete hop, fun _ => hapart, fun _ => hput.imp ?_ ?_⟩
    · rintro ⟨hnone, hdefault, hparents⟩
      refine ⟨?_, hdefault, fun fk hfk => hasParent_iff.1 (hparents fk hfk)⟩
      rintro ⟨k', y⟩ hy hkey
      obtain rfl : k' = k := congrArg Prod.fst hkey
      have hsame := hnone y hy
      rw [key_eq_iff.1 hkey] at hsame
      cases hsame
    · rintro ⟨y, hy, hsame, hkept, hparents⟩
      exact ⟨y, hy, hsame, hkept, fun fk hfk hne => hasParent_iff.1 (hparents fk hfk hne)⟩

theorem stored_of_plain {row : Row} {c : String}
    (htyped : ∀ col, k.layout.column? c = some col → (row c).hasType col.type = true)
    (houtside : k.layout.column? c = none → row c = .null) :
    k.layout.stored env.affinity row c = row c := by
  cases hcol : k.layout.column? c with
  | none => simp only [Layout.stored, hcol, houtside hcol]
  | some col => exact Layout.stored_of_typed hcol (htyped col hcol)

theorem defaults_typed {c : String} {col : Column} (hcol : k.layout.column? c = some col) :
    (k.layout.defaults now c).hasType col.type = true := by
  rw [Layout.defaults_of_column? hcol, Default.hasType_eval _ _ ""]
  exact k.default_typed col (Layout.mem_of_column? hcol).1

theorem defaults_outside {c : String} (hcol : k.layout.column? c = none) :
    k.layout.defaults now c = .null := by
  rw [Layout.defaults, hcol]

/-- What a column that is not logged holds by default does not depend on the time. -/
theorem defaults_unlogged {c : String} (hc : c ∉ k.emitted) (now' : String) :
    k.layout.defaults now c = k.layout.defaults now' c := by
  cases hcol : k.layout.column? c with
  | none => rw [defaults_outside hcol, defaults_outside hcol]
  | some col =>
      obtain ⟨hmem, rfl⟩ := Layout.mem_of_column? hcol
      have hconstant := (unlogged_default k col hmem hc).1
      rw [Layout.defaults_of_column? hcol, Layout.defaults_of_column? hcol]
      cases hdefault : col.default with
      | currentTimestamp => exact absurd hdefault hconstant
      | _ => rfl

/-- Columns that a statement does not name keep what they have. -/
theorem overlay_unlogged (row : Row) {values : Assignments} {c : String}
    (hplain : ∀ p ∈ values, p.1 ∈ k.emitted) (hc : c ∉ k.emitted) :
    overlay row values c = row c := by
  refine overlay_eq_self fun p hp hname => ?_
  rw [← hname] at hc
  exact absurd (hplain p hp) hc

theorem candidate_default {values : Assignments} (hplain : ∀ p ∈ values, p.1 ∈ k.emitted)
    (hx : Table.candidate env.affinity now k.layout values = .ok x) {c : String}
    (hc : c ∉ k.emitted) : x.val c = k.layout.defaults now c := by
  rw [Table.candidate] at hx
  split at hx
  · cases hx
  · have hsame := overlay_unlogged (k.layout.defaults now) hplain hc
    rw [(Layout.store_eq_ok hx).2, stored_of_plain, hsame]
    · intro col hcol
      rw [hsame]
      exact defaults_typed hcol
    · intro hcol
      rw [hsame]
      exact defaults_outside hcol

theorem insertRow_parents (hdb : Enforcing db) (h : insertRow env now k x db = .ok db') :
    ∀ fk ∈ k.foreignKeys, db.hasParent fk (x.val fk.column) = true := by
  have hecho := Echoed.insertRow h
  obtain ⟨t, _, hfire, hparents⟩ := insertRow_eq_ok_iff.1 h
  intro fk hfk
  rw [← hasParent_after hfk (tables_of_fireTrigger hfire) hecho.parents]
  exact requireParents_ok_iff.1 hparents (hecho.foreignKeys.trans hdb.foreignKeys) fk hfk

theorem updateRow_parents (hdb : Enforcing db) {old : k.layout.StoredRow} {new : Row}
    (hnew : k.layout.stored env.affinity new = x.val)
    (h : updateRow env now k old new db = .ok db') :
    ∀ fk ∈ k.foreignKeys, old.val fk.column ≠ x.val fk.column →
      db.hasParent fk (x.val fk.column) = true := by
  have hecho := Echoed.updateRow h
  obtain ⟨s, t, ht, hfire, hparents, _⟩ := updateRow_eq_ok_iff.1 h
  have hs : s.val = x.val := by
    rw [(Layout.store_eq_ok (Table.update_eq_ok_iff.1 ht).1).2, hnew]
  intro fk hfk hne
  rw [← hasParent_after hfk (tables_of_fireTrigger hfire) hecho.parents, ← hs]
  refine requireParents_ok_iff.1 hparents (hecho.foreignKeys.trans hdb.foreignKeys) fk ?_
  exact List.mem_filter.2 ⟨hfk, decide_eq_true (by rw [hs]; exact hne)⟩

/-- An insert of logged columns. -/
theorem insertInto_stated (hdb : Enforcing db) (hclean' : Clean db') (hrange : InRange db'.log)
    {values : Assignments} (hplain : ∀ p ∈ values, p.1 ∈ k.emitted)
    (h : insertInto env now k values db = .ok db') : ∃ records, Stated env db db' records := by
  obtain ⟨x, hx, hinsert⟩ := bind_eq_ok.1 h
  obtain ⟨hclash, i, payload, haudit⟩ := insertRow_eq_ok hdb.triggers hinsert
  have hapart := Layout.apart_of_clash?_eq_none hclash
  have hfree : ∀ y ∈ (db.tables k).rows, k.layout.same y.val x.val = false :=
    fun y hy => hapart y hy k.layout.primaryKey List.mem_cons_self
  have hsend : Sendable k x.val := by
    refine hclean' k x ?_
    rw [rows_of_tables haudit.tables]
    exact List.mem_append_right _ List.mem_cons_self
  have hrange' := hrange
  rw [haudit.log] at hrange'
  obtain ⟨r, hop, hentry, hwrote⟩ := exists_record hsend haudit.name haudit.written hrange'
  have hput : r.op ≠ .delete := by
    rw [hop]
    exact fun hne => by cases hne
  refine ⟨[r], stated_put hput (haudit.log ▸ hwrote) (held_put hentry hput haudit.tables ?_)
    ((fits_iff hentry hput).2 ⟨fun y hy _ => hapart y hy, Or.inl ⟨hfree, ?_, ?_⟩⟩)⟩
  · intro y
    rw [Table.append, List.mem_append, List.mem_singleton]
    exact or_congr_left (and_iff_left_of_imp (hfree y)).symm
  · intro now' c hc
    rw [candidate_default hplain hx hc, defaults_unlogged hc now']
  · exact insertRow_parents hdb hinsert

theorem mem_replace_iff {old : k.layout.StoredRow}
    {h : k.layout.clash? (t.erase old).rows x = none} (hold : old ∈ t.rows)
    (hsame : k.layout.same old.val x.val = true) (y : k.layout.StoredRow) :
    y ∈ (t.replace old x h).rows ↔ (y ∈ t.rows ∧ k.layout.same y.val x.val = false) ∨ y = x := by
  constructor
  · intro hy
    obtain ⟨z, hz, hzy⟩ := List.mem_map.1 hy
    split at hzy
    · exact Or.inr hzy.symm
    · next hne =>
        subst hzy
        refine Or.inl ⟨hz, ?_⟩
        rw [Bool.eq_false_iff]
        exact fun hzx => hne (agree_trans hzx (agree_symm hsame))
  · rintro (⟨hy, hne⟩ | rfl)
    · refine List.mem_map.2 ⟨y, hy, if_neg fun hyold => ?_⟩
      rw [show k.layout.same y.val x.val = true from agree_trans hyold hsame] at hne
      cases hne
    · exact mem_replace hold

/-- A row that differs from one of the key differs from the one it replaced. -/
theorem same_eq_false_of_same {y old x : k.layout.StoredRow}
    (hsame : k.layout.same old.val x.val = true) (hne : k.layout.same y.val x.val = false) :
    k.layout.same y.val old.val = false := by
  rw [Bool.eq_false_iff]
  intro hyold
  have hyx : k.layout.same y.val x.val = true := agree_trans hyold hsame
  rw [hyx] at hne
  cases hne

/-- A row that takes its own place changes nothing. -/
theorem held_replace_self {x : k.layout.StoredRow}
    {hclash : k.layout.clash? ((db.tables k).erase x).rows x = none} (hx : x ∈ (db.tables k).rows)
    (htables : db'.tables = (db.setTable k ((db.tables k).replace x x hclash)).tables) :
    held db' = held db := by
  have hsame : k.layout.same x.val x.val = true := (same_iff x.property).2 fun _ _ => rfl
  ext e
  rw [held_of_tables htables]
  obtain ⟨k', y⟩ := e
  constructor
  · rintro (⟨_, hy⟩ | ⟨z, hz, heq⟩)
    · exact hy
    · cases heq
      rcases (mem_replace_iff hx hsame _).1 hz with hy | rfl
      · exact hy.1
      · exact hx
  · intro hy
    by_cases hk : k' = k
    · subst hk
      refine Or.inr ⟨y, (mem_replace_iff hx hsame y).2 ?_, rfl⟩
      by_cases hyx : k'.layout.same y.val x.val = true
      · exact Or.inr (eq_of_same hy hx hyx)
      · exact Or.inl ⟨hy, by simpa using hyx⟩
    · exact Or.inl ⟨hk, hy⟩

/-- An update of logged columns that keeps the key. -/
theorem updateByKey_stated (hdb : Enforcing db) (hclean' : Clean db') (hrange : InRange db'.log)
    {key : Row} {values : Assignments} (hplain : ∀ p ∈ values, p.1 ∈ k.emitted)
    (hkept : KeyKept (.update k key values)) (h : updateByKey env now k key values db = .ok db') :
    ∃ records, Stated env db db' records := by
  rw [updateByKey] at h
  split at h
  · cases h
  split at h
  · cases Except.ok.inj h
    exact ⟨[], Stated.refl env db⟩
  next old hfind =>
    have hold := List.mem_of_find?_eq_some hfind
    have hmatch := List.find?_some hfind
    have hfound := (same_iff old.property).1 hmatch
    obtain ⟨x, hclash, hx, hcases⟩ := updateRow_eq_ok hdb.triggers h
    -- the row written differs from the old one only in logged columns beside the key
    have hkey : ∀ c ∈ k.layout.primaryKey, x.val c = old.val c := by
      intro c hc
      rw [hx]
      refine stored_key hc (overlay_eq_self fun p hp hpc => ?_)
      subst hpc
      rw [hkept p hp hc, hfound p.1 hc]
    have hunlogged : ∀ c ∉ k.emitted, x.val c = old.val c := by
      intro c hc
      have hsame := overlay_unlogged old.val hplain hc
      rw [hx, stored_of_plain, hsame]
      · intro col hcol
        rw [hsame]
        exact old.property.typed c col hcol
      · intro hcol
        rw [hsame]
        exact old.property.outside c hcol
    have hsame : k.layout.same old.val x.val = true :=
      (same_iff old.property).2 fun c hc => (hkey c hc).symm
    rcases hcases with ⟨hquiet, hdb'⟩ | ⟨i, payload, haudit⟩
    · -- a table whose updates are not logged has nothing but its key to log
      have hxold : x = old := by
        refine Subtype.ext (funext fun c => ?_)
        by_cases hc : c ∈ k.emitted
        · exact hkey c (emitted_of_quiet k hquiet c hc)
        · exact hunlogged c hc
      subst hxold
      have hheld : held db' = held db := held_replace_self hold (by rw [hdb'])
      have hlog : db'.log = db.log := by rw [hdb']; rfl
      exact ⟨[], ⟨hlog ▸ Wrote.refl _, hheld, trivial, fun _ hr => by cases hr⟩,
        fun _ hr => by cases hr⟩
    · have hsend : Sendable k x.val := by
        refine hclean' k x ?_
        rw [rows_of_tables haudit.tables]
        exact mem_replace hold
      have hrange' := hrange
      rw [haudit.log] at hrange'
      obtain ⟨r, hop, hentry, hwrote⟩ := exists_record hsend haudit.name haudit.written hrange'
      have hput : r.op ≠ .delete := by
        rw [hop]
        exact fun hne => by cases hne
      refine ⟨[r], stated_put hput (haudit.log ▸ hwrote)
        (held_put hentry hput haudit.tables (mem_replace_iff hold hsame))
        ((fits_iff hentry hput).2 ⟨?_, Or.inr ⟨old, hold, hsame, hunlogged, ?_⟩⟩)⟩
      · intro y hy hne
        exact Layout.apart_of_clash?_eq_none hclash y
          (mem_erase_iff.2 ⟨hy, same_eq_false_of_same hsame hne⟩)
      · exact updateRow_parents hdb hx.symm h

end Puts

/-! ## Runs of edits -/

/-- An edit that names no column but the logged ones, and keeps the key it updates. -/
def Plain : LocalEdit → Prop
  | .insert k values => ∀ p ∈ values, p.1 ∈ k.emitted
  | .update k key values => (∀ p ∈ values, p.1 ∈ k.emitted) ∧ KeyKept (.update k key values)
  | .delete _ _ => True

/-- Edits, each with its time, one after the other. -/
def perform (env : Env) (edits : List (String × LocalEdit)) (db : Db) : Except SqlError Db :=
  edits.foldlM (fun db e => localEdit env e.1 e.2 db) db

/-- A state the run comes through, the first and the last included. -/
def Visited (env : Env) (edits : List (String × LocalEdit)) (before db : Db) : Prop :=
  ∃ done, done <+: edits ∧ perform env done before = .ok db

section Edits

variable {env : Env} {now : String} {db mid db' before after : Db} {edit : LocalEdit}
  {edits : List (String × LocalEdit)}

/-- **ONE EDIT** does to the rows what its records say, or it sets a column to NULL. -/
theorem localEdit_stated (hdb : Enforcing db) (hclean : Clean db) (hclean' : Clean db')
    (hrange : InRange db'.log) (hplain : Plain edit) (h : localEdit env now edit db = .ok db') :
    (∃ records, Stated env db db' records) ∨ Tangled db db' := by
  cases edit with
  | insert k values => exact Or.inl (insertInto_stated hdb hclean' hrange hplain h)
  | update k key values =>
      exact Or.inl (updateByKey_stated hdb hclean' hrange hplain.1 hplain.2 h)
  | delete k key => exact deleteFrom_stated hdb hclean hrange h

theorem echoed_perform (h : perform env edits db = .ok db') : Echoed db db' :=
  foldlM_invariant (Echoed db) (fun _ _ _ _ he ht => ht.trans (Echoed.localEdit he)) h
    (Echoed.refl db)

theorem Visited.start (env : Env) (edits : List (String × LocalEdit)) (before : Db) :
    Visited env edits before before := ⟨[], List.nil_prefix, rfl⟩

theorem Visited.cons {e : String × LocalEdit} (hfirst : localEdit env e.1 e.2 before = .ok mid)
    (h : Visited env edits mid db) : Visited env (e :: edits) before db := by
  obtain ⟨done, hdone, hperform⟩ := h
  refine ⟨e :: done, (List.prefix_cons_inj e).2 hdone, ?_⟩
  exact foldlM_cons_eq_ok.2 ⟨mid, hfirst, hperform⟩

/-- **A RUN OF EDITS.** By induction on the edits: what happens to the rows is what the
    log tells, and every row it puts is there in a state the run comes through; or a
    column is set to NULL on the way. -/
theorem perform_told : ∀ (edits : List (String × LocalEdit)) {before : Db}, Enforcing before →
    (∀ db, Visited env edits before db → Clean db) → InRange after.log →
    (∀ e ∈ edits, Plain e.2) → perform env edits before = .ok after →
      (∃ records, Told env before after records ∧
        ∀ r ∈ records, r.op ≠ .delete → ∃ db, Visited env edits before db ∧ r.entry ∈ held db) ∨
      ∃ db, Visited env edits before db ∧ Tangled db after := by
  intro edits
  induction edits with
  | nil =>
      intro before _ _ _ _ h
      cases Except.ok.inj h
      exact Or.inl ⟨[], Told.refl env _, fun _ hr => by cases hr⟩
  | cons e rest ih =>
      intro before hdb hclean hrange hplain h
      obtain ⟨mid, hfirst, hrest⟩ := foldlM_cons_eq_ok.1 h
      have hmidClean : ∀ db, Visited env rest mid db → Clean db :=
        fun db hvisited => hclean db (hvisited.cons hfirst)
      have hstart := Visited.start env rest mid
      rcases localEdit_stated hdb (hclean before (Visited.start env _ before))
        (hmidClean mid hstart) (inRange_of_echoed (echoed_perform hrest) hrange)
        (hplain e List.mem_cons_self) hfirst with ⟨records, hstated⟩ | htangled
      · rcases ih (hdb.of_echoed (Echoed.localEdit hfirst)) hmidClean hrange
          (fun e' he' => hplain e' (List.mem_cons_of_mem _ he')) hrest with
          ⟨records', htold', hplaced'⟩ | ⟨db, hvisited, htangled⟩
        · refine Or.inl ⟨records ++ records',
            hstated.toTold.trans htold' (Echoed.localEdit hfirst).parents, ?_⟩
          intro r hr hput
          rcases List.mem_append.1 hr with hr | hr
          · exact ⟨mid, hstart.cons hfirst, hstated.placed r hr hput⟩
          · obtain ⟨db, hvisited, hheld⟩ := hplaced' r hr hput
            exact ⟨db, hvisited.cons hfirst, hheld⟩
        · exact Or.inr ⟨db, hvisited.cons hfirst, htangled⟩
      · exact Or.inr ⟨before, Visited.start env _ before,
          htangled.later (echoed_perform hrest)⟩

end Edits

end SyncHistory
