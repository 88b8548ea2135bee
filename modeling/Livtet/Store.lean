import Livtet.Lib.JsonText
import Livtet.Lib.Outcomes
import Livtet.Lib.SortedPages
import Livtet.Lib.UlidText
import Livtet.Schema

/-! # The client database — change log, conflicts, triggers and statements

    `Db` is the part of a client database that syncing reads and writes: the
    syncable tables, the change log, the conflicts, and the `sync_apply` setting
    that suppresses the audit triggers. Its statements fire the triggers and, on
    a connection that enforces them, the foreign keys; a statement that fails
    leaves no state behind.

    `Echoed` says what a statement on a syncable table can do to the rest of the
    database: it appends local rows to the change log, each at the next version,
    and nothing while the triggers are suppressed. -/

namespace SyncStore

open SqlRows JsonText SyncSchema Outcomes SortedPages

/-! ## The change log -/

def minI64 : Int := -2 ^ 63
def maxI64 : Int := 2 ^ 63 - 1

/-- `MAX(version) + 1` above `maxI64`: the sum overflows into a REAL of this
    value, which is also what adding one to that REAL gives. -/
def realVersion : Int := 2 ^ 63

/-- A change-log row before it has an id. -/
structure ChangeEntry where
  entityType : String
  entityId : String
  operation : String
  version : Int
  payload : String
  changedAt : String
  deviceId : Option String
deriving DecidableEq, Repr

structure ChangeRow extends ChangeEntry where
  id : Nat
deriving DecidableEq, Repr

/-- `uq_change_log_remote_identity`: two rows of another device with one identity. -/
def ChangeRow.remoteTwin (a b : ChangeRow) : Bool :=
  a.deviceId.isSome && a.deviceId != some "local" && a.entityType == b.entityType
    && a.entityId == b.entityId && a.version == b.version && a.deviceId == b.deviceId
    && a.operation == b.operation

/-- The `change_log` table. Ids come from `AUTOINCREMENT`, so they only grow and
    no id is used twice. -/
structure ChangeLog where
  rows : List ChangeRow
  seq : Nat
  ascending : rows.Pairwise fun a b => a.id < b.id
  ids_le : ∀ r ∈ rows, r.id ≤ seq
  bounded : ∀ r ∈ rows, minI64 ≤ r.version ∧ r.version ≤ realVersion
  remote : rows.Pairwise fun a b => a.remoteTwin b = false

namespace ChangeLog

def empty : ChangeLog where
  rows := []
  seq := 0
  ascending := List.Pairwise.nil
  ids_le := fun _ h => by cases h
  bounded := fun _ h => by cases h
  remote := List.Pairwise.nil

/-- `SELECT MAX(version)`, NULL when there is no row. -/
def maxVersion? (log : ChangeLog) : Option Int := (log.rows.map fun r => r.version).max?

/-- `SELECT COALESCE(MAX(version), 0)`. -/
def maxVersion (log : ChangeLog) : Int := log.maxVersion?.getD 0

/-- The version an audit trigger gives its row. -/
def nextVersion (log : ChangeLog) : Int := min (log.maxVersion + 1) realVersion

/-- Add a row under the next id. -/
def append (log : ChangeLog) (e : ChangeEntry)
    (hv : minI64 ≤ e.version ∧ e.version ≤ realVersion)
    (hr : ∀ r ∈ log.rows, r.remoteTwin { e with id := log.seq + 1 } = false) : ChangeLog where
  rows := log.rows ++ [{ e with id := log.seq + 1 }]
  seq := log.seq + 1
  ascending := by
    rw [List.pairwise_append]
    refine ⟨log.ascending, List.pairwise_singleton _ _, ?_⟩
    intro x hx y hy
    cases List.mem_singleton.1 hy
    exact Nat.lt_succ_of_le (log.ids_le x hx)
  ids_le := by
    intro r hr
    rcases List.mem_append.1 hr with h | h
    · exact Nat.le_succ_of_le (log.ids_le r h)
    · cases List.mem_singleton.1 h
      exact le_refl _
  bounded := by
    intro r hr
    rcases List.mem_append.1 hr with h | h
    · exact log.bounded r h
    · cases List.mem_singleton.1 h
      exact hv
  remote := by
    rw [List.pairwise_append]
    refine ⟨log.remote, List.pairwise_singleton _ _, ?_⟩
    intro x hx y hy
    cases List.mem_singleton.1 hy
    exact hr x hx

/-- `INSERT INTO change_log`: refused where the remote identity exists. -/
def insert (log : ChangeLog) (e : ChangeEntry)
    (hv : minI64 ≤ e.version ∧ e.version ≤ realVersion) : Except SqlError ChangeLog :=
  if h : ∀ r ∈ log.rows, r.remoteTwin { e with id := log.seq + 1 } = false then
    .ok (log.append e hv h)
  else .error (.unique "change_log")

/-- `DELETE FROM change_log WHERE ..`. -/
def deleteWhere (log : ChangeLog) (p : ChangeRow → Bool) : ChangeLog where
  rows := log.rows.filter fun r => !p r
  seq := log.seq
  ascending := log.ascending.filter _
  ids_le := fun r hr => log.ids_le r (List.mem_of_mem_filter hr)
  bounded := fun r hr => log.bounded r (List.mem_of_mem_filter hr)
  remote := log.remote.filter _

@[simp] theorem append_rows (log : ChangeLog) (e : ChangeEntry) (hv) (hr) :
    (log.append e hv hr).rows = log.rows ++ [{ e with id := log.seq + 1 }] := rfl

@[simp] theorem append_seq (log : ChangeLog) (e : ChangeEntry) (hv) (hr) :
    (log.append e hv hr).seq = log.seq + 1 := rfl

@[simp] theorem deleteWhere_rows (log : ChangeLog) (p : ChangeRow → Bool) :
    (log.deleteWhere p).rows = log.rows.filter fun r => !p r := rfl

@[simp] theorem deleteWhere_seq (log : ChangeLog) (p : ChangeRow → Bool) :
    (log.deleteWhere p).seq = log.seq := rfl

@[ext] theorem ext' {a b : ChangeLog} (hrows : a.rows = b.rows) (hseq : a.seq = b.seq) : a = b := by
  cases a
  cases b
  cases hrows
  cases hseq
  rfl

/-- A refused insert changes nothing, an accepted one adds one row. -/
theorem insert_eq_ok {log log' : ChangeLog} {e : ChangeEntry} {hv}
    (h : log.insert e hv = .ok log') :
    log'.rows = log.rows ++ [{ e with id := log.seq + 1 }] ∧ log'.seq = log.seq + 1 := by
  rw [insert] at h
  split at h
  · cases Except.ok.inj h
    exact ⟨rfl, rfl⟩
  · cases h

theorem version_le_maxVersion {log : ChangeLog} {r : ChangeRow} (hr : r ∈ log.rows) :
    r.version ≤ log.maxVersion := by
  have hmem : r.version ∈ log.rows.map fun r => r.version := List.mem_map_of_mem hr
  cases hm : log.maxVersion? with
  | none =>
      rw [maxVersion?, List.max?_eq_none_iff] at hm
      rw [hm] at hmem
      cases hmem
  | some m =>
      rw [maxVersion, hm]
      exact (List.max?_eq_some_iff.1 hm).2 _ hmem

theorem maxVersion_le {log : ChangeLog} {v : Int} (h0 : 0 ≤ v)
    (h : ∀ r ∈ log.rows, r.version ≤ v) : log.maxVersion ≤ v := by
  cases hm : log.maxVersion? with
  | none =>
      rw [maxVersion, hm]
      exact h0
  | some m =>
      rw [maxVersion, hm]
      obtain ⟨r, hr, rfl⟩ := List.mem_map.1 (List.max?_eq_some_iff.1 hm).1
      exact h r hr

theorem maxVersion_bounds (log : ChangeLog) :
    minI64 ≤ log.maxVersion ∧ log.maxVersion ≤ realVersion := by
  cases hm : log.maxVersion? with
  | none =>
      rw [maxVersion, hm]
      decide
  | some m =>
      rw [maxVersion, hm]
      obtain ⟨r, hr, rfl⟩ := List.mem_map.1 (List.max?_eq_some_iff.1 hm).1
      exact log.bounded r hr

theorem nextVersion_bounds (log : ChangeLog) :
    minI64 ≤ log.nextVersion ∧ log.nextVersion ≤ realVersion := by
  have h := log.maxVersion_bounds
  have hr : minI64 ≤ realVersion := by decide
  rw [nextVersion]
  omega

/-- The row an audit trigger writes. -/
def logLocal (log : ChangeLog) (now entityType entityId operation payload : String) : ChangeLog :=
  log.append
    { entityType, entityId, operation, version := log.nextVersion, payload, changedAt := now
      deviceId := some "local" }
    log.nextVersion_bounds
    (by
      intro r _
      by_cases h : r.deviceId = some "local"
      · simp [ChangeRow.remoteTwin, h]
      · simp [ChangeRow.remoteTwin, h])

/-- The row `logLocal` adds. -/
def localRow (log : ChangeLog) (now entityType entityId operation payload : String) : ChangeRow :=
  { entityType, entityId, operation, version := log.nextVersion, payload, changedAt := now
    deviceId := some "local", id := log.seq + 1 }

/-- Rows added by audit triggers, one after the other. -/
inductive Grows : ChangeLog → ChangeLog → Prop
  | refl (log : ChangeLog) : Grows log log
  | step {log log' : ChangeLog} (h : Grows log log')
      (now entityType entityId operation payload : String) :
      Grows log (log'.logLocal now entityType entityId operation payload)

theorem Grows.trans {a b c : ChangeLog} (h : Grows a b) (h' : Grows b c) : Grows a c := by
  induction h' with
  | refl => exact h
  | step _ now t i o p ih => exact Grows.step ih now t i o p

/-- A trigger's version is above every version an `i64` can hold at or below the
    highest one. -/
theorem lt_nextVersion {log : ChangeLog} {v : Int} (h : v ≤ log.maxVersion) (hv : v ≤ maxI64) :
    v < log.nextVersion := by
  have hm : maxI64 < realVersion := by decide
  rw [nextVersion]
  omega

theorem logLocal_rows (log : ChangeLog) (now entityType entityId operation payload : String) :
    (log.logLocal now entityType entityId operation payload).rows =
      log.rows ++ [log.localRow now entityType entityId operation payload] := rfl

theorem maxVersion_le_logLocal (log : ChangeLog) (now entityType entityId operation payload : String) :
    log.maxVersion ≤ (log.logLocal now entityType entityId operation payload).maxVersion := by
  have hb := log.maxVersion_bounds
  have hnext : log.maxVersion ≤ log.nextVersion := by
    rw [nextVersion]
    omega
  have hmem : log.localRow now entityType entityId operation payload ∈
      (log.logLocal now entityType entityId operation payload).rows := by
    rw [logLocal_rows]
    exact List.mem_append_right _ List.mem_cons_self
  exact le_trans hnext (version_le_maxVersion hmem)

/-- What growing by trigger rows means for the rows: the old ones stay in front, and
    each new one is local, has a new id and a version above every old one. -/
structure Extends (log log' : ChangeLog) (new : List ChangeRow) : Prop where
  rows : log'.rows = log.rows ++ new
  max_le : log.maxVersion ≤ log'.maxVersion
  seq_le : log.seq ≤ log'.seq
  fresh : ∀ r ∈ new, log.seq < r.id
  device : ∀ r ∈ new, r.deviceId = some "local"
  above : ∀ r ∈ new, ∀ v, v ≤ log.maxVersion → v ≤ maxI64 → v < r.version

theorem Grows.extends {log log' : ChangeLog} (h : Grows log log') :
    ∃ new, Extends log log' new := by
  induction h with
  | refl =>
      refine ⟨[], (List.append_nil _).symm, le_refl _, le_refl _, ?_, ?_, ?_⟩
      · intro r hr
        cases hr
      · intro r hr
        cases hr
      · intro r hr
        cases hr
  | @step mid _ now entityType entityId operation payload ih =>
      -- the row of a step comes after those before it, with an id and a version of its own
      obtain ⟨new, hext⟩ := ih
      refine ⟨new ++ [mid.localRow now entityType entityId operation payload],
        ?_, ?_, ?_, ?_, ?_, ?_⟩
      · rw [logLocal_rows, hext.rows, List.append_assoc]
      · exact le_trans hext.max_le (maxVersion_le_logLocal _ _ _ _ _ _)
      · exact Nat.le_succ_of_le hext.seq_le
      · intro r hr
        rcases List.mem_append.1 hr with h | h
        · exact hext.fresh r h
        · cases List.mem_singleton.1 h
          exact Nat.lt_succ_of_le hext.seq_le
      · intro r hr
        rcases List.mem_append.1 hr with h | h
        · exact hext.device r h
        · cases List.mem_singleton.1 h
          rfl
      · intro r hr v hv hi
        rcases List.mem_append.1 hr with h | h
        · exact hext.above r h v hv hi
        · cases List.mem_singleton.1 h
          exact lt_nextVersion (le_trans hv hext.max_le) hi

end ChangeLog

/-! ## Conflicts -/

structure ConflictRow where
  id : Nat
  entityType : String
  entityId : String
  localPayload : String
  remotePayload : String
  resolved : Bool := false
  resolution : Option String := none
  mergedPayload : Option String := none
  detectedAt : String
deriving DecidableEq, Repr

/-- The `conflicts` table; rows are never deleted, so they stand in id order. -/
structure Conflicts where
  rows : List ConflictRow
  seq : Nat
  ascending : rows.Pairwise fun a b => a.id < b.id
  ids_le : ∀ r ∈ rows, r.id ≤ seq

namespace Conflicts

def empty : Conflicts := ⟨[], 0, List.Pairwise.nil, fun _ h => by cases h⟩

/-- `INSERT INTO conflicts`. -/
def insert (c : Conflicts) (now entityType entityId localPayload remotePayload : String) :
    Conflicts where
  rows := c.rows ++ [{ id := c.seq + 1, entityType, entityId, localPayload, remotePayload
                       detectedAt := now }]
  seq := c.seq + 1
  ascending := by
    rw [List.pairwise_append]
    refine ⟨c.ascending, List.pairwise_singleton _ _, ?_⟩
    intro x hx y hy
    cases List.mem_singleton.1 hy
    exact Nat.lt_succ_of_le (c.ids_le x hx)
  ids_le := by
    intro r hr
    rcases List.mem_append.1 hr with h | h
    · exact Nat.le_succ_of_le (c.ids_le r h)
    · cases List.mem_singleton.1 h
      exact le_refl _

/-- The newest unresolved conflict of an entity. -/
def latest? (c : Conflicts) (entityType entityId : String) : Option ConflictRow :=
  (c.rows.filter fun r =>
    r.entityType == entityType && r.entityId == entityId && !r.resolved).getLast?

end Conflicts

/-! ## What the code takes from its libraries

    JSON text, the column conversions of SQLite, the order in which a query
    visits rows of one version, ULID text, the wording of a hex error, and the
    reading of a floating-point number. -/

structure Env where
  json : JsonLib
  affinity : Affinity
  asc : KeyOrder ChangeRow fun a b => a.version ≤ b.version
  desc : KeyOrder ChangeRow fun a b => b.version ≤ a.version
  ulidText : List UInt8 → String
  ulidParse : String → Option (List UInt8)
  ulidParse_length : ∀ s b, ulidParse s = some b → b.length = 16
  ulidParse_text : ∀ b, b.length = 16 → ulidParse (ulidText b) = some b
  ulidText_length : ∀ b, b.length = 16 → (ulidText b).toList.length = 26
  ulidText_alphanum : ∀ b, ∀ c ∈ (ulidText b).toList, c.isAlphanum = true
  hexError : String → String
  parseReal : String → Option Decimal

/-- Concrete libraries that behave as documented. -/
def Env.reference : Env where
  json := JsonLib.flat
  affinity := Affinity.rigid
  asc := KeyOrder.insertionSort (fun a b => le_total a.version b.version)
    (fun _ _ _ h h' => le_trans h h')
  desc := KeyOrder.insertionSort (fun a b => le_total b.version a.version)
    (fun _ _ _ h h' => le_trans h' h)
  ulidText := UlidText.encode
  ulidParse := UlidText.decode
  ulidParse_length _ _ h := UlidText.length_of_decode h
  ulidParse_text b h := UlidText.decode_encode b h
  ulidText_length b _ := UlidText.length_encode b
  ulidText_alphanum _ _ h := UlidText.isAlphanum_of_mem_encode h
  hexError _ := "Invalid string length"
  parseReal _ := none

/-- `DbId::from_hex`: 32 digits. -/
def fromHex (s : String) : Option (List UInt8) :=
  (HexText.decode s).filter fun b => decide (b.length = 16)

/-- `DbId::from_wire`: hex, else ULID text. -/
def fromWire (env : Env) (s : String) : Option (List UInt8) :=
  (fromHex s).or (env.ulidParse s)

/-- The text of an id is no hex of sixteen bytes, so it is read as the ULID it is. -/
theorem fromWire_ulidText {env : Env} {b : List UInt8} (hb : b.length = 16) :
    fromWire env (env.ulidText b) = some b := by
  have hhex : fromHex (env.ulidText b) = none := by
    cases hdec : fromHex (env.ulidText b) with
    | none => rfl
    | some bytes =>
        obtain ⟨hdecode, h16⟩ := Option.filter_eq_some_iff.1 hdec
        have hlen := env.ulidText_length b hb
        have := HexText.length_of_decodeChars _ _ hdecode
        simp only [decide_eq_true_eq] at h16
        omega
  rw [fromWire, hhex, Option.none_or, env.ulidParse_text b hb]

/-! ## The database -/

structure Db where
  tables : (k : SyncableEntityKind) → Table k.layout
  /-- The ids present in the parent tables that do not sync. -/
  parents : String → List (List UInt8)
  /-- Whether the connection enforces foreign keys. -/
  foreignKeys : Bool
  /-- `client_settings['sync_apply']`. -/
  syncApply : Option String
  log : ChangeLog
  conflicts : Conflicts

namespace Db

/-- A database without rows. -/
def empty (foreignKeys : Bool) : Db where
  tables _ := Table.empty
  parents _ := []
  foreignKeys := foreignKeys
  syncApply := none
  log := ChangeLog.empty
  conflicts := Conflicts.empty

def setTable (db : Db) (k : SyncableEntityKind) (t : Table k.layout) : Db :=
  { db with tables := Function.update db.tables k t }

@[simp] theorem setTable_log (db : Db) (k) (t : Table k.layout) : (db.setTable k t).log = db.log :=
  rfl

@[simp] theorem setTable_syncApply (db : Db) (k) (t : Table k.layout) :
    (db.setTable k t).syncApply = db.syncApply := rfl

/-- The row a foreign key points to exists, or the column is NULL. -/
def hasParent (db : Db) (fk : ForeignKey) (v : Value) : Bool :=
  match v, fk.parent with
  | .null, _ => true
  | v, .synced k => (db.tables k).rows.any fun r => decide (r.val "id" = v)
  | .blob b, .other t => decide (b ∈ db.parents t)
  | _, .other _ => false

/-- The end-of-statement check of the given foreign keys of a row. -/
def requireParents (db : Db) (fks : List ForeignKey) (r : Row) : Except SqlError Db :=
  if db.foreignKeys && fks.any fun fk => !db.hasParent fk (r fk.column) then .error .foreignKey
  else .ok db

/-- The rows of a table that point to a row through a foreign key. -/
def referencing (db : Db) (child : SyncableEntityKind) (fk : ForeignKey) (r : Row) :
    List child.layout.StoredRow :=
  (db.tables child).rows.filter fun x => decide (x.val fk.column = r "id")

end Db

/-! ## Looking for parents -/

/-- A parent that syncs is looked for in its table. -/
theorem hasParent_synced {db : Db} {fk : ForeignKey} {k : SyncableEntityKind}
    (hfk : fk.parent = .synced k) {v : Value} :
    db.hasParent fk v = true ↔ v = .null ∨ ∃ x ∈ (db.tables k).rows, x.val "id" = v := by
  cases v with
  | null => exact iff_of_true rfl (Or.inl rfl)
  | _ => simp [Db.hasParent, hfk]

/-- A parent that does not sync is looked for among the ids. -/
theorem hasParent_other {db : Db} {fk : ForeignKey} {t : String} (hfk : fk.parent = .other t)
    {v : Value} : db.hasParent fk v = true ↔ v = .null ∨ ∃ b ∈ db.parents t, v = .blob b := by
  cases v with
  | null => exact iff_of_true rfl (Or.inl rfl)
  | _ => simp [Db.hasParent, hfk]

theorem eq_of_requireParents {db db' : Db} {fks : List ForeignKey} {r : Row}
    (h : db.requireParents fks r = .ok db') : db' = db := by
  rw [Db.requireParents] at h
  split at h
  · cases h
  · exact (Except.ok.inj h).symm

theorem requireParents_ok_iff {db : Db} {fks : List ForeignKey} {r : Row} :
    db.requireParents fks r = .ok db ↔
      (db.foreignKeys = true → ∀ fk ∈ fks, db.hasParent fk (r fk.column) = true) := by
  rw [Db.requireParents]
  cases hfk : db.foreignKeys with
  | false => simp
  | true =>
      simp only [Bool.true_and, List.any_eq_true, Bool.not_eq_true', forall_const]
      constructor
      · intro h fk hmem
        by_contra hno
        rw [if_pos ⟨fk, hmem, by simpa using hno⟩] at h
        cases h
      · intro h
        rw [if_neg]
        rintro ⟨fk, hmem, hno⟩
        rw [h fk hmem] at hno
        cases hno

/-- A parent is looked for in another table than the row's own. -/
theorem hasParent_setTable {db : Db} {k : SyncableEntityKind} {t : Table k.layout}
    {fk : ForeignKey} {v : Value}
    (h : fk.parent ≠ .synced k ∨ v = .null) : (db.setTable k t).hasParent fk v = db.hasParent fk v := by
  rcases h with h | rfl
  · unfold Db.hasParent
    split
    · rfl
    · next k' _ hparent =>
        have hne : k' ≠ k := by
          rintro rfl
          exact h hparent
        show (((db.setTable k t).tables k').rows.any _) = _
        rw [Db.setTable]
        simp [Function.update_of_ne hne]
    · rfl
    · rfl
  · rfl

/-! ## Audit triggers -/

inductive Operation
  | insert
  | update
  | delete
deriving DecidableEq, Repr

def Operation.text : Operation → String
  | .insert => "INSERT"
  | .update => "UPDATE"
  | .delete => "DELETE"

/-- `lower(hex(v))`. The columns it is used on are BLOB columns of STRICT tables,
    so `v` is a blob or NULL, and `hex(NULL)` is empty. -/
def lowerHex : Value → String
  | .blob b => HexText.encode b
  | _ => ""

def encodeColumn : Encoding → Value → Value
  | .raw, v => v
  | .hex, v => .text (lowerHex v)
  | .hexIfPresent, .null => .null
  | .hexIfPresent, v => .text (lowerHex v)

/-- The arguments of a trigger's `json_object`. -/
def jsonFields (columns : List (String × Encoding)) (r : Row) : List (String × Value) :=
  columns.map fun p => (p.1, encodeColumn p.2 (r p.1))

/-- The `entity_id` a trigger writes; `none` where `json_object` refuses a blob. -/
def triggerEntityId (env : Env) (k : SyncableEntityKind) (r : Row) : Option String :=
  match k.auditTrigger.entityId with
  | .hexId => some (lowerHex (r "id"))
  | .json key => env.json.object (jsonFields key r)
  | .lowerJson key => (env.json.object (jsonFields key r)).map lower

def triggerPayload (env : Env) (k : SyncableEntityKind) (r : Row) : Option String :=
  env.json.object (jsonFields k.auditTrigger.payload r)

/-- The audit trigger of a table, guarded by `sync_apply` (`m0011`). -/
def fireTrigger (env : Env) (now : String) (k : SyncableEntityKind) (op : Operation) (r : Row)
    (db : Db) : Except SqlError Db :=
  if db.syncApply.getD "0" = "1" then .ok db
  else if op = .update ∧ k.auditTrigger.onUpdate = false then .ok db
  else match triggerEntityId env k r, triggerPayload env k r with
    | some entityId, some payload =>
        .ok { db with log := db.log.logLocal now k.entityTypeName entityId op.text payload }
    | _, _ => .error .blobInJson

/-- A trigger leaves the tables alone. -/
theorem tables_of_fireTrigger {env : Env} {now : String} {k : SyncableEntityKind} {db db' : Db}
    {op : Operation} {r : Row}
    (h : fireTrigger env now k op r db = .ok db') : db'.tables = db.tables := by
  rw [fireTrigger] at h
  split at h
  · cases Except.ok.inj h
    rfl
  split at h
  · cases Except.ok.inj h
    rfl
  split at h
  · cases Except.ok.inj h
    rfl
  · cases h

/-! ## Statements -/

section Statements

variable (env : Env) (now : String)

/-- `INSERT` of one row. -/
def insertRow (k : SyncableEntityKind) (r : k.layout.StoredRow) (db : Db) : Except SqlError Db := do
  let t ← (db.tables k).insert r
  let db ← fireTrigger env now k .insert r.val (db.setTable k t)
  db.requireParents k.foreignKeys r.val

/-- `UPDATE` of one row. A foreign key is checked when its column changes, and the
    row may not leave children behind under its old id. -/
def updateRow (k : SyncableEntityKind) (old : k.layout.StoredRow) (new : Row) (db : Db) :
    Except SqlError Db := do
  let (r, t) ← (db.tables k).update env.affinity old new
  let db ← fireTrigger env now k .update r.val (db.setTable k t)
  let db ← db.requireParents
    (k.foreignKeys.filter fun fk => decide (old.val fk.column ≠ r.val fk.column)) r.val
  if db.foreignKeys && decide (old.val "id" ≠ r.val "id") &&
      k.references.any fun p => !(db.referencing p.1 p.2 old.val).isEmpty then .error .foreignKey
  else .ok db

/-- What the foreign keys ask of the rows that point to a removed row; `remove`
    takes a row out of its table. -/
def deleteActions (remove : (k : SyncableEntityKind) → k.layout.StoredRow → Db →
      Except SqlError Db) (k : SyncableEntityKind) (r : k.layout.StoredRow) (db : Db) :
    Except SqlError Db :=
  if db.foreignKeys then
    k.references.foldlM (fun db p =>
      (db.referencing p.1 p.2 r.val).foldlM (fun db child =>
        match p.2.onDelete with
        | .cascade => remove p.1 child db
        | .setNull => updateRow env now p.1 child (overlay child.val [(p.2.column, .null)]) db)
        db) db
  else .ok db

/-- Remove one row: first the row, then the actions of the foreign keys, then its
    own trigger. Cascades are at most two steps deep
    (`SyncableEntityKind.cascades_depth`), so a depth of three reaches them all. -/
def removeRow : Nat → Bool → (k : SyncableEntityKind) → k.layout.StoredRow → Db →
    Except SqlError Db
  | 0, _, _, _, db => .ok db
  | depth + 1, audited, k, r, db => do
      let db ← deleteActions env now (removeRow depth true) k r
        (db.setTable k ((db.tables k).erase r))
      if audited then fireTrigger env now k .delete r.val db else .ok db

/-! ## The steps of a statement that succeeds -/

section Steps

variable {env now} {k : SyncableEntityKind} {db db' : Db}

theorem insertRow_eq_ok_iff {r : k.layout.StoredRow} :
    insertRow env now k r db = .ok db' ↔
      ∃ t, (db.tables k).insert r = .ok t ∧
        fireTrigger env now k .insert r.val (db.setTable k t) = .ok db' ∧
        db'.requireParents k.foreignKeys r.val = .ok db' := by
  constructor
  · intro h
    obtain ⟨t, ht, h⟩ := bind_eq_ok.1 h
    obtain ⟨mid, hfire, h⟩ := bind_eq_ok.1 h
    cases eq_of_requireParents h
    exact ⟨t, ht, hfire, h⟩
  · rintro ⟨t, ht, hfire, hparents⟩
    exact bind_eq_ok.2 ⟨t, ht, bind_eq_ok.2 ⟨db', hfire, hparents⟩⟩

theorem updateRow_eq_ok_iff {old : k.layout.StoredRow} {new : Row} :
    updateRow env now k old new db = .ok db' ↔
      ∃ s t, (db.tables k).update env.affinity old new = .ok (s, t) ∧
        fireTrigger env now k .update s.val (db.setTable k t) = .ok db' ∧
        db'.requireParents (k.foreignKeys.filter fun fk =>
          decide (old.val fk.column ≠ s.val fk.column)) s.val = .ok db' ∧
        ¬ (db'.foreignKeys && decide (old.val "id" ≠ s.val "id") &&
          k.references.any fun p => !(db'.referencing p.1 p.2 old.val).isEmpty) = true := by
  constructor
  · intro h
    obtain ⟨⟨s, t⟩, ht, h⟩ := bind_eq_ok.1 h
    obtain ⟨mid, hfire, h⟩ := bind_eq_ok.1 h
    obtain ⟨mid', hparents, h⟩ := bind_eq_ok.1 h
    cases eq_of_requireParents hparents
    split at h
    · cases h
    · next hstrands =>
        cases Except.ok.inj h
        exact ⟨s, t, ht, hfire, hparents, hstrands⟩
  · rintro ⟨s, t, ht, hfire, hparents, hstrands⟩
    exact bind_eq_ok.2 ⟨(s, t), ht, bind_eq_ok.2 ⟨db', hfire, bind_eq_ok.2 ⟨db', hparents,
      if_neg hstrands⟩⟩⟩

theorem removeRow_eq_ok_iff {depth : Nat} {r : k.layout.StoredRow} :
    removeRow env now (depth + 1) true k r db = .ok db' ↔
      ∃ mid, deleteActions env now (removeRow env now depth true) k r
          (db.setTable k ((db.tables k).erase r)) = .ok mid ∧
        fireTrigger env now k .delete r.val mid = .ok db' := by
  rw [removeRow, bind_eq_ok]
  rfl

end Steps

/-- `DELETE FROM .. WHERE ..`. -/
def deleteFrom (k : SyncableEntityKind) (cond : Row → Bool) (db : Db) : Except SqlError Db :=
  ((db.tables k).rows.filter fun r => cond r.val).foldlM
    (fun db r => removeRow env now 3 true k r db) db

/-- `c = ?` on a row: the bound value is brought to the column's class first, and
    NULL equals nothing. -/
def columnEquals (k : SyncableEntityKind) (r : Row) (p : String × Value) : Bool :=
  let v := match k.layout.column? p.1 with
    | some c => (env.affinity.convert c.type p.2).getD p.2
    | none => p.2
  decide (r p.1 ≠ .null) && decide (r p.1 = v)

/-- `DELETE FROM .. WHERE c = ? AND ..`. -/
def deleteMatching (k : SyncableEntityKind) (conditions : Assignments) (db : Db) :
    Except SqlError Db :=
  match k.layout.unknown? conditions with
  | some c => .error (.noColumn k.layout.name c)
  | none => deleteFrom env now k (fun r => conditions.all (columnEquals env k r)) db

/-- `INSERT INTO .. VALUES ..`. -/
def insertInto (k : SyncableEntityKind) (values : Assignments) (db : Db) :
    Except SqlError Db := do
  let r ← Table.candidate env.affinity now k.layout values
  insertRow env now k r db

/-- `INSERT .. ON CONFLICT DO UPDATE SET c = excluded.c, ..`: a row that agrees on
    any key is overwritten in the columns the statement names. -/
def upsertInto (k : SyncableEntityKind) (values : Assignments) (db : Db) :
    Except SqlError Db := do
  let r ← Table.candidate env.affinity now k.layout values
  match k.layout.clash? (db.tables k).rows r with
  | none => insertRow env now k r db
  | some old =>
      updateRow env now k old (overlay old.val (values.map fun p => (p.1, r.val p.1))) db

/-- `INSERT .. ON CONFLICT (key) DO UPDATE SET ..` over the columns outside the
    primary key; `DO NOTHING` when there is none. -/
def upsertOnKey (k : SyncableEntityKind) (values : Assignments) (db : Db) :
    Except SqlError Db := do
  let r ← Table.candidate env.affinity now k.layout values
  match (db.tables k).rows.find? fun x => k.layout.same x.val r.val with
  | none => insertRow env now k r db
  | some old =>
      let updates := values.filter fun p => !k.layout.primaryKey.contains p.1
      if updates.isEmpty then .ok db
      else updateRow env now k old (overlay old.val (updates.map fun p => (p.1, r.val p.1))) db

/-- `INSERT OR REPLACE`: every row that agrees on a key goes first, without a
    delete trigger (`recursive_triggers` is off). A NULL for a NOT NULL column with
    a default becomes the default. -/
def insertOrReplace (k : SyncableEntityKind) (values : Assignments) (db : Db) :
    Except SqlError Db := do
  let filled := values.filter fun p =>
    !(decide (p.2 = .null) && ((k.layout.column? p.1).map Column.notNull == some true))
  match k.layout.unknown? values with
  | some c => .error (.noColumn k.layout.name c)
  | none => do
      let r ← Table.candidate env.affinity now k.layout filled
      let clashing := (db.tables k).rows.filter fun x =>
        k.layout.keys.any fun key => agree key x.val r.val
      let db ← clashing.foldlM (fun db x => removeRow env now 3 false k x db) db
      insertRow env now k r db

/-- `UPDATE .. SET .. WHERE` the primary key is that of `key`. -/
def updateByKey (k : SyncableEntityKind) (key : Row) (values : Assignments) (db : Db) :
    Except SqlError Db :=
  match k.layout.unknown? values with
  | some c => .error (.noColumn k.layout.name c)
  | none =>
      match (db.tables k).rows.find? fun x => k.layout.same x.val key with
      | none => .ok db
      | some old => updateRow env now k old (overlay old.val values) db

/-- A write the application makes to a syncable table on its own account. -/
inductive LocalEdit
  | insert (k : SyncableEntityKind) (values : Assignments)
  | update (k : SyncableEntityKind) (key : Row) (values : Assignments)
  | delete (k : SyncableEntityKind) (key : Row)

def localEdit (edit : LocalEdit) (db : Db) : Except SqlError Db :=
  match edit with
  | .insert k values => insertInto env now k values db
  | .update k key values => updateByKey env now k key values db
  | .delete k key => deleteFrom env now k (fun r => k.layout.same r key) db

end Statements

/-! ## What a statement on a table can do to the rest -/

/-- Apart from the tables: the log grows by trigger rows (not at all while they are
    suppressed) and nothing else changes. -/
structure Echoed (db db' : Db) : Prop where
  log : ChangeLog.Grows db.log db'.log
  conflicts : db'.conflicts = db.conflicts
  syncApply : db'.syncApply = db.syncApply
  foreignKeys : db'.foreignKeys = db.foreignKeys
  parents : db'.parents = db.parents
  quiet : db.syncApply.getD "0" = "1" → db'.log = db.log

namespace Echoed

variable {env : Env} {now : String} {k : SyncableEntityKind} {db db' db'' : Db}

theorem refl (db : Db) : Echoed db db :=
  ⟨.refl _, rfl, rfl, rfl, rfl, fun _ => rfl⟩

theorem trans (h : Echoed db db') (h' : Echoed db' db'') : Echoed db db'' where
  log := h.log.trans h'.log
  conflicts := h'.conflicts.trans h.conflicts
  syncApply := h'.syncApply.trans h.syncApply
  foreignKeys := h'.foreignKeys.trans h.foreignKeys
  parents := h'.parents.trans h.parents
  quiet := by
    intro hq
    rw [h'.quiet (by rw [h.syncApply]; exact hq), h.quiet hq]

theorem setTable (db : Db) (t : Table k.layout) : Echoed db (db.setTable k t) :=
  ⟨.refl _, rfl, rfl, rfl, rfl, fun _ => rfl⟩

theorem fireTrigger {op : Operation} {r : Row} (h : fireTrigger env now k op r db = .ok db') :
    Echoed db db' := by
  rw [SyncStore.fireTrigger] at h
  split at h
  · cases Except.ok.inj h
    exact refl db
  next hloud =>
    split at h
    · cases Except.ok.inj h
      exact refl db
    split at h
    · cases Except.ok.inj h
      exact ⟨.step (.refl _) _ _ _ _ _, rfl, rfl, rfl, rfl, fun hq => absurd hq hloud⟩
    · cases h

theorem insertRow {r : k.layout.StoredRow} (h : insertRow env now k r db = .ok db') :
    Echoed db db' := by
  obtain ⟨t, _, hfire, _⟩ := insertRow_eq_ok_iff.1 h
  exact (setTable db t).trans (fireTrigger hfire)

theorem updateRow {old : k.layout.StoredRow} {new : Row}
    (h : updateRow env now k old new db = .ok db') : Echoed db db' := by
  obtain ⟨s, t, _, hfire, _⟩ := updateRow_eq_ok_iff.1 h
  exact (setTable db t).trans (fireTrigger hfire)

theorem deleteActions {remove : (k : SyncableEntityKind) → k.layout.StoredRow → Db →
      Except SqlError Db} {r : k.layout.StoredRow}
    (hremove : ∀ k r db db', remove k r db = .ok db' → Echoed db db')
    (h : deleteActions env now remove k r db = .ok db') : Echoed db db' := by
  rw [SyncStore.deleteActions] at h
  split at h
  · refine foldlM_invariant (Echoed db) ?_ h (refl db)
    intro t p t' _ hp hinv
    refine foldlM_invariant (Echoed db) ?_ hp hinv
    intro u child u' _ hchild hu
    split at hchild
    · exact hu.trans (hremove _ _ _ _ hchild)
    · exact hu.trans (updateRow hchild)
  · cases Except.ok.inj h
    exact refl _

/-- By induction on the depth: each cascade step removes rows one level down. -/
theorem removeRow : ∀ (depth : Nat) {audited : Bool} {k : SyncableEntityKind}
    {r : k.layout.StoredRow} {db db' : Db},
    removeRow env now depth audited k r db = .ok db' → Echoed db db' := by
  intro depth
  induction depth with
  | zero =>
      intro audited k r db db' h
      cases Except.ok.inj h
      exact refl db
  | succ depth ih =>
      intro audited k r db db' h
      rw [SyncStore.removeRow] at h
      obtain ⟨db1, hact, h⟩ := bind_eq_ok.1 h
      have hbefore := (setTable db ((db.tables k).erase r)).trans
        (deleteActions (fun _ _ _ _ => ih) hact)
      split at h
      · exact hbefore.trans (fireTrigger h)
      · cases Except.ok.inj h
        exact hbefore

theorem deleteFrom {cond : Row → Bool} (h : deleteFrom env now k cond db = .ok db') :
    Echoed db db' := by
  rw [SyncStore.deleteFrom] at h
  refine foldlM_invariant (Echoed db) ?_ h (refl db)
  intro t r t' _ hr ht
  exact ht.trans (removeRow 3 hr)

theorem deleteMatching {conditions : Assignments}
    (h : deleteMatching env now k conditions db = .ok db') : Echoed db db' := by
  rw [SyncStore.deleteMatching] at h
  split at h
  · cases h
  · exact deleteFrom h

theorem insertInto {values : Assignments} (h : insertInto env now k values db = .ok db') :
    Echoed db db' := by
  obtain ⟨r, _, h⟩ := bind_eq_ok.1 h
  exact insertRow h

theorem upsertInto {values : Assignments} (h : upsertInto env now k values db = .ok db') :
    Echoed db db' := by
  obtain ⟨r, _, h⟩ := bind_eq_ok.1 h
  split at h
  · exact insertRow h
  · exact updateRow h

theorem upsertOnKey {values : Assignments} (h : upsertOnKey env now k values db = .ok db') :
    Echoed db db' := by
  obtain ⟨r, _, h⟩ := bind_eq_ok.1 h
  split at h
  · exact insertRow h
  · dsimp only at h
    split at h
    · cases Except.ok.inj h
      exact refl db
    · exact updateRow h

theorem updateByKey {key : Row} {values : Assignments}
    (h : updateByKey env now k key values db = .ok db') : Echoed db db' := by
  rw [SyncStore.updateByKey] at h
  split at h
  · cases h
  split at h
  · cases Except.ok.inj h
    exact refl db
  · exact updateRow h

theorem localEdit {edit : LocalEdit} (h : localEdit env now edit db = .ok db') :
    Echoed db db' := by
  cases edit with
  | insert k values => exact insertInto h
  | update k key values => exact updateByKey h
  | delete k key =>
      have h : SyncStore.deleteFrom env now k (fun r => k.layout.same r key) db = .ok db' := h
      exact deleteFrom h

end Echoed

end SyncStore
