import Livtet.Store

/-! # The sync engine

    `SyncEngine` of `livtet-sync`: reading the change log page by page, applying
    changes pulled from a peer (`apply_changes`), and applying changes a peer
    pushed (`push_changes`). Both write paths run in one transaction, so an error
    leaves the database as it was. -/

namespace SyncEngine

open SqlRows JsonText SyncSchema SyncStore Outcomes SortedPages

/-! ## Wire types -/

structure SyncChange where
  id : Int
  entityType : String
  entityId : String
  operation : String
  version : Int
  payload : String
  changedAt : String
  deviceId : String
  version_i64 : minI64 ≤ version ∧ version ≤ maxI64 := by decide
deriving DecidableEq, Repr

theorem one_i64 : minI64 ≤ 1 ∧ 1 ≤ maxI64 := by decide

theorem five_i64 : minI64 ≤ 5 ∧ 5 ≤ maxI64 := by decide

structure PullResponse where
  changes : List SyncChange
  hasMore : Bool
  latestVersion : Int

structure PushResponse where
  accepted : Bool
  conflicts : List ConflictRow
  latestVersion : Int

inductive SyncError
  | db (e : SqlError)
  | unknownEntityType (typeName : String)
  | deserialization (entityType message : String)
  | invalidPayload (entityType message : String)
  | invalidOperation (entityType operation : String)
  | invalidEntityId (entityType message : String)
deriving DecidableEq, Repr

/-- A statement inside an engine operation. -/
def statement (x : Except SqlError Db) : Except SyncError Db :=
  match x with
  | .ok db => .ok db
  | .error e => .error (.db e)

theorem statement_eq_ok {x : Except SqlError Db} {db : Db} (h : statement x = .ok db) :
    x = .ok db := by
  cases x with
  | ok a => exact congrArg _ (Except.ok.inj h)
  | error e => cases h

/-! ## Reading the log -/

/-- Reading a version column as `i64`. -/
def asI64? (v : Int) : Option Int :=
  if minI64 ≤ v ∧ v ≤ maxI64 then some v else none

/-- A row as it is sent; rows that do not decode are dropped. -/
def toSyncChange (r : ChangeRow) : Option SyncChange :=
  match r.deviceId with
  | none => none
  | some deviceId =>
      if h : minI64 ≤ r.version ∧ r.version ≤ maxI64 then
        some { id := r.id, entityType := r.entityType, entityId := r.entityId
               operation := r.operation, version := r.version, payload := r.payload
               changedAt := r.changedAt, deviceId, version_i64 := h }
      else none

/-- The rows above a version. -/
def rowsAbove (log : ChangeLog) (since : Int) : List ChangeRow :=
  log.rows.filter fun r => decide (since < r.version)

/-- The rows of one page: `WHERE version > ? ORDER BY version ASC LIMIT ?`. -/
def pageRows (env : Env) (log : ChangeLog) (since limit : Int) : List ChangeRow :=
  limited limit (env.asc.visit limit (rowsAbove log since))

def pullChanges (env : Env) (log : ChangeLog) (sinceVersion limit : Int) : PullResponse :=
  let changes := (pageRows env log sinceVersion limit).filterMap toSyncChange
  { changes
    hasMore := decide ((changes.length : Int) = limit)
    latestVersion := (changes.getLast?.map fun c => c.version).getD sinceVersion }

def getLatestVersion (log : ChangeLog) : Int := (log.maxVersion?.bind asI64?).getD 0

/-- The same inside a transaction, over `COALESCE(MAX(version), 0)`. -/
def latestVersionIn (log : ChangeLog) : Int := (asI64? log.maxVersion).getD 0

/-- The row the latest-row query of both write paths returns. -/
def latestRow (env : Env) (log : ChangeLog) (entityType entityId : String) : Option ChangeRow :=
  (limited 1 (env.desc.visit 1 (log.rows.filter fun r =>
    r.entityType == entityType && r.entityId == entityId))).head?

/-- The version and payload of the latest row, when its version decodes. -/
def latestChange (env : Env) (log : ChangeLog) (entityType entityId : String) :
    Option (Int × String) :=
  (latestRow env log entityType entityId).bind fun r =>
    (asI64? r.version).map fun v => (v, r.payload)

/-! ## Applying pulled changes -/

structure InventoryPaths where
  filePath : Option String := none
  coverPath : Option String := none
deriving DecidableEq, Repr

structure ApplyOptions where
  /-- Inventory entity id to the receiver's local paths. -/
  inventoryPaths : List (String × InventoryPaths) := []
deriving DecidableEq, Repr

structure ApplyOutcome where
  applied : Nat := 0
  skipped : Nat := 0
  conflicts : List ConflictRow := []
deriving DecidableEq, Repr

/-- Parent-first ordering for entities that carry foreign keys. -/
def applyRank (entityType : String) : Nat :=
  match entityType with
  | "work" | "edition_group" | "reading_list" => 0
  | "edition" => 1
  | "digital_inventory" | "owned_edition" | "work_author" | "work_genre" | "work_subject"
  | "work_publisher" | "work_tag" | "edition_author" | "edition_genre"
  | "edition_subject" | "edition_publisher" | "edition_tag" | "series_entry"
  | "reading_list_book" => 2
  | "edition_loan" | "annotation" => 3
  | "reading_progress" => 4
  | _ => 5

def optionalString : Option String → Json
  | some text => .str text
  | none => .null

def applyInventoryPaths (payload : Json) (change : SyncChange) (options : ApplyOptions) : Json :=
  let normalizedId := (payload.get? "id").bind Json.asStr?
  let paths := (options.inventoryPaths.lookup change.entityId).or
    (normalizedId.bind fun id => options.inventoryPaths.lookup id)
  match paths, payload with
  | some paths, .obj object =>
      .obj (Json.insert (Json.insert object "file_path" (optionalString paths.filePath))
        "cover_path" (optionalString paths.coverPath))
  | _, payload => payload

def isIdentifier (value : String) : Bool :=
  !value.toList.isEmpty && value.toList.all fun c => c.isAlphanum || c == '_'

def isIdColumn (column : String) : Bool :=
  column == "id" || "_id".toList.isSuffixOf column.toList

/-- A JSON integer outside `i64` binds as a floating-point number. -/
def numberValue (n : Int) : Value :=
  match asI64? n with
  | some n => .int n
  | none => .real ⟨10 * n, 0⟩

/-- The value bound for a payload or key member, whatever its column. -/
def plainValue (env : Env) : Json → Value
  | .str text => .text text
  | .bool flag => .int (if flag then 1 else 0)
  | .int n => numberValue n
  | .real d => .real d
  | .null => .null
  | other => .text (env.json.render other)

/-- An id column decodes hex and ULID text, and stores an empty id as NULL. -/
def sqlValue (env : Env) (column : String) (value : Json) : Value :=
  if isIdColumn column then
    match value with
    | .str text =>
        if text = "" then .null
        else match fromWire env text with
          | some id => .blob id
          | none => plainValue env value
    | _ => plainValue env value
  else plainValue env value

section Apply

variable (env : Env) (now : String)

def deleteEntity (k : SyncableEntityKind) (entityId : String) (db : Db) : Except SyncError Db :=
  match env.json.parse entityId with
  | .ok (.obj key) =>
      match key.find? fun p => !isIdentifier p.1 with
      | some p => .error (.deserialization k.tableName
          ("unsafe key column in entity id: " ++ p.1))
      | none =>
          if key.isEmpty then .error (.deserialization k.tableName "empty compound entity id")
          else statement
            (deleteMatching env now k (key.map fun p => (p.1, sqlValue env p.1 p.2)) db)
  | _ =>
      match fromHex entityId with
      | none => .error (.deserialization k.tableName
          ("invalid entity id " ++ entityId ++ ": " ++ env.hexError entityId))
      | some id => statement (deleteMatching env now k [("id", .blob id)] db)

def upsertPayload (k : SyncableEntityKind) (payload : Json) (db : Db) : Except SyncError Db :=
  match payload with
  | .obj object =>
      match object.find? fun p => !isIdentifier p.1 with
      | some p => .error (.deserialization k.tableName
          ("unsafe column name in payload: " ++ p.1))
      | none =>
          if object.isEmpty then .error (.deserialization k.tableName "empty sync payload")
          else statement
            (upsertInto env now k (object.map fun p => (p.1, sqlValue env p.1 p.2)) db)
  | _ => .error (.deserialization k.tableName "sync payload is not an object")

/-- The table write of one change: a delete, or an upsert of its payload. -/
def writeEntity (options : ApplyOptions) (k : SyncableEntityKind) (change : SyncChange) (db : Db) :
    Except SyncError Db :=
  if change.operation = "DELETE" then deleteEntity env now k change.entityId db
  else match env.json.parse change.payload with
    | .error message => .error (.deserialization change.entityType message)
    | .ok payload =>
        upsertPayload env now k
          (if change.entityType = "digital_inventory" then
            applyInventoryPaths payload change options else payload) db

def recordConflict (change : SyncChange) (localPayload : String) (db : Db) : Db :=
  { db with
    conflicts := db.conflicts.insert now change.entityType change.entityId localPayload
      change.payload }

/-- Remove the rows of the entity above the baseline. -/
def discardEchoes (change : SyncChange) (baseline : Int) (db : Db) : Db :=
  { db with
    log := db.log.deleteWhere fun r => r.entityType == change.entityType
      && r.entityId == change.entityId && decide (baseline < r.version) }

theorem version_bounds (change : SyncChange) :
    minI64 ≤ change.version ∧ change.version ≤ realVersion := by
  have h := change.version_i64
  have hm : maxI64 ≤ realVersion := by decide
  omega

/-- The log row of a change, under the given spelling of its operation. -/
def changeEntry (operation : String) (change : SyncChange) : ChangeEntry :=
  { entityType := change.entityType, entityId := change.entityId, operation
    version := change.version, payload := change.payload, changedAt := now
    deviceId := some change.deviceId }

def insertChangeRow (operation : String) (change : SyncChange) (db : Db) : Except SyncError Db :=
  match db.log.insert (changeEntry now operation change) (version_bounds change) with
  | .ok log => .ok { db with log }
  | .error e => .error (.db e)

/-- What an apply pass did with one change. -/
inductive ApplyStep
  | applied
  | skipped
  | conflicted (conflict : Option ConflictRow)

def isOperation (operation : String) : Bool :=
  operation == "INSERT" || operation == "UPDATE" || operation == "DELETE"

/-- The payload of the latest row of the change's entity, when it is newer. -/
def newerPayload? (log : ChangeLog) (change : SyncChange) : Option String :=
  match latestChange env log change.entityType change.entityId with
  | some (localVersion, localPayload) =>
      if localVersion > change.version then some localPayload else none
  | none => none

def applyChange (options : ApplyOptions) (change : SyncChange) (db : Db) :
    Except SyncError (ApplyStep × Db) :=
  if change.entityType = "file_offer" then .ok (.skipped, db)
  else match SyncableEntityKind.entityTypeToTable change.entityType with
    | none => .ok (.skipped, db)
    | some k =>
        match newerPayload? env db.log change with
        | some localPayload =>
            let db := recordConflict now change localPayload db
            .ok (.conflicted (db.conflicts.latest? change.entityType change.entityId), db)
        | none =>
            if isOperation change.operation then do
              let baseline := latestVersionIn db.log
              let db ← writeEntity env now options k change db
              let db ← insertChangeRow now change.operation change
                (discardEchoes change baseline db)
              .ok (.applied, db)
            else .ok (.skipped, db)

def ApplyOutcome.record (outcome : ApplyOutcome) : ApplyStep → ApplyOutcome
  | .applied => { outcome with applied := outcome.applied + 1 }
  | .skipped => { outcome with skipped := outcome.skipped + 1 }
  | .conflicted conflict => { outcome with conflicts := outcome.conflicts ++ conflict.toList }

/-- The loop over the changes, parents first already. -/
def applyOrdered (options : ApplyOptions) (changes : List SyncChange) (state : ApplyOutcome × Db) :
    Except SyncError (ApplyOutcome × Db) :=
  changes.foldlM (fun state change => do
    let (step, db) ← applyChange env now options change state.2
    .ok (state.1.record step, db)) state

/-- `ordered.sort_by_key(apply_rank)`, a stable sort. -/
def sortByRank (changes : List SyncChange) : List SyncChange :=
  changes.insertionSort fun a b => applyRank a.entityType ≤ applyRank b.entityType

def applyChanges (changes : List SyncChange) (options : ApplyOptions) (db : Db) :
    Except SyncError (ApplyOutcome × Db) :=
  applyOrdered env now options (sortByRank changes) ({}, db)

end Apply

/-! ## Applying pushed changes -/

/-- `to_ascii_uppercase`. -/
def toAsciiUppercase (s : String) : String := String.ofList (s.toList.map Char.toUpper)

/-- `str::parse::<i64>`: a sign, digits, and the range of `i64`. -/
def parseI64 (s : String) : Option Int :=
  let number (sign : Int) (digits : List Char) : Option Int :=
    if digits.isEmpty || !digits.all Char.isDigit then none
    else asI64? (sign * Nat.ofDigitChars 10 digits 0)
  match s.toList with
  | '-' :: digits => number (-1) digits
  | '+' :: digits => number 1 digits
  | digits => number 1 digits

/-- The `Debug` text of a model column's type. -/
def columnTypeText (c : Column) : String :=
  match c.type with
  | .blob => "Binary(16)"
  | .integer => if c.name = "position" then "Integer" else "BigInteger"
  | .real => "Double"
  | .text => "Text"

section Push

variable (env : Env) (now : String)

/-- Convert a payload value to a bound value by the type of its column. -/
def jsonToSql (c : Column) (value : Json) (entityType : String) : Except SyncError Value :=
  let invalid : Except SyncError Value := .error (.invalidPayload entityType
    ("cannot bind " ++ env.json.render value ++ " to " ++ columnTypeText c))
  match value, c.type with
  | .null, _ => .ok .null
  | .str text, .blob =>
      match fromWire env text with
      | some id => .ok (.blob id)
      | none => invalid
  | _, .blob => invalid
  | .int n, .integer =>
      match asI64? n with
      | some n => .ok (.int n)
      | none => invalid
  | .str text, .integer =>
      match parseI64 text with
      | some n => .ok (.int n)
      | none => invalid
  | _, .integer => invalid
  | .int n, .real => .ok (.real ⟨10 * n, 0⟩)
  | .real d, .real => .ok (.real d)
  | .str text, .real =>
      match env.parseReal text with
      | some d => .ok (.real d)
      | none => invalid
  | _, .real => invalid
  | .str text, .text => .ok (.text text)
  | other, .text => .ok (.text (env.json.render other))

/-- Parse the payload of an INSERT or UPDATE into an object. -/
def payloadObject (change : SyncChange) : Except SyncError Json :=
  match env.json.parse change.payload with
  | .error message => .error (.invalidPayload change.entityType message)
  | .ok (.obj object) => .ok (.obj object)
  | .ok other => .error (.invalidPayload change.entityType
      ("expected a JSON object, got " ++ env.json.render other))

/-- One JSON value per primary-key column: from the payload, else from the entity
    id (a bare id for a single key, a JSON object for a composite one). -/
def resolvePrimaryKeys (k : SyncableEntityKind) (change : SyncChange) (payload : Option Json) :
    Except SyncError (List (String × Json)) :=
  let single := k.layout.primaryKey.length = 1
  let entityId := (env.json.parse change.entityId).toOption
  k.layout.primaryKey.mapM fun name =>
    match payload.bind fun p => p.get? name with
    | some value => .ok (name, value)
    | none =>
        let fromEntityId : Option Json :=
          match entityId with
          | some (.obj members) => (Json.obj members).get? name
          | some (.str id) => if single then some (.str id) else none
          | _ => if single then some (.str change.entityId) else none
        match fromEntityId with
        | some value => .ok (name, value)
        | none => .error (.invalidEntityId change.entityType
            ("missing key `" ++ name ++ "` in entity_id `" ++ change.entityId ++ "`"))

/-- The bound values of the given members, by the model's columns. -/
def bindColumns (columns : List Column) (value? : String → Option Json) (entityType : String) :
    Except SyncError Assignments :=
  (columns.filterMap fun c => (value? c.name).map fun v => (c, v)).mapM fun p => do
    let v ← jsonToSql env p.1 p.2 entityType
    .ok (p.1.name, v)

/-- The `DELETE` branch of `apply_one`. -/
def deleteOne (k : SyncableEntityKind) (change : SyncChange) (db : Db) : Except SyncError Db := do
  let resolved ← resolvePrimaryKeys env k change none
  let values ← bindColumns env
    (k.layout.columns.filter fun c => k.layout.primaryKey.contains c.name)
    (fun n => resolved.lookup n) change.entityType
  statement (deleteMatching env now k values db)

/-- The `INSERT` and `UPDATE` branch of `apply_one`. -/
def upsertOne (k : SyncableEntityKind) (change : SyncChange) (db : Db) : Except SyncError Db := do
  let payload ← payloadObject env change
  let resolved ← resolvePrimaryKeys env k change (some payload)
  let values ← bindColumns env k.modelColumns
    (fun n => (payload.get? n).or (resolved.lookup n)) change.entityType
  if values.isEmpty then .ok db else statement (upsertOnKey env now k values db)

/-- `apply_one`: materialise one pushed change. -/
def applyOne (k : SyncableEntityKind) (change : SyncChange) (db : Db) : Except SyncError Db :=
  match toAsciiUppercase change.operation with
  | "DELETE" => deleteOne env now k change db
  | "INSERT" | "UPDATE" => upsertOne env now k change db
  | _ => .error (.invalidOperation change.entityType change.operation)

/-- A change with this identity is in the log already. -/
def alreadyLogged (log : ChangeLog) (operation : String) (change : SyncChange) : Bool :=
  log.rows.any fun r => r.entityType == change.entityType && r.entityId == change.entityId
    && r.version == change.version && r.deviceId == some change.deviceId
    && r.operation == operation

/-- The payload of the latest row of the change's entity, when it is newer, or as
    old with another payload. A version that does not decode counts as 0. -/
def divergentPayload? (log : ChangeLog) (change : SyncChange) : Option String :=
  match latestRow env log change.entityType change.entityId with
  | some localRow =>
      let localVersion := (asI64? localRow.version).getD 0
      if localVersion > change.version ∨
          (localVersion = change.version ∧ localRow.payload ≠ change.payload) then
        some localRow.payload
      else none
  | none => none

/-- One change of a push, with the conflict it raised. -/
def pushChange (change : SyncChange) (db : Db) : Except SyncError (Option ConflictRow × Db) :=
  match SyncableEntityKind.entityTypeToTable change.entityType with
  | none => .error (.unknownEntityType change.entityType)
  | some k =>
      let operation := toAsciiUppercase change.operation
      if alreadyLogged db.log operation change then .ok (none, db)
      else match divergentPayload? env db.log change with
        | some localPayload =>
            let db := recordConflict now change localPayload db
            .ok (db.conflicts.latest? change.entityType change.entityId, db)
        | none => do
            let db ← applyOne env now k change db
            let db ← insertChangeRow now operation change db
            .ok (none, db)

/-- The loop of a push over its changes. -/
def pushLoop (changes : List SyncChange) (state : List ConflictRow × Db) :
    Except SyncError (List ConflictRow × Db) :=
  changes.foldlM (fun state change => do
    let (conflict, db) ← pushChange env now change state.2
    .ok (state.1 ++ conflict.toList, db)) state

def pushChanges (changes : List SyncChange) (db : Db) : Except SyncError (PushResponse × Db) := do
  let (conflicts, db) ← pushLoop env now changes ([], { db with syncApply := some "1" })
  let db := { db with syncApply := none }
  .ok ({ accepted := conflicts.isEmpty, conflicts, latestVersion := getLatestVersion db.log }, db)

end Push

end SyncEngine
