import Livtet.Lib.TaggedJson

/-! # Messages — what crosses a sync stream

    The requests and responses of the framed protocol and the records they carry,
    each with the document it is written as. `Request` is tagged by `op`, `Response`
    by `result`; both name their variants and fields in snake case, while the records
    of a whole dump and of the status are in camel case. -/

namespace SyncMessages

open SqlRows JsonText JsonText.Json TaggedJson

/-- Optional texts and numbers, null when absent. -/
def optStr : Codec (Option String) := Codec.str.option nofun

def optI64 : Codec (Option Int64) := Codec.i64.option nofun

def optU64 : Codec (Option UInt64) := Codec.u64.option nofun

@[simp] theorem levels_optStr : optStr.levels = 0 := (rfl)
@[simp] theorem levels_optI64 : optI64.levels = 0 := (rfl)
@[simp] theorem levels_optU64 : optU64.levels = 0 := (rfl)

/-! ## Records of the store -/

structure SyncChange where
  id : Int64
  entityType : String
  entityId : String
  operation : String
  version : Int64
  payload : String
  changedAt : String
  deviceId : String

def SyncChange.record : Record SyncChange where
  members x :=
    [("id", Codec.i64.write x.id), ("entity_type", Codec.str.write x.entityType),
     ("entity_id", Codec.str.write x.entityId), ("operation", Codec.str.write x.operation),
     ("version", Codec.i64.write x.version), ("payload", Codec.str.write x.payload),
     ("changed_at", Codec.str.write x.changedAt), ("device_id", Codec.str.write x.deviceId)]
  read members := do
    let id ← field members "id" Codec.i64.read
    let entityType ← field members "entity_type" Codec.str.read
    let entityId ← field members "entity_id" Codec.str.read
    let operation ← field members "operation" Codec.str.read
    let version ← field members "version" Codec.i64.read
    let payload ← field members "payload" Codec.str.read
    let changedAt ← field members "changed_at" Codec.str.read
    let deviceId ← field members "device_id" Codec.str.read
    pure { id, entityType, entityId, operation, version, payload, changedAt, deviceId }
  levels := 0
  read_members x := by simp
  light_members x := by simp [Codec.light_of_le]

@[simp] theorem SyncChange.levels_record : SyncChange.record.levels = 0 := (rfl)

structure Conflict where
  id : Int64
  entityType : String
  entityId : String
  localPayload : String
  remotePayload : String
  resolved : Bool
  resolution : Option String
  mergedPayload : Option String
  detectedAt : String

def Conflict.record : Record Conflict where
  members x :=
    [("id", Codec.i64.write x.id), ("entity_type", Codec.str.write x.entityType),
     ("entity_id", Codec.str.write x.entityId), ("local_payload", Codec.str.write x.localPayload),
     ("remote_payload", Codec.str.write x.remotePayload),
     ("resolved", Codec.bool.write x.resolved), ("resolution", optStr.write x.resolution),
     ("merged_payload", optStr.write x.mergedPayload),
     ("detected_at", Codec.str.write x.detectedAt)]
  read members := do
    let id ← field members "id" Codec.i64.read
    let entityType ← field members "entity_type" Codec.str.read
    let entityId ← field members "entity_id" Codec.str.read
    let localPayload ← field members "local_payload" Codec.str.read
    let remotePayload ← field members "remote_payload" Codec.str.read
    let resolved ← field members "resolved" Codec.bool.read
    let resolution ← fieldOr none members "resolution" optStr.read
    let mergedPayload ← fieldOr none members "merged_payload" optStr.read
    let detectedAt ← field members "detected_at" Codec.str.read
    pure { id, entityType, entityId, localPayload, remotePayload, resolved, resolution,
           mergedPayload, detectedAt }
  levels := 0
  read_members x := by simp
  light_members x := by simp [Codec.light_of_le]

@[simp] theorem Conflict.levels_record : Conflict.record.levels = 0 := (rfl)

structure PullResponse where
  changes : List SyncChange
  hasMore : Bool
  latestVersion : Int64

def PullResponse.record : Record PullResponse where
  members x :=
    [("changes", SyncChange.record.codec.vec.write x.changes),
     ("has_more", Codec.bool.write x.hasMore), ("latest_version", Codec.i64.write x.latestVersion)]
  read members := do
    let changes ← field members "changes" SyncChange.record.codec.vec.read
    let hasMore ← field members "has_more" Codec.bool.read
    let latestVersion ← field members "latest_version" Codec.i64.read
    pure { changes, hasMore, latestVersion }
  levels := 2
  read_members x := by simp
  light_members x := by simp [Codec.light_of_le]

structure PushResponse where
  accepted : Bool
  conflicts : List Conflict
  latestVersion : Int64

def PushResponse.record : Record PushResponse where
  members x :=
    [("accepted", Codec.bool.write x.accepted),
     ("conflicts", Conflict.record.codec.vec.write x.conflicts),
     ("latest_version", Codec.i64.write x.latestVersion)]
  read members := do
    let accepted ← field members "accepted" Codec.bool.read
    let conflicts ← field members "conflicts" Conflict.record.codec.vec.read
    let latestVersion ← field members "latest_version" Codec.i64.read
    pure { accepted, conflicts, latestVersion }
  levels := 2
  read_members x := by simp
  light_members x := by simp [Codec.light_of_le]

structure SyncStatus where
  latestVersion : Int64
  deviceId : String

def SyncStatus.record : Record SyncStatus where
  members x :=
    [("latestVersion", Codec.i64.write x.latestVersion), ("deviceId", Codec.str.write x.deviceId)]
  read members := do
    let latestVersion ← field members "latestVersion" Codec.i64.read
    let deviceId ← field members "deviceId" Codec.str.read
    pure { latestVersion, deviceId }
  levels := 0
  read_members x := by simp
  light_members x := by simp [Codec.light_of_le]

/-! ## Records of the transport -/

/-- The identity a peer can confirm before pairing. -/
structure Identity where
  protocol : UInt32
  nodeId : String
  deviceId : String

def Identity.record : Record Identity where
  members x :=
    [("protocol", Codec.u32.write x.protocol), ("node_id", Codec.str.write x.nodeId),
     ("device_id", Codec.str.write x.deviceId)]
  read members := do
    let protocol ← field members "protocol" Codec.u32.read
    let nodeId ← field members "node_id" Codec.str.read
    let deviceId ← field members "device_id" Codec.str.read
    pure { protocol, nodeId, deviceId }
  levels := 0
  read_members x := by simp
  light_members x := by simp [Codec.light_of_le]

/-- Content type and range of the bytes that follow. -/
structure FileHeader where
  contentType : String
  offset : UInt64
  length : UInt64
  total : UInt64
  etag : String

def FileHeader.record : Record FileHeader where
  members x :=
    [("content_type", Codec.str.write x.contentType), ("offset", Codec.u64.write x.offset),
     ("length", Codec.u64.write x.length), ("total", Codec.u64.write x.total),
     ("etag", Codec.str.write x.etag)]
  read members := do
    let contentType ← field members "content_type" Codec.str.read
    let offset ← field members "offset" Codec.u64.read
    let length ← field members "length" Codec.u64.read
    let total ← field members "total" Codec.u64.read
    let etag ← field members "etag" Codec.str.read
    pure { contentType, offset, length, total, etag }
  levels := 0
  read_members x := by simp
  light_members x := by simp [Codec.light_of_le]

structure FileMetadata where
  contentType : String
  size : UInt64
  etag : String

def FileMetadata.record : Record FileMetadata where
  members x :=
    [("content_type", Codec.str.write x.contentType), ("size", Codec.u64.write x.size),
     ("etag", Codec.str.write x.etag)]
  read members := do
    let contentType ← field members "content_type" Codec.str.read
    let size ← field members "size" Codec.u64.read
    let etag ← field members "etag" Codec.str.read
    pure { contentType, size, etag }
  levels := 0
  read_members x := by simp
  light_members x := by simp [Codec.light_of_le]

structure OpdsResponse where
  status : UInt16
  contentType : String
  body : List UInt8

def OpdsResponse.record : Record OpdsResponse where
  members x :=
    [("status", Codec.u16.write x.status), ("content_type", Codec.str.write x.contentType),
     ("body", Codec.u8.vec.write x.body)]
  read members := do
    let status ← field members "status" Codec.u16.read
    let contentType ← field members "content_type" Codec.str.read
    let body ← field members "body" Codec.u8.vec.read
    pure { status, contentType, body }
  levels := 1
  read_members x := by simp
  light_members x := by simp [Codec.light_of_le]

/-- The negotiation headers of an OPDS request. -/
structure OpdsHeaders where
  accept : Option String
  acceptLanguage : Option String
  acceptEncoding : Option String

/-- A member that is skipped when there is nothing to write. -/
def unlessNone (name : String) : Option String → Members
  | none => []
  | some s => [(name, Codec.str.write s)]

def OpdsHeaders.record : Record OpdsHeaders where
  members x :=
    unlessNone "accept" x.accept ++ unlessNone "accept_language" x.acceptLanguage ++
      unlessNone "accept_encoding" x.acceptEncoding
  read members := do
    let accept ← fieldOr none members "accept" optStr.read
    let acceptLanguage ← fieldOr none members "accept_language" optStr.read
    let acceptEncoding ← fieldOr none members "accept_encoding" optStr.read
    pure { accept, acceptLanguage, acceptEncoding }
  levels := 0
  read_members x := by
    have hread : ∀ s, optStr.read (Codec.str.write s) = .ok (some s) :=
      fun s => optStr.read_write (some s)
    obtain ⟨_ | a, _ | b, _ | c⟩ := x <;> simp [unlessNone, hread]
  light_members x := by
    obtain ⟨_ | a, _ | b, _ | c⟩ := x <;> simp [unlessNone, Codec.light_of_le]

@[simp] theorem OpdsHeaders.levels_record : OpdsHeaders.record.levels = 0 := (rfl)

/-- Why a request could not be served. -/
inductive ErrorCode
  | badRequest
  | unauthorized
  | notFound
  | conflict
  | tooManyRequests
  | rangeNotSatisfiable (size : UInt64)
  | preconditionFailed
  | internal
deriving DecidableEq

namespace ErrorCode

/-- The name of a code, which is also its variant's on the wire. -/
def label : ErrorCode → String
  | badRequest => "bad_request"
  | unauthorized => "unauthorized"
  | notFound => "not_found"
  | conflict => "conflict"
  | tooManyRequests => "too_many_requests"
  | rangeNotSatisfiable _ => "range_not_satisfiable"
  | preconditionFailed => "precondition_failed"
  | internal => "internal"

/-- The variants without a payload. -/
def units : List ErrorCode :=
  [badRequest, unauthorized, notFound, conflict, tooManyRequests, preconditionFailed, internal]

def write : ErrorCode → Json
  | rangeNotSatisfiable size =>
      .obj [("range_not_satisfiable", .obj [("size", Codec.u64.write size)])]
  | code => .str code.label

def readUnit (name : String) : Except String ErrorCode :=
  match units.find? fun code => code.label == name with
  | some code => .ok code
  | none => .error s!"unknown variant `{name}`"

/-- A variant without a payload that stands in an object. -/
def readEmpty (name : String) : Json → Except String ErrorCode
  | .null | .obj [] => readUnit name
  | _ => .error "invalid type, expected unit"

def readRange (payload : Json) : Except String ErrorCode := do
  let members ← readMembers payload
  let size ← field members "size" Codec.u64.read
  pure (rangeNotSatisfiable size)

/-- A variant is a name, or an object with the name as its one member. -/
def read : Json → Except String ErrorCode
  | .str name => readUnit name
  | .obj [(name, payload)] =>
      if name = "range_not_satisfiable" then readRange payload else readEmpty name payload
  | _ => .error "invalid type, expected an enum"

theorem read_write (code : ErrorCode) : read code.write = .ok code := by
  cases code with
  | rangeNotSatisfiable size =>
      rw [write, read, if_pos rfl, readRange, readMembers, ok_bind,
        field_cons_self (by simp), Codec.read_write]
      rfl
  | _ => simp [write, read, readUnit, units, label]

theorem light_write (code : ErrorCode) : Light 2 code.write := by
  cases code with
  | rangeNotSatisfiable size =>
      have hsize : Light 1 (.obj [("size", Codec.u64.write size)]) :=
        .obj (by simp [Codec.light_of_le])
      exact .obj (by simpa using hsize)
  | _ => exact .str _

def codec : Codec ErrorCode where
  write := write
  read := read
  levels := 2
  read_write := read_write
  light := light_write

@[simp] theorem levels_codec : codec.levels = 2 := (rfl)

end ErrorCode

/-! ## A whole library -/

/-- The rows of one table. -/
def writeRows (rows : List Node) : Json := .arr (rows.map Node.val)

def readRows : Json → Except String (List Node)
  | .arr items => .ok (items.map Node.ofJson)
  | _ => .error "invalid type, expected a sequence"

@[simp] theorem readRows_writeRows (rows : List Node) : readRows (writeRows rows) = .ok rows := by
  rw [writeRows, readRows, List.map_map]
  exact congrArg Except.ok (map_eq_self_iff.2 fun row _ => row.ofJson_val)

section Rows

variable {rows : List Node}

theorem writeRows_mapReal {f : Decimal → Decimal} :
    (writeRows rows).mapReal f = writeRows (rows.map (Node.mapReal f)) := by
  rw [writeRows, mapReal_arr, writeRows, List.map_map, List.map_map]
  rfl

theorem depth_writeRows_le_iff {n : Nat} :
    (writeRows rows).depth ≤ n + 1 ↔ ∀ row ∈ rows, row.val.depth ≤ n := by
  rw [writeRows, depth_arr_le_iff, List.forall_mem_map]

theorem not_mem_scalars_writeRows_iff {j : Json} :
    j ∉ (writeRows rows).scalars ↔ ∀ row ∈ rows, j ∉ row.val.scalars := by
  simp [writeRows, scalars_arr]

end Rows

@[ext]
structure EntityDump where
  works : List Node
  editions : List Node
  editionGroups : List Node
  seriesEntries : List Node
  digitalInventory : List Node
  ownedEditions : List Node
  editionsLoans : List Node
  annotations : List Node
  readingLists : List Node
  readingListBook : List Node
  readingProgress : List Node

namespace EntityDump

def members (x : EntityDump) : Members :=
  [("works", writeRows x.works), ("editions", writeRows x.editions),
   ("editionGroups", writeRows x.editionGroups), ("seriesEntries", writeRows x.seriesEntries),
   ("digitalInventory", writeRows x.digitalInventory),
   ("ownedEditions", writeRows x.ownedEditions), ("editionsLoans", writeRows x.editionsLoans),
   ("annotations", writeRows x.annotations), ("readingLists", writeRows x.readingLists),
   ("readingListBook", writeRows x.readingListBook),
   ("readingProgress", writeRows x.readingProgress)]

def read (members : Members) : Except String EntityDump := do
  let works ← field members "works" readRows
  let editions ← field members "editions" readRows
  let editionGroups ← field members "editionGroups" readRows
  let seriesEntries ← field members "seriesEntries" readRows
  let digitalInventory ← field members "digitalInventory" readRows
  let ownedEditions ← field members "ownedEditions" readRows
  let editionsLoans ← field members "editionsLoans" readRows
  let annotations ← field members "annotations" readRows
  let readingLists ← field members "readingLists" readRows
  let readingListBook ← field members "readingListBook" readRows
  let readingProgress ← field members "readingProgress" readRows
  pure { works, editions, editionGroups, seriesEntries, digitalInventory, ownedEditions,
         editionsLoans, annotations, readingLists, readingListBook, readingProgress }

theorem read_members (x : EntityDump) : read x.members = .ok x := by
  simp [read, members]

/-- The rows of every table. -/
def rows (x : EntityDump) : List Node :=
  x.works ++ x.editions ++ x.editionGroups ++ x.seriesEntries ++ x.digitalInventory ++
    x.ownedEditions ++ x.editionsLoans ++ x.annotations ++ x.readingLists ++ x.readingListBook ++
    x.readingProgress

/-- Every fraction of every row replaced. -/
def mapReal (f : Decimal → Decimal) (x : EntityDump) : EntityDump where
  works := x.works.map (Node.mapReal f)
  editions := x.editions.map (Node.mapReal f)
  editionGroups := x.editionGroups.map (Node.mapReal f)
  seriesEntries := x.seriesEntries.map (Node.mapReal f)
  digitalInventory := x.digitalInventory.map (Node.mapReal f)
  ownedEditions := x.ownedEditions.map (Node.mapReal f)
  editionsLoans := x.editionsLoans.map (Node.mapReal f)
  annotations := x.annotations.map (Node.mapReal f)
  readingLists := x.readingLists.map (Node.mapReal f)
  readingListBook := x.readingListBook.map (Node.mapReal f)
  readingProgress := x.readingProgress.map (Node.mapReal f)

variable {f : Decimal → Decimal}

theorem members_mapReal (x : EntityDump) :
    (x.members.map fun p => (p.1, p.2.mapReal f)) = (x.mapReal f).members := by
  simp [members, mapReal, writeRows_mapReal]

theorem mapReal_eq_self_iff (x : EntityDump) :
    x.mapReal f = x ↔ ∀ row ∈ x.rows, ∀ d, .real d ∈ row.val.scalars → f d = d := by
  simp only [← Node.mapReal_eq_self_iff, rows, List.forall_mem_append, ← map_eq_self_iff,
    EntityDump.ext_iff, mapReal, and_assoc]

/-- The rows lie two levels down. -/
theorem depth_members_le_iff (x : EntityDump) {n : Nat} :
    (∀ p ∈ x.members, p.2.depth ≤ n + 1) ↔ ∀ row ∈ x.rows, row.val.depth ≤ n := by
  simp only [members, rows, List.forall_mem_cons, List.forall_mem_append, depth_writeRows_le_iff,
    List.not_mem_nil, false_implies, implies_true, and_true, and_assoc]

/-- Whatever stands in a dumped table stands in one of the rows. -/
theorem scalars_members (x : EntityDump) {j : Json} (h : j ∈ (Json.obj x.members).scalars) :
    ∃ row ∈ x.rows, j ∈ row.val.scalars := by
  have hiff : (∀ p ∈ x.members, j ∉ p.2.scalars) ↔ ∀ row ∈ x.rows, j ∉ row.val.scalars := by
    simp only [members, rows, List.forall_mem_cons, List.forall_mem_append,
      not_mem_scalars_writeRows_iff, List.not_mem_nil, false_implies, implies_true, and_true,
      and_assoc]
  by_contra hnone
  rw [scalars_obj] at h
  obtain ⟨p, hp, hj⟩ := List.mem_flatMap.1 h
  exact hiff.2 (fun row hrow hj => hnone ⟨row, hrow, hj⟩) p hp hj

end EntityDump

structure FullDump where
  version : Int64
  deviceId : String
  entities : EntityDump

namespace FullDump

def members (x : FullDump) : Members :=
  [("version", Codec.i64.write x.version), ("deviceId", Codec.str.write x.deviceId),
   ("entities", .obj x.entities.members)]

def read (members : Members) : Except String FullDump := do
  let version ← field members "version" Codec.i64.read
  let deviceId ← field members "deviceId" Codec.str.read
  let entities ← field members "entities" fun j => readMembers j >>= EntityDump.read
  pure { version, deviceId, entities }

theorem read_members (x : FullDump) : read x.members = .ok x := by
  simp [read, members, readMembers, EntityDump.read_members]

def mapReal (f : Decimal → Decimal) (x : FullDump) : FullDump :=
  { x with entities := x.entities.mapReal f }

theorem members_mapReal {f : Decimal → Decimal} (x : FullDump) :
    (x.members.map fun p => (p.1, p.2.mapReal f)) = (x.mapReal f).members := by
  have hversion : (Codec.i64.write x.version).mapReal f = _ := (Codec.i64.light _).mapReal_eq
  have hdevice : (Codec.str.write x.deviceId).mapReal f = _ := (Codec.str.light _).mapReal_eq
  simp only [members, List.map_cons, List.map_nil, hversion, hdevice, mapReal_obj,
    EntityDump.members_mapReal, mapReal]

theorem mapReal_eq_self_iff {f : Decimal → Decimal} (x : FullDump) :
    x.mapReal f = x ↔ x.entities.mapReal f = x.entities := by
  constructor
  · exact congrArg FullDump.entities
  · intro h
    rw [mapReal, h]

/-- The rows lie three levels down. -/
theorem depth_members_le_iff (x : FullDump) {n : Nat} :
    (∀ p ∈ x.members, p.2.depth ≤ n + 2) ↔ ∀ row ∈ x.entities.rows, row.val.depth ≤ n := by
  have hversion := (Codec.i64.light x.version).depth_le.trans (Nat.zero_le (n + 2))
  have hdevice := (Codec.str.light x.deviceId).depth_le.trans (Nat.zero_le (n + 2))
  have hentities : (Json.obj x.entities.members).depth ≤ n + 2 ↔ _ :=
    depth_obj_le_iff.trans (x.entities.depth_members_le_iff (n := n))
  simp only [members, List.forall_mem_cons, hversion, hdevice, hentities, true_and,
    List.not_mem_nil, false_implies, implies_true, and_true]

theorem inRange_members (x : FullDump) :
    ∀ p ∈ x.members, ∀ i, .int i ∈ p.2.scalars → InRange i := by
  simp only [members, List.forall_mem_cons, List.not_mem_nil, false_implies, implies_true, and_true]
  refine ⟨(Codec.i64.light _).inRange, (Codec.str.light _).inRange, fun i hi => ?_⟩
  obtain ⟨row, _, hi⟩ := x.entities.scalars_members hi
  exact inRange_of_valid row.valid i hi

end FullDump

end SyncMessages
