import Livtet.Bootstrap
import Livtet.ConflictList
import Livtet.Framing
import Livtet.Peers
import Livtet.Privacy
import Livtet.RangedFiles
import Livtet.Lib.Rings

/-! # The endpoint — every request of the protocol

    A connection's node id is the caller's identity. A request that reads or writes the
    library presents a session token, which is checked against that node; one asks the
    desktop's route table and needs a paired node. Pairing requests and the identity
    need neither.

    Every answer is put on record: the counters, a ring of the last requests, and the
    notifications to the parent process. -/

namespace SyncEndpoint

open JsonText SqlRows SyncMessages SyncEnvelopes SyncFraming SyncConflictList
open JsonText.Json (Node)
open SyncSchema (SyncableEntityKind)
open SyncStore (Env Db ConflictRow)
open SyncPairing (DbId WireState Instant trim)
open SyncPrivacy (LogQueries OfferDecision)
open RangedFiles (DiskFile Inventory wireCode)

/-! ## Engine records on the wire -/

/-- A pushed change as the engine takes it. -/
def ofWire (c : SyncChange) : SyncEngine.SyncChange where
  id := c.id.toInt
  entityType := c.entityType
  entityId := c.entityId
  operation := c.operation
  version := c.version.toInt
  payload := c.payload
  changedAt := c.changedAt
  deviceId := c.deviceId
  version_i64 := ⟨Int64.le_toInt c.version, Int.le_sub_one_of_lt (Int64.toInt_lt c.version)⟩

def changeToWire (c : SyncEngine.SyncChange) : SyncChange where
  id := Int64.ofInt c.id
  entityType := c.entityType
  entityId := c.entityId
  operation := c.operation
  version := Int64.ofInt c.version
  payload := c.payload
  changedAt := c.changedAt
  deviceId := c.deviceId

/-- `row_to_conflict`. -/
def conflictToWire (r : ConflictRow) : Conflict where
  id := Int64.ofInt r.id
  entityType := r.entityType
  entityId := r.entityId
  localPayload := r.localPayload
  remotePayload := r.remotePayload
  resolved := r.resolved
  resolution := r.resolution
  mergedPayload := r.mergedPayload
  detectedAt := r.detectedAt

def pullToWire (r : SyncEngine.PullResponse) : PullResponse :=
  { changes := r.changes.map changeToWire, hasMore := r.hasMore
    latestVersion := Int64.ofInt r.latestVersion }

def pushToWire (r : SyncEngine.PushResponse) : PushResponse :=
  { accepted := r.accepted, conflicts := r.conflicts.map conflictToWire
    latestVersion := Int64.ofInt r.latestVersion }

def dumpToWire (deviceId : String) (dump : SyncBootstrap.FullDump) : FullDump :=
  let rows (k : SyncableEntityKind) : List Node :=
    (dump.entities k).map fun object => Node.ofJson (.obj object)
  { version := Int64.ofInt dump.version
    deviceId
    entities :=
      { works := rows .work, editions := rows .edition, editionGroups := rows .editionGroup
        seriesEntries := rows .seriesEntry, digitalInventory := rows .digitalInventory
        ownedEditions := rows .ownedEdition, editionsLoans := rows .editionLoan
        annotations := rows SyncableEntityKind.annotation, readingLists := rows .readingList
        readingListBook := rows .readingListBook, readingProgress := rows .readingProgress } }

/-- How a `SyncError` is displayed; the database's own words are its library's. -/
def syncErrorText (sqlText : SqlError → String) : SyncEngine.SyncError → String
  | .db e => "database error: " ++ sqlText e
  | .unknownEntityType typeName => "unknown sync entity type: " ++ typeName
  | .deserialization entityType message =>
      "deserialization error for " ++ entityType ++ ": " ++ message
  | .invalidPayload entityType message => "invalid payload for " ++ entityType ++ ": " ++ message
  | .invalidOperation entityType operation =>
      "invalid operation " ++ operation ++ " for " ++ entityType
  | .invalidEntityId entityType message => "invalid entity id for " ++ entityType ++ ": " ++ message

/-! ## What is answered -/

/-- The bytes that follow a header. -/
structure FileBody where
  path : String
  offset : UInt64
  length : UInt64
deriving DecidableEq, Repr

structure Outcome where
  response : Response
  body : Option FileBody

abbrev Failure := ErrorCode × String

/-- One answer, and the device it authenticated as. -/
structure Answered where
  outcome : Outcome
  deviceId : Option String

namespace Answered

def reply (response : Response) : Answered := ⟨⟨response, none⟩, none⟩

def failure (failure : Failure) : Answered := reply (.error failure.1 failure.2)

def error (code : ErrorCode) (message : String) : Answered := failure (code, message)

def file (header : FileHeader) (path : String) : Answered :=
  ⟨⟨.file header, some ⟨path, header.offset, header.length⟩⟩, none⟩

def cover (header : FileHeader) (path : String) : Answered :=
  ⟨⟨.cover header, some ⟨path, header.offset, header.length⟩⟩, none⟩

def withDevice (a : Answered) (deviceId : String) : Answered := { a with deviceId := some deviceId }

end Answered

/-- `RequestRecord`, of the log of answered requests. -/
structure RequestRecord where
  op : String
  nodeId : String
  deviceId : Option String
  outcome : String
  answeredAt : String
  elapsedMs : UInt64
deriving DecidableEq, Repr

/-- What `sync.completed` reports. -/
inductive Completed
  | changes (deviceId : String) (count : Nat) (hasMore : Bool) (latestVersion : Int64)
  | push (deviceId : String) (accepted : Bool) (conflicts : Nat) (latestVersion : Int64)
  | pullFull (deviceId : String) (version : Int64)
deriving DecidableEq, Repr

/-- The notifications to the parent process. -/
inductive Notice
  | pairingRequested (nodeId deviceId name : String)
  | offerDecided (decision : OfferDecision)
  | requestReceived (record : RequestRecord)
  | syncCompleted (completed : Completed)
deriving DecidableEq, Repr

structure Endpoint where
  wire : WireState
  db : Db
  requestLog : List RequestRecord
  served : UInt64
  lastAt : Option String
  told : List Notice

/-- What a request meets: the clock, a fresh id, the database's refusals of its
    statements, the files on disk, and the desktop, where there is one to ask. -/
structure Moment where
  now : Instant
  stamp : String
  elapsedMs : UInt64
  secret : DbId
  refuse : Nat → Option String
  disk : String → Option DiskFile
  desktop : Option (String → String → OpdsHeaders → List UInt8 → Except String Json)

/-! ## Credentials -/

section Credentials

variable (env : Env) (m : Moment)

def unauthorized : Failure := (.unauthorized, "the session token is not recognised")

/-- `authorize`: the device a token was issued to. -/
def authorize (wire : WireState) (token remote : String) : Except Failure String :=
  if trim token = "" then .error unauthorized
  else match m.refuse 0 with
    | some e => .error (.internal, "authorization: " ++ e)
    | none =>
        match SyncPairing.authorize env wire token remote with
        | .error (code, message) => .error (wireCode code, message)
        | .ok device => .ok device

/-- `paired_node`: whether some row names the node and has a token. -/
def pairedNode (wire : WireState) (remote : String) : Except Failure Bool :=
  match m.refuse 0 with
  | some e => .error (.internal, "pairing lookup: " ++ e)
  | none => .ok (wire.paired.rows.entries.any fun e =>
      e.2.nodeId == some remote && SyncPeers.filled e.2.sessionToken)

end Credentials

/-! ## The handlers

    Each reads or writes the database for the device that was authorized. The
    authorization was the request's first statement. -/

section Handlers

variable (env : Env) (q : LogQueries env) (lib : SerdeJson) (sqlText : SqlError → String)
variable (m : Moment) (wire : WireState) (device : String)

/-- The engine's error where the database refuses its statement. -/
def refused (operation e : String) : Answered :=
  .error .internal (operation ++ ": database error: " ++ e)

def status (db : Db) : Answered :=
  match m.refuse 1 with
  | some e => refused "status" e
  | none => (Answered.reply (.status
      { latestVersion := Int64.ofInt (SyncEngine.getLatestVersion db.log)
        deviceId := wire.deviceId })).withDevice device

def changes (sinceVersion : Int64) (limit : Option Int64) (db : Db) : Answered :=
  match m.refuse 1 with
  | some e => refused "changes" e
  | none =>
      let response := SyncEngine.pullChanges env db.log sinceVersion.toInt (limit.getD 100).toInt
      -- offers name their target; no other device may see them
      let visible := response.changes.filter fun c => SyncOffers.changeIsFor env c device
      (Answered.reply (.changes (pullToWire { response with changes := visible }))).withDevice device

def pullFull (db : Db) : Answered :=
  match m.refuse 1 with
  | some e => refused "pull-full" e
  | none => (Answered.reply
      (.full (dumpToWire wire.deviceId (SyncBootstrap.pullFull env db)))).withDevice device

/-- A push runs in one transaction, so an error leaves the database as it was. -/
def push (batch : List SyncChange) (db : Db) : Answered × Db :=
  match m.refuse 1 with
  | some e => (refused "push" e, db)
  | none =>
      match SyncEngine.pushChanges env m.stamp (batch.map ofWire) db with
      | .error e => (.error .internal ("push: " ++ syncErrorText sqlText e), db)
      | .ok (response, db) => ((Answered.reply (.pushed (pushToWire response))).withDevice device, db)

def conflicts (db : Db) : Answered :=
  match m.refuse 1 with
  | some e => refused "conflicts" e
  | none => (Answered.reply
      (.conflicts ((listConflicts db.conflicts).map conflictToWire))).withDevice device

def resolve (id : Int64) (resolution : String) (mergedPayload : Option String) (db : Db) :
    Answered × Db :=
  if isResolution resolution then
    match m.refuse 1 with
    | some e => (refused "resolve" e, db)
    | none =>
        let (resolved, conflicts) :=
          resolveConflict id.toInt resolution mergedPayload db.conflicts
        ((Answered.reply (.resolved resolved)).withDevice device, { db with conflicts })
  else (.error .badRequest ("unknown resolution: " ++ resolution), db)

/-- A text column. -/
def textColumn : Value → Option String
  | .text s => some s
  | _ => none

/-- The file and cover columns of `digital_inventory`. -/
def inventoryOf (db : Db) : Inventory := fun id =>
  ((db.tables .digitalInventory).rows.find? fun r => decide (r.val "id" = .blob id.val)).map
    fun r => (textColumn (r.val "file_path"), textColumn (r.val "cover_path"))

def inventoryPaths (inventoryId : String) (db : Db) :
    Except Failure (Option String × Option String) :=
  match RangedFiles.parseInventoryId inventoryId, m.refuse 1 with
  | some _, some e => .error (.internal, "inventory lookup: " ++ e)
  | _, _ => RangedFiles.inventoryPaths (inventoryOf db) inventoryId

def file (inventoryId : String) (offset : UInt64) (length : Option UInt64)
    (ifRange : Option String) (db : Db) : Answered :=
  match inventoryPaths m inventoryId db with
  | .error e => .failure e
  | .ok (none, _) => .error .notFound "this inventory has no file"
  | .ok (some path, _) =>
      match m.disk path with
      | none => .error .notFound "the file is not on disk"
      | some f =>
          match RangedFiles.fileHeader path f offset length ifRange with
          | .error e => (Answered.failure e).withDevice device
          | .ok header => (Answered.file header path).withDevice device

def fileInfo (inventoryId : String) (db : Db) : Answered :=
  match inventoryPaths m inventoryId db with
  | .error e => .failure e
  | .ok (none, _) => .error .notFound "this inventory has no file"
  | .ok (some path, _) =>
      match m.disk path with
      | none => .error .notFound "the file is not on disk"
      | some f => (Answered.reply (.fileInfo
          { contentType := RangedFiles.contentTypeFor path, size := f.size
            etag := f.etag })).withDevice device

def cover (inventoryId : String) (db : Db) : Answered :=
  match inventoryPaths m inventoryId db with
  | .error e => .failure e
  | .ok (_, none) => .error .notFound "this inventory has no cover"
  | .ok (_, some path) =>
      match m.disk path with
      | none => .error .notFound "the file is not on disk"
      | some f => (Answered.cover
          { contentType := RangedFiles.contentTypeFor path, offset := 0, length := f.size
            total := f.size, etag := f.etag } path).withDevice device

/-- `fits_one_frame`. -/
def fitsOneFrame (response : Response) : Bool :=
  match toVec lib response with
  | .ok body => decide (body.length ≤ maxMessageBytes)
  | .error _ => false

/-- `opds`: the desktop's answer, where it can be carried. -/
def opds (method path : String) (headers : OpdsHeaders) (body : List UInt8) : Answered :=
  match m.desktop with
  | none => .error .internal "opds: this endpoint serves no route table"
  | some ask =>
      match ask method path headers body with
      | .error message => .error .internal ("opds: " ++ message)
      | .ok value =>
          match OpdsResponse.record.codec.read value with
          | .error e => .error .internal
              ("opds: the desktop answered with an unreadable response: " ++ e)
          | .ok response =>
              if maxMessageBytes < response.body.length then
                .error .badRequest ("opds: a " ++ toString response.body.length ++
                  "-byte body exceeds the " ++ toString maxMessageBytes ++
                  "-byte message limit; request the body in ranges")
              else if fitsOneFrame lib (.opds response) then .reply (.opds response)
              else .error .badRequest ("opds: the answer exceeds the " ++
                toString maxMessageBytes ++ "-byte message limit; request the body in ranges")

/-- An answered offer, and the decision the desktop is told of. -/
def offerDecision (offerId : String) (accepted : Bool) (db : Db) :
    Answered × Option OfferDecision :=
  match m.refuse 1 with
  | some e => ((Answered.error .internal ("offer lookup: " ++ e)).withDevice device, none)
  | none =>
      match SyncPrivacy.offerDecision env q db.log offerId device accepted with
      | .error (code, message) => ((Answered.error (wireCode code) message).withDevice device, none)
      | .ok decision => ((Answered.reply .offerDecided).withDevice device, some decision)

/-- The answer to a pairing request. -/
def pairingReply : SyncPairing.Answer → Answered
  | .error (code, message) => .error (wireCode code) message
  | .ok (.pairingPending claim) => .reply (.pairingPending claim)
  | .ok (.paired deviceId sessionToken) => .reply (.paired deviceId sessionToken)
  | .ok (.refused reason) => .reply (.refused reason)

/-- A claim that was filed is announced. -/
def pairingNotice (remote deviceId name : String) : SyncPairing.Answer → List Notice
  | .ok (.pairingPending _) => [.pairingRequested remote deviceId name]
  | _ => []

end Handlers

/-! ## Dispatch -/

section Dispatch

variable (env : Env) (q : LogQueries env) (lib : SerdeJson) (sqlText : SqlError → String)
variable (m : Moment) (remote : String)

def protocolVersion : UInt32 := 2

/-- A request that presents a token: refused, or handled for the token's device. -/
def withDevice (s : Endpoint) (token : String) (handle : String → Answered × Endpoint) :
    Answered × Endpoint :=
  match authorize env m s.wire token remote with
  | .error e => (.failure e, s)
  | .ok device => handle device

def dispatch (request : Request) (s : Endpoint) : Answered × Endpoint :=
  if remote = s.wire.selfNode then
    (.error .badRequest "a device cannot sync with itself", s)
  else match request with
    | .identity => (.reply (.identity
        { protocol := protocolVersion, nodeId := s.wire.selfNode, deviceId := s.wire.deviceId }), s)
    | .status token => withDevice env m remote s token fun device =>
        (status m s.wire device s.db, s)
    | .changes token sinceVersion limit => withDevice env m remote s token fun device =>
        (changes env m device sinceVersion limit s.db, s)
    | .pullFull token => withDevice env m remote s token fun device =>
        (pullFull env m s.wire device s.db, s)
    | .push token batch => withDevice env m remote s token fun device =>
        let pushed := push env sqlText m device batch s.db
        (pushed.1, { s with db := pushed.2 })
    | .pair deviceId name _ =>
        let paired :=
          SyncPairing.dispatchPair env m.now m.refuse m.secret remote deviceId name s.wire
        (pairingReply paired.1,
          { s with
            wire := paired.2
            told := s.told ++ pairingNotice remote deviceId name paired.1 })
    | .pairStatus claim =>
        let polled := SyncPairing.dispatchPairStatus m.now remote claim s.wire
        (pairingReply polled.1, { s with wire := polled.2 })
    | .conflicts token => withDevice env m remote s token fun device =>
        (conflicts m device s.db, s)
    | .resolveConflict token id resolution mergedPayload =>
        withDevice env m remote s token fun device =>
          let resolved := resolve m device id resolution mergedPayload s.db
          (resolved.1, { s with db := resolved.2 })
    | .file token inventoryId offset length ifRange => withDevice env m remote s token fun device =>
        (file m device inventoryId offset length ifRange s.db, s)
    | .fileInfo token inventoryId => withDevice env m remote s token fun device =>
        (fileInfo m device inventoryId s.db, s)
    | .cover token inventoryId => withDevice env m remote s token fun device =>
        (cover m device inventoryId s.db, s)
    | .opds method path headers body =>
        match pairedNode m s.wire remote with
        | .ok true => (opds lib m method path headers body, s)
        | .ok false =>
            (.error .unauthorized "this node is not paired with this device", s)
        | .error e => (.failure e, s)
    | .offerDecision token offerId accepted => withDevice env m remote s token fun device =>
        let decided := offerDecision env q m device offerId accepted s.db
        (decided.1, { s with told := s.told ++ decided.2.toList.map .offerDecided })

/-! ## Answering -/

/-- `op_name`. -/
def opName : Request → String
  | .identity => "identity"
  | .status _ => "status"
  | .changes _ _ _ => "changes"
  | .pullFull _ => "pull_full"
  | .push _ _ => "push"
  | .pair _ _ _ => "pair"
  | .pairStatus _ => "pair_status"
  | .conflicts _ => "conflicts"
  | .resolveConflict _ _ _ _ => "resolve_conflict"
  | .file _ _ _ _ _ => "file"
  | .fileInfo _ _ => "file_info"
  | .cover _ _ => "cover"
  | .opds _ _ _ _ => "opds"
  | .offerDecision _ _ _ => "offer_decision"

def outcomeLabel : Response → String
  | .error code _ => "error:" ++ code.label
  | .refused _ => "refused"
  | _ => "ok"

/-- `sync_completed`: a data operation that an authenticated device completed. -/
def syncCompleted (a : Answered) : Option Completed :=
  match a.deviceId, a.outcome.response with
  | some device, .changes pull =>
      some (.changes device pull.changes.length pull.hasMore pull.latestVersion)
  | some device, .pushed push =>
      some (.push device push.accepted push.conflicts.length push.latestVersion)
  | some device, .full dump => some (.pullFull device dump.version)
  | _, _ => none

def requestLogCap : Nat := 200

/-- The record of an answered request. -/
def recordOf (request : Request) (answered : Answered) : RequestRecord where
  op := opName request
  nodeId := remote
  deviceId := answered.deviceId
  outcome := outcomeLabel answered.outcome.response
  answeredAt := m.stamp
  elapsedMs := m.elapsedMs

/-- The counters, the log and the notifications after an answer. -/
def report (request : Request) (answered : Answered) (s : Endpoint) : Endpoint :=
  let record := recordOf m remote request answered
  { s with
    served := s.served + 1
    lastAt := some m.stamp
    requestLog := Rings.push requestLogCap s.requestLog record
    told := s.told ++ .requestReceived record ::
      (syncCompleted answered).toList.map .syncCompleted }

def answer (request : Request) (s : Endpoint) : Answered × Endpoint :=
  let dispatched := dispatch env q lib sqlText m remote request s
  (dispatched.1, report m remote request dispatched.1 dispatched.2)

/-- `handle_requests_recent`, by way of `recent`. -/
def recent (limit : Option UInt64) (s : Endpoint) : List RequestRecord :=
  Rings.newest s.requestLog (min (limit.getD 50).toNat requestLogCap)

end Dispatch

/-! ## The system

    Requests come from any node in any order. Between them this device writes its own
    library, and its reader decides claims, claims peers and revokes devices. -/

/-- What the reader decides about claims and devices. -/
inductive Decision
  | approve (now : Instant) (refuse : Nat → Option String) (newId token : DbId) (nodeId : String)
  | reject (now : Instant) (refuse : Nat → Option String) (nodeId : String)
  | claim (refuse : Nat → Option String) (x : SyncPeers.Exchange)
      (params : SyncPeers.PairingClaimParams)
  | promote
  | revoke (deviceId : String)

inductive Action
  | request (m : Moment) (remote : String) (request : Request)
  | own (w : Write)
  | decide (decision : Decision)

section System

variable (env : Env) (q : LogQueries env) (lib : SerdeJson) (sqlText : SqlError → String)
variable (order : SyncPairing.MapOrder) (ids : SyncPeers.NodeIds)

/-- What a decision does to the pairing tables and maps. -/
def settle (wire : WireState) : Decision → WireState
  | .approve now refuse newId token nodeId =>
      (SyncPairing.approveClaim env order now refuse newId token nodeId wire).2
  | .reject now refuse nodeId => (SyncPairing.rejectClaim env order now refuse nodeId wire).2
  | .claim refuse x params => (SyncPeers.claimPeer env ids refuse x params wire).2
  | .promote => { wire with paired := SyncPeers.promoteMutualPairings wire.paired }
  | .revoke deviceId => (SyncPairing.revoke env deviceId wire).2

/-- The peer's answer, for a request, and the next state. -/
def step (s : Endpoint) : Action → Option Answered × Endpoint
  | .request m remote request =>
      let answered := answer env q lib sqlText m remote request s
      (some answered.1, answered.2)
  | .own w => (none, { s with db := write env s.db w })
  | .decide decision => (none, { s with wire := settle env order ids s.wire decision })

end System

end SyncEndpoint
