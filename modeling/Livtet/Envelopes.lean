import Livtet.Messages

/-! # Envelopes — requests and responses

    Every operation of a sync stream and every answer, as the tagged documents they
    are written as. A variant with named fields and one around a record are objects;
    serialisation fails for a variant around a list or a flag. -/

namespace SyncEnvelopes

open SqlRows JsonText JsonText.Json TaggedJson SyncMessages

/-- What can be written to a document and read from one. -/
class Wire (α : Type) where
  serialize : α → Except String Json
  deserialize : Json → Except String α

export Wire (serialize deserialize)

/-- A value written as a shallow object without fractions that reads back as it. -/
structure Written {α : Type} [Wire α] (a : α) (members : Members) : Prop where
  serialize_eq : serialize a = .ok (.obj members)
  light : Light 3 (.obj members)
  deserialize_eq : deserialize (.obj members) = .ok a

/-! ## Requests -/

/-- One operation on a sync stream. -/
inductive Request
  | identity
  | status (token : String)
  | changes (token : String) (sinceVersion : Int64) (limit : Option Int64)
  | pullFull (token : String)
  | push (token : String) (changes : List SyncChange)
  | pair (deviceId name deviceType : String)
  | pairStatus (claim : String)
  | conflicts (token : String)
  | resolveConflict (token : String) (id : Int64) (resolution : String)
      (mergedPayload : Option String)
  | file (token inventoryId : String) (offset : UInt64) (length : Option UInt64)
      (ifRange : Option String)
  | fileInfo (token inventoryId : String)
  | cover (token inventoryId : String)
  | opds (method path : String) (headers : OpdsHeaders) (body : List UInt8)
  | offerDecision (token offerId : String) (accepted : Bool)

namespace Request

/-- The body of an OPDS request is skipped when it is empty. -/
def bodyMember (body : List UInt8) : Members :=
  if body.isEmpty then [] else [("body", Codec.u8.vec.write body)]

/-- The name of a request's variant, and its fields. -/
def variant : Request → String × Members
  | identity => ("identity", [])
  | status token => ("status", [("token", Codec.str.write token)])
  | changes token sinceVersion limit =>
      ("changes", [("token", Codec.str.write token), ("since_version", Codec.i64.write sinceVersion),
        ("limit", optI64.write limit)])
  | pullFull token => ("pull_full", [("token", Codec.str.write token)])
  | push token batch =>
      ("push", [("token", Codec.str.write token),
        ("changes", SyncChange.record.codec.vec.write batch)])
  | pair deviceId name deviceType =>
      ("pair", [("device_id", Codec.str.write deviceId), ("name", Codec.str.write name),
        ("device_type", Codec.str.write deviceType)])
  | pairStatus claim => ("pair_status", [("claim", Codec.str.write claim)])
  | conflicts token => ("conflicts", [("token", Codec.str.write token)])
  | resolveConflict token id resolution mergedPayload =>
      ("resolve_conflict", [("token", Codec.str.write token), ("id", Codec.i64.write id),
        ("resolution", Codec.str.write resolution),
        ("merged_payload", optStr.write mergedPayload)])
  | file token inventoryId offset length ifRange =>
      ("file", [("token", Codec.str.write token), ("inventory_id", Codec.str.write inventoryId),
        ("offset", Codec.u64.write offset), ("length", optU64.write length),
        ("if_range", optStr.write ifRange)])
  | fileInfo token inventoryId =>
      ("file_info", [("token", Codec.str.write token),
        ("inventory_id", Codec.str.write inventoryId)])
  | cover token inventoryId =>
      ("cover", [("token", Codec.str.write token), ("inventory_id", Codec.str.write inventoryId)])
  | opds method path headers body =>
      ("opds", [("method", Codec.str.write method), ("path", Codec.str.write path),
        ("headers", OpdsHeaders.record.codec.write headers)] ++ bodyMember body)
  | offerDecision token offerId accepted =>
      ("offer_decision", [("token", Codec.str.write token), ("offer_id", Codec.str.write offerId),
        ("accepted", Codec.bool.write accepted)])

def read (name : String) (members : Members) : Except String Request :=
  match name with
  | "identity" => pure identity
  | "status" => do
      let token ← field members "token" Codec.str.read
      pure (status token)
  | "changes" => do
      let token ← field members "token" Codec.str.read
      let sinceVersion ← field members "since_version" Codec.i64.read
      let limit ← fieldOr none members "limit" optI64.read
      pure (changes token sinceVersion limit)
  | "pull_full" => do
      let token ← field members "token" Codec.str.read
      pure (pullFull token)
  | "push" => do
      let token ← field members "token" Codec.str.read
      let batch ← field members "changes" SyncChange.record.codec.vec.read
      pure (push token batch)
  | "pair" => do
      let deviceId ← field members "device_id" Codec.str.read
      let name ← field members "name" Codec.str.read
      let deviceType ← field members "device_type" Codec.str.read
      pure (pair deviceId name deviceType)
  | "pair_status" => do
      let claim ← field members "claim" Codec.str.read
      pure (pairStatus claim)
  | "conflicts" => do
      let token ← field members "token" Codec.str.read
      pure (conflicts token)
  | "resolve_conflict" => do
      let token ← field members "token" Codec.str.read
      let id ← field members "id" Codec.i64.read
      let resolution ← field members "resolution" Codec.str.read
      let mergedPayload ← fieldOr none members "merged_payload" optStr.read
      pure (resolveConflict token id resolution mergedPayload)
  | "file" => do
      let token ← field members "token" Codec.str.read
      let inventoryId ← field members "inventory_id" Codec.str.read
      let offset ← field members "offset" Codec.u64.read
      let length ← fieldOr none members "length" optU64.read
      let ifRange ← fieldOr none members "if_range" optStr.read
      pure (file token inventoryId offset length ifRange)
  | "file_info" => do
      let token ← field members "token" Codec.str.read
      let inventoryId ← field members "inventory_id" Codec.str.read
      pure (fileInfo token inventoryId)
  | "cover" => do
      let token ← field members "token" Codec.str.read
      let inventoryId ← field members "inventory_id" Codec.str.read
      pure (cover token inventoryId)
  | "opds" => do
      let method ← field members "method" Codec.str.read
      let path ← field members "path" Codec.str.read
      let headers ← field members "headers" OpdsHeaders.record.codec.read
      let body ← fieldOr [] members "body" Codec.u8.vec.read
      pure (opds method path headers body)
  | "offer_decision" => do
      let token ← field members "token" Codec.str.read
      let offerId ← field members "offer_id" Codec.str.read
      let accepted ← field members "accepted" Codec.bool.read
      pure (offerDecision token offerId accepted)
  | _ => .error s!"unknown variant `{name}`"

instance : Wire Request where
  serialize r := .ok (tagged "op" r.variant.1 r.variant.2)
  deserialize j := do
    let (name, members) ← readTag "op" j
    read name members

theorem read_variant (r : Request) : read r.variant.1 r.variant.2 = .ok r := by
  cases r with
  | identity => simp [read, variant, pure, Except.pure]
  | opds method path headers body =>
      cases body with
      | nil => simp [read, variant, bodyMember]
      | cons b body => simp [read, variant, bodyMember]
  | _ => simp [read, variant]

/-- No field of a request is called like the tag. -/
theorem variant_ne_tag (r : Request) : ∀ p ∈ r.variant.2, p.1 ≠ "op" := by
  cases r with
  | opds method path headers body => cases body <;> simp [variant, bodyMember]
  | _ => simp [variant]

theorem light_variant (r : Request) : ∀ p ∈ r.variant.2, Light 2 p.2 := by
  cases r with
  | opds method path headers body =>
      cases body <;> simp [variant, bodyMember, Codec.light_of_le]
  | _ => simp [variant, Codec.light_of_le]

theorem written (r : Request) : Written r (("op", .str r.variant.1) :: r.variant.2) where
  serialize_eq := rfl
  light := .obj (List.forall_mem_cons.2 ⟨.str _, r.light_variant⟩)
  deserialize_eq := by
    have htag : readTag "op" (.obj (("op", .str r.variant.1) :: r.variant.2)) = _ :=
      readTag_tagged r.variant_ne_tag
    simp only [deserialize, htag, ok_bind, r.read_variant]

end Request

/-! ## Responses -/

/-- The answer to one request. -/
inductive Response
  | identity (x : Identity)
  | status (x : SyncStatus)
  | changes (x : PullResponse)
  | full (dump : FullDump)
  | pushed (x : PushResponse)
  | pairingPending (claim : String)
  | paired (deviceId sessionToken : String)
  | refused (reason : String)
  | conflicts (found : List Conflict)
  | resolved (done : Bool)
  | file (header : FileHeader)
  | fileInfo (x : FileMetadata)
  | cover (header : FileHeader)
  | opds (x : OpdsResponse)
  | offerDecided
  | error (code : ErrorCode) (message : String)

namespace Response

/-- A variant around one value. -/
def newtype (variant name : String) (payload : Payload) : Except String Json :=
  tagNewtype "Response" variant "result" name payload

/-- A variant with named fields, or none. -/
def record (name : String) (members : Members) : Except String Json :=
  .ok (tagged "result" name members)

def write : Response → Except String Json
  | identity x => newtype "Identity" "identity" (.record (Identity.record.members x))
  | status x => newtype "Status" "status" (.record (SyncStatus.record.members x))
  | changes x => newtype "Changes" "changes" (.record (PullResponse.record.members x))
  | full dump => newtype "Full" "full" (.record dump.members)
  | pushed x => newtype "Pushed" "pushed" (.record (PushResponse.record.members x))
  | pairingPending claim => record "pairing_pending" [("claim", Codec.str.write claim)]
  | paired deviceId sessionToken =>
      record "paired" [("device_id", Codec.str.write deviceId),
        ("session_token", Codec.str.write sessionToken)]
  | refused reason => record "refused" [("reason", Codec.str.write reason)]
  | conflicts found =>
      newtype "Conflicts" "conflicts" (.sequence (found.map Conflict.record.codec.write))
  | resolved done => newtype "Resolved" "resolved" (.boolean done)
  | file header => newtype "File" "file" (.record (FileHeader.record.members header))
  | fileInfo x => newtype "FileInfo" "file_info" (.record (FileMetadata.record.members x))
  | cover header => newtype "Cover" "cover" (.record (FileHeader.record.members header))
  | opds x => newtype "Opds" "opds" (.record (OpdsResponse.record.members x))
  | offerDecided => record "offer_decided" []
  | error code message =>
      record "error" [("code", ErrorCode.codec.write code), ("message", Codec.str.write message)]

def read (name : String) (members : Members) : Except String Response :=
  match name with
  | "identity" => identity <$> Identity.record.read members
  | "status" => status <$> SyncStatus.record.read members
  | "changes" => changes <$> PullResponse.record.read members
  | "full" => full <$> FullDump.read members
  | "pushed" => pushed <$> PushResponse.record.read members
  | "pairing_pending" => do
      let claim ← field members "claim" Codec.str.read
      pure (pairingPending claim)
  | "paired" => do
      let deviceId ← field members "device_id" Codec.str.read
      let sessionToken ← field members "session_token" Codec.str.read
      pure (paired deviceId sessionToken)
  | "refused" => do
      let reason ← field members "reason" Codec.str.read
      pure (refused reason)
  | "conflicts" => conflicts <$> Conflict.record.codec.vec.read (.obj members)
  | "resolved" => resolved <$> Codec.bool.read (.obj members)
  | "file" => file <$> FileHeader.record.read members
  | "file_info" => fileInfo <$> FileMetadata.record.read members
  | "cover" => cover <$> FileHeader.record.read members
  | "opds" => opds <$> OpdsResponse.record.read members
  | "offer_decided" => pure offerDecided
  | "error" => do
      let code ← field members "code" ErrorCode.codec.read
      let message ← field members "message" Codec.str.read
      pure (error code message)
  | _ => .error s!"unknown variant `{name}`"

instance : Wire Response where
  serialize := write
  deserialize j := do
    let (name, members) ← readTag "result" j
    read name members

theorem deserialize_tagged {name : String} {members : Members} (h : ∀ p ∈ members, p.1 ≠ "result") :
    (deserialize (tagged "result" name members) : Except String Response) = read name members := by
  simp only [deserialize, readTag_tagged h, ok_bind]

theorem written_of_write {r : Response} {name : String} {members : Members}
    (hwrite : write r = .ok (tagged "result" name members))
    (htag : ∀ p ∈ members, p.1 ≠ "result") (hlight : ∀ p ∈ members, Light 2 p.2)
    (hread : read name members = .ok r) : Written r (("result", .str name) :: members) where
  serialize_eq := hwrite
  light := .obj (List.forall_mem_cons.2 ⟨.str _, hlight⟩)
  deserialize_eq := (deserialize_tagged htag).trans hread

theorem exists_written_record {β : Type} {r : Response} {name : String} (fields : Record β) (x : β)
    (hlevels : fields.levels ≤ 2) (htag : ∀ p ∈ fields.members x, p.1 ≠ "result")
    (hwrite : write r = .ok (tagged "result" name (fields.members x)))
    (hread : read name (fields.members x) = .ok r) : ∃ members, Written r members :=
  ⟨_, written_of_write hwrite htag (fun p hp => (fields.light_members x p hp).mono hlevels) hread⟩

/-- Every response but a dump, a list of conflicts and a flag is a shallow object. -/
theorem exists_written (r : Response) (hfull : ∀ dump, r ≠ full dump)
    (hconflicts : ∀ found, r ≠ conflicts found) (hresolved : ∀ done, r ≠ resolved done) :
    ∃ members, Written r members := by
  cases r with
  | full dump => exact absurd rfl (hfull dump)
  | conflicts found => exact absurd rfl (hconflicts found)
  | resolved done => exact absurd rfl (hresolved done)
  | identity x =>
      exact exists_written_record Identity.record x (by decide) (by simp [Identity.record]) rfl
        (by simp [read])
  | status x =>
      exact exists_written_record SyncStatus.record x (by decide) (by simp [SyncStatus.record]) rfl
        (by simp [read])
  | changes x =>
      exact exists_written_record PullResponse.record x (by decide) (by simp [PullResponse.record])
        rfl (by simp [read])
  | pushed x =>
      exact exists_written_record PushResponse.record x (by decide) (by simp [PushResponse.record])
        rfl (by simp [read])
  | file x =>
      exact exists_written_record FileHeader.record x (by decide) (by simp [FileHeader.record]) rfl
        (by simp [read])
  | fileInfo x =>
      exact exists_written_record FileMetadata.record x (by decide) (by simp [FileMetadata.record])
        rfl (by simp [read])
  | cover x =>
      exact exists_written_record FileHeader.record x (by decide) (by simp [FileHeader.record]) rfl
        (by simp [read])
  | opds x =>
      exact exists_written_record OpdsResponse.record x (by decide) (by simp [OpdsResponse.record])
        rfl (by simp [read])
  | offerDecided =>
      exact ⟨_, written_of_write rfl (by simp) (by simp) (by simp [read, pure, Except.pure])⟩
  | error code message =>
      exact ⟨_, written_of_write rfl (by simp) (by simp [Codec.light_of_le]) (by simp [read])⟩
  | pairingPending claim =>
      exact ⟨_, written_of_write rfl (by simp) (by simp [Codec.light_of_le]) (by simp [read])⟩
  | paired deviceId sessionToken =>
      exact ⟨_, written_of_write rfl (by simp) (by simp [Codec.light_of_le]) (by simp [read])⟩
  | refused reason =>
      exact ⟨_, written_of_write rfl (by simp) (by simp [Codec.light_of_le]) (by simp [read])⟩

end Response

end SyncEnvelopes
