import Livtet.Framing
import Livtet.Bodies
import Livtet.Dispatch

/-! # Calls — a typed call over the wire

    The client dials a node, puts one request on a stream and reads one answer off it;
    the peer's side reads the request, hands it to a handler and writes what the handler
    answered, with the bytes of a file behind it. What a typed call returns is what a
    caller beside the handler would make of the answer, as far as the answer can be
    written: the peer's state moves whether it can or not. -/

namespace SyncCalls

open JsonText JsonText.Json TaggedJson SyncMessages SyncEnvelopes SyncFraming SyncBodies
open SyncEndpoint (Answered Endpoint FileBody Moment Outcome)
open SyncPairing (trim)
open SyncPeers (NodeIds PairingOutcome)

/-! ## The two sides -/

/-- Why a peer could not be dialled. -/
inductive DialError
  | nodeId (text : String)
  | connect (message : String)

/-- Why a typed call failed. -/
inductive ClientError
  | dial (e : DialError)
  | wire (e : WireError)
  | protocol (message : String)
  | body (e : SyncBodies.ClientError)
  | remote (code : ErrorCode) (message : String)

/-- What a client meets on its way to a peer, and at the peer: the handler with the state
    it works on, and the files it names. -/
structure Link (σ : Type) where
  ids : NodeIds
  reach : String → Except String Unit
  answer : Request → σ → Outcome × σ
  files : String → Option (List UInt8)
  /-- How a stream ends whose task gave up. -/
  dropped : Ending

/-- A response, and the stream its byte phase arrives on. -/
structure Exchange where
  response : Response
  bytes : Option RecvStream

def wantsBytes : Response → Bool
  | .file _ | .cover _ => true
  | _ => false

section Sides

variable {σ : Type} (lib : SerdeJson) (link : Link σ)

/-- `dial`. -/
def dial (nodeId : String) : Except DialError Unit :=
  if link.ids.parses (trim nodeId) then (link.reach (trim nodeId)).mapError .connect
  else .error (.nodeId nodeId)

/-- The answer of `exchange` on its stream; a task that fails drops the stream. -/
def respond (outcome : Outcome) : RecvStream :=
  match writeFrame lib outcome.response with
  | .error _ => { bytes := [], ending := link.dropped }
  | .ok bytes =>
      match outcome.body with
      | none => { bytes, ending := .finished }
      | some body =>
          match link.files body.path with
          | none => { bytes, ending := link.dropped }
          | some file =>
              { bytes := bytes ++ (file.drop body.offset.toNat).take body.length.toNat
                ending := .finished }

/-- `exchange`: what the stream of a request answers, and the peer's next state. -/
def exchange (stream : List UInt8) (s : σ) : RecvStream × σ :=
  match (readFrame lib stream : Except WireError (Request × List UInt8)) with
  | .error _ => ({ bytes := [], ending := link.dropped }, s)
  | .ok (request, _) =>
      let answered := link.answer request s
      (respond lib link answered.1, answered.2)

/-- The reading half of `call`. -/
def receive (stream : RecvStream) : Except WireError Exchange :=
  match (readFrame lib stream.bytes : Except WireError (Response × List UInt8)) with
  | .error e => .error e
  | .ok (response, rest) =>
      .ok { response
            bytes := if wantsBytes response then some { stream with bytes := rest } else none }

/-- `call`. -/
def call (request : Request) (s : σ) : Except WireError Exchange × σ :=
  match writeFrame lib request with
  | .error e => (.error e, s)
  | .ok bytes =>
      let served := exchange lib link bytes s
      (receive lib served.1, served.2)

/-- One peer's typed sync client. -/
structure Client where
  nodeId : String
  token : Option String

def requireToken (token : Option String) : Except ClientError String :=
  match token with
  | some token => .ok token
  | none => .error (.protocol "this client holds no session token")

/-- An error response is the call's error. -/
def heard : Except WireError Exchange → Except ClientError Exchange
  | .error e => .error (.wire e)
  | .ok exchange =>
      match exchange.response with
      | .error code message => .error (.remote code message)
      | _ => .ok exchange

/-- `Client::send`. -/
def send (client : Client) (request : Request) (s : σ) : Except ClientError Exchange × σ :=
  match dial link client.nodeId with
  | .error e => (.error (.dial e), s)
  | .ok () =>
      let called := call lib link request s
      (heard called.1, called.2)

/-- A reply that an operation cannot use, in the words of `Debug`. -/
def unexpected (debug : Response → String) (operation : String) (response : Response) :
    ClientError :=
  .protocol (operation ++ ": unexpected reply " ++ debug response)

/-- An answer without a byte phase. -/
def plain (debug : Response → String) (operation : String) :
    Except ClientError Exchange → Except ClientError Response
  | .error e => .error e
  | .ok exchange =>
      if exchange.bytes.isSome then .error (unexpected debug operation exchange.response)
      else .ok exchange.response

/-- `Client::expect`. -/
def expect (debug : Response → String) (client : Client) (request : Request) (operation : String)
    (s : σ) : Except ClientError Response × σ :=
  let sent := send lib link client request s
  (plain debug operation sent.1, sent.2)

/-! ## The operations -/

/-- An operation of the client without a byte phase: its name, its request, and the
    responses it can use. -/
structure Operation (α : Type) where
  name : String
  request : Option String → Except ClientError Request
  pick : Response → Option α

/-- The value of the one response an operation can use. -/
def Operation.picked {α : Type} (op : Operation α) (debug : Response → String) :
    Except ClientError Response → Except ClientError α
  | .error e => .error e
  | .ok response =>
      match op.pick response with
      | some a => .ok a
      | none => .error (unexpected debug op.name response)

def Operation.perform {α : Type} (op : Operation α) (debug : Response → String) (client : Client)
    (s : σ) : Except ClientError α × σ :=
  match op.request client.token with
  | .error e => (.error e, s)
  | .ok request =>
      let expected := expect lib link debug client request op.name s
      (op.picked debug expected.1, expected.2)

end Sides

namespace Operation

def identity : Operation Identity where
  name := "identity"
  request _ := .ok .identity
  pick
    | .identity x => some x
    | _ => none

def status : Operation SyncStatus where
  name := "status"
  request token := (requireToken token).map .status
  pick
    | .status x => some x
    | _ => none

def changes (sinceVersion : Int64) (limit : Option Int64) : Operation PullResponse where
  name := "changes"
  request token := (requireToken token).map fun token => .changes token sinceVersion limit
  pick
    | .changes x => some x
    | _ => none

def pullFull : Operation FullDump where
  name := "pull_full"
  request token := (requireToken token).map .pullFull
  pick
    | .full dump => some dump
    | _ => none

def push (batch : List SyncChange) : Operation PushResponse where
  name := "push"
  request token := (requireToken token).map fun token => .push token batch
  pick
    | .pushed x => some x
    | _ => none

/-- `pairing_outcome`. -/
def pairingOutcome : Response → Option PairingOutcome
  | .pairingPending claim => some (.pending claim)
  | .paired deviceId sessionToken => some (.paired deviceId sessionToken)
  | .refused reason => some (.refused reason)
  | _ => none

def pair (deviceId name deviceType : String) : Operation PairingOutcome where
  name := "pair"
  request _ := .ok (.pair deviceId name deviceType)
  pick := pairingOutcome

def pairStatus (claim : String) : Operation PairingOutcome where
  name := "pair_status"
  request _ := .ok (.pairStatus claim)
  pick := pairingOutcome

def conflicts : Operation (List Conflict) where
  name := "conflicts"
  request token := (requireToken token).map .conflicts
  pick
    | .conflicts found => some found
    | _ => none

def resolveConflict (id : Int64) (resolution : String) (mergedPayload : Option String) :
    Operation Bool where
  name := "resolve_conflict"
  request token :=
    (requireToken token).map fun token => .resolveConflict token id resolution mergedPayload
  pick
    | .resolved done => some done
    | _ => none

def fileInfo (inventoryId : String) : Operation FileMetadata where
  name := "file_info"
  request token := (requireToken token).map fun token => .fileInfo token inventoryId
  pick
    | .fileInfo x => some x
    | _ => none

def offerDecision (offerId : String) (accepted : Bool) : Operation Unit where
  name := "offer_decision"
  request token := (requireToken token).map fun token => .offerDecision token offerId accepted
  pick
    | .offerDecided => some ()
    | _ => none

end Operation

/-! ## The operations with a byte phase -/

section Bodies

variable {σ : Type} (lib : SerdeJson) (link : Link σ) (debug : Response → String) (client : Client)

/-- `Client::file`. -/
def file (inventoryId : String) (offset : UInt64) (length : Option UInt64)
    (ifRange : Option String) (s : σ) : Except ClientError (FileHeader × ByteBody) × σ :=
  match requireToken client.token with
  | .error e => (.error e, s)
  | .ok token =>
      let sent := send lib link client (.file token inventoryId offset length ifRange) s
      (match sent.1 with
        | .error e => .error e
        | .ok ⟨.file header, some stream⟩ => .ok (header, bodyOf header stream)
        | .ok exchange => .error (unexpected debug "file" exchange.response),
        sent.2)

/-- `Client::cover`; a peer that has none is no failure. -/
def cover (inventoryId : String) (s : σ) :
    Except ClientError (Option (FileHeader × List UInt8)) × σ :=
  match requireToken client.token with
  | .error e => (.error e, s)
  | .ok token =>
      let sent := send lib link client (.cover token inventoryId) s
      (match sent.1 with
        | .error (.remote .notFound _) => .ok none
        | .error e => .error e
        | .ok ⟨.cover header, some stream⟩ =>
            match (bodyOf header stream).readAll with
            | .error e => .error (.body e)
            | .ok bytes => .ok (some (header, bytes))
        | .ok exchange => .error (unexpected debug "cover" exchange.response),
        sent.2)

end Bodies

/-! ## What arrives -/

/-- A response that a caller gets to see: one that is written, in a message, and whose
    rows are not nested too deeply for the reader. -/
def Arrives (lib : SerdeJson) (response : Response) : Prop :=
  Fits lib response ∧
    match response with
    | .conflicts _ | .resolved _ => False
    | .full dump => ∀ row ∈ dump.entities.rows, row.val.depth ≤ rowLevels
    | _ => True

/-- The response as the caller sees it: the fractions of a dump are read again. -/
def reread (lib : SerdeJson) : Response → Response
  | .full dump => .full (dump.mapReal lib.reread)
  | response => response

section Frames

variable {lib : SerdeJson} {α : Type} [Wire α] {value : α} {members : TaggedJson.Members}

theorem writeFrame_ok_iff {bytes : List UInt8} (h : serialize value = .ok (.obj members)) :
    writeFrame lib value = .ok bytes ↔ Frames.write limits (lib.toVec (.obj members)) = .ok bytes := by
  have hvec : toVec lib value = .ok (lib.toVec (.obj members)) := by rw [toVec, h]; rfl
  rw [writeFrame, hvec]
  show (Frames.write limits (lib.toVec (.obj members))).mapError WireError.frame = .ok bytes ↔ _
  cases Frames.write limits (lib.toVec (.obj members)) with
  | error e => exact iff_of_false (fun h => by cases h) fun h => by cases h
  | ok body => exact ⟨fun h => congrArg _ (Except.ok.inj h), fun h => congrArg _ (Except.ok.inj h)⟩

/-- A message is written if and only if it fits. -/
theorem exists_writeFrame_iff (h : serialize value = .ok (.obj members)) :
    (∃ bytes, writeFrame lib value = .ok bytes) ↔ Fits lib value := by
  have hvec : toVec lib value = .ok (lib.toVec (.obj members)) := by rw [toVec, h]; rfl
  constructor
  · rintro ⟨bytes, hwrite⟩ body hbody
    cases Except.ok.inj (hvec.symm.trans hbody)
    have hwrite := (writeFrame_ok_iff h).1 hwrite
    rw [Frames.write] at hwrite
    split at hwrite
    · cases hwrite
    next hle => exact Nat.not_lt.1 hle
  · intro hfits
    have hwrite : Frames.write limits (lib.toVec (.obj members)) = .ok _ :=
      if_neg (Nat.not_lt.2 (hfits _ hvec))
    exact ⟨_, (writeFrame_ok_iff h).2 hwrite⟩

/-- What is read off a message that has more behind it. -/
theorem readFrame_append {bytes : List UInt8} (h : serialize value = .ok (.obj members))
    (hwrite : writeFrame lib value = .ok bytes) (rest : List UInt8) :
    (readFrame lib (bytes ++ rest) : Except WireError (α × List UInt8)) =
      match lib.fromSlice (lib.toVec (.obj members)) >>= deserialize with
      | .error e => .error (.json e)
      | .ok value => .ok (value, rest) := by
  have hread := Frames.read_write ((writeFrame_ok_iff h).1 hwrite) rest
  cases hvalue : (lib.fromSlice (lib.toVec (.obj members)) >>= deserialize : Except String α) with
  | error e => simp only [readFrame, hread, hvalue]
  | ok value => simp only [readFrame, hread, hvalue]

theorem readFrame_written {bytes : List UInt8} (h : Written value members)
    (hwrite : writeFrame lib value = .ok bytes) (rest : List UInt8) :
    (readFrame lib (bytes ++ rest) : Except WireError (α × List UInt8)) = .ok (value, rest) := by
  have hfits := (exists_writeFrame_iff h.serialize_eq).1 ⟨bytes, hwrite⟩
  have hvalue := (survives_iff_fromSlice h.serialize_eq hfits).1 (survives_of_written h hfits)
  rw [readFrame_append h.serialize_eq hwrite, hvalue]

end Frames

section Answers

variable {σ : Type} {lib : SerdeJson} {link : Link σ} {outcome : Outcome}

theorem inRange_full (dump : FullDump) : ∀ i,
    .int i ∈ (Json.obj (("result", .str "full") :: dump.members)).scalars → InRange i := by
  intro i hi
  rw [Json.scalars_obj] at hi
  obtain ⟨p, hp, hi⟩ := List.mem_flatMap.1 hi
  rcases List.mem_cons.1 hp with rfl | hp
  · exact absurd hi (by simp [Json.scalars])
  · exact dump.inRange_members p hp i hi

theorem depth_full_le_iff (dump : FullDump) :
    (Json.obj (("result", .str "full") :: dump.members)).depth ≤ recursionLimit ↔
      ∀ row ∈ dump.entities.rows, row.val.depth ≤ rowLevels := by
  rw [recursionLimit, Json.depth_obj_le_iff, List.forall_mem_cons]
  exact (and_iff_right (Nat.zero_le 126)).trans dump.depth_members_le_iff

/-- The document of a dump is read as the dump with its fractions read again. -/
theorem deserialize_full (dump : FullDump) :
    (deserialize ((Json.obj (("result", .str "full") :: dump.members)).mapReal lib.reread) :
      Except String Response) = .ok (.full (dump.mapReal lib.reread)) := by
  have htag : ∀ p ∈ (dump.mapReal lib.reread).members, p.1 ≠ "result" := by
    simp [FullDump.members]
  rw [Json.mapReal_obj, List.map_cons, dump.members_mapReal]
  refine (Response.deserialize_tagged htag).trans ?_
  simp [Response.read, FullDump.read_members]

/-- The frame of an answer comes first on its stream. -/
theorem respond_bytes (link : Link σ) {bytes : List UInt8}
    (h : writeFrame lib outcome.response = .ok bytes) :
    ∃ rest, (respond lib link outcome).bytes = bytes ++ rest := by
  rw [respond, h]
  cases outcome.body with
  | none => exact ⟨[], (List.append_nil bytes).symm⟩
  | some body =>
      dsimp only
      cases link.files body.path with
      | none => exact ⟨[], (List.append_nil bytes).symm⟩
      | some file => exact ⟨_, rfl⟩

/-- Where an answer is not written, nothing is on its stream. -/
theorem receive_of_error {e : WireError} (h : writeFrame lib outcome.response = .error e) :
    receive lib (respond lib link outcome) = .error (.frame .unexpectedEof) := by
  rw [respond, h]
  rfl

theorem receive_of_readFrame {stream : RecvStream} {response : Response} {rest : List UInt8}
    (h : readFrame lib stream.bytes = .ok (response, rest)) :
    receive lib stream = .ok
      { response
        bytes := if wantsBytes response then some { stream with bytes := rest } else none } := by
  rw [receive, h]

/-- What the caller sees of a response, with what it left on the stream. -/
def seen (lib : SerdeJson) (link : Link σ) (outcome : Outcome) (rest : List UInt8) : Exchange where
  response := reread lib outcome.response
  bytes := if wantsBytes outcome.response then
      some { (respond lib link outcome) with bytes := rest }
    else none

theorem isSome_seen (outcome : Outcome) (rest : List UInt8) :
    (seen lib link outcome rest).bytes.isSome = wantsBytes (seen lib link outcome rest).response := by
  have hwants : wantsBytes (reread lib outcome.response) = wantsBytes outcome.response := by
    cases outcome.response <;> rfl
  show (if wantsBytes outcome.response then some _ else none).isSome = wantsBytes (reread lib _)
  rw [hwants]
  cases wantsBytes outcome.response <;> rfl

/-- A response that arrives is seen as it was written; any other is an error. -/
def Delivered (lib : SerdeJson) (link : Link σ) (outcome : Outcome) : Prop :=
  (Arrives lib outcome.response →
    ∃ rest, receive lib (respond lib link outcome) = .ok (seen lib link outcome rest)) ∧
  (¬ Arrives lib outcome.response → ∃ e, receive lib (respond lib link outcome) = .error e)

theorem delivered_written {members : Members} (hwritten : Written outcome.response members)
    (harrives : Arrives lib outcome.response ↔ Fits lib outcome.response)
    (hreread : reread lib outcome.response = outcome.response) : Delivered lib link outcome := by
  rw [Delivered, harrives]
  constructor
  · intro hfits
    obtain ⟨bytes, hwrite⟩ := (exists_writeFrame_iff hwritten.serialize_eq).2 hfits
    obtain ⟨rest, hrest⟩ := respond_bytes link hwrite
    refine ⟨rest, ?_⟩
    rw [receive_of_readFrame (hrest ▸ readFrame_written hwritten hwrite rest), seen, hreread]
  · intro hfits
    cases hwrite : writeFrame lib outcome.response with
    | error e => exact ⟨_, receive_of_error hwrite⟩
    | ok bytes =>
        exact absurd ((exists_writeFrame_iff hwritten.serialize_eq).1 ⟨bytes, hwrite⟩) hfits

theorem delivered_full {dump : FullDump} (hfull : outcome.response = .full dump) :
    Delivered lib link outcome := by
  have harrives : Arrives lib outcome.response ↔ Fits lib (Response.full dump) ∧
      ∀ row ∈ dump.entities.rows, row.val.depth ≤ rowLevels := by rw [hfull]; rfl
  have hserialize : serialize (Response.full dump) =
      .ok (.obj (("result", .str "full") :: dump.members)) := rfl
  cases hwrite : writeFrame lib outcome.response with
  | error e =>
      refine ⟨fun h => ?_, fun _ => ⟨_, receive_of_error hwrite⟩⟩
      obtain ⟨bytes, hbytes⟩ := (exists_writeFrame_iff hserialize).2 (harrives.1 h).1
      cases hbytes.symm.trans (hfull ▸ hwrite)
  | ok bytes =>
      obtain ⟨rest, hrest⟩ := respond_bytes link hwrite
      have hfits := (exists_writeFrame_iff hserialize).1 ⟨bytes, hfull ▸ hwrite⟩
      have hread := readFrame_append hserialize (hfull ▸ hwrite) rest
      rw [Delivered, harrives]
      by_cases hdepth : ∀ row ∈ dump.entities.rows, row.val.depth ≤ rowLevels
      · rw [lib.fromSlice_toVec _ (inRange_full dump) ((depth_full_le_iff dump).2 hdepth), ok_bind,
          deserialize_full] at hread
        refine ⟨fun _ => ⟨rest, ?_⟩, fun h => absurd ⟨hfits, hdepth⟩ h⟩
        rw [receive_of_readFrame (hrest ▸ hread), seen, hfull]
        rfl
      · obtain ⟨e, he⟩ := lib.fromSlice_deep _ (inRange_full dump)
          (Nat.not_le.1 fun h => hdepth ((depth_full_le_iff dump).1 h))
        rw [he] at hread
        refine ⟨fun h => absurd h.2 hdepth, fun _ => ⟨.json e, ?_⟩⟩
        rw [receive, hrest, hread]
        rfl

theorem delivered (outcome : Outcome) : Delivered lib link outcome := by
  have hplain : (∀ dump, outcome.response ≠ .full dump) →
      (∀ found, outcome.response ≠ .conflicts found) → (∀ done, outcome.response ≠ .resolved done) →
      Delivered lib link outcome := by
    intro hfull hconflicts hresolved
    obtain ⟨members, hwritten⟩ := outcome.response.exists_written hfull hconflicts hresolved
    refine delivered_written hwritten ?_ ?_
    · rw [Arrives.eq_def]
      split
      · next found h => exact absurd h (hconflicts found)
      · next done h => exact absurd h (hresolved done)
      · next dump h => exact absurd h (hfull dump)
      · exact and_iff_left trivial
    · rw [reread.eq_def]
      split
      · next dump h => exact absurd h (hfull dump)
      · rfl
  cases hresponse : outcome.response with
  | full dump => exact delivered_full hresponse
  | conflicts found =>
      have hunwritten : ∃ e, writeFrame lib outcome.response = .error e := by
        rw [hresponse]
        exact ⟨_, rfl⟩
      refine ⟨fun h => ?_, fun _ => ⟨_, receive_of_error hunwritten.choose_spec⟩⟩
      rw [hresponse] at h
      exact h.2.elim
  | resolved done =>
      have hunwritten : ∃ e, writeFrame lib outcome.response = .error e := by
        rw [hresponse]
        exact ⟨_, rfl⟩
      refine ⟨fun h => ?_, fun _ => ⟨_, receive_of_error hunwritten.choose_spec⟩⟩
      rw [hresponse] at h
      exact h.2.elim
  | _ =>
      refine hplain ?_ ?_ ?_ <;> rw [hresponse] <;> exact fun _ h => by cases h

end Answers

/-! ## What a call does -/

section Calls

variable {σ : Type} {lib : SerdeJson} {link : Link σ} {client : Client} {request : Request} {s : σ}

theorem call_of_fits (h : Fits lib request) :
    call lib link request s =
      (receive lib (respond lib link (link.answer request s).1), (link.answer request s).2) := by
  obtain ⟨bytes, hwrite⟩ := (exists_writeFrame_iff request.written.serialize_eq).2 h
  have hread := readFrame_written request.written hwrite []
  rw [List.append_nil] at hread
  rw [call, hwrite]
  simp only [exchange, hread]

theorem call_of_not_fits (link : Link σ) (s : σ) (h : ¬ Fits lib request) :
    ∃ e, call lib link request s = (.error e, s) := by
  cases hwrite : writeFrame lib request with
  | error e =>
      refine ⟨e, ?_⟩
      rw [call, hwrite]
  | ok bytes => exact absurd ((exists_writeFrame_iff request.written.serialize_eq).1 ⟨bytes, hwrite⟩) h

/-- What the handler's own caller makes of an answer, for an operation. -/
def Operation.accept {α : Type} (op : Operation α) (debug : Response → String)
    (response : Response) : Except ClientError α :=
  match response with
  | .error code message => .error (.remote code message)
  | response =>
      if wantsBytes response then .error (unexpected debug op.name response)
      else op.picked debug (.ok response)

theorem picked_heard {α : Type} {op : Operation α} {debug : Response → String}
    {exchange : Exchange} (h : exchange.bytes.isSome = wantsBytes exchange.response) :
    op.picked debug (plain debug op.name (heard (.ok exchange))) =
      op.accept debug exchange.response := by
  obtain ⟨response, bytes⟩ := exchange
  have h : bytes.isSome = wantsBytes response := h
  cases response with
  | error code message => rfl
  | _ =>
      simp only [heard, plain, Operation.accept, h]
      split <;> rfl

/-- The peer is asked: it can be dialled, and the request fits a message. -/
def Asks (lib : SerdeJson) (link : Link σ) (client : Client) (request : Request) : Prop :=
  dial link client.nodeId = .ok () ∧ Fits lib request

/-- The call asks the handler once, and returns what its answer says, where that
    arrives; the peer's state does not depend on it. Where the peer is not asked, its
    state is as it was. -/
structure Carried {α : Type} (lib : SerdeJson) (link : Link σ) (debug : Response → String)
    (client : Client) (op : Operation α) (s : σ) : Prop where
  asked : ∀ request, op.request client.token = .ok request → Asks lib link client request →
    (op.perform lib link debug client s).2 = (link.answer request s).2 ∧
    (Arrives lib (link.answer request s).1.response →
      (op.perform lib link debug client s).1 =
        op.accept debug (reread lib (link.answer request s).1.response)) ∧
    (¬ Arrives lib (link.answer request s).1.response →
      ∃ e, (op.perform lib link debug client s).1 = .error (.wire e))
  unasked : (∀ request, op.request client.token = .ok request → ¬ Asks lib link client request) →
    ∃ e, op.perform lib link debug client s = (.error e, s)

theorem carried {α : Type} (lib : SerdeJson) (link : Link σ) (debug : Response → String)
    (client : Client) (op : Operation α) (s : σ) : Carried lib link debug client op s := by
  cases hrequest : op.request client.token with
  | error e =>
      refine ⟨fun request h => (by cases hrequest.symm.trans h), fun _ => ⟨e, ?_⟩⟩
      rw [Operation.perform, hrequest]
  | ok request =>
      cases hdial : dial link client.nodeId with
      | error e =>
          refine ⟨fun request _ hasks => (by cases hdial.symm.trans hasks.1), fun _ => ⟨.dial e, ?_⟩⟩
          rw [Operation.perform, hrequest]
          simp only [expect, send, hdial]
          rfl
      | ok _ =>
          by_cases hfits : Fits lib request
          · refine ⟨fun request' h _ => ?_, fun h => absurd ⟨hdial, hfits⟩ (h request hrequest)⟩
            cases Except.ok.inj (hrequest.symm.trans h)
            have hdelivered : Delivered lib link (link.answer request s).1 := delivered _
            rw [Operation.perform, hrequest]
            simp only [expect, send, hdial, call_of_fits hfits]
            refine ⟨trivial, fun harrives => ?_, fun hlost => ?_⟩
            · obtain ⟨rest, hseen⟩ := hdelivered.1 harrives
              rw [hseen]
              exact picked_heard (isSome_seen _ _)
            · obtain ⟨e, he⟩ := hdelivered.2 hlost
              rw [he]
              exact ⟨e, rfl⟩
          · obtain ⟨e, he⟩ := call_of_not_fits link s hfits
            refine ⟨fun request' h hasks => ?_, fun _ => ⟨.wire e, ?_⟩⟩
            · cases Except.ok.inj (hrequest.symm.trans h)
              exact absurd hasks.2 hfits
            · rw [Operation.perform, hrequest]
              simp only [expect, send, hdial, he]
              rfl

/-- An operation that can use only what does not arrive never returns a value. -/
theorem error_of_never {α : Type} {debug : Response → String} {op : Operation α}
    (hnever : ∀ response, Arrives lib response → op.pick (reread lib response) = none) :
    ∃ e, (op.perform lib link debug client s).1 = .error e := by
  have hcarried := carried lib link debug client op s
  by_cases hasks : ∃ request, op.request client.token = .ok request ∧ Asks lib link client request
  · obtain ⟨request, hrequest, hasks⟩ := hasks
    obtain ⟨_, harrived, hlost⟩ := hcarried.asked request hrequest hasks
    by_cases harrives : Arrives lib (link.answer request s).1.response
    · rw [harrived harrives]
      have hnone := hnever _ harrives
      rw [Operation.accept.eq_def]
      split
      · exact ⟨_, rfl⟩
      · split
        · exact ⟨_, rfl⟩
        · rw [Operation.picked, hnone]
          exact ⟨_, rfl⟩
    · obtain ⟨e, he⟩ := hlost harrives
      exact ⟨_, he⟩
  · obtain ⟨e, he⟩ := hcarried.unasked fun request hrequest h => hasks ⟨request, hrequest, h⟩
    exact ⟨e, congrArg Prod.fst he⟩

end Calls

/-! ## Calls of an endpoint -/

section Endpoint

variable (env : SyncStore.Env) (q : SyncPrivacy.LogQueries env) (lib : SerdeJson)
variable (sqlText : SqlRows.SqlError → String) (m : Moment) (remote : String) (ids : NodeIds)
variable (reach : String → Except String Unit) (files : String → Option (List UInt8))
variable (dropped : Ending)

/-- The way to an endpoint, which sees the caller as the node `remote`. -/
def endpointLink : Link Endpoint where
  ids
  reach
  answer request s :=
    let answered := SyncEndpoint.answer env q lib sqlText m remote request s
    (answered.1.outcome, answered.2)
  files
  dropped

/-- **A CALL RETURNS THE ANSWER.** -/
theorem remote_calls_return_the_answer {α : Type} (op : Operation α) (debug : Response → String)
    (client : Client) (s : Endpoint) :
    Carried lib (endpointLink env q lib sqlText m remote ids reach files dropped) debug client op s :=
  carried lib _ debug client op s

/-- **NO CONFLICT CALL RETURNS.** The tagged union has no document for a list of conflicts
    or for a flag, so a peer never learns of the conflicts here, nor that it resolved
    one. What it resolves is resolved. -/
theorem conflict_calls_never_return (debug : Response → String) (client : Client) (s : Endpoint) :
    (∃ e, (Operation.conflicts.perform lib
      (endpointLink env q lib sqlText m remote ids reach files dropped) debug client s).1 =
        .error e) ∧
    ∀ id resolution mergedPayload,
      (∃ e, ((Operation.resolveConflict id resolution mergedPayload).perform lib
        (endpointLink env q lib sqlText m remote ids reach files dropped) debug client s).1 =
          .error e) ∧
      ∀ token, client.token = some token →
        Asks lib (endpointLink env q lib sqlText m remote ids reach files dropped) client
          (.resolveConflict token id resolution mergedPayload) →
        SyncEndpoint.accepted env m remote s.wire
          (.resolveConflict token id resolution mergedPayload) = true → m.refuse 1 = none →
        ((Operation.resolveConflict id resolution mergedPayload).perform lib
          (endpointLink env q lib sqlText m remote ids reach files dropped) debug client s).2.db =
            SyncConflictList.write env s.db (.resolve id.toInt resolution mergedPayload) := by
  refine ⟨error_of_never ?_, fun id resolution mergedPayload => ⟨error_of_never ?_, ?_⟩⟩
  · intro response harrives
    cases response with
    | conflicts found => exact harrives.2.elim
    | _ => rfl
  · intro response harrives
    cases response with
    | resolved done => exact harrives.2.elim
    | _ => rfl
  · intro token htoken hasks haccepted hrefuse
    have hrequest : (Operation.resolveConflict id resolution mergedPayload).request client.token =
        .ok (.resolveConflict token id resolution mergedPayload) := by rw [htoken]; rfl
    rw [((carried lib _ debug client _ s).asked _ hrequest hasks).1]
    show (SyncEndpoint.dispatch env q lib sqlText m remote _ s).2.db = _
    rw [(SyncEndpoint.dispatch_of_accepted haccepted).2, SyncEndpoint.writeOf, hrefuse]
    rfl

end Endpoint

end SyncCalls
