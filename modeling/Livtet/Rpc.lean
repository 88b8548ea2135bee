import Livtet.Lib.JsonDocs
import Livtet.Lib.Outcomes
import Livtet.Lib.TaggedJson

/-! # Control messages

    The daemon and the desktop exchange one document a line. What a line is, is told by
    the members it has: a method and no id is a notification, a method and an id a
    request, an id alone a response.

    A member that may be missing is read as missing when it is null. So a null result,
    a null id and the null parameters of a request are written and not read back; those
    of a notification are, since they are no option there. -/

namespace SyncRpc

open JsonText JsonText.Json TaggedJson

/-! ## Messages -/

def jsonrpc : String := "2.0"

structure RpcRequest where
  jsonrpc : String
  id : Option Node
  method : String
  params : Option Node

structure RpcErrorObject where
  code : Int64
  message : String
  data : Option Node

structure RpcResponse where
  jsonrpc : String
  id : Option Node
  result : Option Node
  error : Option RpcErrorObject

structure RpcNotification where
  jsonrpc : String
  method : String
  params : Node

inductive RpcMessage
  | request (r : RpcRequest)
  | response (r : RpcResponse)
  | notification (n : RpcNotification)

namespace RpcResponse

def ok (id : Option Node) (result : Node) : RpcResponse :=
  { jsonrpc := SyncRpc.jsonrpc, id, result := some result, error := none }

/-- `RpcResponse::error`. -/
def failed (id : Option Node) (code : Int64) (message : String) : RpcResponse :=
  { jsonrpc := SyncRpc.jsonrpc, id, result := none, error := some { code, message, data := none } }

end RpcResponse

/-! ## Writing a line -/

/-- A member that is skipped when there is nothing to write. -/
def unlessNone (name : String) : Option Node → Members
  | none => []
  | some x => [(name, x.val)]

/-- A member that is null when there is nothing to write. -/
def orNull : Option Node → Json
  | none => .null
  | some x => x.val

def RpcErrorObject.members (e : RpcErrorObject) : Members :=
  [("code", Codec.i64.write e.code), ("message", .str e.message)] ++ unlessNone "data" e.data

def RpcResponse.members (r : RpcResponse) : Members :=
  [("jsonrpc", .str r.jsonrpc), ("id", orNull r.id)] ++ unlessNone "result" r.result ++
    (r.error.map fun e => ("error", .obj e.members)).toList

section Lines

variable (lib : SerdeJson)

def encodeRequest (id : UInt64) (method : String) (params : Node) : List UInt8 :=
  lib.toVec (.obj [("id", Codec.u64.write id), ("jsonrpc", .str jsonrpc), ("method", .str method),
    ("params", params.val)])

def encodeResponse (response : RpcResponse) : List UInt8 := lib.toVec (.obj response.members)

def encodeNotification (method : String) (params : Node) : List UInt8 :=
  lib.toVec (.obj [("jsonrpc", .str jsonrpc), ("method", .str method), ("params", params.val)])

/-! ## Reading a line -/

/-- A value that may be missing; null is as good as that. -/
def readOption : Json → Option Node
  | .null => none
  | j => some (Node.ofJson j)

/-- The value of an object under a name. -/
abbrev Get := String → Option Json

def optionField (get : Get) (name : String) : Option Node := (get name).bind readOption

def requiredField {α : Type} (c : Codec α) (get : Get) (name : String) : Except String α :=
  match get name with
  | none => .error s!"missing field `{name}`"
  | some j => c.read j

/-- An object with the fields, or a list of them in their order. -/
def readError : Json → Except String RpcErrorObject
  | .obj members => do
      let get : Get := fun name => members.lookup name
      let code ← requiredField Codec.i64 get "code"
      let message ← requiredField Codec.str get "message"
      pure { code, message, data := optionField get "data" }
  | .arr [code, message] => do
      let code ← Codec.i64.read code
      let message ← Codec.str.read message
      pure { code, message, data := none }
  | .arr [code, message, data] => do
      let code ← Codec.i64.read code
      let message ← Codec.str.read message
      pure { code, message, data := readOption data }
  | .arr _ => .error "invalid length, expected struct RpcErrorObject with 3 elements"
  | _ => .error "invalid type, expected struct RpcErrorObject"

def readErrorField (get : Get) : Except String (Option RpcErrorObject) :=
  match get "error" with
  | none => .ok none
  | some .null => .ok none
  | some j => some <$> readError j

def readRequest (get : Get) : Except String RpcRequest := do
  let jsonrpc ← requiredField Codec.str get "jsonrpc"
  let method ← requiredField Codec.str get "method"
  pure { jsonrpc, id := optionField get "id", method, params := optionField get "params" }

def readResponse (get : Get) : Except String RpcResponse := do
  let jsonrpc ← requiredField Codec.str get "jsonrpc"
  let error ← readErrorField get
  pure { jsonrpc, id := optionField get "id", result := optionField get "result", error }

def readNotification (get : Get) : Except String RpcNotification := do
  let jsonrpc ← requiredField Codec.str get "jsonrpc"
  let method ← requiredField Codec.str get "method"
  pure { jsonrpc, method, params := Node.ofJson ((get "params").getD .null) }

/-- The message that an object makes. -/
def classify (get : Get) : Except String RpcMessage :=
  let hasMethod := (get "method").isSome
  let hasId := (get "id").isSome
  if hasMethod && !hasId then
    ((readNotification get).map .notification).mapError ("invalid notification: " ++ ·)
  else if hasMethod then ((readRequest get).map .request).mapError ("invalid request: " ++ ·)
  else if hasId then ((readResponse get).map .response).mapError ("invalid response: " ++ ·)
  else .error "not a JSON-RPC message (no method or id)"

def parseMessage (line : List UInt8) : Except String RpcMessage :=
  match lib.fromSlice line with
  | .error e => .error ("parse error: " ++ e)
  | .ok j =>
      match (Node.ofJson j).val with
      | .obj members => classify fun name => members.lookup name
      | _ => .error "not a JSON-RPC message (no method or id)"

end Lines

/-! ## What a line is read as -/

section Reading

variable {lib : SerdeJson} {members : Members}

/-- A member of a line, as its value is read. -/
def reread (lib : SerdeJson) (members : Members) (name : String) : Option Json :=
  (members.reverse.lookup name).map (mapReal lib.reread)

theorem lookup_reverse_map (f : Json → Json) (members : Members) (name : String) :
    (members.map fun p => (p.1, f p.2)).reverse.lookup name =
      (members.reverse.lookup name).map f := by
  rw [← List.map_reverse]
  induction members.reverse with
  | nil => rfl
  | cons p rest ih =>
      rw [List.map_cons, List.lookup_cons, List.lookup_cons, ih]
      cases name == p.1 <;> rfl

theorem mem_of_lookup {name : String} {j : Json} (h : members.lookup name = some j) :
    (name, j) ∈ members := by
  obtain ⟨_, _, rfl, _⟩ := List.lookup_eq_some_iff.1 h
  simp

/-- The reader's map holds every member of a line, and the last one of a name. -/
theorem lookup_line (hvalid : ∀ p ∈ members, p.2.Valid) (name : String) :
    (membersCanon [] (members.map fun p => (p.1, p.2.mapReal lib.reread))).lookup name =
      reread lib members name := by
  rw [lookup_membersCanon, List.lookup_nil, Option.or_none, lookup_reverse_map, Option.map_map,
    reread]
  refine Option.map_congr fun j hj => ?_
  have hmem : (name, j) ∈ members := List.mem_reverse.1 (mem_of_lookup hj)
  exact canon_of_valid (valid_mapReal (hvalid _ hmem))

theorem inRange_line (hvalid : ∀ p ∈ members, p.2.Valid) :
    ∀ i, .int i ∈ (Json.obj members).scalars → InRange i := by
  intro i hi
  rw [scalars_obj] at hi
  obtain ⟨p, hp, hi⟩ := List.mem_flatMap.1 hi
  exact inRange_of_valid (hvalid p hp) i hi

/-- A line that is not nested too deeply is classified by its members. -/
theorem parseMessage_eq_ok_iff (hvalid : ∀ p ∈ members, p.2.Valid) {m : RpcMessage} :
    parseMessage lib (lib.toVec (.obj members)) = .ok m ↔
      (∀ p ∈ members, p.2.depth ≤ 126) ∧ classify (reread lib members) = .ok m := by
  have hrange := inRange_line hvalid
  have hdepth_iff : (Json.obj members).depth ≤ recursionLimit ↔ ∀ p ∈ members, p.2.depth ≤ 126 :=
    depth_obj_le_iff
  rw [← hdepth_iff, parseMessage]
  by_cases hdepth : (Json.obj members).depth ≤ recursionLimit
  · have hget : (fun name => (membersCanon [] (members.map fun p =>
        (p.1, p.2.mapReal lib.reread))).lookup name) = reread lib members :=
      funext (lookup_line hvalid)
    rw [lib.fromSlice_toVec members hrange hdepth, and_iff_right hdepth, ← hget, mapReal_obj]
    rfl
  · obtain ⟨e, he⟩ := lib.fromSlice_deep members hrange (Nat.not_le.1 hdepth)
    rw [he]
    exact iff_of_false (by rintro ⟨⟩) fun h => hdepth h.1

/-- Null is read as missing, anything else as it is. -/
theorem readOption_eq_some_iff {x y : Node} :
    readOption x.val = some y ↔ x.val ≠ .null ∧ x = y := by
  have hself : ∀ j, j = x.val → (some (Node.ofJson j) = some y ↔ x = y) := by
    rintro _ rfl
    rw [Node.ofJson_val, Option.some.injEq]
  cases hx : x.val with
  | null => simp [readOption]
  | _ =>
      rw [readOption]
      · simpa using hself _ hx.symm
      · rintro ⟨⟩

theorem mapReal_eq_null_iff {f : SqlRows.Decimal → SqlRows.Decimal} {j : Json} :
    j.mapReal f = .null ↔ j = .null := by
  cases j <;> simp [mapReal]

/-- Every fraction of a value is reread as it is. -/
def Exact (lib : SerdeJson) (x : Node) : Prop := ∀ d, .real d ∈ x.val.scalars → lib.reread d = d

theorem readOption_mapReal_iff {x : Node} :
    readOption (x.val.mapReal lib.reread) = some x ↔ x.val ≠ .null ∧ Exact lib x := by
  have hnull : (x.mapReal lib.reread).val ≠ .null ↔ x.val ≠ .null := not_congr mapReal_eq_null_iff
  have hread : readOption (x.mapReal lib.reread).val = some x ↔ _ := readOption_eq_some_iff
  rw [hnull, Node.mapReal_eq_self_iff] at hread
  exact hread

theorem readOption_orNull_iff {x : Option Node} :
    readOption ((orNull x).mapReal lib.reread) = x ↔
      ∀ y, x = some y → y.val ≠ .null ∧ Exact lib y := by
  cases x with
  | none => exact iff_of_true rfl fun _ h => by cases h
  | some y =>
      rw [orNull, readOption_mapReal_iff]
      exact ⟨fun h z hz => Option.some.inj hz ▸ h, fun h => h y rfl⟩

/-- A value is not nested too deeply, and exact. -/
def Travels (lib : SerdeJson) (x : Node) : Prop := x.val.depth ≤ 126 ∧ Exact lib x

/-- A value that may be missing and travels is not null. -/
def OptionTravels (lib : SerdeJson) (x : Option Node) : Prop :=
  ∀ y, x = some y → y.val ≠ .null ∧ Travels lib y

theorem optionTravels_iff {x : Option Node} : OptionTravels lib x ↔
    (orNull x).depth ≤ 126 ∧ readOption ((orNull x).mapReal lib.reread) = x := by
  rw [readOption_orNull_iff, OptionTravels]
  cases x with
  | none =>
      exact iff_of_true (fun _ h => by cases h) ⟨Nat.zero_le 126, fun _ h => by cases h⟩
  | some y =>
      simp only [Option.some.injEq, forall_eq', Travels, orNull]
      exact and_left_comm

theorem valid_orNull (x : Option Node) : (orNull x).Valid := by
  cases x with
  | none => exact .null
  | some y => exact y.valid

end Reading

/-! ## What travels -/

/-- A message that one side writes. -/
inductive Sent
  | answer (id : Option Node) (result : Node)
  | refusal (id : Option Node) (code : Int64) (message : String)
  | request (id : UInt64) (method : String) (params : Node)
  | notification (method : String) (params : Node)

namespace Sent

variable (lib : SerdeJson)

def line : Sent → List UInt8
  | answer id result => encodeResponse lib (.ok id result)
  | refusal id code message => encodeResponse lib (.failed id code message)
  | request id method params => encodeRequest lib id method params
  | notification method params => encodeNotification lib method params

/-- What the other side should read. -/
def message : Sent → RpcMessage
  | answer id result => .response (.ok id result)
  | refusal id code message => .response (.failed id code message)
  | request id method params =>
      .request
        { jsonrpc, id := some (Node.ofJson (Codec.u64.write id)), method, params := some params }
  | notification method params => .notification { jsonrpc, method, params }

/-- No optional member is null, and every value travels. -/
def Travels : Sent → Prop
  | answer id result => OptionTravels lib id ∧ result.val ≠ .null ∧ SyncRpc.Travels lib result
  | refusal id _ _ => OptionTravels lib id
  | request _ _ params => params.val ≠ .null ∧ SyncRpc.Travels lib params
  | notification _ params => SyncRpc.Travels lib params

/-! What the line of each message is classified as. -/

section Shapes

variable {lib} (id : Option Node) (result params : Node) (code : Int64) (text method : String)
  (number : UInt64)

theorem classify_answer : classify (reread lib (RpcResponse.ok id result).members) =
    .ok (.response
      { jsonrpc, id := readOption ((orNull id).mapReal lib.reread),
        result := readOption (result.val.mapReal lib.reread), error := none }) := rfl

theorem readError_written :
    readError (.obj [("code", Codec.i64.write code), ("message", .str text)]) =
      .ok { code, message := text, data := none } :=
  (Outcomes.bind_eq_of_ok (Codec.read_write _ code)).trans rfl

theorem classify_refusal : classify (reread lib (RpcResponse.failed id code text).members) =
    .ok (.response
      { jsonrpc, id := readOption ((orNull id).mapReal lib.reread), result := none,
        error := some { code, message := text, data := none } }) := by
  have herror : readErrorField (reread lib (RpcResponse.failed id code text).members) =
      .ok (some { code, message := text, data := none }) :=
    congrArg (some <$> ·) (readError_written code text)
  have hresponse : readResponse (reread lib (RpcResponse.failed id code text).members) =
      .ok { jsonrpc, id := readOption ((orNull id).mapReal lib.reread), result := none,
            error := some { code, message := text, data := none } } :=
    (Outcomes.bind_eq_of_ok herror).trans rfl
  exact congrArg (fun r => (r.map RpcMessage.response).mapError ("invalid response: " ++ ·))
    hresponse

theorem classify_request :
    classify (reread lib [("id", Codec.u64.write number), ("jsonrpc", .str jsonrpc),
      ("method", .str method), ("params", params.val)]) =
    .ok (.request
      { jsonrpc, id := some (Node.ofJson (Codec.u64.write number)), method,
        params := readOption (params.val.mapReal lib.reread) }) := rfl

theorem classify_notification :
    classify (reread lib [("jsonrpc", .str jsonrpc), ("method", .str method),
      ("params", params.val)]) =
    .ok (.notification { jsonrpc, method, params := params.mapReal lib.reread }) := by
  rw [← Node.ofJson_mapReal]
  rfl

end Shapes

theorem valid_u64 (number : UInt64) : (Codec.u64.write number).Valid :=
  .int ((Codec.u64.light number).inRange _ (by simp [Codec.u64, Codec.integer, scalars]))

theorem valid_error (code : Int64) (text : String) :
    (Json.obj [("code", Codec.i64.write code), ("message", .str text)]).Valid := by
  have hcode : (Codec.i64.write code).Valid :=
    .int ((Codec.i64.light code).inRange _ (by simp [Codec.i64, Codec.integer, scalars]))
  have hsorted : "code" < "message" := by decide
  exact .obj (List.pairwise_pair.2 hsorted) (by simpa using ⟨hcode, .str text⟩)

theorem depth_str (s : String) : (Json.str s).depth ≤ 126 := Nat.zero_le 126

theorem depth_error (code : Int64) (text : String) :
    (Json.obj [("code", Codec.i64.write code), ("message", .str text)]).depth ≤ 126 := by
  show 1 ≤ 126
  decide

section Survival

variable {lib} (id : Option Node) (result params : Node) (code : Int64) (text method : String)
  (number : UInt64)

theorem survives_answer : parseMessage lib (encodeResponse lib (.ok id result)) =
    .ok (.response (.ok id result)) ↔
      OptionTravels lib id ∧ result.val ≠ .null ∧ SyncRpc.Travels lib result := by
  have hvalid : ∀ p ∈ (RpcResponse.ok id result).members, p.2.Valid := by
    simpa [RpcResponse.members, RpcResponse.ok, unlessNone] using
      ⟨.str jsonrpc, valid_orNull id, result.valid⟩
  rw [encodeResponse, parseMessage_eq_ok_iff hvalid, classify_answer, optionTravels_iff]
  simp only [RpcResponse.members, RpcResponse.ok, unlessNone, Option.map_none, Option.toList_none,
    List.append_nil, List.cons_append, List.nil_append, List.forall_mem_cons, depth_str,
    Except.ok.injEq, RpcMessage.response.injEq, RpcResponse.mk.injEq, readOption_mapReal_iff,
    SyncRpc.Travels]
  tauto

theorem survives_refusal : parseMessage lib (encodeResponse lib (.failed id code text)) =
    .ok (.response (.failed id code text)) ↔ OptionTravels lib id := by
  have hvalid : ∀ p ∈ (RpcResponse.failed id code text).members, p.2.Valid := by
    simpa [RpcResponse.members, RpcResponse.failed, unlessNone, RpcErrorObject.members] using
      ⟨.str jsonrpc, valid_orNull id, valid_error code text⟩
  rw [encodeResponse, parseMessage_eq_ok_iff hvalid, classify_refusal, optionTravels_iff]
  simp only [RpcResponse.members, RpcResponse.failed, unlessNone, RpcErrorObject.members,
    Option.map_some, Option.toList_some, List.append_nil, List.cons_append, List.nil_append,
    List.forall_mem_cons, depth_str, depth_error, Except.ok.injEq, RpcMessage.response.injEq,
    RpcResponse.mk.injEq]
  tauto

theorem survives_request : parseMessage lib (encodeRequest lib number method params) =
    .ok (message (.request number method params)) ↔
      params.val ≠ .null ∧ SyncRpc.Travels lib params := by
  have hvalid : ∀ p ∈ [("id", Codec.u64.write number), ("jsonrpc", .str jsonrpc),
      ("method", .str method), ("params", params.val)], p.2.Valid := by
    simpa using ⟨valid_u64 number, .str jsonrpc, .str method, params.valid⟩
  have hdepth : (Codec.u64.write number).depth ≤ 126 :=
    (Codec.u64.light_of_le (by simp) number).depth_le
  rw [encodeRequest, parseMessage_eq_ok_iff hvalid, classify_request, message]
  simp only [List.forall_mem_cons, depth_str, hdepth, Except.ok.injEq,
    RpcMessage.request.injEq, RpcRequest.mk.injEq, readOption_mapReal_iff, SyncRpc.Travels]
  tauto

theorem survives_notification : parseMessage lib (encodeNotification lib method params) =
    .ok (.notification { jsonrpc, method, params }) ↔ SyncRpc.Travels lib params := by
  have hvalid : ∀ p ∈ [("jsonrpc", .str jsonrpc), ("method", .str method),
      ("params", params.val)], p.2.Valid := by
    simpa using ⟨.str jsonrpc, .str method, params.valid⟩
  rw [encodeNotification, parseMessage_eq_ok_iff hvalid, classify_notification]
  simp only [List.forall_mem_cons, depth_str, Except.ok.injEq,
    RpcMessage.notification.injEq, RpcNotification.mk.injEq, Node.mapReal_eq_self_iff,
    SyncRpc.Travels, Exact]
  tauto

end Survival

/-- A message is read back as it was sent exactly if it travels. -/
theorem readBack_iff (m : Sent) :
    parseMessage lib (m.line lib) = .ok m.message ↔ m.Travels lib := by
  cases m with
  | answer id result => exact survives_answer id result
  | refusal id code message => exact survives_refusal id code message
  | request id method params => exact survives_request params method id
  | notification method params => exact survives_notification params method

/-- The answer null is read as no answer. -/
theorem not_readBack_null : parseMessage .exact (line .exact (answer none ⟨.null, .null⟩)) ≠
    .ok (message (answer none ⟨.null, .null⟩)) := by
  rw [line, message, ne_eq, survives_answer]
  exact fun h => h.2.1 rfl

end Sent

end SyncRpc
