import Livtet.Endpoint

/-! # Dispatch — who is let in, and what a request can do then

    A request is accepted where its token was issued to the node of the connection, or
    where it needs no more than a paired node and has one. One lemma says what an
    accepted request does, one what is answered to any other. -/

namespace SyncEndpoint

open SyncMessages SyncEnvelopes SyncConflictList
open JsonText (SerdeJson)
open SqlRows (SqlError)
open SyncStore (Env Db)
open SyncPairing (WireState)
open SyncPrivacy (LogQueries)

/-! ## Credentials -/

/-- What a request is let in by. -/
inductive Credential
  | none
  | token (token : String)
  | node

def credential : Request → Credential
  | .identity | .pair _ _ _ | .pairStatus _ => .none
  | .status token | .changes token _ _ | .pullFull token | .push token _ | .conflicts token
  | .resolveConflict token _ _ _ | .file token _ _ _ _ | .fileInfo token _ | .cover token _
  | .offerDecision token _ _ => .token token
  | .opds _ _ _ _ => .node

section Door

variable (env : Env) (m : Moment) (remote : String)

/-- The device of an accepted token, or the refusal of the credential. -/
def letIn (wire : WireState) : Credential → Except Failure (Option String)
  | .none => .ok none
  | .token token => (authorize env m wire token remote).map some
  | .node =>
      match pairedNode m wire remote with
      | .ok true => .ok none
      | .ok false => .error (.unauthorized, "this node is not paired with this device")
      | .error e => .error e

/-- The request presents a credential, and it is accepted. -/
def accepted (wire : WireState) (request : Request) : Bool :=
  decide (remote ≠ wire.selfNode) &&
    match credential request with
    | .none => false
    | c => (letIn env m remote wire c).isOk

/-- The requests that need no credential. -/
def openly (wire : WireState) : Request → Answered × WireState
  | .identity => (.reply (.identity
      { protocol := protocolVersion, nodeId := wire.selfNode, deviceId := wire.deviceId }), wire)
  | .pair deviceId name _ =>
      let paired :=
        SyncPairing.dispatchPair env m.now m.refuse m.secret remote deviceId name wire
      (pairingReply paired.1, paired.2)
  | .pairStatus claim =>
      let polled := SyncPairing.dispatchPairStatus m.now remote claim wire
      (pairingReply polled.1, polled.2)
  | _ => (.failure unauthorized, wire)

/-- The endpoint without a library: what it answers whoever it does not let in. -/
def atDoor (wire : WireState) (request : Request) : Answered × WireState :=
  if remote = wire.selfNode then
    (.error .badRequest "a device cannot sync with itself", wire)
  else match letIn env m remote wire (credential request) with
    | .error e => (.failure e, wire)
    | .ok _ => openly env m remote wire request

/-- What an accepted request writes. -/
def writeOf : Request → Option Write
  | .push _ batch => if (m.refuse 1).isNone then some (.push m.stamp (batch.map ofWire)) else none
  | .resolveConflict _ id resolution mergedPayload =>
      if (m.refuse 1).isNone then some (.resolve id.toInt resolution mergedPayload) else none
  | _ => none

end Door

/-! ## What a handler can do -/

/-- An answer that names a device names this one. -/
def Names (device : String) (a : Answered) : Prop := a.deviceId = none ∨ a.deviceId = some device

/-- The requests among the notifications. -/
def requestIn : Notice → Option RequestRecord
  | .requestReceived record => some record
  | _ => none

/-- No request was put on record. -/
structure SameReport (s s' : Endpoint) : Prop where
  requestLog : s'.requestLog = s.requestLog
  served : s'.served = s.served
  told : s'.told.filterMap requestIn = s.told.filterMap requestIn

theorem SameReport.refl (s : Endpoint) : SameReport s s := ⟨rfl, rfl, rfl⟩

/-- A handler of an accepted request leaves the pairing state alone, writes to the
    database what the request asks for, and answers from those two alone. -/
structure Handles (env : Env) (m : Moment) (request : Request)
    (handle : Endpoint → String → Answered × Endpoint) : Prop where
  wire : ∀ s device, (handle s device).2.wire = s.wire
  db : ∀ s device, (handle s device).2.db = (writeOf m request).elim s.db (write env s.db)
  same : ∀ s t device, s.wire = t.wire → s.db = t.db → (handle s device).1 = (handle t device).1
  names : ∀ s device, Names device (handle s device).1
  report : ∀ s device, SameReport s (handle s device).2

section Handlers

variable {env : Env} {q : LogQueries env} {lib : SerdeJson} {sqlText : SqlError → String}
variable {m : Moment} {remote : String} {s : Endpoint} {request : Request}

theorem names_status (wire : WireState) (device : String) (db : Db) :
    Names device (status m wire device db) := by
  rw [status]
  split
  · exact Or.inl rfl
  · exact Or.inr rfl

theorem names_changes {sinceVersion : Int64} {limit : Option Int64} (_ : WireState)
    (device : String) (db : Db) : Names device (changes env m device sinceVersion limit db) := by
  rw [changes]
  split
  · exact Or.inl rfl
  · exact Or.inr rfl

theorem names_pullFull (wire : WireState) (device : String) (db : Db) :
    Names device (pullFull env m wire device db) := by
  rw [pullFull]
  split
  · exact Or.inl rfl
  · exact Or.inr rfl

theorem names_conflicts (_ : WireState) (device : String) (db : Db) :
    Names device (conflicts m device db) := by
  rw [conflicts]
  split
  · exact Or.inl rfl
  · exact Or.inr rfl

theorem names_file {inventoryId : String} {offset : UInt64} {length : Option UInt64}
    {ifRange : Option String} (_ : WireState) (device : String) (db : Db) :
    Names device (file m device inventoryId offset length ifRange db) := by
  rw [file]
  split
  · exact Or.inl rfl
  · exact Or.inl rfl
  split
  · exact Or.inl rfl
  split
  · exact Or.inr rfl
  · exact Or.inr rfl

theorem names_fileInfo {inventoryId : String} (_ : WireState) (device : String) (db : Db) :
    Names device (fileInfo m device inventoryId db) := by
  rw [fileInfo]
  split
  · exact Or.inl rfl
  · exact Or.inl rfl
  split
  · exact Or.inl rfl
  · exact Or.inr rfl

theorem names_cover {inventoryId : String} (_ : WireState) (device : String) (db : Db) :
    Names device (cover m device inventoryId db) := by
  rw [cover]
  split
  · exact Or.inl rfl
  · exact Or.inl rfl
  split
  · exact Or.inl rfl
  · exact Or.inr rfl

theorem handles_read {f : WireState → String → Db → Answered} (h : writeOf m request = none)
    (hnames : ∀ wire device db, Names device (f wire device db)) :
    Handles env m request fun s device => (f s.wire device s.db, s) where
  wire := fun _ _ => rfl
  db := fun _ _ => by rw [h]; rfl
  same := fun _ _ _ hwire hdb => by rw [hwire, hdb]
  names := fun s device => hnames s.wire device s.db
  report := fun s _ => .refl s

theorem handles_push {token : String} {batch : List SyncChange} :
    Handles env m (.push token batch) fun s device =>
      let pushed := push env sqlText m device batch s.db
      (pushed.1, { s with db := pushed.2 }) where
  wire := fun _ _ => rfl
  db := by
    intro s device
    show (push env sqlText m device batch s.db).2 = _
    rw [push, writeOf]
    cases m.refuse 1 with
    | some e => rfl
    | none =>
        show _ = ((SyncEngine.pushChanges env m.stamp (batch.map ofWire) s.db).toOption.map
          Prod.snd).getD s.db
        dsimp only
        cases SyncEngine.pushChanges env m.stamp (batch.map ofWire) s.db with
        | error e => rfl
        | ok p => rfl
  same := fun _ _ _ _ hdb => by simp only [hdb]
  names := by
    intro s device
    show Names device (push env sqlText m device batch s.db).1
    rw [push]
    split
    · exact Or.inl rfl
    split
    · exact Or.inl rfl
    · exact Or.inr rfl
  report := fun _ _ => ⟨rfl, rfl, rfl⟩

theorem handles_resolve {token : String} {id : Int64} {resolution : String}
    {mergedPayload : Option String} :
    Handles env m (.resolveConflict token id resolution mergedPayload) fun s device =>
      let resolved := resolve m device id resolution mergedPayload s.db
      (resolved.1, { s with db := resolved.2 }) where
  wire := fun _ _ => rfl
  db := by
    intro s device
    show (resolve m device id resolution mergedPayload s.db).2 = _
    rw [resolve, writeOf]
    cases hvalid : isResolution resolution with
    | false =>
        have hkept : (handleConflictsResolve id.toInt resolution mergedPayload s.db).2 = s.db := by
          rw [handleConflictsResolve, hvalid]
          rfl
        cases m.refuse 1 with
        | some e => rfl
        | none => exact hkept.symm
    | true =>
        have hdone : (handleConflictsResolve id.toInt resolution mergedPayload s.db).2 =
            { s.db with
              conflicts := (resolveConflict id.toInt resolution mergedPayload s.db.conflicts).2 } := by
          rw [handleConflictsResolve, hvalid]
          rfl
        cases m.refuse 1 with
        | some e => rfl
        | none => exact hdone.symm
  same := fun _ _ _ _ hdb => by simp only [hdb]
  names := by
    intro s device
    show Names device (resolve m device id resolution mergedPayload s.db).1
    rw [resolve]
    split
    · split
      · exact Or.inl rfl
      · exact Or.inr rfl
    · exact Or.inl rfl
  report := fun _ _ => ⟨rfl, rfl, rfl⟩

theorem handles_offerDecision {token offerId : String} {decided : Bool} :
    Handles env m (.offerDecision token offerId decided) fun s device =>
      let decision := offerDecision env q m device offerId decided s.db
      (decision.1, { s with told := s.told ++ decision.2.toList.map .offerDecided }) where
  wire := fun _ _ => rfl
  db := fun _ _ => rfl
  same := fun _ _ _ _ hdb => by simp only [hdb]
  names := by
    intro s device
    show Names device (offerDecision env q m device offerId decided s.db).1
    rw [offerDecision]
    split
    · exact Or.inr rfl
    split <;> exact Or.inr rfl
  report := by
    intro s device
    refine ⟨rfl, rfl, ?_⟩
    have hnone : ∀ decision : Option SyncPrivacy.OfferDecision,
        (decision.toList.map Notice.offerDecided).filterMap requestIn = [] := by
      intro decision
      cases decision <;> rfl
    show (s.told ++ _).filterMap requestIn = _
    rw [List.filterMap_append, hnone, List.append_nil]

/-- Every request with a token is its handler behind the one check. -/
theorem dispatch_token (env : Env) (q : LogQueries env) (lib : SerdeJson)
    (sqlText : SqlError → String) (m : Moment) (remote : String) {token : String}
    (h : credential request = .token token) :
    ∃ handle, Handles env m request handle ∧
      ∀ s : Endpoint, remote ≠ s.wire.selfNode →
        dispatch env q lib sqlText m remote request s =
          withDevice env m remote s token (handle s) := by
  cases request with
  | identity => cases h
  | pair deviceId name deviceType => cases h
  | pairStatus claim => cases h
  | opds method path headers body => cases h
  | status tok =>
      cases h
      exact ⟨_, handles_read rfl names_status, fun s hs => by rw [dispatch, if_neg hs]⟩
  | changes tok sinceVersion limit =>
      cases h
      exact ⟨_, handles_read rfl names_changes, fun s hs => by rw [dispatch, if_neg hs]⟩
  | pullFull tok =>
      cases h
      exact ⟨_, handles_read rfl names_pullFull, fun s hs => by rw [dispatch, if_neg hs]⟩
  | push tok batch =>
      cases h
      exact ⟨_, handles_push, fun s hs => by rw [dispatch, if_neg hs]⟩
  | conflicts tok =>
      cases h
      exact ⟨_, handles_read rfl names_conflicts, fun s hs => by rw [dispatch, if_neg hs]⟩
  | resolveConflict tok id resolution mergedPayload =>
      cases h
      exact ⟨_, handles_resolve, fun s hs => by rw [dispatch, if_neg hs]⟩
  | file tok inventoryId offset length ifRange =>
      cases h
      exact ⟨_, handles_read rfl names_file, fun s hs => by rw [dispatch, if_neg hs]⟩
  | fileInfo tok inventoryId =>
      cases h
      exact ⟨_, handles_read rfl names_fileInfo, fun s hs => by rw [dispatch, if_neg hs]⟩
  | cover tok inventoryId =>
      cases h
      exact ⟨_, handles_read rfl names_cover, fun s hs => by rw [dispatch, if_neg hs]⟩
  | offerDecision tok offerId decided =>
      cases h
      exact ⟨_, handles_offerDecision, fun s hs => by rw [dispatch, if_neg hs]⟩

end Handlers

/-! ## What a request can do -/

section Requests

variable {env : Env} {q : LogQueries env} {lib : SerdeJson} {sqlText : SqlError → String}
variable {m : Moment} {remote : String} {s t : Endpoint} {request : Request}

theorem withDevice_error {token : String} {handle : String → Answered × Endpoint} {e : Failure}
    (h : authorize env m s.wire token remote = .error e) :
    withDevice env m remote s token handle = (.failure e, s) := by
  rw [withDevice, h]

theorem withDevice_ok {token device : String} {handle : String → Answered × Endpoint}
    (h : authorize env m s.wire token remote = .ok device) :
    withDevice env m remote s token handle = handle device := by
  rw [withDevice, h]

theorem accepted_token {wire : WireState} {token : String} (hself : remote ≠ wire.selfNode)
    (hcred : credential request = .token token) :
    accepted env m remote wire request = (authorize env m wire token remote).isOk := by
  rw [accepted, hcred, decide_eq_true hself]
  show (true && (Except.map some (authorize env m wire token remote)).isOk) = _
  cases authorize env m wire token remote <;> rfl

theorem dispatch_self (h : remote = s.wire.selfNode) :
    dispatch env q lib sqlText m remote request s =
      (.error .badRequest "a device cannot sync with itself", s) := by
  unfold dispatch
  exact if_pos h

theorem deviceId_pairingReply (a : SyncPairing.Answer) : (pairingReply a).deviceId = none := by
  rw [pairingReply.eq_def]
  split <;> rfl

theorem deviceId_opds {method path : String} {headers : OpdsHeaders} {body : List UInt8} :
    (opds lib m method path headers body).deviceId = none := by
  rw [opds]
  split
  · rfl
  split
  · rfl
  split
  · rfl
  split
  · rfl
  split <;> rfl

/-- A request that is let in leaves the pairing state alone and writes what it asks for. -/
theorem dispatch_of_accepted (h : accepted env m remote s.wire request = true) :
    (dispatch env q lib sqlText m remote request s).2.wire = s.wire ∧
    (dispatch env q lib sqlText m remote request s).2.db =
      (writeOf m request).elim s.db (write env s.db) := by
  have hself : remote ≠ s.wire.selfNode := by
    rw [accepted, Bool.and_eq_true] at h
    exact of_decide_eq_true h.1
  cases hcred : credential request with
  | none =>
      rw [accepted, hcred, Bool.and_false] at h
      cases h
  | token token =>
      obtain ⟨handle, hhandle, hdispatch⟩ :=
        dispatch_token env q lib sqlText m remote hcred
      rw [accepted_token hself hcred] at h
      cases hauth : authorize env m s.wire token remote with
      | error e =>
          rw [hauth] at h
          cases h
      | ok device =>
          rw [hdispatch s hself, withDevice_ok hauth]
          exact ⟨hhandle.wire s device, hhandle.db s device⟩
  | node =>
      cases request with
      | opds method path headers body =>
          rw [dispatch, if_neg hself]
          split <;> exact ⟨rfl, rfl⟩
      | _ => cases hcred

/-- A request that is not let in is answered at the door. -/
theorem dispatch_of_not_accepted (h : accepted env m remote s.wire request = false) :
    (dispatch env q lib sqlText m remote request s).1 = (atDoor env m remote s.wire request).1 ∧
    (dispatch env q lib sqlText m remote request s).2.wire =
      (atDoor env m remote s.wire request).2 ∧
    (dispatch env q lib sqlText m remote request s).2.db = s.db := by
  by_cases hself : remote = s.wire.selfNode
  · rw [dispatch_self hself, atDoor, if_pos hself]
    exact ⟨rfl, rfl, rfl⟩
  cases hcred : credential request with
  | none =>
      rw [atDoor, if_neg hself, hcred]
      cases request with
      | identity =>
          rw [dispatch, if_neg hself]
          exact ⟨rfl, rfl, rfl⟩
      | pair deviceId name deviceType =>
          rw [dispatch, if_neg hself]
          exact ⟨rfl, rfl, rfl⟩
      | pairStatus claim =>
          rw [dispatch, if_neg hself]
          exact ⟨rfl, rfl, rfl⟩
      | _ => cases hcred
  | token token =>
      obtain ⟨handle, _, hdispatch⟩ :=
        dispatch_token env q lib sqlText m remote hcred
      rw [accepted_token hself hcred] at h
      cases hauth : authorize env m s.wire token remote with
      | ok device =>
          rw [hauth] at h
          cases h
      | error e =>
          rw [hdispatch s hself, withDevice_error hauth, atDoor, if_neg hself, hcred, letIn, hauth]
          exact ⟨rfl, rfl, rfl⟩
  | node =>
      cases request with
      | opds method path headers body =>
          rw [accepted, decide_eq_true hself, Bool.true_and] at h
          have h : (letIn env m remote s.wire .node).isOk = false := h
          rw [dispatch, if_neg hself, atDoor, if_neg hself, hcred]
          rw [letIn] at h ⊢
          cases hpaired : pairedNode m s.wire remote with
          | error e => exact ⟨rfl, rfl, rfl⟩
          | ok paired =>
              rw [hpaired] at h
              cases paired with
              | true => cases h
              | false => exact ⟨rfl, rfl, rfl⟩
      | _ => cases hcred

/-- Only filing a claim and asking for one can change the pairing state. -/
theorem wire_dispatch_cases (env : Env) (q : LogQueries env) (lib : SerdeJson)
    (sqlText : SqlError → String) (m : Moment) (remote : String) (request : Request) (s : Endpoint) :
    (dispatch env q lib sqlText m remote request s).2.wire = s.wire ∨
    (∃ deviceId name deviceType, request = .pair deviceId name deviceType ∧
      (dispatch env q lib sqlText m remote request s).2.wire =
        (SyncPairing.dispatchPair env m.now m.refuse m.secret remote deviceId name s.wire).2) ∨
    ∃ claim, request = .pairStatus claim ∧
      (dispatch env q lib sqlText m remote request s).2.wire =
        (SyncPairing.dispatchPairStatus m.now remote claim s.wire).2 := by
  cases haccepted : accepted env m remote s.wire request with
  | true => exact Or.inl (dispatch_of_accepted haccepted).1
  | false =>
      rw [(dispatch_of_not_accepted haccepted).2.1, atDoor]
      split
      · exact Or.inl rfl
      split
      · exact Or.inl rfl
      rw [openly.eq_def]
      split
      · exact Or.inl rfl
      · next deviceId name deviceType _ =>
          exact Or.inr (Or.inl ⟨deviceId, name, deviceType, rfl, rfl⟩)
      · next claim _ => exact Or.inr (Or.inr ⟨claim, rfl, rfl⟩)
      · exact Or.inl rfl

/-- The answer depends on the pairing state and the database alone. -/
theorem dispatch_congr (hwire : s.wire = t.wire) (hdb : s.db = t.db) :
    (dispatch env q lib sqlText m remote request s).1 =
      (dispatch env q lib sqlText m remote request t).1 := by
  cases haccepted : accepted env m remote s.wire request with
  | false =>
      have hother : accepted env m remote t.wire request = false := hwire ▸ haccepted
      rw [(dispatch_of_not_accepted haccepted).1, (dispatch_of_not_accepted hother).1, hwire]
  | true =>
      have hself : remote ≠ s.wire.selfNode := by
        rw [accepted, Bool.and_eq_true] at haccepted
        exact of_decide_eq_true haccepted.1
      have hself' : remote ≠ t.wire.selfNode := hwire ▸ hself
      cases hcred : credential request with
      | none =>
          rw [accepted, hcred, Bool.and_false] at haccepted
          cases haccepted
      | token token =>
          obtain ⟨handle, hhandle, hdispatch⟩ :=
            dispatch_token env q lib sqlText m remote hcred
          rw [accepted_token hself hcred] at haccepted
          cases hauth : authorize env m s.wire token remote with
          | error e =>
              rw [hauth] at haccepted
              cases haccepted
          | ok device =>
              rw [hdispatch s hself, hdispatch t hself', withDevice_ok hauth,
                withDevice_ok (hwire ▸ hauth)]
              exact hhandle.same s t device hwire hdb
      | node =>
          cases request with
          | opds method path headers body =>
              rw [dispatch, dispatch, if_neg hself, if_neg hself', hwire]
              split <;> rfl
          | _ => cases hcred

/-- So do the pairing state and the database after the request. -/
theorem dispatch_state_congr (hwire : s.wire = t.wire) (hdb : s.db = t.db) :
    (dispatch env q lib sqlText m remote request s).2.wire =
      (dispatch env q lib sqlText m remote request t).2.wire ∧
    (dispatch env q lib sqlText m remote request s).2.db =
      (dispatch env q lib sqlText m remote request t).2.db := by
  cases hs : accepted env m remote s.wire request with
  | true =>
      have ht : accepted env m remote t.wire request = true := hwire ▸ hs
      rw [(dispatch_of_accepted hs).1, (dispatch_of_accepted hs).2, (dispatch_of_accepted ht).1,
        (dispatch_of_accepted ht).2, hwire, hdb]
      exact ⟨rfl, rfl⟩
  | false =>
      have ht : accepted env m remote t.wire request = false := hwire ▸ hs
      rw [(dispatch_of_not_accepted hs).2.1, (dispatch_of_not_accepted hs).2.2,
        (dispatch_of_not_accepted ht).2.1, (dispatch_of_not_accepted ht).2.2, hwire, hdb]
      exact ⟨rfl, rfl⟩

/-- A device is named only in the answer to a token that was issued to it, presented by
    the node it was issued for. -/
theorem authorize_of_named {device : String}
    (h : (dispatch env q lib sqlText m remote request s).1.deviceId = some device) :
    ∃ token, credential request = .token token ∧
      authorize env m s.wire token remote = .ok device := by
  by_cases hself : remote = s.wire.selfNode
  · rw [dispatch_self hself] at h
    cases h
  cases hcred : credential request with
  | none =>
      cases request with
      | identity =>
          rw [dispatch, if_neg hself] at h
          cases h
      | pair deviceId name deviceType =>
          rw [dispatch, if_neg hself] at h
          cases (deviceId_pairingReply _).symm.trans h
      | pairStatus claim =>
          rw [dispatch, if_neg hself] at h
          cases (deviceId_pairingReply _).symm.trans h
      | _ => cases hcred
  | token token =>
      obtain ⟨handle, hhandle, hdispatch⟩ :=
        dispatch_token env q lib sqlText m remote hcred
      cases hauth : authorize env m s.wire token remote with
      | error e =>
          rw [hdispatch s hself, withDevice_error hauth] at h
          cases h
      | ok device' =>
          rw [hdispatch s hself, withDevice_ok hauth] at h
          rcases hhandle.names s device' with hnone | hsome
          · cases hnone.symm.trans h
          · cases Option.some.inj (hsome.symm.trans h)
            exact ⟨token, rfl, hauth⟩
  | node =>
      cases request with
      | opds method path headers body =>
          rw [dispatch, if_neg hself] at h
          split at h
          · cases deviceId_opds.symm.trans h
          · cases h
          · cases h
      | _ => cases hcred

/-- Dispatching a request puts nothing on record. -/
theorem sameReport_dispatch :
    SameReport s (dispatch env q lib sqlText m remote request s).2 := by
  by_cases hself : remote = s.wire.selfNode
  · rw [dispatch_self hself]
    exact .refl s
  cases hcred : credential request with
  | none =>
      cases request with
      | identity =>
          rw [dispatch, if_neg hself]
          exact .refl s
      | pair deviceId name deviceType =>
          rw [dispatch, if_neg hself]
          refine ⟨rfl, rfl, ?_⟩
          have hnone : ∀ a, (pairingNotice remote deviceId name a).filterMap requestIn = [] := by
            intro a
            rw [pairingNotice.eq_def]
            split <;> rfl
          show (s.told ++ _).filterMap requestIn = _
          rw [List.filterMap_append, hnone, List.append_nil]
      | pairStatus claim =>
          rw [dispatch, if_neg hself]
          exact ⟨rfl, rfl, rfl⟩
      | _ => cases hcred
  | token token =>
      obtain ⟨handle, hhandle, hdispatch⟩ :=
        dispatch_token env q lib sqlText m remote hcred
      rw [hdispatch s hself]
      cases hauth : authorize env m s.wire token remote with
      | error e =>
          rw [withDevice_error hauth]
          exact .refl s
      | ok device =>
          rw [withDevice_ok hauth]
          exact hhandle.report s device
  | node =>
      cases request with
      | opds method path headers body =>
          rw [dispatch, if_neg hself]
          split <;> exact .refl s
      | _ => cases hcred

end Requests

end SyncEndpoint
