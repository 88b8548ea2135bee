import Livtet.Handshake
import Livtet.RemotePull

/-! # Remote pairing — the phone's pairing calls against an endpoint

    The phone files a claim with a peer and then polls until the peer's reader decides, or
    until it has waited long enough. The peer goes on in the meantime. What the phone is
    told is what the reader did with a claim that this node filed: a token is the one that
    an approval issued, a refusal follows a rejection. And while it waits it waits for the
    claim that it filed: polling neither restarts nor loses it. -/

namespace SyncRemotePairing

open JsonText Maps SyncMessages SyncEnvelopes SyncFraming SyncCalls SyncRemotePull Unwinding
open SyncBodies (Ending)
open SyncEndpoint (Action Decision Endpoint Moment Files Waiting restarted)
open SyncPairing (Instant WireState parseId DbId DbId.text)
open SyncPeers (NodeIds PairingOutcome)
open SyncStore (Env)

/-! ## The calls -/

inductive SyncPairingResult
  | paired (deviceId sessionToken : String)
  | refused (reason : String)
  | pending (claim : String)
deriving DecidableEq, Repr

/-- What failed: the claim could not be filed, or its status could not be read. -/
inductive LivtetError
  | filing (e : ClientError)
  | polling (e : ClientError)

section Loop

variable (env : Env) (q : SyncPrivacy.LogQueries env) (lib : SerdeJson)
variable (sqlText : SqlRows.SqlError → String) (order : SyncPairing.MapOrder) (ids : NodeIds)
variable (remote : String) (reach : String → Except String Unit)
variable (files : String → Option (List UInt8)) (dropped : Ending) (debug : Response → String)
variable (client : Client)

/-- `await_decision`: a poll at each visit, until the time to wait is over. -/
def awaitDecision : List Visit → String → Endpoint → Except LivtetError SyncPairingResult × Endpoint
  | [], claim, peer => (.ok (.pending claim), peer)
  | v :: rest, claim, peer =>
      let peer := final (SyncEndpoint.step env q lib sqlText order ids) peer v.meanwhile
      let polled := (Operation.pairStatus claim).perform lib
        (endpointLink env q lib sqlText v.m remote ids reach files dropped) debug client peer
      match polled.1 with
      | .error e => (.error (.polling e), polled.2)
      | .ok (.pending next) => awaitDecision rest next polled.2
      | .ok (.paired deviceId sessionToken) => (.ok (.paired deviceId sessionToken), polled.2)
      | .ok (.refused reason) => (.ok (.refused reason), polled.2)

/-- `pair_sync_device`: the claim is filed at the first visit. -/
def pairSyncDevice (deviceId name deviceType : String) (v : Visit) (visits : List Visit)
    (peer : Endpoint) : Except LivtetError SyncPairingResult × Endpoint :=
  let peer := final (SyncEndpoint.step env q lib sqlText order ids) peer v.meanwhile
  let filed := (Operation.pair deviceId name deviceType).perform lib
    (endpointLink env q lib sqlText v.m remote ids reach files dropped) debug client peer
  match filed.1 with
  | .error e => (.error (.filing e), filed.2)
  | .ok (.pending claim) =>
      awaitDecision env q lib sqlText order ids remote reach files dropped debug client visits claim
        filed.2
  | .ok (.paired deviceId sessionToken) => (.ok (.paired deviceId sessionToken), filed.2)
  | .ok (.refused reason) => (.ok (.refused reason), filed.2)

/-- `sync_pairing_status` goes on with a claim that was filed before. -/
def syncPairingStatus (claim : String) (visits : List Visit) (peer : Endpoint) :
    Except LivtetError SyncPairingResult × Endpoint :=
  awaitDecision env q lib sqlText order ids remote reach files dropped debug client visits claim peer

open Classical in
/-- What the peer sees of a call: its request, if it gets there. -/
noncomputable def requested (m : Moment) (request : Request) : List Action :=
  if Asks lib (endpointLink env q lib sqlText m remote ids reach files dropped) client request
  then [.request m remote request]
  else []

/-- What the peer goes through while the phone waits. -/
noncomputable def waitCourse : List Visit → String → Endpoint → List Action
  | [], _, _ => []
  | v :: rest, claim, peer =>
      let peer := final (SyncEndpoint.step env q lib sqlText order ids) peer v.meanwhile
      let polled := (Operation.pairStatus claim).perform lib
        (endpointLink env q lib sqlText v.m remote ids reach files dropped) debug client peer
      v.meanwhile ++ (requested env q lib sqlText ids remote reach files dropped client v.m
        (.pairStatus claim) ++
          match polled.1 with
          | .ok (.pending next) => waitCourse rest next polled.2
          | _ => [])

/-- What the peer goes through during `pair_sync_device`. -/
noncomputable def pairCourse (deviceId name deviceType : String) (v : Visit) (visits : List Visit)
    (peer : Endpoint) : List Action :=
  let peer := final (SyncEndpoint.step env q lib sqlText order ids) peer v.meanwhile
  let filed := (Operation.pair deviceId name deviceType).perform lib
    (endpointLink env q lib sqlText v.m remote ids reach files dropped) debug client peer
  v.meanwhile ++ (requested env q lib sqlText ids remote reach files dropped client v.m
    (.pair deviceId name deviceType) ++
      match filed.1 with
      | .ok (.pending claim) =>
          waitCourse env q lib sqlText order ids remote reach files dropped debug client visits claim
            filed.2
      | _ => [])

end Loop

/-! ## What the phone is told -/

section Statement

variable (env : Env) (node claim : String)

/-- The run files a claim of the node, under the secret, and then decides it. -/
def Decided (run : List Action) (decided : Decision → Option DbId → Prop) : Prop :=
  ∃ pre m deviceId name deviceType mid decision post,
    run = pre ++ .request m node (.pair deviceId name deviceType) :: (mid ++
      .decide decision :: post) ∧
    m.secret.text env = claim ∧ (parseId env deviceId).isSome ∧ decided decision (parseId env deviceId)

/-- The reader approves the claim of the node, which is for the device, with the token. -/
def Approves (device token : String) : Decision → Option DbId → Prop
  | .approve _ _ _ issued nodeId, id =>
      nodeId = node ∧ id.map (DbId.text env) = some device ∧ issued.text env = token
  | _, _ => False

def Rejects : Decision → Option DbId → Prop
  | .reject _ _ nodeId, _ => nodeId = node
  | _, _ => False

/-- The node waits for a decision of the claim. -/
def Waits (wire : WireState) : Prop := wire.waiters.lookup node = some { claim }

/-- What a result says of the run that led to it, and of the peer. -/
def Told (run : List Action) (wire : WireState) : SyncPairingResult → Prop
  | .paired device token => Decided env node claim run (Approves env node device token)
  | .refused reason =>
      reason = "this pairing was already decided" ∨
        reason = "the pairing was rejected" ∧ Decided env node claim run (Rejects node)
  | .pending waiting => waiting = claim ∧ Waits node claim wire

end Statement

/-! ## A call -/

section Call

variable {env : Env} {q : SyncPrivacy.LogQueries env} {lib : SerdeJson}
variable {sqlText : SqlRows.SqlError → String} {order : SyncPairing.MapOrder} {ids : NodeIds}
variable {remote : String} {reach : String → Except String Unit}
variable {files : String → Option (List UInt8)} {dropped : Ending} {debug : Response → String}
variable {client : Client} {m : Moment} {peer : Endpoint} {claim : String}

/-- A call that returns a value was answered with a response which it can use. -/
theorem picked_of_perform {σ : Type} {link : Link σ} {s : σ} {α : Type} {op : Operation α} {a : α}
    (h : (op.perform lib link debug client s).1 = .ok a) :
    ∃ request, op.request client.token = .ok request ∧ Asks lib link client request ∧
      op.pick (reread lib (link.answer request s).1.response) = some a := by
  have hcarried := carried lib link debug client op s
  by_cases hasks : ∃ request, op.request client.token = .ok request ∧ Asks lib link client request
  · obtain ⟨request, hrequest, hasks⟩ := hasks
    obtain ⟨_, harrived, hlost⟩ := hcarried.asked request hrequest hasks
    refine ⟨request, hrequest, hasks, ?_⟩
    by_cases harrives : Arrives lib (link.answer request s).1.response
    · rw [harrived harrives, Operation.accept.eq_def] at h
      split at h
      · cases h
      · split at h
        · cases h
        · rw [Operation.picked] at h
          cases hpick : op.pick (reread lib (link.answer request s).1.response) with
          | none =>
              rw [hpick] at h
              cases h
          | some b =>
              rw [hpick] at h
              exact congrArg some (Except.ok.inj h)
    · obtain ⟨e, he⟩ := hlost harrives
      cases he.symm.trans h
  · obtain ⟨e, he⟩ := hcarried.unasked fun request hrequest h => hasks ⟨request, hrequest, h⟩
    cases (congrArg Prod.fst he).symm.trans h

/-- The peer after a call has seen what was requested. -/
theorem perform_snd (debug : Response → String) {α : Type} (op : Operation α) {request : Request}
    (hrequest : op.request client.token = .ok request) :
    (op.perform lib (endpointLink env q lib sqlText m remote ids reach files dropped) debug client
      peer).2 = final (SyncEndpoint.step env q lib sqlText order ids) peer
        (requested env q lib sqlText ids remote reach files dropped client m request) := by
  have hcarried := carried lib (endpointLink env q lib sqlText m remote ids reach files dropped)
    debug client op peer
  rw [requested]
  split
  · next hasks => exact (hcarried.asked request hrequest hasks).1
  · next hnot =>
      obtain ⟨e, he⟩ := hcarried.unasked fun request' h => by
        cases Except.ok.inj (hrequest.symm.trans h)
        exact hnot
      rw [he]
      rfl

/-- The answer of the pairing tables that a result is made of. -/
def answerOf : PairingOutcome → SyncPairing.Response
  | .pending claim => .pairingPending claim
  | .paired deviceId sessionToken => .paired deviceId sessionToken
  | .refused reason => .refused reason

/-- A reply that means something for a claim is an answer of the pairing tables. -/
theorem answer_of_pairingOutcome {a : SyncPairing.Answer} {outcome : PairingOutcome}
    (h : Operation.pairingOutcome (reread lib (SyncEndpoint.pairingReply a).outcome.response) =
      some outcome) : a = .ok (answerOf outcome) := by
  cases a with
  | error e => cases h
  | ok response =>
      cases response with
      | pairingPending claim =>
          cases h
          rfl
      | paired deviceId sessionToken =>
          cases h
          rfl
      | refused reason =>
          cases h
          rfl

/-- What a poll is answered: the claim waits, or its decision is remembered. -/
theorem poll_cases {now : Instant} {wire : WireState} {r : SyncPairing.Response}
    (h : (SyncPairing.dispatchPairStatus now remote claim wire).1 = .ok r) :
    (r = .pairingPending claim ∧ Waits remote claim wire) ∨
      ∃ d, wire.decisions.lookup claim = some d ∧ d.nodeId = remote ∧ r = d.response := by
  rw [SyncPairing.dispatchPairStatus] at h
  split at h
  · cases h
  rw [SyncPairing.pairStatus] at h
  split at h
  · next hany =>
      obtain ⟨waiter, hwaiter, hclaim⟩ := (Option.any_eq_true _ _).1 hany
      have hclaim : waiter.claim = claim := by simpa using hclaim
      cases h
      exact Or.inl ⟨rfl, hclaim ▸ hwaiter⟩
  · dsimp only [SyncPairing.decided] at h
    split at h
    · next d hd =>
        obtain ⟨hlookup, hnode⟩ := Option.filter_eq_some_iff.1 hd
        cases h
        exact Or.inr ⟨d, (lookup_retain.1 hlookup).1, by simpa using hnode, rfl⟩
    · cases h

/-- What is answered when a claim is filed: it waits, or one was decided before. -/
theorem file_cases {now : Instant} {refuse : Nat → Option String} {secret : DbId}
    {deviceId name : String} {wire : WireState} {r : SyncPairing.Response}
    (h : (SyncPairing.dispatchPair env now refuse secret remote deviceId name wire).1 = .ok r) :
    r = .refused "this pairing was already decided" ∨
      r = .pairingPending (secret.text env) ∧ Waits remote (secret.text env)
        (SyncPairing.dispatchPair env now refuse secret remote deviceId name wire).2 := by
  rw [SyncPairing.dispatchPair] at h ⊢
  split at h
  · cases h
  next hself =>
    rw [if_neg hself]
    dsimp only at h ⊢
    split at h
    · next hallowed =>
        rw [if_pos hallowed]
        rw [SyncPairing.pair] at h ⊢
        split at h
        · cases h
        · cases h
        next id _ _ _ =>
          split at h
          · cases h
          next hread =>
            split at h
            · cases h
              exact Or.inl rfl
            next hnew =>
              split at h
              · cases h
              next hwrite =>
                cases h
                rw [if_neg hnew]
                exact Or.inr ⟨rfl, AList.lookup_insert _⟩
    · cases h

/-- The answer to a request for a claim, where it is one, and the peer's next tables. -/
theorem answered {request : Request} {outcome : PairingOutcome}
    {table : WireState → SyncPairing.Answer × WireState}
    (htable : ∀ peer : Endpoint, remote ≠ peer.wire.selfNode →
      (SyncEndpoint.dispatch env q lib sqlText m remote request peer).1 =
        SyncEndpoint.pairingReply (table peer.wire).1 ∧
      (SyncEndpoint.dispatch env q lib sqlText m remote request peer).2.wire = (table peer.wire).2)
    (h : Operation.pairingOutcome (reread lib
      ((endpointLink env q lib sqlText m remote ids reach files dropped).answer request
        peer).1.response) = some outcome) :
    (table peer.wire).1 = .ok (answerOf outcome) ∧
      ((endpointLink env q lib sqlText m remote ids reach files dropped).answer request peer).2.wire =
        (table peer.wire).2 := by
  have h : Operation.pairingOutcome (reread lib (SyncEndpoint.dispatch env q lib sqlText m remote
    request peer).1.outcome.response) = some outcome := h
  by_cases hself : remote = peer.wire.selfNode
  · rw [SyncEndpoint.dispatch_self hself] at h
    cases h
  · obtain ⟨hreply, hwire⟩ := htable peer hself
    rw [hreply] at h
    exact ⟨answer_of_pairingOutcome h, hwire⟩

/-- A poll that returns was answered by the tables. -/
theorem polled {outcome : PairingOutcome}
    (h : ((Operation.pairStatus claim).perform lib
      (endpointLink env q lib sqlText m remote ids reach files dropped) debug client peer).1 =
        .ok outcome) :
    (SyncPairing.dispatchPairStatus m.now remote claim peer.wire).1 = .ok (answerOf outcome) ∧
      ((Operation.pairStatus claim).perform lib
        (endpointLink env q lib sqlText m remote ids reach files dropped) debug client peer).2.wire =
        (SyncPairing.dispatchPairStatus m.now remote claim peer.wire).2 := by
  obtain ⟨request, hrequest, hasks, hpick⟩ := picked_of_perform h
  cases hrequest
  rw [(carried lib (endpointLink env q lib sqlText m remote ids reach files dropped) debug client
    (Operation.pairStatus claim) peer).asked _ rfl hasks |>.1]
  refine answered (fun peer hself => ?_) hpick
  rw [SyncEndpoint.dispatch, if_neg hself]
  exact ⟨rfl, rfl⟩

/-- A claim that is filed was answered by the tables. -/
theorem filed {deviceId name deviceType : String} {outcome : PairingOutcome}
    (h : ((Operation.pair deviceId name deviceType).perform lib
      (endpointLink env q lib sqlText m remote ids reach files dropped) debug client peer).1 =
        .ok outcome) :
    (SyncPairing.dispatchPair env m.now m.refuse m.secret remote deviceId name peer.wire).1 =
        .ok (answerOf outcome) ∧
      ((Operation.pair deviceId name deviceType).perform lib
        (endpointLink env q lib sqlText m remote ids reach files dropped) debug client peer).2.wire =
        (SyncPairing.dispatchPair env m.now m.refuse m.secret remote deviceId name peer.wire).2 := by
  obtain ⟨request, hrequest, hasks, hpick⟩ := picked_of_perform h
  cases hrequest
  rw [(carried lib (endpointLink env q lib sqlText m remote ids reach files dropped) debug client
    (Operation.pair deviceId name deviceType) peer).asked _ rfl hasks |>.1]
  have htables : ∀ peer : Endpoint, remote ≠ peer.wire.selfNode →
      (SyncEndpoint.dispatch env q lib sqlText m remote (.pair deviceId name deviceType) peer).1 =
        SyncEndpoint.pairingReply (SyncPairing.dispatchPair env m.now m.refuse m.secret remote
          deviceId name peer.wire).1 ∧
      (SyncEndpoint.dispatch env q lib sqlText m remote (.pair deviceId name deviceType) peer).2.wire =
        (SyncPairing.dispatchPair env m.now m.refuse m.secret remote deviceId name peer.wire).2 := by
    intro peer hself
    rw [SyncEndpoint.dispatch, if_neg hself]
    exact ⟨rfl, rfl⟩
  exact answered htables hpick

end Call

/-! ## What the reader did -/

section Reader

variable {env : Env} {q : SyncPrivacy.LogQueries env} {lib : SerdeJson}
variable {sqlText : SqlRows.SqlError → String} {order : SyncPairing.MapOrder} {ids : NodeIds}
variable {node claim device token : String} {s : Endpoint} {run : List Action}

/-- The claim is remembered as rejected. -/
def Denied (node claim : String) (wire : WireState) : Prop :=
  ∃ d, wire.decisions.lookup claim = some d ∧ d.approved = false ∧ d.nodeId = node

/-- The step rejects the claim, for which the node waits. -/
def Denies (node claim : String) (s : Endpoint) : Action → Prop
  | .decide (.reject _ _ nodeId) => nodeId = node ∧ ∃ device, Waiting node claim device s.wire
  | _ => False

/-- A claim is denied since its rejection. -/
theorem denied_step (s : Endpoint) (a : Action)
    (h : Denied node claim (SyncEndpoint.step env q lib sqlText order ids s a).2.wire) :
    Denies node claim s a ∨ Denied node claim s.wire := by
  cases a with
  | own w => exact Or.inr h
  | request m remote request =>
      have h : Denied node claim
        (SyncEndpoint.dispatch env q lib sqlText m remote request s).2.wire := h
      refine Or.inr ?_
      rcases SyncEndpoint.wire_dispatch_cases env q lib sqlText m remote request s with
        hwire | ⟨deviceId, name, deviceType, rfl, hwire⟩ | ⟨polled, _, hwire⟩
      · rw [hwire] at h
        exact h
      · rw [hwire, Denied, SyncTokens.dispatchPair_same.2] at h
        exact h
      · rw [hwire] at h
        obtain ⟨d, hd, hdenied⟩ := h
        exact ⟨d, SyncTokens.dispatchPairStatus_cases.2 _ _ hd, hdenied⟩
  | decide decision =>
      have h : Denied node claim (SyncEndpoint.settle env order ids s.wire decision) := h
      cases decision with
      | approve now refuse newId issued nodeId =>
          rw [SyncEndpoint.settle] at h
          refine Or.inr ?_
          cases hrun : SyncPairing.approveClaim env order now refuse newId issued nodeId s.wire with
          | mk r wire' =>
              rw [hrun] at h
              rcases SyncPairing.approveRun_of_approveClaim hrun with ⟨rfl, _⟩ | ⟨row, hrow, hrun⟩
              · exact h
              cases hrun with
              | refused e => exact h
              | described e => exact h
              | tokenSet e paired hok => exact h
              | decided paired hok =>
                  obtain ⟨d, hd, hdenied⟩ := h
                  rcases SyncEndpoint.decision_of_decided hd with ⟨_, rfl⟩ | hold
                  · cases hdenied.1
                  · exact ⟨d, hold, hdenied⟩
      | reject now refuse nodeId =>
          rw [SyncEndpoint.settle] at h
          cases hrun : SyncPairing.rejectClaim env order now refuse nodeId s.wire with
          | mk r wire' =>
              rw [hrun] at h
              rcases SyncPairing.rejectClaim_run hrun with ⟨rfl, _⟩ | ⟨row, hrow, _, rfl⟩
              · exact Or.inr h
              obtain ⟨d, hd, hdenied⟩ := h
              rcases SyncEndpoint.decision_of_decided hd with ⟨hwaiter, rfl⟩ | hold
              · obtain ⟨_, rfl⟩ := hdenied
                exact Or.inl ⟨rfl, row.deviceId, hwaiter, row, hrow, rfl⟩
              · exact Or.inr ⟨d, hold, hdenied⟩
      | claim refuse x params =>
          rw [SyncEndpoint.settle, Denied, SyncEndpoint.claimPeer_maps.2.2] at h
          exact Or.inr h
      | promote => exact Or.inr h
      | revoke deviceId =>
          rw [SyncEndpoint.settle, SyncPairing.revoke] at h
          split at h <;> exact Or.inr h

/-- What is decided in the start of a run is decided in the run. -/
theorem Decided.append {decided : Decision → Option DbId → Prop}
    (h : Decided env node claim run decided) (more : List Action) :
    Decided env node claim (run ++ more) decided := by
  obtain ⟨pre, m, deviceId, name, deviceType, mid, decision, post, rfl, hrest⟩ := h
  refine ⟨pre, m, deviceId, name, deviceType, mid, decision, post ++ more, ?_, hrest⟩
  rw [List.append_assoc, List.cons_append, List.append_assoc, List.cons_append]

/-- A decision for a node that waits is one of a claim that it filed. -/
theorem decided_of_waiting {before post : List Action} {decision : Decision} {id : Option DbId}
    {decided : Decision → Option DbId → Prop}
    (h : Waiting node claim id
      (final (SyncEndpoint.step env q lib sqlText order ids) (restarted s) before).wire)
    (hdecided : id.isSome → decided decision id) :
    Decided env node claim (before ++ .decide decision :: post) decided := by
  rcases since (fun s : Endpoint => Waiting node claim id s.wire)
      (fun s a h => (SyncEndpoint.waiting_step s a h).imp_right fun hold => ⟨hold, fun h => h⟩) before h
      with ⟨⟨hwaiter, _⟩, _⟩ | ⟨pre, a, mid, rfl, hfiles, _⟩
  · cases hwaiter
  cases a with
  | own w => exact hfiles.elim
  | decide decision => exact hfiles.elim
  | request m remote request =>
      cases request with
      | pair deviceId name deviceType =>
          obtain ⟨rfl, hclaim, rfl, hsome⟩ := hfiles
          refine ⟨pre, m, deviceId, name, deviceType, mid, decision, post, ?_, hclaim, hsome,
            hdecided hsome⟩
          rw [List.append_assoc, List.cons_append]
      | _ => exact hfiles.elim

/-- A token that is told was issued by the approval of a claim of this node. -/
theorem approved_of_told (h : SyncEndpoint.Told node claim device token
    (final (SyncEndpoint.step env q lib sqlText order ids) (restarted s) run).wire) :
    Decided env node claim run (Approves env node device token) := by
  rcases since (fun s : Endpoint => SyncEndpoint.Told node claim device token s.wire)
      (fun s a h => (SyncEndpoint.remembered_step s a h).imp_right fun hold => ⟨hold, id⟩) run h with
    ⟨⟨d, hd, _⟩, _⟩ | ⟨before, a, post, rfl, hdecides, _⟩
  · cases hd
  cases a with
  | own w => exact hdecides.elim
  | request m remote request => exact hdecides.elim
  | decide decision =>
      cases decision with
      | approve now refuse newId issued nodeId =>
          obtain ⟨rfl, htoken, row, _, hdevice, hwaiting⟩ := hdecides
          refine decided_of_waiting hwaiting fun hsome => ⟨rfl, ?_, htoken⟩
          obtain ⟨id, hid⟩ := Option.isSome_iff_exists.1 hsome
          rw [SyncPairing.PendingPairing.device, hid, Option.getD_some] at hdevice
          rw [hid, Option.map_some, hdevice]
      | _ => exact hdecides.elim

/-- A claim that is denied was rejected after this node filed it. -/
theorem rejected_of_denied (h : Denied node claim
    (final (SyncEndpoint.step env q lib sqlText order ids) (restarted s) run).wire) :
    Decided env node claim run (Rejects node) := by
  rcases since (fun s : Endpoint => Denied node claim s.wire)
      (fun s a h => (denied_step s a h).imp_right fun hold => ⟨hold, id⟩) run h with
    ⟨⟨d, hd, _⟩, _⟩ | ⟨before, a, post, rfl, hdenies, _⟩
  · cases hd
  cases a with
  | own w => exact hdenies.elim
  | request m remote request => exact hdenies.elim
  | decide decision =>
      cases decision with
      | reject now refuse nodeId =>
          obtain ⟨rfl, device, hwaiting⟩ := hdenies
          exact decided_of_waiting hwaiting fun _ => rfl
      | _ => exact hdenies.elim

end Reader

/-! ## The calls, whole -/

section Calls

variable {env : Env} {q : SyncPrivacy.LogQueries env} {lib : SerdeJson}
variable {sqlText : SqlRows.SqlError → String} {order : SyncPairing.MapOrder} {ids : NodeIds}
variable {remote : String} {reach : String → Except String Unit}
variable {files : String → Option (List UInt8)} {dropped : Ending} {debug : Response → String}
variable {client : Client} {s : Endpoint}

/-- The peer after a wait has gone through its course. -/
theorem snd_awaitDecision : ∀ (visits : List Visit) (claim : String) (peer : Endpoint),
    (awaitDecision env q lib sqlText order ids remote reach files dropped debug client visits claim
      peer).2 = final (SyncEndpoint.step env q lib sqlText order ids) peer
        (waitCourse env q lib sqlText order ids remote reach files dropped debug client visits claim
          peer) := by
  intro visits
  induction visits with
  | nil => exact fun _ _ => rfl
  | cons v rest ih =>
      intro claim peer
      rw [awaitDecision, waitCourse, final_append, final_append]
      rw [← perform_snd debug (Operation.pairStatus claim) rfl]
      generalize (Operation.pairStatus claim).perform lib
        (endpointLink env q lib sqlText v.m remote ids reach files dropped) debug client
        (final (SyncEndpoint.step env q lib sqlText order ids) peer v.meanwhile) = polled
      obtain ⟨result, peer'⟩ := polled
      cases result with
      | error e => rfl
      | ok outcome =>
          cases outcome with
          | pending next => exact ih next peer'
          | paired deviceId sessionToken => rfl
          | refused reason => rfl

/-- A decision that a poll reports was made in the run. -/
theorem told_of_decision {run : List Action} {claim : String} {d : SyncPairing.DecidedPairing}
    {more : List Action} {wire : WireState}
    (hd : (final (SyncEndpoint.step env q lib sqlText order ids) (restarted s)
      run).wire.decisions.lookup claim = some d) (hnode : d.nodeId = remote) :
    (∀ deviceId token, d.response = .paired deviceId token →
      Told env remote claim (run ++ more) wire (.paired deviceId token)) ∧
    ∀ reason, d.response = .refused reason →
      Told env remote claim (run ++ more) wire (.refused reason) := by
  rw [SyncPairing.DecidedPairing.response]
  split
  · next happroved =>
      refine ⟨fun deviceId token h => ?_, fun _ h => by cases h⟩
      obtain ⟨hdevice, htoken⟩ := SyncPairing.Response.paired.inj h
      exact (approved_of_told ⟨d, hd, happroved, hnode, hdevice, htoken⟩).append more
  · next hdenied =>
      refine ⟨fun _ _ h => (by cases h), fun reason h =>
        Or.inr ⟨(SyncPairing.Response.refused.inj h).symm, ?_⟩⟩
      exact (rejected_of_denied ⟨d, hd, Bool.eq_false_iff.2 hdenied, hnode⟩).append more

/-- **A WAIT** ends with what the reader did, or the node still waits for its claim. -/
theorem told_awaitDecision : ∀ (visits : List Visit) (claim : String) (run : List Action)
    (r : SyncPairingResult),
    visits ≠ [] ∨ Waits remote claim
      (final (SyncEndpoint.step env q lib sqlText order ids) (restarted s) run).wire →
    (awaitDecision env q lib sqlText order ids remote reach files dropped debug client visits claim
      (final (SyncEndpoint.step env q lib sqlText order ids) (restarted s) run)).1 = .ok r →
    Told env remote claim
      (run ++ waitCourse env q lib sqlText order ids remote reach files dropped debug client visits
        claim (final (SyncEndpoint.step env q lib sqlText order ids) (restarted s) run))
      (awaitDecision env q lib sqlText order ids remote reach files dropped debug client visits claim
        (final (SyncEndpoint.step env q lib sqlText order ids) (restarted s) run)).2.wire r := by
  intro visits
  induction visits with
  | nil =>
      intro claim run r hwaits h
      cases h
      exact ⟨rfl, hwaits.resolve_left fun hne => hne rfl⟩
  | cons v rest ih =>
      intro claim run r _ h
      rw [awaitDecision, ← final_append] at h
      rw [awaitDecision, waitCourse, ← final_append, ← List.append_assoc, ← List.append_assoc]
      have hstep := (perform_snd debug (Operation.pairStatus claim) rfl).trans
        (@final_append _ _ _ (SyncEndpoint.step env q lib sqlText order ids) (restarted s)
          (run ++ v.meanwhile) (requested env q lib sqlText ids remote reach files dropped client v.m
            (.pairStatus claim))).symm
      cases hresult : ((Operation.pairStatus claim).perform lib
          (endpointLink env q lib sqlText v.m remote ids reach files dropped) debug client
          (final (SyncEndpoint.step env q lib sqlText order ids) (restarted s)
            (run ++ v.meanwhile))).1 with
      | error e =>
          rw [hresult] at h
          cases h
      | ok outcome =>
          obtain ⟨hanswer, hwire⟩ := polled hresult
          rw [hresult] at h
          cases outcome with
          | pending next =>
              rcases poll_cases hanswer with ⟨hclaim, hwaits⟩ | ⟨d, _, _, hresponse⟩
              · cases hclaim
                rw [hstep] at h hwire ⊢
                refine ih claim _ r (Or.inr ?_) h
                rw [Waits, hwire, SyncEndpoint.pairStatus_tables.1]
                exact hwaits
              · rw [SyncPairing.DecidedPairing.response] at hresponse
                split at hresponse <;> cases hresponse
          | paired deviceId token =>
              rcases poll_cases hanswer with ⟨hclaim, _⟩ | ⟨d, hd, hnode, hresponse⟩
              · cases hclaim
              · cases h
                rw [List.append_assoc]
                exact (told_of_decision hd hnode).1 _ _ hresponse.symm
          | refused reason =>
              rcases poll_cases hanswer with ⟨hclaim, _⟩ | ⟨d, hd, hnode, hresponse⟩
              · cases hclaim
              · cases h
                rw [List.append_assoc]
                exact (told_of_decision hd hnode).2 _ hresponse.symm

variable {deviceId name deviceType : String} {v : Visit} {visits : List Visit}

theorem snd_pairSyncDevice (peer : Endpoint) :
    (pairSyncDevice env q lib sqlText order ids remote reach files dropped debug client deviceId name
      deviceType v visits peer).2 = final (SyncEndpoint.step env q lib sqlText order ids) peer
        (pairCourse env q lib sqlText order ids remote reach files dropped debug client deviceId name
          deviceType v visits peer) := by
  rw [pairSyncDevice, pairCourse, final_append, final_append]
  rw [← perform_snd debug (Operation.pair deviceId name deviceType) rfl]
  generalize (Operation.pair deviceId name deviceType).perform lib
    (endpointLink env q lib sqlText v.m remote ids reach files dropped) debug client
    (final (SyncEndpoint.step env q lib sqlText order ids) peer v.meanwhile) = filed
  obtain ⟨result, peer'⟩ := filed
  cases result with
  | error e => rfl
  | ok outcome =>
      cases outcome with
      | pending claim => exact snd_awaitDecision visits claim peer'
      | paired deviceId sessionToken => rfl
      | refused reason => rfl

theorem told_pairSyncDevice {r : SyncPairingResult}
    (h : (pairSyncDevice env q lib sqlText order ids remote reach files dropped debug client deviceId
      name deviceType v visits (restarted s)).1 = .ok r) :
    Told env remote (v.m.secret.text env)
      (pairCourse env q lib sqlText order ids remote reach files dropped debug client deviceId name
        deviceType v visits (restarted s))
      (pairSyncDevice env q lib sqlText order ids remote reach files dropped debug client deviceId
        name deviceType v visits (restarted s)).2.wire r := by
  rw [pairSyncDevice] at h
  rw [pairSyncDevice, pairCourse, ← List.append_assoc]
  have hstep := (perform_snd debug (Operation.pair deviceId name deviceType) rfl).trans
    (@final_append _ _ _ (SyncEndpoint.step env q lib sqlText order ids) (restarted s) v.meanwhile
      (requested env q lib sqlText ids remote reach files dropped client v.m
        (.pair deviceId name deviceType))).symm
  cases hresult : ((Operation.pair deviceId name deviceType).perform lib
      (endpointLink env q lib sqlText v.m remote ids reach files dropped) debug client
      (final (SyncEndpoint.step env q lib sqlText order ids) (restarted s) v.meanwhile)).1 with
  | error e =>
      rw [hresult] at h
      cases h
  | ok outcome =>
      obtain ⟨hanswer, hwire⟩ := filed hresult
      rw [hresult] at h
      cases outcome with
      | pending claim =>
          rcases file_cases hanswer with hrefused | ⟨hclaim, hwaits⟩
          · cases hrefused
          · cases hclaim
            rw [hstep] at h hwire ⊢
            refine told_awaitDecision visits _ _ r (Or.inr ?_) h
            rw [hwire]
            exact hwaits
      | paired device token =>
          rcases file_cases hanswer with hrefused | ⟨hpending, _⟩
          · cases hrefused
          · cases hpending
      | refused reason =>
          rcases file_cases hanswer with hrefused | ⟨hpending, _⟩
          · cases h
            exact Or.inl (SyncPairing.Response.refused.inj hrefused)
          · cases hpending

end Calls

/-- What the phone's calls say of a peer that was just started. -/
structure FollowsReader (env : Env) (q : SyncPrivacy.LogQueries env) (lib : SerdeJson)
    (sqlText : SqlRows.SqlError → String) (order : SyncPairing.MapOrder) (ids : NodeIds)
    (remote : String) (reach : String → Except String Unit)
    (files : String → Option (List UInt8)) (dropped : Ending) (debug : Response → String)
    (client : Client) (s : Endpoint) : Prop where
  /-- What `pair_sync_device` returns, of the claim that it filed. -/
  filed : ∀ deviceId name deviceType v visits r,
    let called := pairSyncDevice env q lib sqlText order ids remote reach files dropped debug client
      deviceId name deviceType v visits (restarted s)
    let run := pairCourse env q lib sqlText order ids remote reach files dropped debug client
      deviceId name deviceType v visits (restarted s)
    called.2 = final (SyncEndpoint.step env q lib sqlText order ids) (restarted s) run ∧
      (called.1 = .ok r → Told env remote (v.m.secret.text env) run called.2.wire r)
  /-- What `sync_pairing_status` returns of a claim, after any run, if it polls at all. -/
  resumed : ∀ before claim visits r,
    let peer := final (SyncEndpoint.step env q lib sqlText order ids) (restarted s) before
    let called := syncPairingStatus env q lib sqlText order ids remote reach files dropped debug
      client claim visits peer
    let run := before ++ waitCourse env q lib sqlText order ids remote reach files dropped debug
      client visits claim peer
    called.2 = final (SyncEndpoint.step env q lib sqlText order ids) (restarted s) run ∧
      (visits ≠ [] → called.1 = .ok r → Told env remote claim run called.2.wire r)

/-- **THE PHONE IS TOLD WHAT THE READER DID.** -/
theorem pairing_calls_follow_the_reader (env : Env) (q : SyncPrivacy.LogQueries env)
    (lib : SerdeJson) (sqlText : SqlRows.SqlError → String) (order : SyncPairing.MapOrder)
    (ids : NodeIds) (remote : String) (reach : String → Except String Unit)
    (files : String → Option (List UInt8)) (dropped : Ending) (debug : Response → String)
    (client : Client) (s : Endpoint) :
    FollowsReader env q lib sqlText order ids remote reach files dropped debug client s where
  filed deviceId name deviceType v visits r := by
    exact ⟨snd_pairSyncDevice (restarted s), told_pairSyncDevice⟩
  resumed before claim visits r := by
    intro peer called run
    refine ⟨?_, fun hne h => told_awaitDecision visits claim before r (Or.inl hne) h⟩
    rw [final_append]
    exact snd_awaitDecision visits claim peer

end SyncRemotePairing
