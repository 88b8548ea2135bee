import Livtet.Tokens

/-! # Claiming a peer, and dialling it

    The other direction of a pairing: this installation files the claim, the peer
    issues the token, and the token is what later calls to the peer present. The row
    is keyed by the device id the peer asserts in its identity frame, so it may be a
    row that an approval wrote.

    `outbound` is meant to mark the rows that hold such a token. An approval sets it
    too, and a claim sets it one statement before the token. -/

namespace SyncPeers

open SyncStore SyncPairing Maps

/-- The texts of node ids: `EndpointId::from_str` takes no blank text. -/
structure NodeIds where
  parses : String → Bool
  parses_empty : parses "" = false

/-! ## The table -/

section Table

/-- Session tokens stay unique where every one of them was on the row before. -/
theorem tokens_of_kept (t : PairedDevices) {rows : Map DbId PairedDevice}
    (h : ∀ a d token, rows.lookup a = some d → d.sessionToken = some token →
      ∃ d', t.rows.lookup a = some d' ∧ d'.sessionToken = some token) :
    ∀ a b d e token, rows.lookup a = some d → rows.lookup b = some e →
      d.sessionToken = some token → e.sessionToken = some token → a = b := by
  intro a b d e token ha hb hd he
  obtain ⟨d', ha', hd'⟩ := h a d token ha hd
  obtain ⟨e', hb', he'⟩ := h b e token hb he
  exact t.tokens a b d' e' token ha' hb' hd' he'

/-- The row with the peer's token and node id. -/
def withPeerToken (row : PairedDevice) (token nodeId : String) : PairedDevice :=
  { row with peerSessionToken := some token, nodeId := some nodeId }

/-- `UPDATE paired_devices SET peer_session_token = ?, node_id = ? WHERE device_id = ?`. -/
def setPeerToken (t : PairedDevices) (id : DbId) (token nodeId : String) : PairedDevices :=
  match hrow : t.rows.lookup id with
  | none => t
  | some row =>
      { rows := t.rows.insert id (withPeerToken row token nodeId)
        tokens := by
          refine tokens_of_kept t fun a d tok ha hd => ?_
          rcases lookup_insert.1 ha with ⟨rfl, rfl⟩ | ⟨_, ha⟩
          · exact ⟨row, hrow, hd⟩
          · exact ⟨d, ha, hd⟩ }

theorem lookup_setPeerToken {t : PairedDevices} {id id' : DbId} {token nodeId : String}
    {row : PairedDevice} :
    (setPeerToken t id token nodeId).rows.lookup id' = some row ↔
      (id' = id ∧ ∃ old, t.rows.lookup id = some old ∧ row = withPeerToken old token nodeId) ∨
      (id' ≠ id ∧ t.rows.lookup id' = some row) := by
  rw [setPeerToken]
  split
  · next hnone =>
      constructor
      · intro h
        refine Or.inr ⟨fun hid => ?_, h⟩
        rw [hid, hnone] at h
        cases h
      · rintro (⟨_, old, hold, _⟩ | ⟨_, h⟩)
        · cases hnone.symm.trans hold
        · exact h
  · next old hold =>
      rw [lookup_insert]
      constructor
      · rintro (⟨hid, hrow⟩ | h)
        · exact Or.inl ⟨hid, old, hold, hrow⟩
        · exact Or.inr h
      · rintro (⟨hid, old', hold', hrow⟩ | h)
        · cases Option.some.inj (hold.symm.trans hold')
          exact Or.inl ⟨hid, hrow⟩
        · exact Or.inr h

/-- The peer's token takes the row's own token along to the node. -/
theorem holds_setPeerToken {t : PairedDevices} {id id' : DbId}
    {token nodeId token' node' : String} :
    (setPeerToken t id token nodeId).Holds id' token' node' ↔
      (id' = id ∧ node' = nodeId ∧
        ∃ old, t.rows.lookup id = some old ∧ old.sessionToken = some token') ∨
      (id' ≠ id ∧ t.Holds id' token' node') := by
  constructor
  · rintro ⟨row, hlookup, htoken, hnode⟩
    rcases lookup_setPeerToken.1 hlookup with ⟨hid, old, hold, rfl⟩ | ⟨hne, hlookup⟩
    · exact Or.inl ⟨hid, (Option.some.inj hnode).symm, old, hold, htoken⟩
    · exact Or.inr ⟨hne, row, hlookup, htoken, hnode⟩
  · rintro (⟨rfl, rfl, old, hold, htoken⟩ | ⟨hne, row, hlookup, hrow⟩)
    · exact ⟨_, lookup_setPeerToken.2 (Or.inl ⟨rfl, old, hold, rfl⟩), htoken, rfl⟩
    · exact ⟨row, lookup_setPeerToken.2 (Or.inr ⟨hne, hlookup⟩), hrow⟩

/-- A text column that is neither `NULL` nor `''`. -/
def filled (column : Option String) : Bool := column.any fun text => text != ""

/-- The row after `promote_mutual_pairings`. -/
def promoted (row : PairedDevice) : PairedDevice :=
  if row.outbound = false ∧ filled row.sessionToken ∧ filled row.nodeId then
    { row with outbound := true }
  else row

@[simp] theorem promoted_sessionToken (row : PairedDevice) :
    (promoted row).sessionToken = row.sessionToken := by
  rw [promoted]
  split <;> rfl

@[simp] theorem promoted_peerSessionToken (row : PairedDevice) :
    (promoted row).peerSessionToken = row.peerSessionToken := by
  rw [promoted]
  split <;> rfl

@[simp] theorem promoted_nodeId (row : PairedDevice) : (promoted row).nodeId = row.nodeId := by
  rw [promoted]
  split <;> rfl

/-- `promote_mutual_pairings`. -/
def promoteMutualPairings (t : PairedDevices) : PairedDevices where
  rows := mapValues promoted t.rows
  tokens := by
    refine tokens_of_kept t fun a d token ha hd => ?_
    obtain ⟨old, hold, rfl⟩ := lookup_mapValues.1 ha
    exact ⟨old, hold, by rwa [promoted_sessionToken] at hd⟩

theorem holds_promoteMutualPairings {t : PairedDevices} {id : DbId} {token nodeId : String} :
    (promoteMutualPairings t).Holds id token nodeId ↔ t.Holds id token nodeId := by
  constructor
  · rintro ⟨row, hlookup, htoken, hnode⟩
    obtain ⟨old, hold, rfl⟩ := lookup_mapValues.1 hlookup
    rw [promoted_sessionToken] at htoken
    rw [promoted_nodeId] at hnode
    exact ⟨old, hold, htoken, hnode⟩
  · rintro ⟨row, hlookup, htoken, hnode⟩
    refine ⟨promoted row, lookup_mapValues.2 ⟨row, hlookup, rfl⟩, ?_, ?_⟩
    · rw [promoted_sessionToken]
      exact htoken
    · rw [promoted_nodeId]
      exact hnode

end Table

/-! ## Claiming -/

inductive PairingOutcome
  | pending (claim : String)
  | paired (deviceId sessionToken : String)
  | refused (reason : String)
deriving DecidableEq, Repr

structure PairingClaimParams where
  nodeId : String
  deviceName : Option String
deriving DecidableEq, Repr

/-- What this side meets while it claims a peer: whether discovery is bound, and the
    outcome of each call to the peer. -/
structure Exchange where
  bound : Bool
  /-- The device id of the identity frame. -/
  identity : Except String String
  pair : Except String PairingOutcome
  /-- The polls before the deadline. -/
  polls : List (Except String PairingOutcome)

section Claim

variable (env : Env) (ids : NodeIds)

/-- The poll loop of `claim_peer`. -/
def pollDecision : List (Except String PairingOutcome) → Except String String
  | [] => .error "the pairing was not decided in time"
  | .ok (.paired _ sessionToken) :: _ =>
      if sessionToken = "" then .error "approval carried no session token" else .ok sessionToken
  | .ok (.refused reason) :: _ => .error ("pairing was refused: " ++ reason)
  | .ok (.pending _) :: polls => pollDecision polls
  | .error _ :: polls => pollDecision polls

/-- `Client::identity`, whose dial parses the trimmed node id. -/
def dialIdentity (nodeId : String) (identity : Except String String) : Except String String :=
  if ids.parses (trim nodeId) then identity else .error ("not a node id: " ++ nodeId)

/-- `claim_peer` up to its first write: the peer's device id and the token it issued. -/
def negotiate (x : Exchange) (params : PairingClaimParams) : Except String (DbId × String) :=
  if x.bound = false then .error "peer discovery is not bound, so pairing cannot dial"
  else match dialIdentity ids params.nodeId x.identity with
    | .error e => .error ("peer identity: " ++ e)
    | .ok deviceId =>
        match parseId env deviceId with
        | none => .error ("invalid peer device id: " ++ deviceId)
        | some peerDeviceId =>
            match x.pair with
            | .error e => .error ("pairing claim: " ++ e)
            | .ok (.refused reason) => .error ("pairing was refused: " ++ reason)
            | .ok (.paired _ _) =>
                .error "pairing claim: the peer answered with a decision and no claim"
            | .ok (.pending _) => (pollDecision x.polls).map fun token => (peerDeviceId, token)

/-- `claim_peer`, without the pull that follows it. -/
def claimPeer (refuse : Nat → Option String) (x : Exchange) (params : PairingClaimParams)
    (s : WireState) : Except String Unit × WireState :=
  match negotiate env ids x params with
  | .error e => (.error e, s)
  | .ok (peerDeviceId, sessionToken) =>
      match refuse 0 with
      | some e => (.error ("storing paired device: " ++ e), s)
      | none =>
          let s := { s with paired := s.paired.upsert peerDeviceId params.deviceName }
          match refuse 1 with
          | some e => (.error ("storing the peer's session token: " ++ e), s)
          | none =>
              (.ok (), { s with
                paired := setPeerToken s.paired peerDeviceId sessionToken params.nodeId })

end Claim

/-! ## Dialling -/

/-- `outbound_device_ids`. -/
def outboundDeviceIds (s : WireState) : List DbId :=
  (s.paired.rows.entries.filter fun e => e.2.outbound).map Sigma.fst

/-- A client for the node that presents the token. -/
structure Peer where
  nodeId : String
  token : String
deriving DecidableEq, Repr

/-- `Peer::connect`. -/
def connect (bound : Bool) (nodeId token : String) : Except String Peer :=
  let nodeId := trim nodeId
  if nodeId = "" then .error "the peer has no node id to dial"
  else if bound then .ok { nodeId, token }
  else .error "peer discovery is not bound, so the peer cannot be dialled"

/-- `peer_for`. -/
def peerFor (bound : Bool) (s : WireState) (id : DbId) : Except String Peer :=
  match s.paired.rows.lookup id with
  | none => .error "device is not paired"
  | some row =>
      if row.outbound = false then .error "device was not claimed by this installation"
      else match row.peerSessionToken with
        -- the token column is read as text, so `NULL` does not decode
        | none => .error ("session token lookup: error occurred while decoding column 0: " ++
            "unexpected null; try decoding as an `Option`")
        | some token => connect bound (row.nodeId.getD "") token

/-! ## The system -/

structure State where
  wire : WireState
  now : Instant
  /-- The tokens minted so far, each with the node of its approval. -/
  minted : List (DbId × String)

inductive Action
  | pair (refuse : Nat → Option String) (secret : DbId) (remote deviceId name : String)
  | approve (refuse : Nat → Option String) (newId token : DbId) (nodeId : String)
  | reject (refuse : Nat → Option String) (nodeId : String)
  | claim (refuse : Nat → Option String) (x : Exchange) (params : PairingClaimParams)
  | promote
  | revoke (deviceId : String)
  | tick (elapsed : Nat)

section System

variable (env : Env) (order : MapOrder) (ids : NodeIds)

def step (s : State) : Action → State
  | .pair refuse secret remote deviceId name =>
      -- the remote of a connection is a node id
      if ids.parses (trim remote) then
        { s with wire := (dispatchPair env s.now refuse secret remote deviceId name s.wire).2 }
      else s
  | .approve refuse newId token nodeId =>
      let wire := (approveClaim env order s.now refuse newId token nodeId s.wire).2
      -- the token is minted once the claim's row was found
      match s.wire.pending.lookup nodeId with
      | none => { s with wire }
      | some _ => { s with wire, minted := (token, nodeId) :: s.minted }
  | .reject refuse nodeId =>
      { s with wire := (rejectClaim env order s.now refuse nodeId s.wire).2 }
  | .claim refuse x params =>
      { s with wire := (claimPeer env ids refuse x params s.wire).2 }
  | .promote => { s with wire := { s.wire with paired := promoteMutualPairings s.wire.paired } }
  | .revoke deviceId => { s with wire := (revoke env deviceId s.wire).2 }
  | .tick elapsed => { s with now := s.now + elapsed }

end System

/-! ## Everything a claim can do -/

/-- A claim stops before its first write, after the device is described, or stores the
    token that was negotiated. -/
inductive ClaimRun (env : Env) (ids : NodeIds) (refuse : Nat → Option String) (x : Exchange)
    (params : PairingClaimParams) (s : WireState) : WireState → Prop
  | failed : ClaimRun env ids refuse x params s s
  | described (id : DbId) (token : String) (hdone : negotiate env ids x params = .ok (id, token))
      (hrefused : refuse 1 ≠ none) :
      ClaimRun env ids refuse x params s
        { s with paired := s.paired.upsert id params.deviceName }
  | stored (id : DbId) (token : String) (hdone : negotiate env ids x params = .ok (id, token))
      (hwritten : refuse 0 = none ∧ refuse 1 = none) :
      ClaimRun env ids refuse x params s
        { s with
          paired := setPeerToken (s.paired.upsert id params.deviceName) id token params.nodeId }

theorem claimRun_of_claimPeer {env : Env} {ids : NodeIds} {refuse : Nat → Option String}
    {x : Exchange} {params : PairingClaimParams} {s : WireState} :
    ClaimRun env ids refuse x params s (claimPeer env ids refuse x params s).2 := by
  rw [claimPeer]
  split
  · exact .failed
  next id token hdone =>
    split
    · exact .failed
    next hinsert =>
      dsimp only
      split
      · next hrefused => exact .described id token hdone (by simp [hrefused])
      · next hupdate => exact .stored id token hdone ⟨hinsert, hupdate⟩

/-- The node id of a completed negotiation was dialled. -/
theorem parses_of_negotiate {env : Env} {ids : NodeIds} {x : Exchange}
    {params : PairingClaimParams} {id : DbId} {token : String}
    (h : negotiate env ids x params = .ok (id, token)) :
    ids.parses (trim params.nodeId) = true := by
  rw [negotiate] at h
  split at h
  · cases h
  by_cases hparses : ids.parses (trim params.nodeId) = true
  · exact hparses
  · rw [dialIdentity, if_neg hparses] at h
    cases h

/-! ## A small installation -/

/-- Node ids in hex. -/
def hexNodeIds : NodeIds where
  parses s := decide (s.length = 64) &&
    s.toList.all fun c => ('0' ≤ c && c ≤ '9') || ('a' ≤ c && c ≤ 'f')
  parses_empty := by decide

def sampleNode (d : Char) : String := String.ofList ('0' :: d :: List.replicate 62 '0')

/-- A daemon without rows or claims. -/
def startState : State where
  wire := SyncTokens.startState.wire
  now := 0
  minted := []

/-- The peer at node 1 names the device in its identity frame and issues the token `t`. -/
def willingPeer (device : DbId) : Exchange where
  bound := true
  identity := .ok (device.text Env.reference)
  pair := .ok (.pending "c")
  polls := [.ok (.paired "" "t")]

def claimNode1 : PairingClaimParams where
  nodeId := sampleNode '1'
  deviceName := none

end SyncPeers
