import Livtet.Peers

/-! # Every outbound device can be dialled

    A row that is marked outbound is pulled from, so it needs the token the peer
    issued and a node id. Claiming a peer supplies both, in its second statement. An
    approval marks the row without supplying the token, so it has to find a row that
    was claimed before; so has a claim whose second statement is refused. -/

namespace SyncDialling

open SyncStore SyncPairing SyncPeers Maps

section Statement

variable (env : Env) (ids : NodeIds)

/-- The row has the peer's token and a node id. -/
def Dialable (row : PairedDevice) : Prop :=
  (∃ node, row.nodeId = some node ∧ node ≠ "") ∧ row.peerSessionToken ≠ none

/-- Every outbound row is dialable, and dialling any device that is listed as outbound
    gets past its row. -/
def AllDialable (s : State) : Prop :=
  (∀ id row, s.wire.paired.rows.lookup id = some row → row.outbound = true → Dialable row) ∧
  ∀ id ∈ outboundDeviceIds s.wire, ∃ peer, peerFor true s.wire id = .ok peer

/-- An approval, and a claim whose token is not stored, only describe a device that has
    a row. -/
def Guard (s : State) : Action → Prop
  | .approve _ newId _ nodeId => ∀ row, s.wire.pending.lookup nodeId = some row →
      row.device newId ∈ s.wire.paired.rows
  | .claim refuse x params => refuse 1 ≠ none →
      ∀ id token, negotiate env ids x params = .ok (id, token) → id ∈ s.wire.paired.rows
  | _ => True

/-- The row was claimed: it has the peer's token, and a node id that can be dialled. -/
def Claimed (row : PairedDevice) : Prop :=
  (∃ node, row.nodeId = some node ∧ ids.parses (trim node) = true) ∧ row.peerSessionToken ≠ none

structure Inv (s : State) : Prop where
  claimed : ∀ id row, s.wire.paired.rows.lookup id = some row → Claimed ids row
  /-- A claim is filed under the node id of its connection. -/
  nodes : ∀ node row, s.wire.pending.lookup node = some row → ids.parses (trim node) = true

end Statement

variable {env : Env} {order : MapOrder} {ids : NodeIds}

theorem trim_ne_empty_of_parses {node : String} (h : ids.parses (trim node) = true) :
    trim node ≠ "" := by
  intro hempty
  rw [hempty, ids.parses_empty] at h
  cases h

theorem trim_empty : trim "" = "" := rfl

theorem allDialable_of_inv {s : State} (hs : Inv ids s) : AllDialable s := by
  constructor
  · intro id row hrow _
    obtain ⟨⟨node, hnode, hparses⟩, htoken⟩ := hs.claimed id row hrow
    refine ⟨⟨node, hnode, ?_⟩, htoken⟩
    rintro rfl
    exact trim_ne_empty_of_parses hparses trim_empty
  · intro id hid
    obtain ⟨⟨id', row⟩, hmem, rfl⟩ := List.mem_map.1 hid
    obtain ⟨hentry, houtbound⟩ := List.mem_filter.1 hmem
    have hrow : s.wire.paired.rows.lookup id' = some row := AList.mem_lookup_iff.2 hentry
    have houtbound : row.outbound = true := houtbound
    obtain ⟨⟨node, hnode, hparses⟩, htoken⟩ := hs.claimed id' row hrow
    obtain ⟨token, htoken⟩ := Option.ne_none_iff_exists'.1 htoken
    refine ⟨{ nodeId := trim node, token }, ?_⟩
    simp only [peerFor, hrow, houtbound, htoken, hnode, Option.getD_some, connect,
      if_neg (trim_ne_empty_of_parses hparses)]
    rfl

/-! ## What keeps a row claimed -/

/-- Describing a device that has a row keeps what was claimed. -/
theorem claimed_upsert {t : PairedDevices} {id : DbId} {name : Option String}
    (ht : ∀ id row, t.rows.lookup id = some row → Claimed ids row) (hid : id ∈ t.rows) :
    ∀ id' row, (t.upsert id name).rows.lookup id' = some row → Claimed ids row := by
  intro id' row hrow
  rcases PairedDevices.lookup_upsert.1 hrow with ⟨rfl, rfl⟩ | ⟨_, hrow⟩
  · obtain ⟨old, hold⟩ := Option.isSome_iff_exists.1 (AList.lookup_isSome.2 hid)
    rw [PairedDevices.row, hold]
    exact ht id' old hold
  · exact ht id' row hrow

/-- Setting the token of a described device gives its row the node of the claim. -/
theorem claimed_setToken {t t' : PairedDevices} {id : DbId} {token nodeId : String}
    (ht : ∀ id row, t.rows.lookup id = some row → Claimed ids row) (hid : id ∈ t.rows)
    (hnode : ids.parses (trim nodeId) = true) (h : t.setToken id token nodeId = .ok t') :
    ∀ id' row, t'.rows.lookup id' = some row → Claimed ids row := by
  intro id' row hrow
  rcases (PairedDevices.lookup_setToken h).1 hrow with ⟨rfl, rfl⟩ | ⟨_, hrow⟩
  · obtain ⟨old, hold⟩ := Option.isSome_iff_exists.1 (AList.lookup_isSome.2 hid)
    rw [PairedDevices.row, hold]
    exact ⟨⟨nodeId, rfl, hnode⟩, (ht id' old hold).2⟩
  · exact ht id' row hrow

/-- Storing the peer's token claims the row. -/
theorem claimed_setPeerToken {t : PairedDevices} {id : DbId} {name : Option String}
    {token nodeId : String} (ht : ∀ id row, t.rows.lookup id = some row → Claimed ids row)
    (hnode : ids.parses (trim nodeId) = true) :
    ∀ id' row, (setPeerToken (t.upsert id name) id token nodeId).rows.lookup id' = some row →
      Claimed ids row := by
  intro id' row hrow
  rcases lookup_setPeerToken.1 hrow with ⟨_, old, _, rfl⟩ | ⟨hne, hrow⟩
  · exact ⟨⟨nodeId, rfl, hnode⟩, Option.some_ne_none _⟩
  · rw [PairedDevices.lookup_upsert_ne hne] at hrow
    exact ht id' row hrow

/-! ## The runs -/

theorem inv_approve {s : State} {refuse : Nat → Option String} {newId token : DbId}
    {nodeId : String} (hs : Inv ids s)
    (hguard : Guard env ids s (.approve refuse newId token nodeId)) :
    Inv ids (step env order ids s (.approve refuse newId token nodeId)) := by
  cases hrun : approveClaim env order s.now refuse newId token nodeId s.wire with
  | mk r wire =>
      have hwire : (step env order ids s (.approve refuse newId token nodeId)).wire = wire := by
        simp only [step, hrun]
        split <;> rfl
      rcases approveRun_of_approveClaim hrun with ⟨rfl, _⟩ | ⟨row, hrow, hcases⟩
      · exact ⟨by rw [hwire]; exact hs.claimed, by rw [hwire]; exact hs.nodes⟩
      have hid := hguard row hrow
      -- whatever the approval has written goes to the id that the guard speaks of
      have hupsert : ∀ id' row', (s.wire.paired.upsert (row.device newId)
          row.deviceName).rows.lookup id' = some row' → Claimed ids row' :=
        claimed_upsert hs.claimed hid
      have hset : ∀ paired : PairedDevices,
          (s.wire.paired.upsert (row.device newId) row.deviceName).setToken (row.device newId)
            (token.text env) nodeId = .ok paired →
          ∀ id' row, paired.rows.lookup id' = some row → Claimed ids row := fun paired hok =>
        claimed_setToken hupsert ((AList.mem_insert _).2 (Or.inl rfl)) (hs.nodes nodeId row hrow) hok
      constructor
      · rw [hwire]
        cases hcases with
        | refused e => exact hs.claimed
        | described e => exact hupsert
        | tokenSet e paired hok => exact hset paired hok
        | decided paired hok =>
            rw [applyPairingDecision_tables.2]
            exact hset paired hok
      · rw [hwire]
        intro node old hold
        rcases hcases.pending hold with hold | ⟨rfl, _⟩
        · exact hs.nodes node old hold
        · exact hs.nodes node row hrow

theorem inv_claim {s : State} {refuse : Nat → Option String} {x : Exchange}
    {params : PairingClaimParams} (hs : Inv ids s)
    (hguard : Guard env ids s (.claim refuse x params)) :
    Inv ids (step env order ids s (.claim refuse x params)) := by
  have hrun : ClaimRun env ids refuse x params s.wire
      (claimPeer env ids refuse x params s.wire).2 := claimRun_of_claimPeer
  simp only [step]
  generalize (claimPeer env ids refuse x params s.wire).2 = wire at hrun
  cases hrun with
  | failed => exact hs
  | described id token hdone hrefused =>
      exact ⟨claimed_upsert hs.claimed (hguard hrefused id token hdone), hs.nodes⟩
  | stored id token hdone hwritten =>
      exact ⟨claimed_setPeerToken hs.claimed (parses_of_negotiate hdone), hs.nodes⟩

theorem inv_step {s : State} {a : Action} (hs : Inv ids s) (hguard : Guard env ids s a) :
    Inv ids (step env order ids s a) := by
  cases a with
  | pair refuse secret remote deviceId name =>
      simp only [step]
      split
      · next hremote =>
          refine ⟨?_, fun node row hrow => ?_⟩
          · rw [SyncTokens.dispatchPair_same.1]
            exact hs.claimed
          · -- a row is written only for the node that asked, and that one has been checked
            rcases dispatchPair_pending hrow with hold | ⟨rfl, _⟩
            · exact hs.nodes node row hold
            · exact hremote
      · exact hs
  | approve refuse newId token nodeId => exact inv_approve hs hguard
  | reject refuse nodeId =>
      cases hrun : rejectClaim env order s.now refuse nodeId s.wire with
      | mk r wire =>
          simp only [step, hrun]
          rcases rejectClaim_run hrun with ⟨rfl, _⟩ | ⟨row, hrow, _, rfl⟩
          · exact hs
          refine ⟨?_, fun node old hold => ?_⟩
          · rw [applyPairingDecision_tables.2]
            exact hs.claimed
          · rw [applyPairingDecision_tables.1] at hold
            rcases lookup_insert.1 hold with ⟨rfl, _⟩ | ⟨_, hold⟩
            · exact hs.nodes node row hrow
            · exact hs.nodes node old hold
  | claim refuse x params => exact inv_claim hs hguard
  | promote =>
      refine ⟨fun id row hrow => ?_, hs.nodes⟩
      obtain ⟨old, hold, rfl⟩ := lookup_mapValues.1 hrow
      simpa [Claimed] using hs.claimed id old hold
  | revoke deviceId =>
      simp only [step, revoke]
      cases hparse : parseId env deviceId with
      | none => exact hs
      | some id =>
          refine ⟨fun id' row hrow => ?_, hs.nodes⟩
          exact hs.claimed id' row (PairedDevices.lookup_delete.1 hrow).2
  | tick elapsed => exact ⟨hs.claimed, hs.nodes⟩

/-- Nothing is paired, and claims are filed under node ids. -/
def Started (ids : NodeIds) (s : State) : Prop :=
  s.wire.paired = PairedDevices.empty ∧
  ∀ node row, s.wire.pending.lookup node = some row → ids.parses (trim node) = true

/-- **EVERY OUTBOUND DEVICE CAN BE DIALLED** in every state of every run in which
    approvals, and claims whose token is not stored, describe devices that have a row. -/
theorem allDialable_of_admitted (env : Env) (order : MapOrder) (ids : NodeIds) (start : State)
    (run : List Action) (hstart : Started ids start)
    (hrun : Runs.Admitted (step env order ids) (Guard env ids) start run) :
    AllDialable (Runs.exec (step env order ids) start run) := by
  refine allDialable_of_inv (Runs.invariant (fun _ _ hs hg => inv_step hs hg) run ?_ hrun)
  refine ⟨fun id row hrow => ?_, hstart.2⟩
  rw [hstart.1] at hrow
  cases hrow

/-! ## An approval after a claim, and one alone -/

/-- A node pairs as device 6 and is approved. -/
def pairAndApprove : List Action :=
  [.pair (fun _ => none) (SyncTokens.sampleId 2) (sampleNode '1')
      ((SyncTokens.sampleId 6).text Env.reference) "desk",
    .approve (fun _ => none) (SyncTokens.sampleId 4) (SyncTokens.sampleId 5) (sampleNode '1')]

/-- The device was claimed before it is approved. -/
theorem allDialable_claimed_first :
    Started hexNodeIds startState ∧
    AllDialable (Runs.exec (step Env.reference SyncTokens.listOrder hexNodeIds) startState
      (.claim (fun _ => none) (willingPeer (SyncTokens.sampleId 6)) claimNode1 ::
        pairAndApprove)) := by
  have hstart : Started hexNodeIds startState := ⟨rfl, fun _ _ h => by cases h⟩
  refine ⟨hstart, allDialable_of_admitted _ _ _ _ _ hstart ⟨?_, trivial, ?_, trivial⟩⟩
  · intro hrefused
    exact absurd rfl hrefused
  · show ∀ row ∈ (_ : Option PendingPairing), row.device _ ∈ _
    decide +kernel

/-- Approved alone, the device is listed as outbound and has no token to dial it with. -/
theorem not_allDialable_approved :
    ¬ AllDialable (Runs.exec (step Env.reference SyncTokens.listOrder hexNodeIds) startState
      pairAndApprove) := by
  intro h
  have hlisted : SyncTokens.sampleId 6 ∈ outboundDeviceIds
      (Runs.exec (step Env.reference SyncTokens.listOrder hexNodeIds) startState
        pairAndApprove).wire := by decide +kernel
  have hfails : (peerFor true (Runs.exec (step Env.reference SyncTokens.listOrder hexNodeIds)
      startState pairAndApprove).wire (SyncTokens.sampleId 6)).toOption = none := by decide +kernel
  obtain ⟨peer, hpeer⟩ := h.2 _ hlisted
  rw [hpeer] at hfails
  cases hfails

end SyncDialling
