import Livtet.Peers

/-! # A token stays with its node

    A session token is written together with the node it was minted for. Claiming a
    peer rewrites the node id of the row that the peer's identity frame names, next to
    whatever session token is on it, so the token moves with the row unless it has
    none or the node is the same. -/

namespace SyncBinding

open SyncStore SyncPairing SyncPeers Maps

section Statement

variable (env : Env) (ids : NodeIds)

/-- Whatever token is accepted from a node, an approval of that node minted it. -/
def Bound (s : State) : Prop :=
  ∀ token node device, authorize env s.wire token node = .ok device →
    ∃ tok, (tok, node) ∈ s.minted ∧ tok.text env = trim token

/-- A peer's token is only stored on a row without a token of our own, or one that has
    the claimed node already. -/
def Guard (s : State) : Action → Prop
  | .claim refuse x params => refuse 0 = none → refuse 1 = none →
      ∀ id token, negotiate env ids x params = .ok (id, token) →
        ∀ row, s.wire.paired.rows.lookup id = some row →
          row.sessionToken = none ∨ row.nodeId = some params.nodeId
  | _ => True

/-- Every token on a row was minted for the row's node. -/
def Inv (s : State) : Prop :=
  ∀ id token node, s.wire.paired.Holds id token node →
    ∃ tok, (tok, node) ∈ s.minted ∧ tok.text env = token

end Statement

variable {env : Env} {order : MapOrder} {ids : NodeIds}

theorem bound_of_inv {s : State} (hs : Inv env s) : Bound env s := by
  intro token node device h
  obtain ⟨_, id, hheld⟩ := authorize_iff.1 ⟨device, h⟩
  exact hs id _ node hheld

/-- A step that puts no token on a row and forgets no minting. -/
theorem inv_of_same {s s' : State} (hs : Inv env s)
    (hpaired : ∀ id token node, s'.wire.paired.Holds id token node →
      s.wire.paired.Holds id token node) (hminted : s'.minted = s.minted) : Inv env s' := by
  intro id token node hheld
  rw [hminted]
  exact hs id token node (hpaired id token node hheld)

theorem inv_approve {s : State} {refuse : Nat → Option String} {newId token : DbId}
    {nodeId : String} (hs : Inv env s) :
    Inv env (step env order ids s (.approve refuse newId token nodeId)) := by
  cases hrun : approveClaim env order s.now refuse newId token nodeId s.wire with
  | mk r wire =>
      simp only [step, hrun]
      rcases approveRun_of_approveClaim hrun with ⟨rfl, _⟩ | ⟨row, hrow, hcases⟩
      · split
        · exact hs
        · intro id tok node hheld
          obtain ⟨tok', hmem, htext⟩ := hs id tok node hheld
          exact ⟨tok', List.mem_cons_of_mem _ hmem, htext⟩
      rw [hrow]
      intro id tok node hheld
      rcases hcases.holds hheld with hold | ⟨rfl, rfl⟩
      · obtain ⟨tok', hmem, htext⟩ := hs id tok node hold
        exact ⟨tok', List.mem_cons_of_mem _ hmem, htext⟩
      · exact ⟨token, List.mem_cons_self, rfl⟩

theorem inv_claim {s : State} {refuse : Nat → Option String} {x : Exchange}
    {params : PairingClaimParams} (hs : Inv env s)
    (hguard : Guard env ids s (.claim refuse x params)) :
    Inv env (step env order ids s (.claim refuse x params)) := by
  have hrun : ClaimRun env ids refuse x params s.wire (claimPeer env ids refuse x params s.wire).2 :=
    claimRun_of_claimPeer
  simp only [step]
  generalize (claimPeer env ids refuse x params s.wire).2 = wire at hrun
  cases hrun with
  | failed => exact hs
  | described id token hdone hrefused =>
      exact inv_of_same hs (fun _ _ _ => PairedDevices.holds_upsert.1) rfl
  | stored id token hdone hwritten =>
      refine inv_of_same hs (fun id' tok node hheld => ?_) rfl
      rcases holds_setPeerToken.1 hheld with ⟨rfl, rfl, old, hold, htok⟩ | ⟨_, hheld⟩
      · -- the row's own token: the row had it before, for the same node
        rcases PairedDevices.lookup_upsert.1 hold with ⟨_, rfl⟩ | ⟨hne, _⟩
        · have htok : (s.wire.paired.row id').sessionToken = some tok := htok
          cases hrow : s.wire.paired.rows.lookup id' with
          | none =>
              rw [PairedDevices.row, hrow] at htok
              cases htok
          | some row =>
              rw [PairedDevices.row, hrow] at htok
              have htok : row.sessionToken = some tok := htok
              rcases hguard hwritten.1 hwritten.2 id' token hdone row hrow with hnone | hnode
              · cases hnone.symm.trans htok
              · exact ⟨row, hrow, htok, hnode⟩
        · exact absurd rfl hne
      · exact PairedDevices.holds_upsert.1 hheld

theorem inv_step {s : State} {a : Action} (hs : Inv env s) (hguard : Guard env ids s a) :
    Inv env (step env order ids s a) := by
  cases a with
  | pair refuse secret remote deviceId name =>
      simp only [step]
      split
      · refine inv_of_same hs (fun id token node hheld => ?_) rfl
        rwa [SyncTokens.dispatchPair_same.1] at hheld
      · exact hs
  | approve refuse newId token nodeId => exact inv_approve hs
  | reject refuse nodeId =>
      refine inv_of_same hs (fun id token node hheld => ?_) rfl
      simp only [step] at hheld
      cases hrun : rejectClaim env order s.now refuse nodeId s.wire with
      | mk r wire =>
          rw [hrun] at hheld
          rw [← (SyncTokens.rejectClaim_cases hrun).1]
          exact hheld
  | claim refuse x params => exact inv_claim hs hguard
  | promote => exact inv_of_same hs (fun _ _ _ => holds_promoteMutualPairings.1) rfl
  | revoke deviceId =>
      simp only [step, revoke]
      cases hparse : parseId env deviceId with
      | none => exact hs
      | some id =>
          refine inv_of_same hs (fun _ _ _ hheld => ?_) rfl
          exact (PairedDevices.holds_delete.1 hheld).2
  | tick elapsed => exact hs

/-- A new installation has paired with nobody. -/
def Started (s : State) : Prop := s.wire.paired = PairedDevices.empty

/-- **A TOKEN STAYS WITH ITS NODE** in every state of every run in which no peer's token
    is stored on a row that has a token of another node. -/
theorem bound_of_admitted (env : Env) (order : MapOrder) (ids : NodeIds) (start : State)
    (run : List Action) (hstart : Started start)
    (hrun : Runs.Admitted (step env order ids) (Guard env ids) start run) :
    Bound env (Runs.exec (step env order ids) start run) := by
  refine bound_of_inv (Runs.invariant (fun _ _ hs hg => inv_step hs hg) run ?_ hrun)
  rintro id token node ⟨row, hrow, _⟩
  rw [hstart] at hrow
  cases hrow

/-! ## A peer that names another device, and one that does not -/

/-- A node is approved for device 3, then this side claims another node, whose identity
    frame names the given device. -/
def approveThenClaim (device : DbId) : List Action :=
  [.pair (fun _ => none) (SyncTokens.sampleId 2) (sampleNode '0')
      ((SyncTokens.sampleId 3).text Env.reference) "phone",
    .approve (fun _ => none) (SyncTokens.sampleId 4) (SyncTokens.sampleId 5) (sampleNode '0'),
    .claim (fun _ => none) (willingPeer device) claimNode1]

/-- The other node names a device of its own. -/
theorem bound_own_device :
    Started startState ∧
    Bound Env.reference (Runs.exec (step Env.reference SyncTokens.listOrder hexNodeIds) startState
      (approveThenClaim (SyncTokens.sampleId 6))) := by
  refine ⟨rfl, bound_of_admitted _ _ _ _ _ rfl ⟨trivial, trivial, ?_, trivial⟩⟩
  intro _ _ id token hdone
  have hid : (negotiate Env.reference hexNodeIds (willingPeer (SyncTokens.sampleId 6))
      claimNode1).toOption = some (SyncTokens.sampleId 6, "t") := by decide +kernel
  rw [hdone] at hid
  obtain ⟨rfl, rfl⟩ := Prod.mk.inj (Option.some.inj hid)
  show ∀ row ∈ (_ : Option PairedDevice), row.sessionToken = none ∨ row.nodeId = _
  decide +kernel

/-- The other node names device 3, and the token minted for the first node is accepted
    from it. -/
theorem not_bound_named_device :
    ¬ Bound Env.reference (Runs.exec (step Env.reference SyncTokens.listOrder hexNodeIds) startState
      (approveThenClaim (SyncTokens.sampleId 3))) := by
  intro h
  have haccepted : (authorize Env.reference
      (Runs.exec (step Env.reference SyncTokens.listOrder hexNodeIds) startState
        (approveThenClaim (SyncTokens.sampleId 3))).wire
      ((SyncTokens.sampleId 5).text Env.reference) (sampleNode '1')).toOption =
        some ((SyncTokens.sampleId 3).text Env.reference) := by decide +kernel
  have hminted : ((Runs.exec (step Env.reference SyncTokens.listOrder hexNodeIds) startState
      (approveThenClaim (SyncTokens.sampleId 3))).minted.map Prod.snd) = [sampleNode '0'] := by
    decide +kernel
  cases hresult : authorize Env.reference
      (Runs.exec (step Env.reference SyncTokens.listOrder hexNodeIds) startState
        (approveThenClaim (SyncTokens.sampleId 3))).wire
      ((SyncTokens.sampleId 5).text Env.reference) (sampleNode '1') with
  | error e =>
      rw [hresult] at haccepted
      cases haccepted
  | ok device =>
      obtain ⟨tok, hmem, _⟩ := h _ _ device hresult
      have hnode : sampleNode '1' ∈ [sampleNode '0'] := by
        rw [← hminted]
        exact List.mem_map_of_mem hmem
      exact absurd hnode (by decide)

end SyncBinding
