import Livtet.Revocation

/-! # The handshake — what a node went through that is told its token

    A claim is filed under a secret, the reader approves it, and the node that filed it
    learns its token by asking for the secret. The waiter that links the secret to the
    node is written with the pending row, and both stay until a decision: so the token a
    node is told was issued by the approval of a claim that this node filed before, under
    this secret and for this device. -/

namespace SyncEndpoint

open SyncMessages SyncEnvelopes SyncConflictList Unwinding Maps
open JsonText (SerdeJson)
open SqlRows (SqlError)
open SyncStore (Env)
open SyncPairing (DbId DbId.text DecidedPairing Instant PendingPairing parseId WireState)
open SyncPrivacy (LogQueries)

section Statement

variable (env : Env)

/-- The node waits for a decision of the claim, and its pending row names the device. -/
def Waiting (node claim : String) (device : Option DbId) (wire : WireState) : Prop :=
  wire.waiters.lookup node = some { claim } ∧
    ∃ row, wire.pending.lookup node = some row ∧ row.deviceId = device

/-- The step files the claim of the node, for the device. -/
def Files (node claim : String) (device : Option DbId) (_ : Endpoint) : Action → Prop
  | .request m remote (.pair deviceId _ _) =>
      remote = node ∧ m.secret.text env = claim ∧ parseId env deviceId = device ∧ device.isSome
  | _ => False

/-- The claim is remembered as approved, in these words. -/
def Told (node claim device token : String) (wire : WireState) : Prop :=
  ∃ d, wire.decisions.lookup claim = some d ∧ d.approved = true ∧ d.nodeId = node ∧
    d.deviceId.getD "" = device ∧ d.sessionToken = token

/-- The step approves the claim, for which the node waits. -/
def Decides (node claim device token : String) (s : Endpoint) : Action → Prop
  | .decide (.approve _ _ newId issued nodeId) =>
      nodeId = node ∧ issued.text env = token ∧
        ∃ row, s.wire.pending.lookup node = some row ∧ (row.device newId).text env = device ∧
          Waiting node claim row.deviceId s.wire
  | _ => False

variable (q : LogQueries env) (lib : SerdeJson) (sqlText : SqlError → String)
variable (order : SyncPairing.MapOrder) (ids : SyncPeers.NodeIds)

/-- An endpoint that was just started: its waiters and its decisions are not stored. -/
def restarted (s : Endpoint) : Endpoint :=
  { s with wire := { s.wire with waiters := ∅, decisions := ∅ } }

/-- A node is told a token only after it filed the claim for its device and the reader
    approved it, in this order. -/
def ShookHands (s : Endpoint) (run : List Action) : Prop :=
  ∀ m remote claim device token,
    (dispatch env q lib sqlText m remote (.pairStatus claim)
      (final (step env q lib sqlText order ids) s run)).1.outcome.response = .paired device token →
    ∃ pre m' deviceId name deviceType id mid now refuse newId issued post,
      run = pre ++ .request m' remote (.pair deviceId name deviceType) :: (mid ++
        .decide (.approve now refuse newId issued remote) :: post) ∧
      m'.secret.text env = claim ∧ parseId env deviceId = some id ∧ device = id.text env ∧
      token = issued.text env

end Statement

/-! ## Steps -/

section Steps

variable {env : Env} {q : LogQueries env} {lib : SerdeJson} {sqlText : SqlError → String}
variable {order : SyncPairing.MapOrder} {ids : SyncPeers.NodeIds} {m : Moment} {remote : String}
variable {node claim token nodeId : String} {device : Option DbId} {wire wire' : WireState}

/-- A claim that is filed puts its row and its waiter; any other leaves both alone. -/
theorem pair_cases {now : Instant} {refuse : Nat → Option String} {secret : DbId}
    {deviceId name : String} :
    ((SyncPairing.dispatchPair env now refuse secret remote deviceId name wire).2.waiters =
        wire.waiters ∧
      (SyncPairing.dispatchPair env now refuse secret remote deviceId name wire).2.pending =
        wire.pending) ∨
    ∃ id, parseId env deviceId = some id ∧
      (SyncPairing.dispatchPair env now refuse secret remote deviceId name wire).2.waiters =
        wire.waiters.insert remote { claim := secret.text env } ∧
      (SyncPairing.dispatchPair env now refuse secret remote deviceId name wire).2.pending =
        wire.pending.insert remote
          { statusId := some .pending, deviceName := some name, deviceId := some id } := by
  rw [SyncPairing.dispatchPair]
  split
  · exact Or.inl ⟨rfl, rfl⟩
  dsimp only
  split
  · rw [SyncPairing.pair]
    split
    · exact Or.inl ⟨rfl, rfl⟩
    · exact Or.inl ⟨rfl, rfl⟩
    next id _ hparse _ =>
      split
      · exact Or.inl ⟨rfl, rfl⟩
      split
      · exact Or.inl ⟨rfl, rfl⟩
      split
      · exact Or.inl ⟨rfl, rfl⟩
      · exact Or.inr ⟨id, hparse, rfl, rfl⟩
  · exact Or.inl ⟨rfl, rfl⟩

/-- A poll changes no waiter and no row. -/
theorem pairStatus_tables {now : Instant} :
    (SyncPairing.dispatchPairStatus now remote claim wire).2.waiters = wire.waiters ∧
    (SyncPairing.dispatchPairStatus now remote claim wire).2.pending = wire.pending := by
  rw [SyncPairing.dispatchPairStatus]
  split
  · exact ⟨rfl, rfl⟩
  rw [SyncPairing.pairStatus]
  split
  · exact ⟨rfl, rfl⟩
  dsimp only [SyncPairing.decided]
  split <;> exact ⟨rfl, rfl⟩

section Decided

variable {now : Instant} {approved : Bool} {sessionToken : String} {deviceId : Option String}

/-- Whoever waits after a decision waited before, and is not the node it was about. -/
theorem waiting_of_decided {w : SyncPairing.PairingWaiter}
    (h : (SyncPairing.applyPairingDecision order now nodeId approved sessionToken deviceId
      wire).2.waiters.lookup node = some w) : node ≠ nodeId ∧ wire.waiters.lookup node = some w := by
  rw [SyncPairing.applyPairingDecision] at h
  split at h
  · next hnone =>
      refine ⟨fun hnode => ?_, h⟩
      rw [hnode, hnone] at h
      cases h
  · exact lookup_erase.1 h

/-- A remembered decision was remembered before, or is this one, under the secret of the
    node's waiter. -/
theorem decision_of_decided {d : DecidedPairing}
    (h : (SyncPairing.applyPairingDecision order now nodeId approved sessionToken deviceId
      wire).2.decisions.lookup claim = some d) :
    wire.waiters.lookup nodeId = some { claim } ∧ d = ⟨nodeId, approved, deviceId, sessionToken, now⟩ ∨
      wire.decisions.lookup claim = some d := by
  rw [SyncPairing.applyPairingDecision] at h
  split at h
  · exact Or.inr h
  · next waiter hwaiter =>
      rw [SyncPairing.recordDecision] at h
      rcases lookup_insert.1 h with ⟨hclaim, hd⟩ | ⟨_, h⟩
      · refine Or.inl ⟨?_, hd⟩
        rw [hwaiter, hclaim]
      · exact Or.inr (lookup_retain.1 (lookup_of_lookup_evict h)).1

end Decided

/-- A node waits where it waited before the approval; the node of an approval that went
    through does not. -/
theorem waiting_approve {now : Instant} {refuse : Nat → Option String} {newId issued : DbId}
    {r : Except SyncPairing.ClaimError SyncPairing.ClaimApproval}
    (hrun : SyncPairing.approveClaim env order now refuse newId issued nodeId wire = (r, wire'))
    (h : Waiting node claim device wire') : Waiting node claim device wire := by
  rcases SyncPairing.approveRun_of_approveClaim hrun with ⟨rfl, _⟩ | ⟨row, hrow, hrun⟩
  · exact h
  cases hrun with
  | refused e => exact h
  | described e => exact h
  | tokenSet e paired hok => exact h
  | decided paired hok =>
      obtain ⟨hwaiter, old, hold, hdevice⟩ := h
      obtain ⟨hne, hwaiter⟩ := waiting_of_decided hwaiter
      rw [SyncPairing.applyPairingDecision_tables.1, AList.lookup_insert_ne hne] at hold
      exact ⟨hwaiter, old, hold, hdevice⟩

theorem waiting_reject {now : Instant} {refuse : Nat → Option String}
    {r : Except SyncPairing.ClaimError Unit}
    (hrun : SyncPairing.rejectClaim env order now refuse nodeId wire = (r, wire'))
    (h : Waiting node claim device wire') : Waiting node claim device wire := by
  rcases SyncPairing.rejectClaim_run hrun with ⟨rfl, _⟩ | ⟨row, hrow, _, rfl⟩
  · exact h
  obtain ⟨hwaiter, old, hold, hdevice⟩ := h
  obtain ⟨hne, hwaiter⟩ := waiting_of_decided hwaiter
  rw [SyncPairing.applyPairingDecision_tables.1, AList.lookup_insert_ne hne] at hold
  exact ⟨hwaiter, old, hold, hdevice⟩

/-- A token that is told was told before the approval, or is the one that it issued. -/
theorem told_approve {now : Instant} {refuse : Nat → Option String} {newId issued : DbId}
    {r : Except SyncPairing.ClaimError SyncPairing.ClaimApproval} {s : Endpoint} {deviceText : String}
    (hrun : SyncPairing.approveClaim env order now refuse newId issued nodeId s.wire = (r, wire'))
    (h : Told node claim deviceText token wire') :
    Decides env node claim deviceText token s (.decide (.approve now refuse newId issued nodeId)) ∨
      Told node claim deviceText token s.wire := by
  rcases SyncPairing.approveRun_of_approveClaim hrun with ⟨rfl, _⟩ | ⟨row, hrow, hrun⟩
  · exact Or.inr h
  cases hrun with
  | refused e => exact Or.inr h
  | described e => exact Or.inr h
  | tokenSet e paired hok => exact Or.inr h
  | decided paired hok =>
      obtain ⟨d, hd, htold⟩ := h
      rcases decision_of_decided hd with ⟨hwaiter, rfl⟩ | hold
      · obtain ⟨_, rfl, hdevice, htoken⟩ := htold
        exact Or.inl ⟨rfl, htoken, row, hrow, hdevice, hwaiter, row, hrow, rfl⟩
      · exact Or.inr ⟨d, hold, htold⟩

/-- A claim that is made at a peer touches the rows of devices alone. -/
theorem claimPeer_maps {refuse : Nat → Option String} {x : SyncPeers.Exchange}
    {params : SyncPeers.PairingClaimParams} :
    (SyncPeers.claimPeer env ids refuse x params wire).2.waiters = wire.waiters ∧
    (SyncPeers.claimPeer env ids refuse x params wire).2.pending = wire.pending ∧
    (SyncPeers.claimPeer env ids refuse x params wire).2.decisions = wire.decisions := by
  have hrun : SyncPeers.ClaimRun env ids refuse x params wire
    (SyncPeers.claimPeer env ids refuse x params wire).2 := SyncPeers.claimRun_of_claimPeer
  generalize (SyncPeers.claimPeer env ids refuse x params wire).2 = wire' at hrun ⊢
  cases hrun <;> exact ⟨rfl, rfl, rfl⟩

/-- A node waits since it filed the claim. -/
theorem waiting_step (s : Endpoint) (a : Action)
    (h : Waiting node claim device (step env q lib sqlText order ids s a).2.wire) :
    Files env node claim device s a ∨ Waiting node claim device s.wire := by
  cases a with
  | own w => exact Or.inr h
  | request m remote request =>
      have h : Waiting node claim device (dispatch env q lib sqlText m remote request s).2.wire := h
      rcases wire_dispatch_cases env q lib sqlText m remote request s with
        hwire | ⟨deviceId, name, deviceType, rfl, hwire⟩ | ⟨polled, _, hwire⟩
      · rw [hwire] at h
        exact Or.inr h
      · rw [hwire] at h
        obtain ⟨hwaiter, row, hrow, hdevice⟩ := h
        rcases pair_cases with ⟨hwaiters, hpending⟩ | ⟨id, hparse, hwaiters, hpending⟩
        · rw [hwaiters] at hwaiter
          rw [hpending] at hrow
          exact Or.inr ⟨hwaiter, row, hrow, hdevice⟩
        · rw [hwaiters] at hwaiter
          rw [hpending] at hrow
          rcases lookup_insert.1 hwaiter with ⟨rfl, hclaim⟩ | ⟨hne, hwaiter⟩
          · rcases lookup_insert.1 hrow with ⟨_, rfl⟩ | ⟨hne, _⟩
            · rw [← hdevice]
              exact Or.inl ⟨rfl, (SyncPairing.PairingWaiter.mk.inj hclaim).symm, hparse, rfl⟩
            · exact absurd rfl hne
          · rw [AList.lookup_insert_ne hne] at hrow
            exact Or.inr ⟨hwaiter, row, hrow, hdevice⟩
      · rw [hwire, Waiting, pairStatus_tables.1, pairStatus_tables.2] at h
        exact Or.inr h
  | decide decision =>
      refine Or.inr ?_
      have h : Waiting node claim device (settle env order ids s.wire decision) := h
      cases decision with
      | approve now refuse newId issued nodeId =>
          rw [settle] at h
          cases hrun : SyncPairing.approveClaim env order now refuse newId issued nodeId s.wire with
          | mk r wire' => exact waiting_approve hrun (by rwa [hrun] at h)
      | reject now refuse nodeId =>
          rw [settle] at h
          cases hrun : SyncPairing.rejectClaim env order now refuse nodeId s.wire with
          | mk r wire' => exact waiting_reject hrun (by rwa [hrun] at h)
      | claim refuse x params =>
          rw [settle, Waiting, claimPeer_maps.1, claimPeer_maps.2.1] at h
          exact h
      | promote => exact h
      | revoke deviceId =>
          rw [settle, SyncPairing.revoke] at h
          split at h <;> exact h

/-- A token is told since the approval of the claim. -/
theorem remembered_step {deviceText : String} (s : Endpoint) (a : Action)
    (h : Told node claim deviceText token (step env q lib sqlText order ids s a).2.wire) :
    Decides env node claim deviceText token s a ∨ Told node claim deviceText token s.wire := by
  cases a with
  | own w => exact Or.inr h
  | request m remote request =>
      have h : Told node claim deviceText token
        (dispatch env q lib sqlText m remote request s).2.wire := h
      refine Or.inr ?_
      rcases wire_dispatch_cases env q lib sqlText m remote request s with
        hwire | ⟨deviceId, name, deviceType, rfl, hwire⟩ | ⟨polled, _, hwire⟩
      · rw [hwire] at h
        exact h
      · rw [hwire, Told, SyncTokens.dispatchPair_same.2] at h
        exact h
      · rw [hwire] at h
        obtain ⟨d, hd, htold⟩ := h
        exact ⟨d, SyncTokens.dispatchPairStatus_cases.2 _ _ hd, htold⟩
  | decide decision =>
      have h : Told node claim deviceText token (settle env order ids s.wire decision) := h
      cases decision with
      | approve now refuse newId issued nodeId =>
          rw [settle] at h
          cases hrun : SyncPairing.approveClaim env order now refuse newId issued nodeId s.wire with
          | mk r wire' => exact told_approve hrun (by rwa [hrun] at h)
      | reject now refuse nodeId =>
          rw [settle] at h
          cases hrun : SyncPairing.rejectClaim env order now refuse nodeId s.wire with
          | mk r wire' =>
              rw [hrun] at h
              obtain ⟨d, hd, happroved, htold⟩ := h
              exact Or.inr ⟨d, (SyncTokens.rejectClaim_cases hrun).2 _ _ hd happroved, happroved,
                htold⟩
      | claim refuse x params =>
          rw [settle, Told, claimPeer_maps.2.2] at h
          exact Or.inr h
      | promote => exact Or.inr h
      | revoke deviceId =>
          rw [settle, SyncPairing.revoke] at h
          split at h <;> exact Or.inr h

/-- A poll that is answered with a token reads a claim that is told to its node. -/
theorem told_of_paired {s : Endpoint} {deviceText : String}
    (h : (dispatch env q lib sqlText m remote (.pairStatus claim) s).1.outcome.response =
      .paired deviceText token) : Told remote claim deviceText token s.wire := by
  by_cases hself : remote = s.wire.selfNode
  · rw [dispatch_self hself] at h
    cases h
  rw [dispatch, if_neg hself] at h
  have hpaired : (SyncPairing.dispatchPairStatus m.now remote claim s.wire).1 =
      .ok (.paired deviceText token) := by
    have h : (pairingReply (SyncPairing.dispatchPairStatus m.now remote claim
      s.wire).1).outcome.response = .paired deviceText token := h
    rw [pairingReply.eq_def] at h
    split at h
    · cases h
    · cases h
    · next deviceId' token' hanswer =>
        obtain ⟨rfl, rfl⟩ := Response.paired.inj h
        exact hanswer
    · cases h
  obtain ⟨d, hd, htold⟩ := SyncTokens.remembered_of_paired
    (s := { wire := s.wire, now := m.now, revoked := [] }) hpaired
  exact ⟨d, hd.1, htold⟩

end Steps

/-! ## Runs -/

/-- **NO TOKEN WITHOUT A HANDSHAKE.** -/
theorem tokens_follow_handshakes (env : Env) (q : LogQueries env) (lib : SerdeJson)
    (sqlText : SqlError → String) (order : SyncPairing.MapOrder) (ids : SyncPeers.NodeIds)
    (s : Endpoint) (run : List Action) :
    ShookHands env q lib sqlText order ids (restarted s) run := by
  intro m remote claim device token hpaired
  rcases since (fun s : Endpoint => Told remote claim device token s.wire)
      (fun s a h => (remembered_step s a h).imp_right fun hold => ⟨hold, id⟩) run
      (told_of_paired hpaired) with ⟨⟨d, hd, _⟩, _⟩ | ⟨before, a, post, rfl, hdecides, _⟩
  · cases hd
  cases a with
  | request m' remote' request => exact hdecides.elim
  | own w => exact hdecides.elim
  | decide decision =>
      cases decision with
      | approve now refuse newId issued nodeId =>
          obtain ⟨rfl, rfl, row, _, rfl, hwaiting⟩ := hdecides
          rcases since (fun s : Endpoint => Waiting nodeId claim row.deviceId s.wire)
              (fun s a h => (waiting_step s a h).imp_right fun hold => ⟨hold, id⟩) before
              hwaiting with ⟨⟨hwaiter, _⟩, _⟩ | ⟨pre, b, mid, rfl, hfiles, _⟩
          · cases hwaiter
          cases b with
          | own w => exact hfiles.elim
          | decide decision => exact hfiles.elim
          | request m' remote' request =>
              cases request with
              | pair deviceId name deviceType =>
                  obtain ⟨rfl, hclaim, hparse, hsome⟩ := hfiles
                  obtain ⟨id, hid⟩ := Option.isSome_iff_exists.1 hsome
                  refine ⟨pre, m', deviceId, name, deviceType, id, mid, now, refuse, newId, issued,
                    post, ?_, hclaim, hparse.trans hid, ?_, rfl⟩
                  · rw [List.append_assoc, List.cons_append]
                  · rw [PendingPairing.device, hid, Option.getD_some]
              | _ => exact hfiles.elim
      | _ => exact hdecides.elim

end SyncEndpoint
