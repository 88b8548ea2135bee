import Livtet.Dispatch
import Livtet.Lib.Unwinding

/-! # Revocation — a device that was sent away

    A revocation deletes the row of the device, and with it the token. A row gets a
    token by an approval alone: a claim that names the device may describe it again and
    take its row to another node, but it brings no token of this device. So nothing is
    answered for a revoked device until a claim of it is approved anew. -/

namespace SyncEndpoint

open SyncMessages SyncEnvelopes SyncConflictList Unwinding Maps
open JsonText (SerdeJson)
open SqlRows (SqlError)
open SyncStore (Env)
open SyncPairing (DbId DbId.text PairedDevices parseId trim WireState)
open SyncPrivacy (LogQueries)

section Tokens

variable {t t' : PairedDevices} {device id : DbId} {token : String}

/-- The row of the device has the token, whatever node it names. -/
def HasToken (t : PairedDevices) (device : DbId) (token : String) : Prop :=
  ∃ row, t.rows.lookup device = some row ∧ row.sessionToken = some token

theorem hasToken_upsert {name : Option String} (h : HasToken (t.upsert id name) device token) :
    HasToken t device token := by
  obtain ⟨row, hrow, htoken⟩ := h
  rcases PairedDevices.lookup_upsert.1 hrow with ⟨rfl, rfl⟩ | ⟨_, hrow⟩
  · have htoken : (t.row device).sessionToken = some token := htoken
    rw [PairedDevices.row] at htoken
    cases hold : t.rows.lookup device with
    | none =>
        rw [hold] at htoken
        cases htoken
    | some old =>
        rw [hold] at htoken
        exact ⟨old, hold, htoken⟩
  · exact ⟨row, hrow, htoken⟩

theorem hasToken_setToken {issued nodeId : String} (hset : t.setToken id issued nodeId = .ok t')
    (h : HasToken t' device token) : device = id ∧ token = issued ∨ HasToken t device token := by
  obtain ⟨row, hrow, htoken⟩ := h
  rcases (PairedDevices.lookup_setToken hset).1 hrow with ⟨hid, rfl⟩ | ⟨_, hrow⟩
  · exact Or.inl ⟨hid, (Option.some.inj htoken).symm⟩
  · exact Or.inr ⟨row, hrow, htoken⟩

/-- The peer's token goes to a column of its own. -/
theorem hasToken_setPeerToken {peerToken nodeId : String}
    (h : HasToken (SyncPeers.setPeerToken t id peerToken nodeId) device token) :
    HasToken t device token := by
  obtain ⟨row, hrow, htoken⟩ := h
  rcases SyncPeers.lookup_setPeerToken.1 hrow with ⟨rfl, old, hold, rfl⟩ | ⟨_, hrow⟩
  · exact ⟨old, hold, htoken⟩
  · exact ⟨row, hrow, htoken⟩

theorem hasToken_promote (h : HasToken (SyncPeers.promoteMutualPairings t) device token) :
    HasToken t device token := by
  obtain ⟨row, hrow, htoken⟩ := h
  obtain ⟨old, hold, rfl⟩ := lookup_mapValues.1 hrow
  rw [SyncPeers.promoted_sessionToken] at htoken
  exact ⟨old, hold, htoken⟩

theorem hasToken_delete (h : HasToken (t.delete id) device token) :
    device ≠ id ∧ HasToken t device token := by
  obtain ⟨row, hrow, htoken⟩ := h
  obtain ⟨hne, hrow⟩ := PairedDevices.lookup_delete.1 hrow
  exact ⟨hne, row, hrow, htoken⟩

end Tokens

/-! ## Steps -/

section Statement

variable (env : Env)

/-- The step is an approval of a claim of the device, which issues the token. -/
def Approves (device : DbId) (token : String) (s : Endpoint) : Action → Prop
  | .decide (.approve _ _ newId issued nodeId) =>
      issued.text env = token ∧
        ∃ row, s.wire.pending.lookup nodeId = some row ∧ row.device newId = device
  | _ => False

def Revokes (device : DbId) : Action → Prop
  | .decide (.revoke deviceId) => parseId env deviceId = some device
  | _ => False

variable (q : LogQueries env) (lib : SerdeJson) (sqlText : SqlError → String)
variable (order : SyncPairing.MapOrder) (ids : SyncPeers.NodeIds)

/-- Of a run: a claim of the device was approved with this token, and the device was not
    revoked since. -/
def ApprovedSince (s : Endpoint) (run : List Action) (device : DbId) (token : String) : Prop :=
  ∃ pre a post, run = pre ++ a :: post ∧
    Approves env device token (final (step env q lib sqlText order ids) s pre) a ∧
    ∀ b ∈ post, ¬ Revokes env device b

/-- From a state on, the device is let in, and named in an answer, only by a token that a
    later approval issued to it. -/
structure StaysOut (s : Endpoint) (device : DbId) : Prop where
  refused : ∀ run m remote token,
    authorize env m (final (step env q lib sqlText order ids) s run).wire token remote =
      .ok (device.text env) →
    ApprovedSince env q lib sqlText order ids s run device (trim token)
  unanswered : ∀ run m remote request,
    (dispatch env q lib sqlText m remote request
      (final (step env q lib sqlText order ids) s run)).1.deviceId = some (device.text env) →
    ∃ token, credential request = .token token ∧
      ApprovedSince env q lib sqlText order ids s run device (trim token)

end Statement

section Steps

variable {env : Env} {q : LogQueries env} {lib : SerdeJson} {sqlText : SqlError → String}
variable {order : SyncPairing.MapOrder} {ids : SyncPeers.NodeIds} {m : Moment} {remote : String}
variable {device : DbId} {token : String}

theorem parseId_text : parseId env (device.text env) = some device := by
  rw [parseId, DbId.text, env.ulidParse_text device.val device.property, Option.some_or]
  exact dif_pos device.property

/-- A device is let in by the token of its row. -/
theorem hasToken_of_authorize {wire : WireState}
    (h : authorize env m wire token remote = .ok (device.text env)) :
    HasToken wire.paired device (trim token) := by
  rw [authorize] at h
  split at h
  · cases h
  split at h
  · cases h
  cases hauth : SyncPairing.authorize env wire token remote with
  | error e =>
      rw [hauth] at h
      cases h
  | ok name =>
      rw [hauth] at h
      cases Except.ok.inj h
      rw [SyncPairing.authorize] at hauth
      split at hauth
      · cases hauth
      split at hauth
      · next e hfind =>
          have hid := DbId.text_injective env (Except.ok.inj hauth)
          have hprop := List.find?_some hfind
          simp only [Bool.and_eq_true, beq_iff_eq] at hprop
          rw [← hid]
          exact ⟨e.2, AList.mem_lookup_iff.2 (List.mem_of_find?_eq_some hfind), hprop.1⟩
      · cases hauth

/-- No request changes a row of a device. -/
theorem paired_dispatch {request : Request} {s : Endpoint} :
    (dispatch env q lib sqlText m remote request s).2.wire.paired = s.wire.paired := by
  rcases wire_dispatch_cases env q lib sqlText m remote request s with
    hwire | ⟨deviceId, name, _, _, hwire⟩ | ⟨claim, _, hwire⟩
  · rw [hwire]
  · rw [hwire, SyncTokens.dispatchPair_same.1]
  · rw [hwire, SyncTokens.dispatchPairStatus_cases.1]

theorem hasToken_approve {now : SyncPairing.Instant} {refuse : Nat → Option String}
    {newId issued : DbId} {nodeId : String} {wire wire' : WireState}
    {r : Except SyncPairing.ClaimError SyncPairing.ClaimApproval}
    (hrun : SyncPairing.approveClaim env order now refuse newId issued nodeId wire = (r, wire'))
    (h : HasToken wire'.paired device token) :
    (issued.text env = token ∧
      ∃ row, wire.pending.lookup nodeId = some row ∧ row.device newId = device) ∨
    HasToken wire.paired device token := by
  rcases SyncPairing.approveRun_of_approveClaim hrun with ⟨rfl, _⟩ | ⟨row, hrow, hrun⟩
  · exact Or.inr h
  have hset : ∀ paired : PairedDevices,
      (wire.paired.upsert (row.device newId) row.deviceName).setToken (row.device newId)
        (issued.text env) nodeId = .ok paired → HasToken paired device token →
      (issued.text env = token ∧
        ∃ row, wire.pending.lookup nodeId = some row ∧ row.device newId = device) ∨
      HasToken wire.paired device token := by
    intro paired hok hheld
    rcases hasToken_setToken hok hheld with ⟨rfl, rfl⟩ | hheld
    · exact Or.inl ⟨rfl, row, hrow, rfl⟩
    · exact Or.inr (hasToken_upsert hheld)
  cases hrun with
  | refused e => exact Or.inr h
  | described e => exact Or.inr (hasToken_upsert h)
  | tokenSet e paired hok => exact hset paired hok h
  | decided paired hok =>
      rw [SyncPairing.applyPairingDecision_tables.2] at h
      exact hset paired hok h

/-- A token on a row was issued in this step, or was there and is not revoked. -/
theorem hasToken_step (s : Endpoint) (a : Action)
    (h : HasToken (step env q lib sqlText order ids s a).2.wire.paired device token) :
    Approves env device token s a ∨ HasToken s.wire.paired device token ∧ ¬ Revokes env device a := by
  cases a with
  | request m remote request =>
      have hpaired : (step env q lib sqlText order ids s (.request m remote request)).2.wire.paired =
          s.wire.paired := paired_dispatch
      rw [hpaired] at h
      exact Or.inr ⟨h, id⟩
  | own w => exact Or.inr ⟨h, id⟩
  | decide decision =>
      have h : HasToken (settle env order ids s.wire decision).paired device token := h
      cases decision with
      | approve now refuse newId issued nodeId =>
          rw [settle] at h
          cases hrun : SyncPairing.approveClaim env order now refuse newId issued nodeId s.wire with
          | mk r wire' =>
              rw [hrun] at h
              exact (hasToken_approve hrun h).imp_right fun hheld => ⟨hheld, id⟩
      | reject now refuse nodeId =>
          rw [settle] at h
          cases hrun : SyncPairing.rejectClaim env order now refuse nodeId s.wire with
          | mk r wire' =>
              rw [hrun] at h
              exact Or.inr ⟨(SyncTokens.rejectClaim_cases hrun).1 ▸ h, id⟩
      | claim refuse x params =>
          rw [settle] at h
          have hrun : SyncPeers.ClaimRun env ids refuse x params s.wire
            (SyncPeers.claimPeer env ids refuse x params s.wire).2 := SyncPeers.claimRun_of_claimPeer
          generalize (SyncPeers.claimPeer env ids refuse x params s.wire).2 = wire' at h hrun
          refine Or.inr ⟨?_, id⟩
          cases hrun with
          | failed => exact h
          | described id peerToken hdone hrefused => exact hasToken_upsert h
          | stored id peerToken hdone hwritten => exact hasToken_upsert (hasToken_setPeerToken h)
      | promote => exact Or.inr ⟨hasToken_promote h, id⟩
      | revoke deviceId =>
          rw [settle, SyncPairing.revoke] at h
          split at h
          · next hparse => exact Or.inr ⟨h, fun hrevokes => by cases hparse.symm.trans hrevokes⟩
          · next id hparse =>
              obtain ⟨hne, hheld⟩ := hasToken_delete h
              refine Or.inr ⟨hheld, fun hrevokes => hne ?_⟩
              exact (Option.some.inj (hparse.symm.trans hrevokes)).symm

end Steps

/-- **A REVOKED DEVICE STAYS OUT.** -/
theorem revoked_devices_stay_out (env : Env) (q : LogQueries env) (lib : SerdeJson)
    (sqlText : SqlError → String) (order : SyncPairing.MapOrder) (ids : SyncPeers.NodeIds)
    (s : Endpoint) (device : DbId) :
    StaysOut env q lib sqlText order ids
      (step env q lib sqlText order ids s (.decide (.revoke (device.text env)))).2 device := by
  have hgone : ∀ token, ¬ HasToken
      (step env q lib sqlText order ids s (.decide (.revoke (device.text env)))).2.wire.paired
      device token := by
    intro token h
    rcases hasToken_step s _ h with hnone | ⟨_, hkept⟩
    · exact hnone
    · exact hkept parseId_text
  have hrefused : ∀ run m remote token, authorize env m (final (step env q lib sqlText order ids)
        (step env q lib sqlText order ids s (.decide (.revoke (device.text env)))).2 run).wire
        token remote = .ok (device.text env) →
      ApprovedSince env q lib sqlText order ids
        (step env q lib sqlText order ids s (.decide (.revoke (device.text env)))).2 run device
        (trim token) := by
    intro run m remote token hauth
    rcases since (fun s : Endpoint => HasToken s.wire.paired device (trim token)) hasToken_step run
      (hasToken_of_authorize hauth) with ⟨hheld, _⟩ | hsince
    · exact absurd hheld (hgone _)
    · exact hsince
  refine ⟨hrefused, fun run m remote request hnamed => ?_⟩
  obtain ⟨token, hcred, hauth⟩ := authorize_of_named hnamed
  exact ⟨token, hcred, hrefused run m remote token hauth⟩

end SyncEndpoint
