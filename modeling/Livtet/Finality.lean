import Livtet.Tokens

/-! # A decision is final

    `pair` refuses to reopen a decided claim and `pairing.list` shows only claims
    that are pending and whose window is open, but approving and rejecting look the
    claim's row up by its key alone. So a decision stays final as long as the reader
    decides what the list shows.

    A rejection needs one more thing to leave its node without access: that no token
    of the node works already. An approval that fails at its last statement leaves
    one behind next to a pending row, and so does the pruning of a decided row at
    the next start. -/

namespace SyncFinality

open SyncStore SyncPairing Maps

/-! ## The system -/

structure State where
  wire : WireState
  now : Instant
  /-- Nanoseconds of the wall clock. -/
  utc : Int
  /-- The column `expires_at` of `pending_pairings`. -/
  expiresAt : Map String Int

inductive Action
  | pair (refuse : Nat → Option String) (secret : DbId) (remote deviceId name : String)
  | approve (refuse : Nat → Option String) (newId token : DbId) (nodeId : String)
  | reject (refuse : Nat → Option String) (nodeId : String)
  | poll (remote claim : String)
  | revoke (deviceId : String)
  /-- Time passes, and the wall clock may be set. -/
  | tick (elapsed : Nat) (utc : Int)
  | restart

/-- `handle_pairing_list`: the pending claims whose window is open. -/
def pairingList (s : State) : List (Sigma fun _ : String => PendingPairing) :=
  s.wire.pending.entries.filter fun e =>
    e.2.statusId == some .pending && (s.expiresAt.lookup e.1).any fun t => decide (s.utc < t)

/-- `cleanup_old_pairings`: rows whose window has closed, whatever their status. -/
def cleanupOldPairings (s : State) : State :=
  { s with wire := { s.wire with
      pending := retain (fun node _ =>
        !(s.expiresAt.lookup node).any fun t => decide (t < s.utc)) s.wire.pending } }

section System

variable (env : Env) (order : MapOrder)

def step (s : State) : Action → State
  | .pair refuse secret remote deviceId name =>
      match dispatchPair env s.now refuse secret remote deviceId name s.wire with
      -- the claim's row was written, with a window of five minutes
      | (.ok (.pairingPending _), wire) =>
          { s with wire, expiresAt := s.expiresAt.insert remote (s.utc + 300 * 10 ^ 9) }
      | (_, wire) => { s with wire }
  | .approve refuse newId token nodeId =>
      { s with wire := (approveClaim env order s.now refuse newId token nodeId s.wire).2 }
  | .reject refuse nodeId =>
      { s with wire := (rejectClaim env order s.now refuse nodeId s.wire).2 }
  | .poll remote claim => { s with wire := (dispatchPairStatus s.now remote claim s.wire).2 }
  | .revoke deviceId => { s with wire := (revoke env deviceId s.wire).2 }
  | .tick elapsed utc => { s with now := s.now + elapsed, utc }
  -- the maps are in memory, the tables are not
  | .restart => cleanupOldPairings
      { s with wire := { s.wire with windows := ∅, waiters := ∅, decisions := ∅ } }

/-- `pairing.list` shows the node's claim. -/
def Shown (s : State) (node : String) : Prop := ∃ row, ⟨node, row⟩ ∈ pairingList s

/-- Some token is accepted from the node. -/
def Authorized (wire : WireState) (node : String) : Prop :=
  ∃ token device, authorize env wire token node = .ok device

/-- The two tables and the map of decisions hold the same entries. -/
def SameTables (w w' : WireState) : Prop :=
  (∀ node, w'.pending.lookup node = w.pending.lookup node) ∧
  (∀ id, w'.paired.rows.lookup id = w.paired.rows.lookup id) ∧
  ∀ claim, w'.decisions.lookup claim = w.decisions.lookup claim

/-- The node whose claim the action decides. -/
def Action.decides : Action → Option String
  | .approve _ _ _ nodeId => some nodeId
  | .reject _ nodeId => some nodeId
  | _ => none

/-- Only a claim that is shown is decided, and only an undecided one gets a token. -/
def DecidesLive (s : State) (a : Action) : Prop :=
  (∀ node, a.decides = some node → ¬ SameTables s.wire (step env order s a).wire →
    Shown s node) ∧
  ∀ refuse newId token node approval, a = .approve refuse newId token node →
    (approveClaim env order s.now refuse newId token node s.wire).1 = .ok approval →
    (s.wire.pending.lookup node).map PendingPairing.statusId = some (some .pending)

/-- No rejected node has a token that works. -/
def RejectedOut (s : State) : Prop :=
  ∀ node row, s.wire.pending.lookup node = some row → row.statusId = some .rejected →
    ¬ Authorized env s.wire node

/-- Every decision of the run is live, and no state of it has a rejected node with a
    working token. -/
def Final (start : State) (run : List Action) : Prop :=
  (∀ pre a, pre ++ [a] <+: run → DecidesLive env order (Runs.exec (step env order) start pre) a) ∧
  ∀ pre, pre <+: run → RejectedOut env (Runs.exec (step env order) start pre)

/-- What the list shows is decided, and a node is rejected while no token of it works. -/
def Guard (s : State) : Action → Prop
  | .approve _ _ _ nodeId => ∀ row, s.wire.pending.lookup nodeId = some row → Shown s nodeId
  | .reject _ nodeId => ∀ row, s.wire.pending.lookup nodeId = some row →
      Shown s nodeId ∧ ¬ Authorized env s.wire nodeId
  | _ => True

end System

variable {env : Env} {order : MapOrder}

/-! ## What a decision does -/

/-- A claim that is shown is pending. -/
theorem lookup_of_shown {s : State} {node : String} (h : Shown s node) :
    ∃ row, s.wire.pending.lookup node = some row ∧ row.statusId = some .pending := by
  obtain ⟨row, hmem⟩ := h
  obtain ⟨hentry, hopen⟩ := List.mem_filter.1 hmem
  refine ⟨row, AList.mem_lookup_iff.2 hentry, ?_⟩
  simp only [Bool.and_eq_true, beq_iff_eq] at hopen
  exact hopen.1

theorem decidesLive_of_other {s : State} {a : Action} (h : a.decides = none) :
    DecidesLive env order s a := by
  constructor
  · intro node hnode
    cases h.symm.trans hnode
  · rintro refuse newId token node approval rfl
    cases h

theorem decidesLive_of_guard {s : State} {a : Action} (hguard : Guard env s a) :
    DecidesLive env order s a := by
  have hsame : SameTables s.wire s.wire := ⟨fun _ => rfl, fun _ => rfl, fun _ => rfl⟩
  cases a with
  | approve refuse newId token nodeId =>
      cases hrun : approveClaim env order s.now refuse newId token nodeId s.wire with
      | mk r wire =>
          rcases approveRun_of_approveClaim hrun with ⟨rfl, e, rfl⟩ | ⟨row, hrow, _⟩
          · -- nothing was looked up, or nothing was found
            refine ⟨fun _ _ hchange => absurd ?_ hchange, ?_⟩
            · simp only [step, hrun]
              exact hsame
            · rintro _ _ _ _ approval ha hok
              cases ha
              rw [hrun] at hok
              cases hok
          · have hshown := hguard row hrow
            obtain ⟨row', hrow', hpending⟩ := lookup_of_shown hshown
            refine ⟨fun node hnode _ => ?_, ?_⟩
            · cases hnode
              exact hshown
            · rintro _ _ _ _ approval ha _
              cases ha
              rw [hrow', Option.map_some, hpending]
  | reject refuse nodeId =>
      refine ⟨fun node hnode hchange => ?_, fun _ _ _ _ _ ha => by cases ha⟩
      cases hnode
      cases hrun : rejectClaim env order s.now refuse nodeId s.wire with
      | mk r wire =>
          rcases rejectClaim_run hrun with ⟨rfl, _⟩ | ⟨row, hrow, _⟩
          · refine absurd ?_ hchange
            simp only [step, hrun]
            exact hsame
          · exact (hguard row hrow).1
  | pair refuse secret remote deviceId name => exact decidesLive_of_other rfl
  | poll remote claim => exact decidesLive_of_other rfl
  | revoke deviceId => exact decidesLive_of_other rfl
  | tick elapsed utc => exact decidesLive_of_other rfl
  | restart => exact decidesLive_of_other rfl

/-! ## Rejected nodes stay out -/

theorem authorized_iff {wire : WireState} {node : String} :
    Authorized env wire node ↔
      ∃ token id, trim token ≠ "" ∧ wire.paired.Holds id (trim token) node := by
  constructor
  · rintro ⟨token, device, h⟩
    obtain ⟨hblank, id, hrow⟩ := authorize_iff.1 ⟨device, h⟩
    exact ⟨token, id, hblank, hrow⟩
  · rintro ⟨token, id, hblank, hrow⟩
    exact ⟨token, authorize_iff.2 ⟨hblank, id, hrow⟩⟩

/-- A step that rejects nobody and lets nobody in. -/
theorem rejectedOut_of_same {s s' : State} (hs : RejectedOut env s)
    (hpending : ∀ node row, s'.wire.pending.lookup node = some row →
      row.statusId = some .rejected → s.wire.pending.lookup node = some row)
    (hpaired : ∀ id token node, s'.wire.paired.Holds id token node →
      s.wire.paired.Holds id token node) : RejectedOut env s' := by
  intro node row hrow hrejected hauth
  obtain ⟨token, id, hblank, hheld⟩ := authorized_iff.1 hauth
  exact hs node row (hpending node row hrow hrejected) hrejected
    (authorized_iff.2 ⟨token, id, hblank, hpaired id _ node hheld⟩)

theorem dispatchPairStatus_pending {now : Instant} {remote claim : String} {s : WireState} :
    (dispatchPairStatus now remote claim s).2.pending = s.pending := by
  rw [dispatchPairStatus]
  split
  · rfl
  rw [pairStatus]
  split
  · rfl
  dsimp only
  split
  · rfl
  · rfl

theorem step_pair_wire {s : State} {refuse : Nat → Option String} {secret : DbId}
    {remote deviceId name : String} :
    (step env order s (.pair refuse secret remote deviceId name)).wire =
      (dispatchPair env s.now refuse secret remote deviceId name s.wire).2 := by
  simp only [step]
  split
  · next h => rw [h]
  · next h => rw [h]

/-- An approval lets in the node of a pending claim and nobody else. -/
theorem rejectedOut_approve {s : State} {refuse : Nat → Option String} {newId token : DbId}
    {nodeId : String} (hs : RejectedOut env s)
    (hguard : Guard env s (.approve refuse newId token nodeId)) :
    RejectedOut env (step env order s (.approve refuse newId token nodeId)) := by
  cases hrun : approveClaim env order s.now refuse newId token nodeId s.wire with
  | mk r wire =>
      simp only [step, hrun]
      rcases approveRun_of_approveClaim hrun with ⟨rfl, _⟩ | ⟨row, hrow, hcases⟩
      · exact hs
      obtain ⟨row', hrow', hpending⟩ := lookup_of_shown (hguard row hrow)
      cases Option.some.inj (hrow.symm.trans hrow')
      intro node old hold hrejected hauth
      rcases hcases.pending hold with hold | ⟨_, happroved⟩
      · obtain ⟨tok, id, hblank, hheld⟩ := authorized_iff.1 hauth
        rcases hcases.holds hheld with hheld | ⟨_, rfl⟩
        · exact hs node old hold hrejected (authorized_iff.2 ⟨tok, id, hblank, hheld⟩)
        · -- the node of the approved claim is not rejected
          cases Option.some.inj (hrow.symm.trans hold)
          cases hpending.symm.trans hrejected
      · cases happroved.symm.trans hrejected

/-- A rejection puts out a node without a working token. -/
theorem rejectedOut_reject {s : State} {refuse : Nat → Option String} {nodeId : String}
    (hs : RejectedOut env s) (hguard : Guard env s (.reject refuse nodeId)) :
    RejectedOut env (step env order s (.reject refuse nodeId)) := by
  cases hrun : rejectClaim env order s.now refuse nodeId s.wire with
  | mk r wire =>
      simp only [step, hrun]
      rcases rejectClaim_run hrun with ⟨rfl, _⟩ | ⟨row, hrow, _, rfl⟩
      · exact hs
      intro node old hold hrejected hauth
      obtain ⟨tok, id, hblank, hheld⟩ := authorized_iff.1 hauth
      dsimp only at hold hheld
      rw [applyPairingDecision_tables.1] at hold
      rw [applyPairingDecision_tables.2] at hheld
      have hbefore : Authorized env s.wire node := authorized_iff.2 ⟨tok, id, hblank, hheld⟩
      rcases lookup_insert.1 hold with ⟨rfl, _⟩ | ⟨_, hold⟩
      · exact (hguard row hrow).2 hbefore
      · exact hs node old hold hrejected hbefore

theorem rejectedOut_step {s : State} {a : Action} (hs : RejectedOut env s)
    (hguard : Guard env s a) : RejectedOut env (step env order s a) := by
  cases a with
  | pair refuse secret remote deviceId name =>
      refine rejectedOut_of_same hs (fun node row hrow hrejected => ?_) fun id token node hheld => ?_
      · rw [step_pair_wire] at hrow
        rcases dispatchPair_pending hrow with hold | ⟨_, hpending⟩
        · exact hold
        · cases hpending.symm.trans hrejected
      · rwa [step_pair_wire, SyncTokens.dispatchPair_same.1] at hheld
  | approve refuse newId token nodeId => exact rejectedOut_approve hs hguard
  | reject refuse nodeId => exact rejectedOut_reject hs hguard
  | poll remote claim =>
      refine rejectedOut_of_same hs (fun node row hrow _ => ?_) fun id token node hheld => ?_
      · simp only [step] at hrow
        rwa [dispatchPairStatus_pending] at hrow
      · simp only [step] at hheld
        rwa [SyncTokens.dispatchPairStatus_cases.1] at hheld
  | revoke deviceId =>
      simp only [step, revoke]
      cases hparse : parseId env deviceId with
      | none => exact hs
      | some id =>
          exact rejectedOut_of_same hs (fun _ _ h _ => h) fun _ _ _ hheld =>
            (PairedDevices.holds_delete.1 hheld).2
  | tick elapsed utc => exact hs
  | restart =>
      exact rejectedOut_of_same hs (fun _ _ h _ => (lookup_retain.1 h).1) fun _ _ _ hheld => hheld

/-- A new installation has no claims. -/
def Started (s : State) : Prop := s.wire.pending = ∅

/-- **A DECISION IS FINAL** in every run in which the reader decides what the list
    shows and rejects no node that a token lets in already. -/
theorem final_of_admitted (env : Env) (order : MapOrder) (start : State) (run : List Action)
    (hstart : Started start) (hrun : Runs.Admitted (step env order) (Guard env) start run) :
    Final env order start run := by
  constructor
  · rintro pre a ⟨rest, rfl⟩
    rw [List.append_assoc] at hrun
    exact decidesLive_of_guard (hrun.drop pre ([a] ++ rest)).1
  · rintro pre ⟨rest, rfl⟩
    refine Runs.invariant (fun _ _ hs hg => rejectedOut_step hs hg) pre ?_ (hrun.of_append pre rest)
    intro node row hrow
    rw [hstart] at hrow
    cases hrow

/-! ## One claim, decided once and twice -/

/-- A daemon without rows or claims. -/
def startState : State where
  wire := SyncTokens.startState.wire
  now := 0
  utc := 0
  expiresAt := ∅

/-- A node files a claim and is approved. -/
def claimAndApprove : List Action :=
  [.pair (fun _ => none) (SyncTokens.sampleId 2) "node"
      ((SyncTokens.sampleId 3).text Env.reference) "phone",
    .approve (fun _ => none) (SyncTokens.sampleId 4) (SyncTokens.sampleId 5) "node"]

/-- The shown claim is approved, and that is final. -/
theorem final_approved_once :
    Started startState ∧ Final Env.reference SyncTokens.listOrder startState claimAndApprove := by
  refine ⟨rfl, final_of_admitted _ _ _ _ rfl ⟨trivial, fun row _ => ?_, trivial⟩⟩
  exact ⟨_, List.mem_cons_self⟩

/-- The approved claim is rejected as well: its row says so, and the token still
    works. -/
theorem not_final_rejected_after :
    ¬ Final Env.reference SyncTokens.listOrder startState
      (claimAndApprove ++ [.reject (fun _ => none) "node"]) := by
  intro h
  have hout := h.2 _ (List.prefix_refl _)
  have hrejected : ((Runs.exec (step Env.reference SyncTokens.listOrder) startState
      (claimAndApprove ++ [.reject (fun _ => none) "node"])).wire.pending.lookup "node").map
        PendingPairing.statusId = some (some .rejected) := by decide
  have haccepted : (authorize Env.reference
      (Runs.exec (step Env.reference SyncTokens.listOrder) startState
        (claimAndApprove ++ [.reject (fun _ => none) "node"])).wire
      ((SyncTokens.sampleId 5).text Env.reference) "node").toOption =
        some ((SyncTokens.sampleId 3).text Env.reference) := by decide
  obtain ⟨row, hrow, hstatus⟩ := Option.map_eq_some_iff.1 hrejected
  refine hout "node" row hrow hstatus ⟨(SyncTokens.sampleId 5).text Env.reference, ?_⟩
  cases hresult : authorize Env.reference
      (Runs.exec (step Env.reference SyncTokens.listOrder) startState
        (claimAndApprove ++ [.reject (fun _ => none) "node"])).wire
      ((SyncTokens.sampleId 5).text Env.reference) "node" with
  | ok device => exact ⟨device, rfl⟩
  | error e =>
      rw [hresult] at haccepted
      cases haccepted

end SyncFinality
