import Livtet.Pairing

/-! # The token a claimant is told

    Runs of claims, approvals, rejections, polls and revocations, one after the
    other, with time passing between them. The invariant is about the remembered
    approvals: each one that a poll could still read is backed by the row of its
    device, token and node alike, unless that device was revoked since. -/

namespace SyncTokens

open SyncStore SyncPairing Maps

/-! ## The system -/

structure State where
  wire : WireState
  now : Instant
  /-- The devices revoked since they were last approved. -/
  revoked : List DbId

inductive Action
  | pair (refuse : Nat → Option String) (secret : DbId) (remote deviceId name : String)
  | approve (refuse : Nat → Option String) (newId token : DbId) (nodeId : String)
  | reject (refuse : Nat → Option String) (nodeId : String)
  | poll (remote claim : String)
  | revoke (deviceId : String)
  | tick (elapsed : Nat)

section System

variable (env : Env) (order : MapOrder)

def step (s : State) : Action → State
  | .pair refuse secret remote deviceId name =>
      { s with wire := (dispatchPair env s.now refuse secret remote deviceId name s.wire).2 }
  | .approve refuse newId token nodeId =>
      match approveClaim env order s.now refuse newId token nodeId s.wire with
      | (.error _, wire) => { s with wire }
      | (.ok _, wire) =>
          let approved := (s.wire.pending.lookup nodeId).map fun row => row.device newId
          { s with wire, revoked := s.revoked.filter fun id => decide (some id ≠ approved) }
  | .reject refuse nodeId =>
      { s with wire := (rejectClaim env order s.now refuse nodeId s.wire).2 }
  | .poll remote claim => { s with wire := (dispatchPairStatus s.now remote claim s.wire).2 }
  | .revoke deviceId =>
      let (id, wire) := revoke env deviceId s.wire
      { s with wire, revoked := id.toList ++ s.revoked }
  | .tick elapsed => { s with now := s.now + elapsed }

/-- Whatever poll is answered `Paired`, its token authorizes the node that polled,
    or the device was revoked since its last approval. -/
def TokenWorks (s : State) : Prop :=
  ∀ remote claim deviceId token,
    (dispatchPairStatus s.now remote claim s.wire).1 = .ok (.paired deviceId token) →
    (∃ device, authorize env (step env order s (.poll remote claim)).wire token remote =
      .ok device) ∨
    ∃ id ∈ s.revoked, id.text env = deviceId

/-- A remembered decision that a poll can still read. -/
def Remembered (s : State) (claim : String) (d : DecidedPairing) : Prop :=
  s.wire.decisions.lookup claim = some d ∧ s.now - d.decidedAt < pairDecisionTtl

/-- No approval of the device is still remembered. -/
def NoneRemembered (s : State) (id : DbId) : Prop :=
  ∀ claim d, Remembered s claim d → d.approved = true → d.deviceId ≠ some (id.text env)

/-- An approval is only made for a device without a remembered one. -/
def Guard (s : State) : Action → Prop
  | .approve _ newId _ nodeId =>
      ∀ row, s.wire.pending.lookup nodeId = some row → NoneRemembered env s (row.device newId)
  | _ => True

end System

variable {env : Env} {order : MapOrder}

/-! ## The text of a token -/

theorem trim_text (id : DbId) : trim (id.text env) = id.text env :=
  trim_of_alphanum (env.ulidText_alphanum id.val)

theorem text_ne_empty (id : DbId) : id.text env ≠ "" := by
  intro h
  have hlen := env.ulidText_length id.val id.property
  rw [DbId.text] at h
  rw [h] at hlen
  cases hlen

/-- A row with the token and the node authorizes the pair. -/
theorem authorize_of_row {wire : WireState} {id token : DbId} {remote : String} {row : PairedDevice}
    (hrow : wire.paired.rows.lookup id = some row)
    (htoken : row.sessionToken = some (token.text env)) (hnode : row.nodeId = some remote) :
    ∃ device, authorize env wire (token.text env) remote = .ok device := by
  refine authorize_iff.2 ?_
  rw [trim_text]
  exact ⟨text_ne_empty token, id, row, hrow, htoken, hnode⟩

/-! ## What an operation does to decisions and rows -/

/-- A remembered decision is an old one or the one just recorded. -/
theorem lookup_recordDecision {now : Instant} {claim key : String} {d new : DecidedPairing}
    {m : Map String DecidedPairing}
    (h : (recordDecision order now claim new m).lookup key = some d) :
    d = new ∨ m.lookup key = some d := by
  rw [recordDecision] at h
  rcases lookup_insert.1 h with ⟨_, rfl⟩ | ⟨_, h⟩
  · exact Or.inl rfl
  · exact Or.inr (lookup_retain.1 (lookup_of_lookup_evict h)).1

theorem lookup_applyPairingDecision {now : Instant} {nodeId token key : String} {approved : Bool}
    {deviceId : Option String} {s : WireState} {d : DecidedPairing}
    (h : (applyPairingDecision order now nodeId approved token deviceId s).2.decisions.lookup key =
      some d) :
    d = ⟨nodeId, approved, deviceId, token, now⟩ ∨ s.decisions.lookup key = some d := by
  rw [applyPairingDecision] at h
  split at h
  · exact Or.inr h
  · exact lookup_recordDecision h

theorem applyPairingDecision_paired {now : Instant} {nodeId token : String} {approved : Bool}
    {deviceId : Option String} {s : WireState} :
    (applyPairingDecision order now nodeId approved token deviceId s).2.paired = s.paired := by
  rw [applyPairingDecision]
  split <;> rfl

theorem decidePending_same {refuse : Nat → Option String} {n : Nat} {nodeId : String}
    {row : PendingPairing} {status : PairingStatus} {s s' : WireState} {r : Except ClaimError Unit}
    (h : decidePending refuse n nodeId row status s = (r, s')) :
    s'.decisions = s.decisions ∧ s'.paired = s.paired := by
  rw [decidePending] at h
  split at h
  · cases h
    exact ⟨rfl, rfl⟩
  · cases h
    exact ⟨rfl, rfl⟩

/-- The row of an approval: other devices keep theirs, and on success this one has
    the token and the node. -/
theorem recordApproval_cases {refuse : Nat → Option String} {id : DbId} {name : Option String}
    {token nodeId : String} {s s' : WireState} {r : Except ClaimError Unit}
    (h : recordApproval refuse id name token nodeId s = (r, s')) :
    s'.decisions = s.decisions ∧
    (∀ id', id' ≠ id → s'.paired.rows.lookup id' = s.paired.rows.lookup id') ∧
    (r = .ok () → ∃ row, s'.paired.rows.lookup id = some row ∧ row.sessionToken = some token ∧
      row.nodeId = some nodeId) := by
  rw [recordApproval] at h
  split at h
  · cases h
    exact ⟨rfl, fun _ _ => rfl, fun h => by cases h⟩
  dsimp only at h
  split at h
  · cases h
    exact ⟨rfl, fun _ hne => PairedDevices.lookup_upsert_ne hne, fun h => by cases h⟩
  split at h
  · cases h
    exact ⟨rfl, fun _ hne => PairedDevices.lookup_upsert_ne hne, fun h => by cases h⟩
  · next paired hset =>
      cases h
      obtain ⟨hrow, hother⟩ := PairedDevices.setToken_eq_ok hset
      refine ⟨rfl, fun id' hne => ?_, fun _ => hrow⟩
      rw [hother id' hne]
      exact PairedDevices.lookup_upsert_ne hne

/-- Everything an approval can do to the decisions and the rows. -/
structure ApproveCase (env : Env) (now : Instant) (token : DbId) (nodeId : String) (id : DbId)
    (s s' : WireState) : Prop where
  others : ∀ id', id' ≠ id → s'.paired.rows.lookup id' = s.paired.rows.lookup id'
  decisions : ∀ claim d, s'.decisions.lookup claim = some d →
    s.decisions.lookup claim = some d ∨
    (d = ⟨nodeId, true, some (id.text env), token.text env, now⟩ ∧
      ∃ row, s'.paired.rows.lookup id = some row ∧ row.sessionToken = some (token.text env) ∧
        row.nodeId = some nodeId)

theorem approveClaim_cases {now : Instant} {refuse : Nat → Option String} {newId token : DbId}
    {nodeId : String} {s s' : WireState} {r : Except ClaimError ClaimApproval}
    (h : approveClaim env order now refuse newId token nodeId s = (r, s')) :
    (s' = s ∧ ∃ e, r = .error e) ∨ ∃ row, s.pending.lookup nodeId = some row ∧
      ApproveCase env now token nodeId (row.device newId) s s' := by
  rw [approveClaim] at h
  split at h
  · cases h
    exact Or.inl ⟨rfl, _, rfl⟩
  · cases h
    exact Or.inl ⟨rfl, _, rfl⟩
  next row _ hrow =>
    refine Or.inr ⟨row, hrow, ?_⟩
    dsimp only at h
    split at h
    · next e s1 happroval =>
        cases h
        -- the approval fails half way: a device may be written, but no decision
        obtain ⟨hdec, hothers, _⟩ := recordApproval_cases happroval
        refine ⟨hothers, fun claim d hd => Or.inl ?_⟩
        rwa [hdec] at hd
    next s1 happroval =>
      obtain ⟨hdec1, hothers, hbacked⟩ := recordApproval_cases happroval
      split at h
      · next e s2 hpending =>
          cases h
          obtain ⟨hdec2, hpaired⟩ := decidePending_same hpending
          refine ⟨fun id' hne => ?_, fun claim d hd => Or.inl ?_⟩
          · rw [hpaired]
            exact hothers id' hne
          · rwa [hdec2, hdec1] at hd
      next s2 hpending =>
        obtain ⟨hdec2, hpaired⟩ := decidePending_same hpending
        cases h
        refine ⟨fun id' hne => ?_, fun claim d hd => ?_⟩
        · rw [applyPairingDecision_paired, hpaired]
          exact hothers id' hne
        · -- a decision is the one just made, or was there before
          rcases lookup_applyPairingDecision hd with hnew | hold
          · refine Or.inr ⟨hnew, ?_⟩
            rw [applyPairingDecision_paired, hpaired]
            exact hbacked rfl
          · rw [hdec2, hdec1] at hold
            exact Or.inl hold

theorem rejectClaim_cases {now : Instant} {refuse : Nat → Option String} {nodeId : String}
    {s s' : WireState} {r : Except ClaimError Unit}
    (h : rejectClaim env order now refuse nodeId s = (r, s')) :
    s'.paired = s.paired ∧ ∀ claim d, s'.decisions.lookup claim = some d → d.approved = true →
      s.decisions.lookup claim = some d := by
  rw [rejectClaim] at h
  split at h
  · cases h
    exact ⟨rfl, fun _ _ hd _ => hd⟩
  · cases h
    exact ⟨rfl, fun _ _ hd _ => hd⟩
  split at h
  · next e s1 hpending =>
      cases h
      obtain ⟨hdec, hpaired⟩ := decidePending_same hpending
      refine ⟨hpaired, fun claim d hd _ => ?_⟩
      rwa [hdec] at hd
  · next s1 hpending =>
      cases h
      obtain ⟨hdec, hpaired⟩ := decidePending_same hpending
      refine ⟨applyPairingDecision_paired.trans hpaired, fun claim d hd happroved => ?_⟩
      rcases lookup_applyPairingDecision hd with rfl | hold
      · cases happroved
      · rwa [hdec] at hold

theorem dispatchPair_same {now : Instant} {refuse : Nat → Option String} {secret : DbId}
    {remote deviceId name : String} {s : WireState} :
    (dispatchPair env now refuse secret remote deviceId name s).2.paired = s.paired ∧
    (dispatchPair env now refuse secret remote deviceId name s).2.decisions = s.decisions := by
  have hpair : ∀ s : WireState, (pair env refuse secret remote deviceId name s).2.paired = s.paired ∧
      (pair env refuse secret remote deviceId name s).2.decisions = s.decisions := by
    intro s
    rw [pair]
    split
    · exact ⟨rfl, rfl⟩
    · exact ⟨rfl, rfl⟩
    split
    · exact ⟨rfl, rfl⟩
    split
    · exact ⟨rfl, rfl⟩
    split
    · exact ⟨rfl, rfl⟩
    · exact ⟨rfl, rfl⟩
  rw [dispatchPair]
  split
  · exact ⟨rfl, rfl⟩
  dsimp only
  split
  · exact hpair _
  · exact ⟨rfl, rfl⟩

/-- A poll only forgets. -/
theorem dispatchPairStatus_cases {now : Instant} {remote claim : String} {s : WireState} :
    (dispatchPairStatus now remote claim s).2.paired = s.paired ∧
    ∀ key d, (dispatchPairStatus now remote claim s).2.decisions.lookup key = some d →
      s.decisions.lookup key = some d := by
  rw [dispatchPairStatus]
  split
  · exact ⟨rfl, fun _ _ hd => hd⟩
  rw [pairStatus]
  split
  · exact ⟨rfl, fun _ _ hd => hd⟩
  dsimp only [decided]
  split
  · exact ⟨rfl, fun _ _ hd => (lookup_retain.1 hd).1⟩
  · exact ⟨rfl, fun _ _ hd => (lookup_retain.1 hd).1⟩

/-- A poll that is answered `Paired` reads a remembered approval of its own node. -/
theorem remembered_of_paired {s : State} {remote claim deviceId token : String}
    (h : (dispatchPairStatus s.now remote claim s.wire).1 = .ok (.paired deviceId token)) :
    ∃ d, Remembered s claim d ∧ d.approved = true ∧ d.nodeId = remote ∧
      d.deviceId.getD "" = deviceId ∧ d.sessionToken = token := by
  rw [dispatchPairStatus] at h
  split at h
  · cases h
  rw [pairStatus] at h
  split at h
  · cases h
  dsimp only [decided] at h
  split at h
  · next d hd =>
      obtain ⟨hlookup, hnode⟩ := Option.filter_eq_some_iff.1 hd
      obtain ⟨hlookup, hlive⟩ := lookup_retain.1 hlookup
      have hresponse : d.response = .paired deviceId token := Except.ok.inj h
      rw [DecidedPairing.response] at hresponse
      split at hresponse
      · next happroved =>
          obtain ⟨hdevice, htoken⟩ := Response.paired.inj hresponse
          exact ⟨d, ⟨hlookup, by simpa using hlive⟩, happroved, by simpa using hnode, hdevice,
            htoken⟩
      · cases hresponse
  · cases h

/-! ## The invariant -/

/-- The decision's token is on the row of its device, for its node, or the device
    was revoked. -/
def Backed (env : Env) (s : State) (d : DecidedPairing) : Prop :=
  ∃ id token : DbId, d.deviceId = some (id.text env) ∧ d.sessionToken = token.text env ∧
    (id ∈ s.revoked ∨ ∃ row, s.wire.paired.rows.lookup id = some row ∧
      row.sessionToken = some d.sessionToken ∧ row.nodeId = some d.nodeId)

def Inv (env : Env) (s : State) : Prop :=
  ∀ claim d, Remembered s claim d → d.approved = true → Backed env s d

/-- A step that remembers no new approval and touches neither rows nor revocations. -/
theorem inv_of_same {s s' : State} (hs : Inv env s) (hnow : s.now ≤ s'.now)
    (hpaired : s'.wire.paired = s.wire.paired) (hrevoked : s'.revoked = s.revoked)
    (hdec : ∀ claim d, s'.wire.decisions.lookup claim = some d → d.approved = true →
      s.wire.decisions.lookup claim = some d) : Inv env s' := by
  intro claim d hd happroved
  have hold : Remembered s claim d := ⟨hdec claim d hd.1 happroved,
    Nat.lt_of_le_of_lt (Nat.sub_le_sub_right hnow _) hd.2⟩
  obtain ⟨id, token, hid, htoken, hback⟩ := hs claim d hold happroved
  refine ⟨id, token, hid, htoken, ?_⟩
  rw [hpaired, hrevoked]
  exact hback

/-- After an approval: the remembered approvals of other devices keep their rows, and
    the one just recorded has its own. -/
theorem inv_of_approveCase {s : State} {token : DbId} {nodeId : String} {id : DbId}
    {wire : WireState} {revoked : List DbId} (hs : Inv env s) (hnone : NoneRemembered env s id)
    (hcase : ApproveCase env s.now token nodeId id s.wire wire)
    (hrevoked : ∀ id' ∈ s.revoked, id' ≠ id → id' ∈ revoked) :
    Inv env { s with wire, revoked } := by
  intro claim d hd happroved
  rcases hcase.decisions claim d hd.1 with hold | ⟨rfl, row, hrow, htok, hnode⟩
  · obtain ⟨id', tok, hid, htok, hback⟩ := hs claim d ⟨hold, hd.2⟩ happroved
    have hne : id' ≠ id := by
      rintro rfl
      exact hnone claim d ⟨hold, hd.2⟩ happroved hid
    refine ⟨id', tok, hid, htok, ?_⟩
    rcases hback with hin | hback
    · exact Or.inl (hrevoked id' hin hne)
    · right
      rw [hcase.others id' hne]
      exact hback
  · exact ⟨id, token, rfl, rfl, Or.inr ⟨row, hrow, htok, hnode⟩⟩

theorem inv_approve {s : State} {refuse : Nat → Option String} {newId token : DbId}
    {nodeId : String} (hs : Inv env s) (hguard : Guard env s (.approve refuse newId token nodeId)) :
    Inv env (step env order s (.approve refuse newId token nodeId)) := by
  simp only [step]
  split
  · next e wire h =>
      rcases approveClaim_cases h with ⟨rfl, _⟩ | ⟨row, hrow, hcase⟩
      · exact hs
      · exact inv_of_approveCase hs (hguard row hrow) hcase fun _ hin _ => hin
  · next approval wire h =>
      rcases approveClaim_cases h with ⟨_, e, he⟩ | ⟨row, hrow, hcase⟩
      · cases he
      · refine inv_of_approveCase hs (hguard row hrow) hcase fun id hin hne => ?_
        rw [hrow]
        refine List.mem_filter.2 ⟨hin, ?_⟩
        simpa using hne

theorem inv_step {s : State} {a : Action} (hs : Inv env s) (hguard : Guard env s a) :
    Inv env (step env order s a) := by
  cases a with
  | pair refuse secret remote deviceId name =>
      refine inv_of_same hs (le_refl _) dispatchPair_same.1 rfl ?_
      intro claim d hd _
      rwa [show (step env order s (.pair refuse secret remote deviceId name)).wire.decisions =
        s.wire.decisions from dispatchPair_same.2] at hd
  | approve refuse newId token nodeId => exact inv_approve hs hguard
  | reject refuse nodeId =>
      cases h : rejectClaim env order s.now refuse nodeId s.wire with
      | mk result wire =>
          obtain ⟨hpaired, hdec⟩ := rejectClaim_cases h
          simp only [step, h]
          exact inv_of_same hs (le_refl _) hpaired rfl hdec
  | poll remote claim =>
      exact inv_of_same hs (le_refl _) dispatchPairStatus_cases.1 rfl
        fun key d hd _ => dispatchPairStatus_cases.2 key d hd
  | revoke deviceId =>
      intro claim d hd happroved
      simp only [step, revoke] at hd ⊢
      cases hparse : parseId env deviceId with
      | none =>
          rw [hparse] at hd
          exact hs claim d hd happroved
      | some gone =>
          rw [hparse] at hd
          obtain ⟨id, token, hid, htoken, hback⟩ := hs claim d hd happroved
          refine ⟨id, token, hid, htoken, ?_⟩
          by_cases hgone : id = gone
          · exact Or.inl (List.mem_append_left _ (by simp [hgone]))
          · rcases hback with hin | ⟨row, hrow, hrest⟩
            · exact Or.inl (List.mem_append_right _ hin)
            · exact Or.inr ⟨row, lookup_erase.2 ⟨hgone, hrow⟩, hrest⟩
  | tick elapsed =>
      exact inv_of_same hs (Nat.le_add_right _ _) rfl rfl fun _ _ hd _ => hd

theorem tokenWorks_of_inv {s : State} (hs : Inv env s) : TokenWorks env order s := by
  intro remote claim deviceId token h
  obtain ⟨d, hd, happroved, rfl, rfl, rfl⟩ := remembered_of_paired h
  obtain ⟨id, tok, hid, htok, hback⟩ := hs claim d hd happroved
  rcases hback with hin | ⟨row, hrow, htoken, hnode⟩
  · exact Or.inr ⟨id, hin, by rw [hid]; rfl⟩
  · left
    have hafter : (dispatchPairStatus s.now d.nodeId claim s.wire).2.paired.rows.lookup id =
        some row := by
      rw [dispatchPairStatus_cases.1]
      exact hrow
    rw [htok] at htoken ⊢
    exact authorize_of_row hafter htoken hnode

/-- A daemon that has just started remembers no decision, whatever its tables hold. -/
def Started (s : State) : Prop := s.wire.decisions = ∅

/-- **THE TOLD TOKEN WORKS** in every state of every run in which no claim is approved
    for a device whose approval is still remembered. -/
theorem tokenWorks_of_admitted (env : Env) (order : MapOrder) (start : State) (run : List Action)
    (hstart : Started start)
    (hrun : Runs.Admitted (step env order) (Guard env) start run) :
    TokenWorks env order (Runs.exec (step env order) start run) := by
  refine tokenWorks_of_inv (Runs.invariant (fun _ _ hs hg => inv_step hs hg) run ?_ hrun)
  intro claim d hd _
  have hlookup := hd.1
  rw [hstart] at hlookup
  cases hlookup

/-! ## One claim, approved once and twice -/

/-- The map in the order of its list. -/
def listOrder : MapOrder := ⟨fun m => m.entries, fun _ => List.Perm.refl _⟩

/-- An id whose bytes are all the same. -/
def sampleId (b : UInt8) : DbId := ⟨List.replicate 16 b, List.length_replicate⟩

/-- A daemon without rows or claims. -/
def startState : State where
  wire :=
    { deviceId := (sampleId 1).text Env.reference, selfNode := "self", windows := ∅, pending := ∅
      paired := PairedDevices.empty, waiters := ∅, decisions := ∅ }
  now := 0
  revoked := []

/-- A node files a claim for its device and is approved with the given token. -/
def claimAndApprove (token : DbId) : List Action :=
  [.pair (fun _ => none) (sampleId 2) "node" ((sampleId 3).text Env.reference) "phone",
    .approve (fun _ => none) (sampleId 4) token "node"]

/-- After one approval the poll is told the token, and it works. -/
theorem tokenWorks_approved_once :
    Started startState ∧
    TokenWorks Env.reference listOrder
      (Runs.exec (step Env.reference listOrder) startState (claimAndApprove (sampleId 5))) := by
  refine ⟨rfl, tokenWorks_of_admitted Env.reference listOrder startState _ rfl ?_⟩
  refine ⟨trivial, ?_, trivial⟩
  -- the map of decisions is still empty when the claim is approved
  intro row _ claim d hd _ _
  have hempty : (step Env.reference listOrder startState
      (.pair (fun _ => none) (sampleId 2) "node" ((sampleId 3).text Env.reference)
        "phone")).wire.decisions = ∅ := dispatchPair_same.2
  have hlookup := hd.1
  rw [hempty] at hlookup
  cases hlookup

/-- After a second approval the poll is still told the first token, which the row no
    longer has. -/
theorem not_tokenWorks_approved_twice :
    ¬ TokenWorks Env.reference listOrder
      (Runs.exec (step Env.reference listOrder) startState
        (claimAndApprove (sampleId 5) ++
          [.approve (fun _ => none) (sampleId 4) (sampleId 6) "node"])) := by
  intro h
  have htold := h "node" ((sampleId 2).text Env.reference) ((sampleId 3).text Env.reference)
    ((sampleId 5).text Env.reference) (by decide)
  have hrefused : ∀ device,
      authorize Env.reference
        (step Env.reference listOrder (Runs.exec (step Env.reference listOrder) startState
          (claimAndApprove (sampleId 5) ++
            [.approve (fun _ => none) (sampleId 4) (sampleId 6) "node"]))
          (.poll "node" ((sampleId 2).text Env.reference))).wire
        ((sampleId 5).text Env.reference) "node" ≠ .ok device := by
    intro device hok
    have herror : (authorize Env.reference
        (step Env.reference listOrder (Runs.exec (step Env.reference listOrder) startState
          (claimAndApprove (sampleId 5) ++
            [.approve (fun _ => none) (sampleId 4) (sampleId 6) "node"]))
          (.poll "node" ((sampleId 2).text Env.reference))).wire
        ((sampleId 5).text Env.reference) "node").toOption = none := by decide
    rw [hok] at herror
    cases herror
  have hnone : (Runs.exec (step Env.reference listOrder) startState
      (claimAndApprove (sampleId 5) ++
        [.approve (fun _ => none) (sampleId 4) (sampleId 6) "node"])).revoked = [] := by
    decide
  rcases htold with ⟨device, hok⟩ | ⟨id, hin, _⟩
  · exact hrefused device hok
  · rw [hnone] at hin
    cases hin

end SyncTokens
