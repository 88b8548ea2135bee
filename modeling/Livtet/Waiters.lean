import Livtet.Tokens

/-! # A claim that is never answered

    The claim's row and its waiter are written one after the other, and so are the
    decision's row and the answer to the waiter. The reader decides on the row, the
    claimant polls the waiter. Here the two halves of each operation are steps of
    their own, so that other operations can run in between.

    An answer that finds no waiter is lost: a waiter that is inserted later stays.
    So a waiter must come before the answer to its claim, and, where a node files
    two claims at once, the newer one's must come last. -/

namespace SyncWaiters

open SyncStore SyncPairing Maps

/-! ## The halves of each operation -/

section Halves

variable (env : Env) (order : MapOrder) (now : Instant) (refuse : Nat → Option String)

/-- `pair` up to the claim's row; an answer where it stops before. -/
def pairRow (remote deviceId name : String) (s : WireState) : Option Answer × WireState :=
  match parseId env deviceId, env.ulidParse s.deviceId with
  | none, _ => (some (.error (.badRequest, "not a device id: " ++ deviceId)), s)
  | _, none => (some (.error (.internal, "this device has no valid id")), s)
  | some peerDeviceId, some _ =>
      match refuse 0 with
      | some e => (some (.error (.internal, "pairing table: " ++ e)), s)
      | none =>
          if (s.pending.lookup remote).any fun row => row.statusId != some .pending then
            (some (.ok (.refused "this pairing was already decided")), s)
          else match refuse 1 with
            | some e => (some (.error (.internal, "could not record the claim: " ++ e)), s)
            | none =>
                (none,
                  { s with
                    pending := s.pending.insert remote
                      { statusId := some .pending, deviceName := some name
                        deviceId := some peerDeviceId } })

/-- The rest of `pair`. -/
def insertWaiter (claim remote : String) (s : WireState) : WireState :=
  { s with waiters := s.waiters.insert remote { claim } }

theorem pair_eq (secret : DbId) (remote deviceId name : String) (s : WireState) :
    pair env refuse secret remote deviceId name s =
      match pairRow env refuse remote deviceId name s with
      | (some answer, s) => (answer, s)
      | (none, s) =>
          (.ok (.pairingPending (secret.text env)), insertWaiter (secret.text env) remote s) := by
  rw [pair, pairRow]
  cases parseId env deviceId with
  | none => rfl
  | some peerDeviceId =>
      cases env.ulidParse s.deviceId with
      | none => rfl
      | some _ =>
          cases refuse 0 with
          | some e => rfl
          | none =>
              cases (s.pending.lookup remote).any fun row => row.statusId != some .pending with
              | true => rfl
              | false =>
                  cases refuse 1 with
                  | some e => rfl
                  | none => rfl

/-- A decision whose rows are written. -/
structure Decision where
  nodeId : String
  approved : Bool
  sessionToken : String
  deviceId : Option String
deriving DecidableEq, Repr

/-- `approve_claim` up to the claim's row. -/
def approveRows (newId token : DbId) (nodeId : String) (s : WireState) :
    Except ClaimError Decision × WireState :=
  match refuse 0, s.pending.lookup nodeId with
  | some e, _ => (.error (.db e), s)
  | none, none => (.error (.unknownClaim nodeId), s)
  | none, some row =>
      let id := row.device newId
      match recordApproval refuse id row.deviceName (token.text env) nodeId s with
      | (.error e, s) => (.error e, s)
      | (.ok (), s) =>
          match decidePending refuse 3 nodeId row .approved s with
          | (.error e, s) => (.error e, s)
          | (.ok (), s) =>
              (.ok { nodeId, approved := true, sessionToken := token.text env
                     deviceId := some (id.text env) }, s)

/-- `reject_claim` up to the claim's row. -/
def rejectRows (nodeId : String) (s : WireState) : Except ClaimError Decision × WireState :=
  match refuse 0, s.pending.lookup nodeId with
  | some e, _ => (.error (.db e), s)
  | none, none => (.error (.unknownClaim nodeId), s)
  | none, some row =>
      match decidePending refuse 1 nodeId row .rejected s with
      | (.error e, s) => (.error e, s)
      | (.ok (), s) =>
          (.ok { nodeId, approved := false, sessionToken := ""
                 deviceId := row.deviceId.map (DbId.text env) }, s)

/-- The rest of a decision. -/
def answerWaiter (d : Decision) (s : WireState) : WireState :=
  (applyPairingDecision order now d.nodeId d.approved d.sessionToken d.deviceId s).2

theorem approveClaim_eq (newId token : DbId) (nodeId : String) (s : WireState) :
    (approveClaim env order now refuse newId token nodeId s).2 =
      match approveRows env refuse newId token nodeId s with
      | (.error _, s) => s
      | (.ok d, s) => answerWaiter order now d s := by
  rw [approveClaim, approveRows]
  cases refuse 0 with
  | some e => rfl
  | none =>
      cases s.pending.lookup nodeId with
      | none => rfl
      | some row =>
          dsimp only
          rcases recordApproval refuse (row.device newId) row.deviceName (token.text env) nodeId s
            with ⟨_ | _, s⟩
          · rfl
          dsimp only
          rcases decidePending refuse 3 nodeId row .approved s with ⟨_ | _, s⟩
          · rfl
          · rfl

theorem rejectClaim_eq (nodeId : String) (s : WireState) :
    (rejectClaim env order now refuse nodeId s).2 =
      match rejectRows env refuse nodeId s with
      | (.error _, s) => s
      | (.ok d, s) => answerWaiter order now d s := by
  rw [rejectClaim, rejectRows]
  cases refuse 0 with
  | some e => rfl
  | none =>
      cases s.pending.lookup nodeId with
      | none => rfl
      | some row =>
          dsimp only
          rcases decidePending refuse 1 nodeId row .rejected s with ⟨_ | _, s⟩
          · rfl
          · rfl

end Halves

/-! ## The system -/

/-- A claim whose row was written, with the secret it will return. -/
structure Filing where
  remote : String
  secret : DbId

structure State where
  wire : WireState
  now : Instant
  /-- The claims in the order of their rows. They go by their number in this list. -/
  filed : List Filing
  /-- The claims that have yet to insert their waiter. -/
  filing : List Nat
  /-- The claims whose secret was returned. -/
  answered : List Nat
  /-- The decisions that have yet to answer their waiter. -/
  deciding : List Decision
  /-- The secrets whose decision was dropped, past its window or for lack of room. -/
  forgotten : List String

inductive Action
  | file (refuse : Nat → Option String) (secret : DbId) (remote deviceId name : String)
  | wait (n : Nat)
  | approve (refuse : Nat → Option String) (newId token : DbId) (nodeId : String)
  | reject (refuse : Nat → Option String) (nodeId : String)
  | answer (d : Decision)
  | poll (remote claim : String)
  | tick (elapsed : Nat)

section System

variable (env : Env) (order : MapOrder)

/-- The secrets that an update of the map drops because their window has closed or the
    map is full. -/
def forgets (s : State) (after : Map String DecidedPairing) : List String :=
  (s.wire.decisions.entries.filter fun e =>
    (after.lookup e.1).isNone &&
      (decide (pairDecisionTtl ≤ s.now - e.2.decidedAt) ||
        decide (pairDecisionCap ≤ (prune s.now s.wire.decisions).entries.length))).map Sigma.fst

def remember (s : State) (wire : WireState) : State :=
  { s with wire, forgotten := forgets s wire.decisions ++ s.forgotten }

def step (s : State) : Action → State
  | .file refuse secret remote deviceId name =>
      -- `Ulid::generate` returns no id twice
      if ∃ f ∈ s.filed, f.secret = secret then s
      else match pairRow env refuse remote deviceId name s.wire with
        | (some _, wire) => { s with wire }
        | (none, wire) =>
            { s with
              wire
              filed := s.filed ++ [{ remote, secret }]
              filing := s.filed.length :: s.filing }
  | .wait n =>
      match s.filed[n]? with
      | none => s
      | some f =>
          if n ∈ s.filing then
            { s with
              wire := insertWaiter (f.secret.text env) f.remote s.wire
              filing := s.filing.erase n
              answered := n :: s.answered }
          else s
  | .approve refuse newId token nodeId =>
      match approveRows env refuse newId token nodeId s.wire with
      | (.error _, wire) => { s with wire }
      | (.ok d, wire) => { s with wire, deciding := d :: s.deciding }
  | .reject refuse nodeId =>
      match rejectRows env refuse nodeId s.wire with
      | (.error _, wire) => { s with wire }
      | (.ok d, wire) => { s with wire, deciding := d :: s.deciding }
  | .answer d =>
      if d ∈ s.deciding then
        { remember s (answerWaiter order s.now d s.wire) with deciding := s.deciding.erase d }
      else s
  | .poll remote claim => remember s (pairStatus s.now remote claim s.wire).2
  | .tick elapsed => { s with now := s.now + elapsed }

/-- The node's row carries a decision. -/
def Decided (s : State) (remote : String) : Prop :=
  ∃ row, s.wire.pending.lookup remote = some row ∧ row.statusId ≠ some .pending

/-- The claim is the `n`-th, and its node filed no newer one. -/
def Newest (s : State) (f : Filing) (n : Nat) : Prop :=
  s.filed[n]? = some f ∧ ∀ (m : Nat) (g : Filing), s.filed[m]? = some g → g.remote = f.remote → m ≤ n

/-- The decision was dropped, or is past its window. -/
def Forgotten (s : State) (claim : String) : Prop :=
  claim ∈ s.forgotten ∨
    ∃ d, s.wire.decisions.lookup claim = some d ∧ pairDecisionTtl ≤ s.now - d.decidedAt

/-- Once the row of its newest claim carries a decision, a node that polls with the
    secret it got is told the decision, as long as that is remembered. -/
def PollAnswered (s : State) (remote claim : String) : Prop :=
  ∀ (f : Filing) n, Newest s f n → n ∈ s.answered → f.remote = remote → claim = f.secret.text env →
    Decided s remote →
    (∃ deviceId token, (pairStatus s.now remote claim s.wire).1 = .ok (.paired deviceId token)) ∨
    (∃ reason, (pairStatus s.now remote claim s.wire).1 = .ok (.refused reason)) ∨
    Forgotten s claim

/-- Every poll of the run is answered. -/
def NeverStuck (start : State) (run : List Action) : Prop :=
  ∀ pre remote claim, pre ++ [.poll remote claim] <+: run →
    PollAnswered env (Runs.exec (step env order) start pre) remote claim

/-- A decision of the node is half done. -/
def BeingDecided (s : State) (remote : String) : Prop := ∃ d ∈ s.deciding, d.nodeId = remote

/-- A waiter is inserted before the answer to its claim and before that of a newer one,
    and a node is polled while no decision of it is half done. -/
def Guard (s : State) : Action → Prop
  | .wait n => ∀ f : Filing, s.filed[n]? = some f →
      (Decided s f.remote → BeingDecided s f.remote) ∧
      ∀ m (g : Filing), Newest s g m → g.remote = f.remote → m ∈ s.answered → m = n
  | .poll remote _ => ¬ BeingDecided s remote
  | _ => True

end System

variable {env : Env} {order : MapOrder}

/-! ## What each half does -/

theorem pairRow_cases {refuse : Nat → Option String} {remote deviceId name : String}
    {s s' : WireState} {r : Option Answer}
    (h : pairRow env refuse remote deviceId name s = (r, s')) :
    ((∃ answer, r = some answer) ∧ s' = s) ∨
    (r = none ∧ ∃ row, s' = { s with pending := s.pending.insert remote row }) := by
  rw [pairRow] at h
  split at h
  · cases h
    exact Or.inl ⟨⟨_, rfl⟩, rfl⟩
  · cases h
    exact Or.inl ⟨⟨_, rfl⟩, rfl⟩
  split at h
  · cases h
    exact Or.inl ⟨⟨_, rfl⟩, rfl⟩
  split at h
  · cases h
    exact Or.inl ⟨⟨_, rfl⟩, rfl⟩
  split at h
  · cases h
    exact Or.inl ⟨⟨_, rfl⟩, rfl⟩
  · cases h
    exact Or.inr ⟨rfl, _, rfl⟩

/-- What the first half of a decision does: it touches neither map, and the claim's row
    exactly if it succeeds. -/
structure RowsCase (nodeId : String) (s s' : WireState) (r : Except ClaimError Decision) :
    Prop where
  waiters : s'.waiters = s.waiters
  decisions : s'.decisions = s.decisions
  pending : ((∃ e, r = .error e) ∧ s'.pending = s.pending) ∨
    ∃ d row, r = .ok d ∧ d.nodeId = nodeId ∧ s'.pending = s.pending.insert nodeId row

theorem recordApproval_pending {refuse : Nat → Option String} {id : DbId} {name : Option String}
    {token nodeId : String} {s s' : WireState} {r : Except ClaimError Unit}
    (h : recordApproval refuse id name token nodeId s = (r, s')) :
    s'.waiters = s.waiters ∧ s'.decisions = s.decisions ∧ s'.pending = s.pending := by
  rw [recordApproval] at h
  split at h
  · cases h
    exact ⟨rfl, rfl, rfl⟩
  dsimp only at h
  split at h
  · cases h
    exact ⟨rfl, rfl, rfl⟩
  split at h
  · cases h
    exact ⟨rfl, rfl, rfl⟩
  · cases h
    exact ⟨rfl, rfl, rfl⟩

theorem rowsCase_approveRows {refuse : Nat → Option String} {newId token : DbId} {nodeId : String}
    {s s' : WireState} {r : Except ClaimError Decision}
    (h : approveRows env refuse newId token nodeId s = (r, s')) : RowsCase nodeId s s' r := by
  rw [approveRows] at h
  split at h
  · cases h
    exact ⟨rfl, rfl, Or.inl ⟨⟨_, rfl⟩, rfl⟩⟩
  · cases h
    exact ⟨rfl, rfl, Or.inl ⟨⟨_, rfl⟩, rfl⟩⟩
  next row _ _ =>
    dsimp only at h
    split at h
    · next happroval =>
        cases h
        obtain ⟨hwaiters, hdecisions, hpending⟩ := recordApproval_pending happroval
        exact ⟨hwaiters, hdecisions, Or.inl ⟨⟨_, rfl⟩, hpending⟩⟩
    next s1 happroval =>
      obtain ⟨hwaiters, hdecisions, hpending⟩ := recordApproval_pending happroval
      rw [decidePending] at h
      cases h3 : refuse 3 with
      | some e =>
          rw [h3] at h
          cases h
          exact ⟨hwaiters, hdecisions, Or.inl ⟨⟨_, rfl⟩, hpending⟩⟩
      | none =>
          rw [h3] at h
          cases h
          refine ⟨hwaiters, hdecisions,
            Or.inr ⟨_, { row with statusId := some .approved }, rfl, rfl, ?_⟩⟩
          rw [hpending]

theorem rowsCase_rejectRows {refuse : Nat → Option String} {nodeId : String} {s s' : WireState}
    {r : Except ClaimError Decision} (h : rejectRows env refuse nodeId s = (r, s')) :
    RowsCase nodeId s s' r := by
  rw [rejectRows] at h
  split at h
  · cases h
    exact ⟨rfl, rfl, Or.inl ⟨⟨_, rfl⟩, rfl⟩⟩
  · cases h
    exact ⟨rfl, rfl, Or.inl ⟨⟨_, rfl⟩, rfl⟩⟩
  rw [decidePending] at h
  cases h1 : refuse 1 with
  | some e =>
      rw [h1] at h
      cases h
      exact ⟨rfl, rfl, Or.inl ⟨⟨_, rfl⟩, rfl⟩⟩
  | none =>
      rw [h1] at h
      cases h
      exact ⟨rfl, rfl, Or.inr ⟨_, _, rfl, rfl, rfl⟩⟩

/-- A decision that an update drops for its age or for lack of room is forgotten. -/
theorem mem_forgets {s : State} {after : Map String DecidedPairing} {claim : String}
    {d : DecidedPairing} (hd : s.wire.decisions.lookup claim = some d)
    (hgone : after.lookup claim = none)
    (hwhy : pairDecisionTtl ≤ s.now - d.decidedAt ∨
      pairDecisionCap ≤ (prune s.now s.wire.decisions).entries.length) :
    claim ∈ forgets s after := by
  refine List.mem_map.2 ⟨⟨claim, d⟩, List.mem_filter.2 ⟨AList.mem_lookup_iff.1 hd, ?_⟩, rfl⟩
  simp only [hgone, Option.isNone_none, Bool.true_and, Bool.or_eq_true, decide_eq_true_eq]
  exact hwhy

/-- Recording another decision keeps this one or forgets it. -/
theorem kept_recordDecision {s : State} {key claim : String} {new d : DecidedPairing}
    (hd : s.wire.decisions.lookup claim = some d) (hne : claim ≠ key) :
    (recordDecision order s.now key new s.wire.decisions).lookup claim = some d ∨
      claim ∈ forgets s (recordDecision order s.now key new s.wire.decisions) := by
  rcases lookup_recordDecision_or order s.now hd hne with hkept | ⟨hgone, hwhy⟩
  · exact Or.inl hkept
  · exact Or.inr (mem_forgets hd hgone hwhy)

/-- A poll keeps the decision or forgets it. -/
theorem kept_pairStatus {s : State} {remote key claim : String} {d : DecidedPairing}
    (hd : s.wire.decisions.lookup claim = some d) :
    (pairStatus s.now remote key s.wire).2.decisions.lookup claim = some d ∨
      claim ∈ forgets s (pairStatus s.now remote key s.wire).2.decisions := by
  have hcases : (pairStatus s.now remote key s.wire).2.decisions = s.wire.decisions ∨
      (pairStatus s.now remote key s.wire).2.decisions = prune s.now s.wire.decisions := by
    rw [pairStatus]
    split
    · exact Or.inl rfl
    dsimp only [decided]
    split
    · exact Or.inr rfl
    · exact Or.inr rfl
  rcases hcases with hsame | hpruned
  · rw [hsame]
    exact Or.inl hd
  rw [hpruned]
  rcases lookup_prune_or s.now hd with hkept | ⟨hgone, hold⟩
  · exact Or.inl hkept
  · exact Or.inr (mem_forgets hd hgone (Or.inl hold))

theorem pairStatus_same {now : Instant} {remote claim : String} {s : WireState} :
    (pairStatus now remote claim s).2.pending = s.pending ∧
    (pairStatus now remote claim s).2.waiters = s.waiters := by
  rw [pairStatus]
  split
  · exact ⟨rfl, rfl⟩
  dsimp only
  split
  · exact ⟨rfl, rfl⟩
  · exact ⟨rfl, rfl⟩

/-! ## The invariant -/

/-- The secret waits for a decision that is not made or half made, or has its decision
    recorded, unless it was forgotten. -/
def Answerable (s : State) (remote claim : String) : Prop :=
  (s.wire.waiters.lookup remote = some ⟨claim⟩ ∧ (Decided s remote → BeingDecided s remote)) ∨
  (s.wire.waiters.lookup remote ≠ some ⟨claim⟩ ∧
    ((∃ d, s.wire.decisions.lookup claim = some d ∧ d.nodeId = remote) ∨ claim ∈ s.forgotten))

structure Inv (env : Env) (s : State) : Prop where
  answerable : ∀ (f : Filing) n, Newest s f n → n ∈ s.answered →
    Answerable s f.remote (f.secret.text env)
  /-- A waiter has the secret of a claim of its node. -/
  waiters : ∀ remote w, s.wire.waiters.lookup remote = some w →
    ∃ (n : Nat) (f : Filing), s.filed[n]? = some f ∧ f.remote = remote ∧ w.claim = f.secret.text env
  answered : ∀ n ∈ s.answered, n < s.filed.length
  secrets : ∀ (m n : Nat) (f g : Filing), s.filed[m]? = some f → s.filed[n]? = some g →
    f.secret = g.secret → m = n

/-- A claim is an old one or the one just filed. -/
theorem filed_cases {filed : List Filing} {f g : Filing} {m : Nat}
    (h : (filed ++ [f])[m]? = some g) : filed[m]? = some g ∨ (m = filed.length ∧ g = f) := by
  rcases Nat.lt_or_ge m filed.length with hlt | hge
  · rw [List.getElem?_append_left hlt] at h
    exact Or.inl h
  · rw [List.getElem?_append_right hge] at h
    obtain ⟨hlt, heq⟩ := List.getElem?_eq_some_iff.1 h
    rw [List.length_singleton] at hlt
    refine Or.inr ⟨by omega, ?_⟩
    rw [← heq, List.getElem_singleton]

theorem inv_file {s : State} {refuse : Nat → Option String} {secret : DbId}
    {remote deviceId name : String} (hs : Inv env s) :
    Inv env (step env order s (.file refuse secret remote deviceId name)) := by
  simp only [step]
  split
  · exact hs
  next hfresh =>
    cases hrow : pairRow env refuse remote deviceId name s.wire with
    | mk r wire =>
        rcases pairRow_cases hrow with ⟨⟨answer, rfl⟩, rfl⟩ | ⟨rfl, row, rfl⟩
        · exact hs
        dsimp only
        -- one claim is filed, after all the others, and with a secret of its own
        have hcases : ∀ (m : Nat) (g : Filing), (s.filed ++ [⟨remote, secret⟩])[m]? = some g →
            s.filed[m]? = some g ∨ (m = s.filed.length ∧ g = ⟨remote, secret⟩) :=
          fun _ _ hm => filed_cases hm
        have hkept : ∀ (m : Nat) (g : Filing), s.filed[m]? = some g →
            (s.filed ++ [⟨remote, secret⟩])[m]? = some g := by
          intro m g hm
          rw [List.getElem?_append_left (List.getElem?_eq_some_iff.1 hm).1]
          exact hm
        refine ⟨fun f n hnewest hanswered => ?_, fun r w hw => ?_, fun n hn => ?_, ?_⟩
        · -- an answered claim that is still the newest is one of another node
          have hlt := hs.answered n hanswered
          have hold : s.filed[n]? = some f := by
            rcases hcases n f hnewest.1 with hold | ⟨hn, _⟩
            · exact hold
            · omega
          have hne : f.remote ≠ remote := by
            intro heq
            have := hnewest.2 s.filed.length ⟨remote, secret⟩ (by simp) heq.symm
            omega
          have hbefore : Newest s f n :=
            ⟨hold, fun m g hm hremote => hnewest.2 m g (hkept m g hm) hremote⟩
          rcases hs.answerable f n hbefore hanswered with ⟨hw, hdecided⟩ | hrest
          · refine Or.inl ⟨hw, ?_⟩
            rintro ⟨old, hlookup, hstatus⟩
            rw [AList.lookup_insert_ne hne] at hlookup
            exact hdecided ⟨old, hlookup, hstatus⟩
          · exact Or.inr hrest
        · obtain ⟨n, f, hn, hremote, hclaim⟩ := hs.waiters r w hw
          exact ⟨n, f, hkept n f hn, hremote, hclaim⟩
        · show n < (s.filed ++ [_]).length
          rw [List.length_append]
          exact Nat.lt_add_right _ (hs.answered n hn)
        · intro m n f g hm hn hsecret
          -- two claims of one secret: the new one shares it with none of the old
          rcases hcases m f hm with hm | ⟨rfl, rfl⟩
          · rcases hcases n g hn with hn | ⟨rfl, rfl⟩
            · exact hs.secrets m n f g hm hn hsecret
            · exact absurd ⟨f, List.mem_of_getElem? hm, hsecret⟩ hfresh
          · rcases hcases n g hn with hn | ⟨rfl, _⟩
            · exact absurd ⟨g, List.mem_of_getElem? hn, hsecret.symm⟩ hfresh
            · rfl

theorem inv_wait {s : State} {n : Nat} (hs : Inv env s) (hguard : Guard s (.wait n)) :
    Inv env (step env order s (.wait n)) := by
  simp only [step]
  split
  · exact hs
  next f hf =>
    split
    · obtain ⟨hbefore, hnewest⟩ := hguard f hf
      refine ⟨fun g m hm hanswered => ?_, fun r w hw => ?_, fun m hm => ?_, hs.secrets⟩
      · by_cases hr : g.remote = f.remote
        · -- the guard: no other claim that is the newest of its node has been answered
          have hmn : m = n := by
            rcases List.mem_cons.1 hanswered with hmn | hanswered
            · exact hmn
            · exact hnewest m g hm hr hanswered
          subst hmn
          cases Option.some.inj (hf.symm.trans hm.1)
          exact Or.inl ⟨AList.lookup_insert _, hbefore⟩
        · have hanswered : m ∈ s.answered := by
            rcases List.mem_cons.1 hanswered with rfl | hanswered
            · cases Option.some.inj (hf.symm.trans hm.1)
              exact absurd rfl hr
            · exact hanswered
          have hsame : (s.wire.waiters.insert f.remote ⟨f.secret.text env⟩).lookup g.remote =
              s.wire.waiters.lookup g.remote := AList.lookup_insert_ne hr
          rcases hs.answerable g m hm hanswered with ⟨hw, hdecided⟩ | ⟨hw, hrest⟩
          · exact Or.inl ⟨hsame.trans hw, hdecided⟩
          · exact Or.inr ⟨fun h => hw (hsame.symm.trans h), hrest⟩
      · rcases lookup_insert.1 hw with ⟨rfl, rfl⟩ | ⟨_, hw⟩
        · exact ⟨n, f, hf, rfl, rfl⟩
        · exact hs.waiters r w hw
      · rcases List.mem_cons.1 hm with rfl | hm
        · exact (List.getElem?_eq_some_iff.1 hf).1
        · exact hs.answered m hm
    · exact hs

/-- The first half of a decision. -/
theorem inv_of_rowsCase {s : State} {nodeId : String} {wire : WireState}
    {r : Except ClaimError Decision} (hs : Inv env s) (hcase : RowsCase nodeId s.wire wire r) :
    Inv env
      (match r with
        | .error _ => { s with wire }
        | .ok d => { s with wire, deciding := d :: s.deciding }) := by
  have hwaiters : ∀ remote w, wire.waiters.lookup remote = some w →
      ∃ (n : Nat) (f : Filing), s.filed[n]? = some f ∧ f.remote = remote ∧
        w.claim = f.secret.text env := by
    rw [hcase.waiters]
    exact hs.waiters
  rcases hcase.pending with ⟨⟨e, rfl⟩, hpending⟩ | ⟨d, row, rfl, hnode, hpending⟩
  · refine ⟨fun f n hnewest hanswered => ?_, hwaiters, hs.answered, hs.secrets⟩
    rcases hs.answerable f n hnewest hanswered with ⟨hw, hdecided⟩ | hrest
    · refine Or.inl ⟨by rw [hcase.waiters]; exact hw, ?_⟩
      rintro ⟨old, hlookup, hstatus⟩
      exact hdecided ⟨old, by rw [← hpending]; exact hlookup, hstatus⟩
    · refine Or.inr ?_
      dsimp only
      rw [hcase.waiters, hcase.decisions]
      exact hrest
  · refine ⟨fun f n hnewest hanswered => ?_, hwaiters, hs.answered, hs.secrets⟩
    rcases hs.answerable f n hnewest hanswered with ⟨hw, hdecided⟩ | hrest
    · refine Or.inl ⟨by rw [hcase.waiters]; exact hw, ?_⟩
      rintro ⟨old, hlookup, hstatus⟩
      -- the node that is decided waits for the decision that is now on its way
      by_cases hr : f.remote = nodeId
      · exact ⟨d, List.mem_cons_self, hnode.trans hr.symm⟩
      · rw [hpending, AList.lookup_insert_ne hr] at hlookup
        obtain ⟨d', hmem, hd'⟩ := hdecided ⟨old, hlookup, hstatus⟩
        exact ⟨d', List.mem_cons_of_mem _ hmem, hd'⟩
    · refine Or.inr ?_
      dsimp only
      rw [hcase.waiters, hcase.decisions]
      exact hrest

/-- The decisions of other nodes stay half done. -/
theorem beingDecided_erase {s : State} {d : Decision} {remote : String} (hne : remote ≠ d.nodeId)
    (h : BeingDecided s remote) : ∃ d' ∈ s.deciding.erase d, d'.nodeId = remote := by
  obtain ⟨d', hmem, hnode⟩ := h
  refine ⟨d', (List.mem_erase_of_ne ?_).2 hmem, hnode⟩
  rintro rfl
  exact hne hnode.symm

/-- The second half of a decision. -/
theorem inv_answer {s : State} {d : Decision} (hs : Inv env s) :
    Inv env (step env order s (.answer d)) := by
  simp only [step]
  split
  swap
  · exact hs
  cases hw : s.wire.waiters.lookup d.nodeId with
  | none =>
      -- no claim is waiting, and nothing changes but the list of decisions half done
      have hwire : answerWaiter order s.now d s.wire = s.wire := by
        rw [answerWaiter, applyPairingDecision, hw]
      rw [hwire]
      refine ⟨fun f n hnewest hanswered => ?_, hs.waiters, hs.answered, hs.secrets⟩
      rcases hs.answerable f n hnewest hanswered with ⟨hwait, hdecided⟩ | ⟨hwait, hrest⟩
      · refine Or.inl ⟨hwait, fun h => beingDecided_erase ?_ (hdecided h)⟩
        intro heq
        rw [heq, hw] at hwait
        cases hwait
      · refine Or.inr ⟨hwait, ?_⟩
        rcases hrest with hkept | hgone
        · exact Or.inl hkept
        · exact Or.inr (List.mem_append_right _ hgone)
  | some w =>
      obtain ⟨k, g, hk, hremote, hclaim⟩ := hs.waiters d.nodeId w hw
      have hwire : answerWaiter order s.now d s.wire =
          { s.wire with
            waiters := s.wire.waiters.erase d.nodeId
            decisions := recordDecision order s.now w.claim
              { nodeId := d.nodeId, approved := d.approved, deviceId := d.deviceId
                sessionToken := d.sessionToken, decidedAt := s.now } s.wire.decisions } := by
        rw [answerWaiter, applyPairingDecision, hw]
      rw [hwire]
      refine ⟨fun f n hnewest hanswered => ?_, fun remote w' hw' => ?_, hs.answered, hs.secrets⟩
      · by_cases hnk : n = k
        · -- the secret that was waiting
          subst hnk
          cases Option.some.inj (hnewest.1.symm.trans hk)
          rw [hremote, ← hclaim]
          exact Or.inr ⟨fun h => (lookup_erase.1 h).1 rfl, Or.inl ⟨_, AList.lookup_insert _, rfl⟩⟩
        · -- another secret keeps its waiter, and its decision unless it is evicted
          have hne : f.secret.text env ≠ w.claim := by
            rw [hclaim]
            exact fun h => hnk (hs.secrets n k f g hnewest.1 hk (DbId.text_injective env h))
          rcases hs.answerable f n hnewest hanswered with ⟨hwait, hdecided⟩ | ⟨hwait, hrest⟩
          · have hr : f.remote ≠ d.nodeId := by
              intro heq
              rw [heq, hw] at hwait
              cases Option.some.inj hwait
              exact hne rfl
            exact Or.inl ⟨lookup_erase.2 ⟨hr, hwait⟩,
              fun h => beingDecided_erase hr (hdecided h)⟩
          · refine Or.inr ⟨fun h => hwait (lookup_erase.1 h).2, ?_⟩
            rcases hrest with ⟨d', hd', hnode⟩ | hgone
            · rcases kept_recordDecision hd' hne with hkept | hgone
              · exact Or.inl ⟨d', hkept, hnode⟩
              · exact Or.inr (List.mem_append_left _ hgone)
            · exact Or.inr (List.mem_append_right _ hgone)
      · exact hs.waiters remote w' (lookup_erase.1 hw').2

theorem inv_poll {s : State} {remote claim : String} (hs : Inv env s) :
    Inv env (step env order s (.poll remote claim)) := by
  simp only [step]
  have hpending : (remember s (pairStatus s.now remote claim s.wire).2).wire.pending =
      s.wire.pending := pairStatus_same.1
  have hwaiters : (remember s (pairStatus s.now remote claim s.wire).2).wire.waiters =
      s.wire.waiters := pairStatus_same.2
  refine ⟨fun f n hnewest hanswered => ?_, fun r w hw => ?_, hs.answered, hs.secrets⟩
  · rw [Answerable, Decided, hpending, hwaiters]
    rcases hs.answerable f n hnewest hanswered with hwait | ⟨hwait, hrest⟩
    · exact Or.inl hwait
    · refine Or.inr ⟨hwait, ?_⟩
      rcases hrest with ⟨d, hd, hnode⟩ | hgone
      · rcases kept_pairStatus hd with hkept | hgone
        · exact Or.inl ⟨d, hkept, hnode⟩
        · exact Or.inr (List.mem_append_left _ hgone)
      · exact Or.inr (List.mem_append_right _ hgone)
  · rw [hwaiters] at hw
    exact hs.waiters r w hw

theorem inv_step {s : State} {a : Action} (hs : Inv env s) (hguard : Guard s a) :
    Inv env (step env order s a) := by
  cases a with
  | file refuse secret remote deviceId name => exact inv_file hs
  | wait n => exact inv_wait hs hguard
  | approve refuse newId token nodeId =>
      cases hrows : approveRows env refuse newId token nodeId s.wire with
      | mk r wire =>
          have := inv_of_rowsCase hs (rowsCase_approveRows hrows)
          simp only [step, hrows]
          cases r with
          | error e => exact this
          | ok d => exact this
  | reject refuse nodeId =>
      cases hrows : rejectRows env refuse nodeId s.wire with
      | mk r wire =>
          have := inv_of_rowsCase hs (rowsCase_rejectRows hrows)
          simp only [step, hrows]
          cases r with
          | error e => exact this
          | ok d => exact this
  | answer d => exact inv_answer hs
  | poll remote claim => exact inv_poll hs
  | tick elapsed => exact ⟨hs.answerable, hs.waiters, hs.answered, hs.secrets⟩

/-! ## The answers -/

theorem pollAnswered_of_inv {s : State} {remote claim : String} (hs : Inv env s)
    (hguard : Guard s (.poll remote claim)) : PollAnswered env s remote claim := by
  rintro f n hnewest hanswered rfl rfl hdecided
  rcases hs.answerable f n hnewest hanswered with ⟨_, hhalf⟩ | ⟨hwait, hrest⟩
  · exact absurd (hhalf hdecided) hguard
  rcases hrest with ⟨d, hd, hnode⟩ | hgone
  swap
  · exact Or.inr (Or.inr (Or.inl hgone))
  by_cases hlive : s.now - d.decidedAt < pairDecisionTtl
  swap
  · exact Or.inr (Or.inr (Or.inr ⟨d, hd, Nat.not_lt.1 hlive⟩))
  have hnotwaiting : ((s.wire.waiters.lookup f.remote).any fun waiter =>
      waiter.claim == f.secret.text env) = false := by
    cases hw : s.wire.waiters.lookup f.remote with
    | none => rfl
    | some w =>
        rw [Option.any_some, beq_eq_false_iff_ne]
        rintro hclaim
        rw [hw, ← hclaim] at hwait
        exact hwait rfl
  have hkept : (prune s.now s.wire.decisions).lookup (f.secret.text env) = some d :=
    lookup_retain.2 ⟨hd, by simpa using hlive⟩
  have hanswer : (pairStatus s.now f.remote (f.secret.text env) s.wire).1 = .ok d.response := by
    simp only [pairStatus, hnotwaiting, decided, hkept, Option.filter_some, hnode, beq_self_eq_true,
      if_true]
    rfl
  rw [hanswer, DecidedPairing.response]
  split
  · exact Or.inl ⟨_, _, rfl⟩
  · exact Or.inr (Or.inl ⟨_, rfl⟩)

/-- A daemon that has just started has filed nothing and nobody waits. -/
def Started (s : State) : Prop :=
  s.filed = [] ∧ s.answered = [] ∧ s.wire.waiters = ∅

/-- **NO CLAIM IS STUCK** in a run in which every waiter is inserted in time and every
    poll is made between decisions. -/
theorem neverStuck_of_admitted (env : Env) (order : MapOrder) (start : State)
    (run : List Action) (hstart : Started start)
    (hrun : Runs.Admitted (step env order) Guard start run) :
    NeverStuck env order start run := by
  obtain ⟨hfiled, hanswered, hwaiters⟩ := hstart
  have hinit : Inv env start := by
    refine ⟨fun f n _ hn => ?_, fun remote w hw => ?_, fun n hn => ?_, fun m n f g hm => ?_⟩
    · rw [hanswered] at hn
      cases hn
    · rw [hwaiters] at hw
      cases hw
    · rw [hanswered] at hn
      cases hn
    · rw [hfiled] at hm
      cases hm
  rintro pre remote claim ⟨rest, rfl⟩
  rw [List.append_assoc] at hrun
  exact pollAnswered_of_inv
    (Runs.invariant (fun _ _ hs hg => inv_step hs hg) pre hinit (hrun.of_append pre _))
    (hrun.drop pre _).1

/-! ## A waiter before the decision, and one after -/

/-- A daemon without rows or claims. -/
def startState : State where
  wire := SyncTokens.startState.wire
  now := 0
  filed := []
  filing := []
  answered := []
  deciding := []
  forgotten := []

def fileClaim : Action :=
  .file (fun _ => none) (SyncTokens.sampleId 2) "node"
    ((SyncTokens.sampleId 3).text Env.reference) "phone"

/-- Both halves of the approval of the node's claim. -/
def approveAndAnswer : List Action :=
  [.approve (fun _ => none) (SyncTokens.sampleId 4) (SyncTokens.sampleId 5) "node",
    .answer { nodeId := "node", approved := true
              sessionToken := (SyncTokens.sampleId 5).text Env.reference
              deviceId := some ((SyncTokens.sampleId 3).text Env.reference) }]

def pollClaim : Action := .poll "node" ((SyncTokens.sampleId 2).text Env.reference)

set_option maxRecDepth 8000 in
/-- The waiter is there when the claim is approved. -/
theorem neverStuck_waiter_first :
    Started startState ∧
    NeverStuck Env.reference SyncTokens.listOrder startState
      ([fileClaim, .wait 0] ++ approveAndAnswer ++ [pollClaim]) := by
  have hstart : Started startState := ⟨rfl, rfl, rfl⟩
  refine ⟨hstart, neverStuck_of_admitted _ _ _ _ hstart ⟨trivial, ?_, trivial, trivial, ?_, trivial⟩⟩
  · intro f hf
    cases hf
    refine ⟨?_, fun _ _ _ _ h => by cases h⟩
    rintro ⟨row, hrow, hstatus⟩
    cases hrow
    exact absurd rfl hstatus
  · have hnone : (Runs.exec (step Env.reference SyncTokens.listOrder) startState
        ([fileClaim, .wait 0] ++ approveAndAnswer)).deciding = [] := by decide
    rintro ⟨d, hd, _⟩
    have hd : d ∈ (Runs.exec (step Env.reference SyncTokens.listOrder) startState
        ([fileClaim, .wait 0] ++ approveAndAnswer)).deciding := hd
    rw [hnone] at hd
    cases hd

/-- The claim is approved between its row and its waiter. -/
def lateWaiter : List Action := [fileClaim] ++ approveAndAnswer ++ [.wait 0]

def lateState : State :=
  Runs.exec (step Env.reference SyncTokens.listOrder) startState lateWaiter

set_option maxRecDepth 8000 in
/-- Nothing is left to answer the late waiter, and the poll finds the claim pending. -/
theorem not_neverStuck_waiter_last :
    ¬ NeverStuck Env.reference SyncTokens.listOrder startState (lateWaiter ++ [pollClaim]) := by
  intro h
  have hpoll : PollAnswered Env.reference lateState "node"
      ((SyncTokens.sampleId 2).text Env.reference) := h lateWaiter _ _ (List.prefix_refl _)
  have hpending : (pairStatus lateState.now "node"
      ((SyncTokens.sampleId 2).text Env.reference) lateState.wire).1.toOption =
        some (.pairingPending ((SyncTokens.sampleId 2).text Env.reference)) := by decide
  have hnewest : Newest lateState ⟨"node", SyncTokens.sampleId 2⟩ 0 := by
    refine ⟨rfl, fun m g hm _ => ?_⟩
    have hlt : m < 1 := (List.getElem?_eq_some_iff.1 hm).1
    omega
  have hdecided : Decided lateState "node" := ⟨_, rfl, by decide⟩
  have hempty : lateState.forgotten = [] ∧ lateState.wire.decisions.entries = [] := by decide
  rcases hpoll _ 0 hnewest List.mem_cons_self rfl rfl hdecided with
    ⟨_, _, hpaired⟩ | ⟨_, hrefused⟩ | hforgotten | ⟨d, hkept, _⟩
  · rw [hpaired] at hpending
    cases hpending
  · rw [hrefused] at hpending
    cases hpending
  · rw [hempty.1] at hforgotten
    cases hforgotten
  · have hmem := AList.mem_lookup_iff.1 hkept
    rw [hempty.2] at hmem
    cases hmem

end SyncWaiters
