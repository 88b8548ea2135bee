import Livtet.Lib.Runs
import Livtet.Tokens

/-! # Polls and decisions, one lock at a time

    The waiters and the decisions are two maps under two locks. A decision takes the
    waiters' lock, removes the waiter, takes the decisions' lock to record the answer, and
    lets go of both. A poll takes the waiters' lock, lets go of it, and only then takes
    the decisions' lock. Here each stretch under a lock is a step of its own.

    The waiter of a claim that is being answered is missing for as long as the decision
    holds the waiters' lock, and no poll can look then. So a poll that finds no waiter
    comes after the decision is recorded. -/

namespace SyncLocks

open SyncStore SyncPairing Maps

/-! ## The system -/

/-- A decision that has removed its waiter and holds the waiters' lock. -/
structure Holding where
  claim : String
  nodeId : String
  approved : Bool
  sessionToken : String
  deviceId : Option String
  recorded : Bool
deriving DecidableEq, Repr

/-- A poll that found no waiter, with the number of claims that were filed before. -/
structure Poll where
  remote : String
  claim : String
  filedBefore : Nat
deriving DecidableEq, Repr

structure State where
  now : Instant
  waiters : Map String PairingWaiter
  decisions : Map String DecidedPairing
  holding : Option Holding
  polls : List Poll
  /-- The claims in the order of their waiters: node and secret. -/
  filed : List (String × String)
  /-- The decisions that were recorded, by secret. -/
  recorded : List (String × DecidedPairing)
  /-- The secrets whose decision was dropped, past its window or for lack of room. -/
  forgotten : List String

inductive Action
  | pair (secret : DbId) (remote : String)
  | take (nodeId : String) (approved : Bool) (sessionToken : String) (deviceId : Option String)
  | record
  | release
  | look (remote claim : String)
  | finish (p : Poll)
  | tick (elapsed : Nat)

/-- The secrets that an update of the map drops because their window has closed or the
    map is full. -/
def forgets (now : Instant) (before after : Map String DecidedPairing) : List String :=
  (before.entries.filter fun e =>
    (after.lookup e.1).isNone &&
      (decide (pairDecisionTtl ≤ now - e.2.decidedAt) ||
        decide (pairDecisionCap ≤ (prune now before).entries.length))).map Sigma.fst

/-- The decisions after an update. -/
def remember (s : State) (decisions : Map String DecidedPairing) : State :=
  { s with decisions, forgotten := forgets s.now s.decisions decisions ++ s.forgotten }

/-- What a decision records. -/
def Holding.decision (h : Holding) (now : Instant) : DecidedPairing :=
  { nodeId := h.nodeId, approved := h.approved, deviceId := h.deviceId
    sessionToken := h.sessionToken, decidedAt := now }

section System

variable (env : Env) (order : MapOrder)

/-- One stretch under a lock. Where the waiters' lock is held, nobody else gets it: the
    step does not happen. -/
def step (s : State) : Action → State
  | .pair secret remote =>
      -- `Ulid::generate` returns no id twice
      if s.holding.isSome || (s.filed.map Prod.snd).contains (secret.text env) then s
      else
        { s with
          waiters := s.waiters.insert remote { claim := secret.text env }
          filed := s.filed ++ [(remote, secret.text env)] }
  | .take nodeId approved sessionToken deviceId =>
      if s.holding.isSome then s
      else match s.waiters.lookup nodeId with
        | none => s
        | some waiter =>
            { s with
              waiters := s.waiters.erase nodeId
              holding := some { claim := waiter.claim, nodeId, approved, sessionToken, deviceId
                                recorded := false } }
  | .record =>
      match s.holding with
      | none => s
      | some h =>
          if h.recorded then s
          else
            { remember s (recordDecision order s.now h.claim (h.decision s.now) s.decisions) with
              holding := some { h with recorded := true }
              recorded := (h.claim, h.decision s.now) :: s.recorded }
  | .release =>
      match s.holding with
      | none => s
      | some h => if h.recorded then { s with holding := none } else s
  | .look remote claim =>
      if s.holding.isSome || (s.waiters.lookup remote).any fun w => w.claim == claim then s
      else { s with polls := { remote, claim, filedBefore := s.filed.length } :: s.polls }
  | .finish p =>
      if p ∈ s.polls then
        { remember s (decided s.now p.claim p.remote s.decisions).2 with polls := s.polls.erase p }
      else s
  | .tick elapsed => { s with now := s.now + elapsed }

/-- What a poll looks up in the decisions. -/
def outcome (s : State) (p : Poll) : Answer :=
  match (decided s.now p.claim p.remote s.decisions).1 with
  | some d => .ok d.response
  | none => .error (.notFound, "no pairing claim with that id")

/-- A poll that a step answers, the claims that were filed before it began, and the
    answer. -/
def answerOf (s : State) : Action → Option (Poll × Answer)
  | .look remote claim =>
      if s.holding.isNone && (s.waiters.lookup remote).any fun w => w.claim == claim then
        some ({ remote, claim, filedBefore := s.filed.length }, .ok (.pairingPending claim))
      else none
  | .finish p => if p ∈ s.polls then some (p, outcome s p) else none
  | _ => none

end System

variable {env : Env} {order : MapOrder}

/-! ## The functions of the daemon -/

/-- The maps of a daemon that nothing else uses. -/
def ofWire (now : Instant) (wire : WireState) : State :=
  { now, waiters := wire.waiters, decisions := wire.decisions, holding := none, polls := []
    filed := [], recorded := [], forgotten := [] }

/-- A decision that nothing interrupts is the daemon's. -/
theorem decision_uninterrupted (now : Instant) (wire : WireState) (nodeId : String)
    (approved : Bool) (sessionToken : String) (deviceId : Option String) :
    let s := Runs.exec (step env order) (ofWire now wire)
      [.take nodeId approved sessionToken deviceId, .record, .release]
    let wire' := (applyPairingDecision order now nodeId approved sessionToken deviceId wire).2
    s.waiters = wire'.waiters ∧ s.decisions = wire'.decisions ∧ s.holding = none := by
  show _ ∧ _ ∧ _
  simp only [Runs.exec, List.foldl_cons, List.foldl_nil, applyPairingDecision]
  cases hwaiter : wire.waiters.lookup nodeId with
  | none => simp [step, ofWire, hwaiter]
  | some waiter => simp [step, ofWire, hwaiter, remember, Holding.decision]

/-- So is a poll. -/
theorem poll_uninterrupted (now : Instant) (wire : WireState) (remote claim : String) :
    (answerOf (ofWire now wire) (.look remote claim) =
        some (⟨remote, claim, 0⟩, (pairStatus now remote claim wire).1) ∧
      (pairStatus now remote claim wire).2.decisions = wire.decisions) ∨
    (answerOf (ofWire now wire) (.look remote claim) = none ∧
      answerOf (step env order (ofWire now wire) (.look remote claim)) (.finish ⟨remote, claim, 0⟩) =
        some (⟨remote, claim, 0⟩, (pairStatus now remote claim wire).1) ∧
      (Runs.exec (step env order) (ofWire now wire)
        [.look remote claim, .finish ⟨remote, claim, 0⟩]).decisions =
        (pairStatus now remote claim wire).2.decisions) := by
  rw [pairStatus]
  cases hwaiting : (wire.waiters.lookup remote).any fun w => w.claim == claim with
  | true =>
      refine Or.inl ⟨?_, ?_⟩
      · simp [answerOf, ofWire, hwaiting]
      · rfl
  | false =>
      have hlook : step env order (ofWire now wire) (.look remote claim) =
          { ofWire now wire with polls := [⟨remote, claim, 0⟩] } := by
        simp [step, ofWire, hwaiting]
      refine Or.inr ⟨by simp [answerOf, ofWire, hwaiting], ?_, ?_⟩
      · rw [hlook]
        simp only [answerOf, List.mem_singleton, if_true, outcome, ofWire]
        cases (decided now claim remote wire.decisions).1 <;> rfl
      · rw [Runs.exec_cons, hlook, Runs.exec_cons, Runs.exec_nil]
        simp only [step, List.mem_singleton, if_true, remember, ofWire]
        cases (decided now claim remote wire.decisions).1 <;> rfl

/-! ## What holds at every step -/

/-- The secret of the newest claim of a node. -/
def newestOf (filed : List (String × String)) (remote : String) : Option String :=
  (filed.reverse.find? fun f => f.1 == remote).map Prod.snd

theorem newestOf_append (filed : List (String × String)) (f : String × String) (remote : String) :
    newestOf (filed ++ [f]) remote = if f.1 = remote then some f.2 else newestOf filed remote := by
  rw [newestOf, List.reverse_append, List.reverse_singleton, List.singleton_append, List.find?_cons]
  by_cases h : f.1 = remote
  · rw [if_pos h, beq_iff_eq.2 h]
    rfl
  · rw [if_neg h, beq_eq_false_iff_ne.2 h]
    rfl

theorem mem_of_newestOf {filed : List (String × String)} {remote claim : String}
    (h : newestOf filed remote = some claim) : (remote, claim) ∈ filed := by
  obtain ⟨f, hf, rfl⟩ := Option.map_eq_some_iff.1 h
  have hmem := List.mem_reverse.1 (List.mem_of_find?_eq_some hf)
  have hremote : f.1 = remote := by simpa using List.find?_some hf
  rw [← hremote]
  exact hmem

/-- The claim has its decision recorded, unless it was forgotten. -/
def Settled (s : State) (remote claim : String) : Prop :=
  (∃ d, s.decisions.lookup claim = some d ∧ d.nodeId = remote) ∨ claim ∈ s.forgotten

/-- The claim's decision has removed the waiter and has yet to be recorded. -/
def BeingDecided (s : State) (remote claim : String) : Prop :=
  ∃ h, s.holding = some h ∧ h.nodeId = remote ∧ h.claim = claim ∧ h.recorded = false

structure Inv (s : State) : Prop where
  waiters : ∀ remote w, s.waiters.lookup remote = some w → (remote, w.claim) ∈ s.filed
  holding : ∀ h, s.holding = some h → (h.nodeId, h.claim) ∈ s.filed
  decisions : ∀ claim d, s.decisions.lookup claim = some d →
    (d.nodeId, claim) ∈ s.filed ∧ (claim, d) ∈ s.recorded
  secrets : ∀ f g, f ∈ s.filed → g ∈ s.filed → f.2 = g.2 → f = g
  /-- A node's newest claim waits, is being decided, or is settled. -/
  newest : ∀ remote claim, newestOf s.filed remote = some claim →
    s.waiters.lookup remote = some ⟨claim⟩ ∨ BeingDecided s remote claim ∨ Settled s remote claim
  /-- A poll of a node's newest claim that found no waiter comes after its decision. -/
  polls : ∀ p ∈ s.polls, p.filedBefore ≤ s.filed.length ∧
    ((p.remote, p.claim) ∈ s.filed.take p.filedBefore →
      newestOf s.filed p.remote = some p.claim → Settled s p.remote p.claim)

theorem Inv.nodeOf {s : State} (hs : Inv s) {claim first second : String}
    (hfirst : (first, claim) ∈ s.filed) (hsecond : (second, claim) ∈ s.filed) : first = second :=
  congrArg Prod.fst (hs.secrets _ _ hfirst hsecond rfl)

/-- An update that drops entries for their age or for lack of room keeps what is settled. -/
theorem settled_remember {s : State} {decisions : Map String DecidedPairing} {remote claim : String}
    (hkeeps : ∀ d, s.decisions.lookup claim = some d → d.nodeId = remote →
      (∃ d', decisions.lookup claim = some d' ∧ d'.nodeId = remote) ∨
      decisions.lookup claim = none ∧ (pairDecisionTtl ≤ s.now - d.decidedAt ∨
        pairDecisionCap ≤ (prune s.now s.decisions).entries.length))
    (h : Settled s remote claim) : Settled (remember s decisions) remote claim := by
  rcases h with ⟨d, hd, hnode⟩ | hforgotten
  · rcases hkeeps d hd hnode with hkept | ⟨hgone, hwhy⟩
    · exact Or.inl hkept
    · refine Or.inr (List.mem_append_left _ ?_)
      refine List.mem_map.2 ⟨⟨claim, d⟩, List.mem_filter.2 ⟨AList.mem_lookup_iff.1 hd, ?_⟩, rfl⟩
      simp only [hgone, Option.isNone_none, Bool.true_and, Bool.or_eq_true, decide_eq_true_eq]
      exact hwhy
  · exact Or.inr (List.mem_append_right _ hforgotten)

theorem inv_pair {s : State} {secret : DbId} {remote : String} (hs : Inv s) :
    Inv (step env order s (.pair secret remote)) := by
  rw [step]
  split
  · exact hs
  next hnew =>
    -- the step is only taken with a secret that was never filed
    have hfresh : ∀ f ∈ s.filed, f.2 ≠ secret.text env := by
      simp only [Bool.or_eq_true, not_or, List.contains_iff_mem, List.mem_map, not_exists,
        not_and] at hnew
      exact hnew.2
    constructor
    · intro other w hw
      rcases lookup_insert.1 hw with ⟨rfl, rfl⟩ | ⟨_, hw⟩
      · exact List.mem_append_right _ (List.mem_singleton.2 rfl)
      · exact List.mem_append_left _ (hs.waiters other w hw)
    · exact fun h hh => List.mem_append_left _ (hs.holding h hh)
    · intro claim d hd
      obtain ⟨hmem, hrecorded⟩ := hs.decisions claim d hd
      exact ⟨List.mem_append_left _ hmem, hrecorded⟩
    · intro f g hf hg hsame
      rcases List.mem_append.1 hf with hf | hf <;> rcases List.mem_append.1 hg with hg | hg
      · exact hs.secrets f g hf hg hsame
      · cases List.mem_singleton.1 hg
        exact absurd hsame (hfresh f hf)
      · cases List.mem_singleton.1 hf
        exact absurd hsame.symm (hfresh g hg)
      · rw [List.mem_singleton.1 hf, List.mem_singleton.1 hg]
    · -- the newest secret is the one just filed, or it was the newest before
      intro other claim hnewest
      rw [newestOf_append] at hnewest
      split at hnewest
      · next hsame =>
          cases Option.some.inj hnewest
          cases hsame
          exact Or.inl (AList.lookup_insert _)
      · next hne =>
          rcases hs.newest other claim hnewest with hwaits | hdeciding | hsettled
          · exact Or.inl ((AList.lookup_insert_ne (Ne.symm hne)).trans hwaits)
          · exact Or.inr (Or.inl hdeciding)
          · exact Or.inr (Or.inr hsettled)
    · intro p hp
      obtain ⟨hbefore, hsettled⟩ := hs.polls p hp
      refine ⟨by rw [List.length_append]; omega, fun hmem hnewest => ?_⟩
      rw [List.take_append_of_le_length hbefore] at hmem
      rw [newestOf_append] at hnewest
      split at hnewest
      · -- the secret that is new was not polled before
        exact absurd (Option.some.inj hnewest).symm (hfresh _ (List.mem_of_mem_take hmem))
      · exact hsettled hmem hnewest

theorem inv_take {s : State} {nodeId : String} {approved : Bool} {sessionToken : String}
    {deviceId : Option String} (hs : Inv s) :
    Inv (step env order s (.take nodeId approved sessionToken deviceId)) := by
  rw [step]
  split
  · exact hs
  next hfree =>
    split
    · exact hs
    next waiter hwaiter =>
      refine ⟨?_, ?_, hs.decisions, hs.secrets, ?_, hs.polls⟩
      · intro remote w hw
        exact hs.waiters remote w (lookup_erase.1 hw).2
      · intro h hh
        cases Option.some.inj hh
        exact hs.waiters nodeId waiter hwaiter
      · intro remote claim hnewest
        rcases hs.newest remote claim hnewest with hwaits | ⟨h, hh, _⟩ | hsettled
        · by_cases hnode : remote = nodeId
          · subst hnode
            cases Option.some.inj (hwaiter.symm.trans hwaits)
            exact Or.inr (Or.inl ⟨_, rfl, rfl, rfl, rfl⟩)
          · exact Or.inl ((AList.lookup_erase_ne hnode).trans hwaits)
        · rw [hh] at hfree
          exact absurd rfl hfree
        · exact Or.inr (Or.inr hsettled)

theorem inv_record {s : State} (hs : Inv s) : Inv (step env order s .record) := by
  rw [step]
  split
  · exact hs
  next h hh =>
    split
    · exact hs
    next hopen =>
      have hfiled := hs.holding h hh
      have hnew : (recordDecision order s.now h.claim (h.decision s.now) s.decisions).lookup
          h.claim = some (h.decision s.now) := AList.lookup_insert _
      -- what was settled stays so; the claim being decided becomes so
      have hsettled : ∀ remote claim, Settled s remote claim → Settled (remember s
          (recordDecision order s.now h.claim (h.decision s.now) s.decisions)) remote claim := by
        intro remote claim hclaim
        refine settled_remember (fun d hd hnode => ?_) hclaim
        by_cases hsame : claim = h.claim
        · subst hsame
          refine Or.inl ⟨_, hnew, ?_⟩
          rw [← hnode]
          exact hs.nodeOf hfiled (hs.decisions _ d hd).1
        · rcases lookup_recordDecision_or order s.now hd hsame with hkept | hgone
          · exact Or.inl ⟨d, hkept, hnode⟩
          · exact Or.inr hgone
      refine ⟨hs.waiters, ?_, ?_, hs.secrets, ?_, ?_⟩
      · intro h' hh'
        cases Option.some.inj hh'
        exact hfiled
      · intro claim d hd
        rcases lookup_insert.1 hd with ⟨rfl, rfl⟩ | ⟨_, hkept⟩
        · exact ⟨hfiled, List.mem_cons_self⟩
        · obtain ⟨hmem, hrecorded⟩ :=
            hs.decisions claim d (lookup_retain.1 (lookup_of_lookup_evict hkept)).1
          exact ⟨hmem, List.mem_cons_of_mem _ hrecorded⟩
      · intro remote claim hnewest
        rcases hs.newest remote claim hnewest with hwaits | ⟨h', hh', hnode, hclaim, _⟩ | hdone
        · exact Or.inl hwaits
        · cases Option.some.inj (hh.symm.trans hh')
          cases hnode
          cases hclaim
          exact Or.inr (Or.inr (Or.inl ⟨_, hnew, rfl⟩))
        · exact Or.inr (Or.inr (hsettled remote claim hdone))
      · intro p hp
        obtain ⟨hbefore, hpoll⟩ := hs.polls p hp
        exact ⟨hbefore, fun hmem hnewest => hsettled _ _ (hpoll hmem hnewest)⟩

theorem inv_release {s : State} (hs : Inv s) : Inv (step env order s .release) := by
  rw [step]
  split
  · exact hs
  next h hh =>
    split
    · next hrecorded =>
        refine ⟨hs.waiters, fun _ h => (by cases h), hs.decisions, hs.secrets, ?_, hs.polls⟩
        intro remote claim hnewest
        rcases hs.newest remote claim hnewest with hwaits | ⟨h', hh', _, _, hopen⟩ | hsettled
        · exact Or.inl hwaits
        · cases Option.some.inj (hh.symm.trans hh')
          cases hrecorded.symm.trans hopen
        · exact Or.inr (Or.inr hsettled)
    · exact hs

/-- A poll that finds no waiter while the lock is free polls a claim that is settled. -/
theorem inv_look {s : State} {remote claim : String} (hs : Inv s) :
    Inv (step env order s (.look remote claim)) := by
  rw [step]
  split
  · exact hs
  next hnone =>
    obtain ⟨hfree, hwaiter⟩ : s.holding = none ∧ s.waiters.lookup remote ≠ some ⟨claim⟩ := by
      simp only [Bool.or_eq_true, not_or, Option.not_isSome_iff_eq_none] at hnone
      refine ⟨hnone.1, fun hw => hnone.2 ?_⟩
      rw [hw]
      exact beq_self_eq_true claim
    refine ⟨hs.waiters, hs.holding, hs.decisions, hs.secrets, hs.newest, ?_⟩
    refine List.forall_mem_cons.2 ⟨⟨le_refl _, fun _ hnewest => ?_⟩, hs.polls⟩
    rcases hs.newest remote claim hnewest with hwaits | ⟨h, hh, _⟩ | hsettled
    · exact absurd hwaits hwaiter
    · cases hfree.symm.trans hh
    · exact hsettled

theorem inv_finish {s : State} {p : Poll} (hs : Inv s) :
    Inv (step env order s (.finish p)) := by
  rw [step]
  split
  · have hsettled : ∀ remote claim, Settled s remote claim →
        Settled (remember s (prune s.now s.decisions)) remote claim := by
      intro remote claim hclaim
      refine settled_remember (fun d hd hnode => ?_) hclaim
      rcases lookup_prune_or s.now hd with hkept | ⟨hgone, hold⟩
      · exact Or.inl ⟨d, hkept, hnode⟩
      · exact Or.inr ⟨hgone, Or.inl hold⟩
    refine ⟨hs.waiters, hs.holding, ?_, hs.secrets, ?_, ?_⟩
    · exact fun claim d hd => hs.decisions claim d (lookup_retain.1 hd).1
    · intro remote claim hnewest
      rcases hs.newest remote claim hnewest with hwaits | hdeciding | hdone
      · exact Or.inl hwaits
      · exact Or.inr (Or.inl hdeciding)
      · exact Or.inr (Or.inr (hsettled remote claim hdone))
    · intro q hq
      obtain ⟨hbefore, hpoll⟩ := hs.polls q (List.mem_of_mem_erase hq)
      exact ⟨hbefore, fun hmem hnewest => hsettled _ _ (hpoll hmem hnewest)⟩
  · exact hs

theorem inv_step {s : State} (a : Action) (hs : Inv s) : Inv (step env order s a) := by
  cases a with
  | pair secret remote => exact inv_pair hs
  | take nodeId approved sessionToken deviceId => exact inv_take hs
  | record => exact inv_record hs
  | release => exact inv_release hs
  | look remote claim => exact inv_look hs
  | finish p => exact inv_finish hs
  | tick elapsed => exact ⟨hs.waiters, hs.holding, hs.decisions, hs.secrets, hs.newest, hs.polls⟩

/-! ## What a poll is told -/

/-- A daemon that has just started. -/
def initial (now : Instant) : State :=
  { now, waiters := ∅, decisions := ∅, holding := none, polls := [], filed := [], recorded := []
    forgotten := [] }

theorem inv_initial (now : Instant) : Inv (initial now) where
  waiters _ _ h := by cases h
  holding _ h := by cases h
  decisions _ _ h := by cases h
  secrets _ _ h := by cases h
  newest _ _ h := by cases h
  polls _ h := by cases h

theorem inv_exec (now : Instant) (run : List Action) :
    Inv (Runs.exec (step env order) (initial now) run) :=
  Runs.preserved (fun _ a hs => inv_step a hs) run (inv_initial now)

/-- The decision was dropped, or is past its window. -/
def Forgotten (s : State) (claim : String) : Prop :=
  claim ∈ s.forgotten ∨
    ∃ d, s.decisions.lookup claim = some d ∧ pairDecisionTtl ≤ s.now - d.decidedAt

/-- A poll of a node's newest claim, begun when that was filed, is told to wait or what was
    decided, unless the decision is forgotten. -/
def ToldOwn (s : State) (p : Poll) (answer : Answer) : Prop :=
  (p.remote, p.claim) ∈ s.filed.take p.filedBefore → newestOf s.filed p.remote = some p.claim →
    answer = .ok (.pairingPending p.claim) ∨
    (∃ d, (p.claim, d) ∈ s.recorded ∧ d.nodeId = p.remote ∧ answer = .ok d.response) ∨
    Forgotten s p.claim

theorem toldOwn_of_inv {s : State} {a : Action} {p : Poll} {answer : Answer} (hs : Inv s)
    (h : answerOf s a = some (p, answer)) : ToldOwn s p answer := by
  intro hmem hnewest
  cases a with
  | look remote claim =>
      rw [answerOf] at h
      split at h
      · cases Option.some.inj h
        exact Or.inl rfl
      · cases h
  | finish q =>
      rw [answerOf] at h
      split at h
      · next hq =>
          cases Option.some.inj h
          rcases (hs.polls p hq).2 hmem hnewest with ⟨d, hd, hnode⟩ | hforgotten
          · rcases lookup_prune_or s.now hd with hkept | ⟨_, hold⟩
            · refine Or.inr (Or.inl ⟨d, (hs.decisions _ d hd).2, hnode, ?_⟩)
              have hfound : (decided s.now p.claim p.remote s.decisions).1 = some d := by
                refine Option.filter_eq_some_iff.2 ⟨hkept, ?_⟩
                exact beq_iff_eq.2 hnode
              rw [outcome, hfound]
            · exact Or.inr (Or.inr (Or.inr ⟨d, hd, hold⟩))
          · exact Or.inr (Or.inr (Or.inl hforgotten))
      · cases h
  | _ => cases h

/-- Another node's secret is not found. -/
theorem notFound_of_inv {s : State} {a : Action} {p : Poll} {answer : Answer} (hs : Inv s)
    (h : answerOf s a = some (p, answer)) (hother : (p.remote, p.claim) ∉ s.filed) :
    answer = .error (.notFound, "no pairing claim with that id") := by
  cases a with
  | look remote claim =>
      rw [answerOf] at h
      split at h
      · next hwaits =>
          cases Option.some.inj h
          obtain ⟨w, hw, hclaim⟩ := (Option.any_eq_true _ _).1 (Bool.and_eq_true_iff.1 hwaits).2
          rw [← beq_iff_eq.1 hclaim] at hother
          exact absurd (hs.waiters remote w hw) hother
      · cases h
  | finish q =>
      rw [answerOf] at h
      split at h
      · cases Option.some.inj h
        rw [outcome]
        split
        · next d hd =>
            obtain ⟨hlookup, hnode⟩ := Option.filter_eq_some_iff.1 hd
            have hfiled := (hs.decisions _ d (lookup_retain.1 hlookup).1).1
            rw [beq_iff_eq.1 hnode] at hfiled
            exact absurd hfiled hother
        · rfl
      · cases h
  | _ => cases h

theorem filed_step (s : State) (a : Action) : s.filed <+: (step env order s a).filed := by
  cases a with
  | pair secret remote =>
      rw [step]
      split
      · exact List.prefix_refl _
      · exact List.prefix_append _ _
  | take nodeId approved sessionToken deviceId =>
      rw [step]
      split
      · exact List.prefix_refl _
      · split <;> exact List.prefix_refl _
  | record =>
      rw [step]
      split
      · exact List.prefix_refl _
      · split <;> exact List.prefix_refl _
  | release =>
      rw [step]
      split
      · exact List.prefix_refl _
      · split <;> exact List.prefix_refl _
  | look remote claim => rw [step]; split <;> exact List.prefix_refl _
  | finish p => rw [step]; split <;> exact List.prefix_refl _
  | tick elapsed => exact List.prefix_refl _

theorem filed_exec (s : State) (run : List Action) :
    s.filed <+: (Runs.exec (step env order) s run).filed := by
  induction run generalizing s with
  | nil => exact List.prefix_refl _
  | cons a rest ih => exact (filed_step s a).trans (ih _)

/-- **A POLL NEVER FALLS BETWEEN THE WAITER AND THE DECISION**: in every run, a poll of a
    node's newest claim is told to wait or what was decided until that is forgotten, and
    the secret of a claim is not found for any other node, before and after. -/
theorem poll_never_between (env : Env) (order : MapOrder) (now : Instant) (run pre : List Action)
    (a : Action) (hpre : pre ++ [a] <+: run) (p : Poll) (answer : Answer)
    (h : answerOf (Runs.exec (step env order) (initial now) pre) a = some (p, answer)) :
    ToldOwn (Runs.exec (step env order) (initial now) pre) p answer ∧
    ∀ node, (node, p.claim) ∈ (Runs.exec (step env order) (initial now) run).filed →
      node ≠ p.remote → answer = .error (.notFound, "no pairing claim with that id") := by
  have hs : Inv (Runs.exec (step env order) (initial now) pre) := inv_exec now pre
  refine ⟨toldOwn_of_inv hs h, fun node hnode hne => notFound_of_inv hs h fun hfiled => ?_⟩
  obtain ⟨rest, rfl⟩ := hpre
  have hrun : Inv (Runs.exec (step env order) (initial now) (pre ++ [a] ++ rest)) := inv_exec now _
  have hlater : (p.remote, p.claim) ∈
      (Runs.exec (step env order) (initial now) (pre ++ [a] ++ rest)).filed := by
    rw [List.append_assoc, Runs.exec_append]
    exact (filed_exec _ _).subset hfiled
  exact hne (hrun.nodeOf hnode hlater)

/-- The secret of the claim that node `a` files below. -/
def sampleClaim : String := (SyncTokens.sampleId 2).text Env.reference

/-- A claim is filed and approved, and polled when the decision has let go of the lock. -/
def polledState : State :=
  Runs.exec (step Env.reference SyncTokens.listOrder) (initial 0)
    [.pair (SyncTokens.sampleId 2) "a", .take "a" true "token" none, .record, .release,
      .look "a" sampleClaim]

set_option maxRecDepth 8000 in
/-- The poll that found no waiter finds the decision. -/
theorem poll_never_between_recorded :
    answerOf polledState (.finish ⟨"a", sampleClaim, 1⟩) =
        some (⟨"a", sampleClaim, 1⟩, .ok (.paired "" "token")) ∧
      ToldOwn polledState ⟨"a", sampleClaim, 1⟩ (.ok (.paired "" "token")) := by
  have hanswer : answerOf polledState (.finish ⟨"a", sampleClaim, 1⟩) =
      some (⟨"a", sampleClaim, 1⟩, .ok (.paired "" "token")) := by
    rfl
  refine ⟨hanswer, ?_⟩
  exact (poll_never_between Env.reference SyncTokens.listOrder 0 _ _ _ (List.prefix_refl _) _ _
    hanswer).1

end SyncLocks
