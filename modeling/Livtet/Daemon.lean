import Livtet.Offers

/-! # The daemon — pulls and decisions, split at their awaits

    Pulls and `offers.decide` calls run concurrently. Each is a small machine whose
    transitions are the stretches between two awaits: a pull fetches a page, applies
    it and records its offers under the write gate, and moves its cursor; a decision
    checks the row, downloads, applies the held rows under the gate, and writes the
    status. Only an accepting call takes the gate.

    Beside the daemon's own state there is a record of what it did: the offers it
    recorded, the rows a pull passed to `apply_changes` while the offer that names
    them was not accepted, and the offers whose held rows were applied. -/

namespace SyncDaemon

open JsonText SyncStore SyncEngine SyncOffers Maps

/-! ## The state -/

/-- A pull past its fetch. The offers of a page are recorded one by one; `found` is
    the row the first of them was looked up as. -/
inductive PullPhase
  | looping
  | fetched (page : PullResponse)
  | recording (page : PullResponse) (offers : List (SyncChange × Json))
      (found : Option (Option InboundOffer))

structure Pull where
  peer : String
  cursor : Int
  phase : PullPhase

/-- A decision past its check. `holding` is under the gate, after the held rows were
    applied, if there were any. -/
inductive CallPhase
  | checked
  | downloaded (paths : InventoryPaths)
  | holding (applied : Bool)
deriving DecidableEq

structure Call where
  offerId : String
  /-- The row as it was when it was checked. -/
  row : InboundOffer
  accepted : Bool
  phase : CallPhase

inductive Task
  | pull (p : Nat)
  | call (c : Nat)
deriving DecidableEq

structure State where
  deviceId : String
  db : Db
  offers : InboundOffers
  /-- `sync.cursor.<peer>`. -/
  cursors : Map String Int
  writeGate : Option Task
  pulls : Map Nat Pull
  calls : Map Nat Call
  /-- The payloads of the offers recorded so far. -/
  recorded : List Json
  /-- Rows passed to `apply_changes` by a pull while an offer that names them was
      pending or rejected. -/
  leaked : List SyncChange
  /-- The offers whose held rows were applied, once for each time. -/
  applied : List String

/-- An offer that was recorded and is not accepted names the row. -/
def undecided (s : State) (entityId : String) : Bool :=
  s.recorded.any fun payload =>
    ((textField payload "offer_id").bind fun offerId => s.offers.lookup offerId).any
      (fun row => row.status != .accepted) && (offerRowIds payload).contains entityId

inductive Action
  | startPull (p : Nat) (peer : String)
  | fetch (p : Nat) (log : ChangeLog)
  | applyPage (p : Nat) (now : String)
  | lookupOffer (p : Nat)
  | recordOffer (p : Nat) (now : String)
  | finishPage (p : Nat)
  | failPull (p : Nat)
  | check (c : Nat) (offerId : String) (accepted : Bool)
  | download (c : Nat) (paths : InventoryPaths)
  | applyHeld (c : Nat) (now : String)
  | write (c : Nat) (now : String)
  | failCall (c : Nat)
  | crash

/-! ## The steps -/

def State.release (s : State) (task : Task) : State :=
  { s with writeGate := s.writeGate.filter fun t => decide (t ≠ task) }

def State.setPull (s : State) (p : Nat) (pull : Pull) : State :=
  { s with pulls := s.pulls.insert p pull }

/-- The pull is over, with or without an error. -/
def State.endPull (s : State) (p : Nat) : State :=
  { s.release (.pull p) with pulls := s.pulls.erase p }

def State.setCall (s : State) (c : Nat) (call : Call) : State :=
  { s with calls := s.calls.insert c call }

def State.endCall (s : State) (c : Nat) : State :=
  { s.release (.call c) with calls := s.calls.erase c }

/-- A fetched page whose pull can take the gate. -/
def State.readyPage (s : State) (p : Nat) : Option (Pull × PullResponse) :=
  match s.pulls.lookup p, s.writeGate with
  | some ⟨peer, cursor, .fetched page⟩, none => some (⟨peer, cursor, .fetched page⟩, page)
  | _, _ => none

section Steps

variable (env : Env)

/-- The peer answered: an empty page ends the pull, or moves past what was filtered
    out of it. -/
def fetch (p : Nat) (pull : Pull) (log : ChangeLog) (s : State) : State :=
  let page := changesFor env log pull.cursor s.deviceId
  if page.changes.isEmpty then
    if page.hasMore then
      { s with cursors := s.cursors.insert pull.peer page.latestVersion }.setPull p
        { pull with cursor := page.latestVersion }
    else s.endPull p
  else s.setPull p { pull with phase := .fetched page }

/-- Under the gate: the page's library changes, then its offers. -/
def applyPage (now : String) (p : Nat) (pull : Pull) (page : PullResponse) (s : State) : State :=
  let metadata := metadataRows env s.deviceId page.changes
  let s := { s with
    writeGate := some (.pull p)
    leaked := s.leaked ++ metadata.filter fun c : SyncChange => undecided s c.entityId }
  let recording := { pull with
    phase := .recording page (pageOffers env s.deviceId page.changes) none }
  if metadata.isEmpty then s.setPull p recording
  else match applyChanges env now metadata {} s.db with
    | .error _ => s.endPull p
    | .ok (_, db) => { s with db }.setPull p recording

/-- `record_inbound_offer` past its lookup. -/
def recordOffer (now : String) (p : Nat) (pull : Pull) (page : PullResponse)
    (offer : SyncChange × Json) (rest : List (SyncChange × Json)) (found : Option InboundOffer)
    (s : State) : State :=
  let held := (deferredRows env s.deviceId page.changes).filter fun c =>
    (offerRowIds offer.2).contains c.entityId
  let next := { pull with phase := .recording page rest none }
  match offerRow env now offer.1 offer.2 held with
  | .error _ => s.endPull p
  | .ok (offerId, row) =>
      if found.any fun old => old.status != .pending then s.setPull p next
      else { s with
        offers := upsertOffer offerId row s.offers
        recorded := s.recorded ++ [offer.2] }.setPull p next

/-- The page is done: the cursor moves, the gate opens. -/
def finishPage (p : Nat) (pull : Pull) (page : PullResponse) (s : State) : State :=
  let s := { s with cursors := s.cursors.insert pull.peer page.latestVersion }.release (.pull p)
  if page.hasMore then
    s.setPull p { pull with cursor := page.latestVersion, phase := .looping }
  else s.endPull p

/-- The pending check of a decision. -/
def check (c : Nat) (offerId : String) (accepted : Bool) (s : State) : State :=
  match s.offers.lookup offerId, s.calls.lookup c with
  | some row, none =>
      if row.status = .pending then s.setCall c { offerId, row, accepted, phase := .checked } else s
  | _, _ => s

/-- An accepting call takes the gate and applies the rows its row held. -/
def applyHeld (now : String) (c : Nat) (call : Call) (paths : InventoryPaths) (s : State) : State :=
  let s := { s with writeGate := some (.call c) }
  if call.row.deferredChanges.isEmpty then s.setCall c { call with phase := .holding false }
  else match applyChanges env now call.row.deferredChanges
      { inventoryPaths := [(call.row.inventoryId, paths)] } s.db with
    | .error _ => s.endCall c
    | .ok (_, db) =>
        { s with db, applied := s.applied ++ [call.offerId] }.setCall c
          { call with phase := .holding true }

/-- The status is written and the call is over. -/
def write (now : String) (c : Nat) (call : Call) (s : State) : State :=
  { s with offers := writeDecision now call.offerId call.accepted s.offers }.endCall c

/-- One stretch between two awaits; an action that does not fit the state does
    nothing. -/
def step (s : State) : Action → State
  | .startPull p peer =>
      if (s.pulls.lookup p).isSome then s
      else s.setPull p { peer, cursor := (s.cursors.lookup peer).getD 0, phase := .looping }
  | .fetch p log =>
      match s.pulls.lookup p with
      | some ⟨peer, cursor, .looping⟩ => fetch env p ⟨peer, cursor, .looping⟩ log s
      | _ => s
  | .applyPage p now =>
      match s.readyPage p with
      | some (pull, page) => applyPage env now p pull page s
      | none => s
  | .lookupOffer p =>
      match s.pulls.lookup p with
      | some ⟨peer, cursor, .recording page (offer :: rest) none⟩ =>
          s.setPull p ⟨peer, cursor, .recording page (offer :: rest)
            (some ((textField offer.2 "offer_id").bind fun id => s.offers.lookup id))⟩
      | _ => s
  | .recordOffer p now =>
      match s.pulls.lookup p with
      | some ⟨peer, cursor, .recording page (offer :: rest) (some found)⟩ =>
          recordOffer env now p ⟨peer, cursor, .recording page (offer :: rest) (some found)⟩ page
            offer rest found s
      | _ => s
  | .finishPage p =>
      match s.pulls.lookup p with
      | some ⟨peer, cursor, .recording page [] none⟩ =>
          finishPage p ⟨peer, cursor, .recording page [] none⟩ page s
      | _ => s
  | .failPull p => s.endPull p
  | .check c offerId accepted => check c offerId accepted s
  | .download c paths =>
      match s.calls.lookup c with
      | some ⟨offerId, row, true, .checked⟩ => s.setCall c ⟨offerId, row, true, .downloaded paths⟩
      | _ => s
  | .applyHeld c now =>
      match s.calls.lookup c, s.writeGate with
      | some ⟨offerId, row, accepted, .downloaded paths⟩, none =>
          applyHeld env now c ⟨offerId, row, accepted, .downloaded paths⟩ paths s
      | _, _ => s
  | .write c now =>
      match s.calls.lookup c with
      | some ⟨offerId, row, false, .checked⟩ => write now c ⟨offerId, row, false, .checked⟩ s
      | some ⟨offerId, row, accepted, .holding applied⟩ =>
          write now c ⟨offerId, row, accepted, .holding applied⟩ s
      | _ => s
  | .failCall c => s.endCall c
  | .crash => { s with writeGate := none, pulls := ∅, calls := ∅ }

end Steps

/-! ## What the decisions leave alone

    Pulls and decisions meet in the database, the offers and the gate only. -/

/-- What belongs to the pulls is as it was. -/
structure SamePulls (s s' : State) : Prop where
  pulls : s'.pulls = s.pulls
  cursors : s'.cursors = s.cursors
  recorded : s'.recorded = s.recorded
  leaked : s'.leaked = s.leaked

def Action.decides : Action → Bool
  | .check .. | .download .. | .applyHeld .. | .write .. | .failCall .. => true
  | _ => false

variable {env : Env} {s : State} {c : Nat}

theorem samePulls_check {offerId : String} {accepted : Bool} :
    SamePulls s (check c offerId accepted s) := by
  rw [check]
  split
  · split <;> exact ⟨rfl, rfl, rfl, rfl⟩
  · exact ⟨rfl, rfl, rfl, rfl⟩

theorem samePulls_applyHeld {now : String} {call : Call} {paths : InventoryPaths} :
    SamePulls s (applyHeld env now c call paths s) := by
  rw [applyHeld]
  dsimp only
  split
  · exact ⟨rfl, rfl, rfl, rfl⟩
  split <;> exact ⟨rfl, rfl, rfl, rfl⟩

/-- No step of a decision touches what belongs to the pulls. -/
theorem samePulls_step {a : Action} (ha : a.decides = true) : SamePulls s (step env s a) := by
  cases a with
  | check c offerId accepted => exact samePulls_check
  | download c paths =>
      simp only [step]
      split <;> exact ⟨rfl, rfl, rfl, rfl⟩
  | applyHeld c now =>
      simp only [step]
      split
      · exact samePulls_applyHeld
      · exact ⟨rfl, rfl, rfl, rfl⟩
  | write c now =>
      simp only [step]
      split <;> exact ⟨rfl, rfl, rfl, rfl⟩
  | failCall c => exact ⟨rfl, rfl, rfl, rfl⟩
  | _ => cases ha

end SyncDaemon
