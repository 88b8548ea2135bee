import Livtet.Lib.Maps
import Livtet.Engine

/-! # Book offers

    An offer is a `file_offer` row of the peer's log. A pull does not apply it: it
    records the offer for the reader to answer, and holds back the rows of the same
    page that describe the book. Accepting applies the held rows, rejecting drops
    them. -/

namespace SyncOffers

open JsonText SyncStore SyncEngine Maps

inductive OfferStatus
  | pending
  | accepted
  | rejected
deriving DecidableEq, Repr

/-- A row of `inbound_offers`, whose key is the sender's offer id. -/
structure InboundOffer where
  fromDeviceId : String
  inventoryId : String
  editionId : String
  workId : String
  title : String
  authors : String
  fileName : Option String
  hasCover : Bool
  offeredAt : String
  receivedAt : String
  status : OfferStatus
  decidedAt : Option String
  /-- The held rows, replayed on acceptance. -/
  deferredChanges : List SyncChange

abbrev InboundOffers := Map String InboundOffer

section Payload

variable (env : Env)

/-- An offer's payload; text that does not parse reads as `null`. -/
def offerPayload (change : SyncChange) : Json := (env.json.parse change.payload).toOption.getD .null

def textField (payload : Json) (key : String) : Option String :=
  (payload.get? key).bind Json.asStr?

/-- The inventory, edition, and work ids an offer names. -/
def offerRowIds (payload : Json) : List String :=
  ["inventory_id", "edition_id", "work_id"].filterMap (textField payload)

/-- `change_is_for`: whether the sender shows a row to a device. -/
def changeIsFor (change : SyncChange) (deviceId : String) : Bool :=
  if change.entityType ≠ "file_offer" then true
  else match env.json.parse change.payload with
    | .ok payload => (textField payload "to_device_id").all fun target => target == deviceId
    | .error _ => true

/-- The peer's answer to a `Changes` request of a device. -/
def changesFor (log : ChangeLog) (sinceVersion : Int) (deviceId : String) : PullResponse :=
  let response := pullChanges env log sinceVersion 100
  { response with changes := response.changes.filter fun c => changeIsFor env c deviceId }

/-! ## One page -/

/-- The offers of a page that are addressed to this device. -/
def pageOffers (deviceId : String) (changes : List SyncChange) : List (SyncChange × Json) :=
  ((changes.filter fun c => c.entityType == "file_offer").map fun c => (c, offerPayload env c)).filter
    fun p => textField p.2 "to_device_id" == some deviceId

def heldIds (offers : List (SyncChange × Json)) : List String :=
  offers.flatMap fun p => offerRowIds p.2

/-- The rows that wait with the offers of their page. -/
def deferredRows (deviceId : String) (changes : List SyncChange) : List SyncChange :=
  (changes.filter fun c => c.entityType != "file_offer").filter fun c =>
    (heldIds (pageOffers env deviceId changes)).contains c.entityId

/-- The rows of a page that are library changes and apply now. -/
def metadataRows (deviceId : String) (changes : List SyncChange) : List SyncChange :=
  (changes.filter fun c => c.entityType != "file_offer").filter fun c =>
    !(heldIds (pageOffers env deviceId changes)).contains c.entityId

theorem mem_metadataRows {env : Env} {deviceId : String} {changes : List SyncChange}
    {c : SyncChange} : c ∈ metadataRows env deviceId changes ↔
      c ∈ changes ∧ c.entityType ≠ "file_offer" ∧
        ∀ o ∈ pageOffers env deviceId changes, c.entityId ∉ offerRowIds o.2 := by
  simp only [metadataRows, heldIds, List.mem_filter, bne_iff_ne, Bool.not_eq_true',
    List.contains_eq_mem, decide_eq_false_iff_not, List.mem_flatMap, not_exists, not_and, and_assoc]

/-! ## Recording an offer -/

/-- The row an offer is recorded as, under its id. -/
def offerRow (now : String) (change : SyncChange) (payload : Json) (held : List SyncChange) :
    Except String (String × InboundOffer) :=
  match textField payload "offer_id", textField payload "inventory_id",
    textField payload "edition_id", textField payload "work_id" with
  | none, _, _, _ => .error "offer has no id"
  | _, none, _, _ => .error "offer has no inventory id"
  | _, _, none, _ => .error "offer has no edition id"
  | _, _, _, none => .error "offer has no work id"
  | some offerId, some inventoryId, some editionId, some workId =>
      .ok (offerId,
        { fromDeviceId := change.deviceId, inventoryId, editionId, workId
          title := (textField payload "title").getD "Untitled"
          authors := env.json.render ((payload.get? "authors").getD (.arr []))
          fileName := textField payload "file_name"
          hasCover := match payload.get? "has_cover" with
            | some (.bool b) => b
            | _ => false
          offeredAt := change.changedAt, receivedAt := now, status := .pending
          decidedAt := none, deferredChanges := held })

end Payload

/-- `INSERT .. ON CONFLICT (offer_id) DO UPDATE .. WHERE status = 'pending'`: a decided
    offer stays as it is, a pending one keeps when it was first seen. -/
def upsertOffer (offerId : String) (row : InboundOffer) (offers : InboundOffers) : InboundOffers :=
  match offers.lookup offerId with
  | none => offers.insert offerId row
  | some old =>
      if old.status = .pending then
        offers.insert offerId { row with
          receivedAt := old.receivedAt, status := old.status, decidedAt := old.decidedAt }
      else offers

/-- `UPDATE inbound_offers SET status = ?, decided_at = ?, deferred_changes = '[]'`,
    whatever the status was. -/
def writeDecision (now offerId : String) (accepted : Bool) (offers : InboundOffers) :
    InboundOffers :=
  match offers.lookup offerId with
  | none => offers
  | some row =>
      offers.insert offerId { row with
        status := if accepted then .accepted else .rejected
        decidedAt := some now, deferredChanges := [] }

/-- Recording keeps the status of every row there is, and adds only pending ones. -/
theorem lookup_upsertOffer {offerId key : String} {row r : InboundOffer} {offers : InboundOffers}
    (hrow : row.status = .pending) (h : (upsertOffer offerId row offers).lookup key = some r) :
    (∃ old, offers.lookup key = some old ∧ old.status = r.status) ∨
      (offers.lookup key = none ∧ r.status = .pending) := by
  rw [upsertOffer] at h
  split at h
  · next hnone =>
      rcases lookup_insert.1 h with ⟨rfl, rfl⟩ | ⟨_, h⟩
      · exact Or.inr ⟨hnone, hrow⟩
      · exact Or.inl ⟨r, h, rfl⟩
  · next old hold =>
      split at h
      · rcases lookup_insert.1 h with ⟨rfl, rfl⟩ | ⟨_, h⟩
        · exact Or.inl ⟨old, hold, rfl⟩
        · exact Or.inl ⟨r, h, rfl⟩
      · exact Or.inl ⟨r, h, rfl⟩

/-- A row that is there stays, with its status. -/
theorem status_upsertOffer {offerId key : String} {row old : InboundOffer} {offers : InboundOffers}
    (hold : offers.lookup key = some old) :
    ∃ r, (upsertOffer offerId row offers).lookup key = some r ∧ r.status = old.status := by
  rw [upsertOffer]
  by_cases hkey : key = offerId
  · subst hkey
    rw [hold]
    dsimp only
    split
    · exact ⟨_, AList.lookup_insert _, rfl⟩
    · exact ⟨old, hold, rfl⟩
  · refine ⟨old, ?_, rfl⟩
    split
    · rw [AList.lookup_insert_ne hkey, hold]
    · split
      · rw [AList.lookup_insert_ne hkey, hold]
      · exact hold

theorem lookup_writeDecision_ne {now offerId key : String} {accepted : Bool}
    {offers : InboundOffers} (h : key ≠ offerId) :
    (writeDecision now offerId accepted offers).lookup key = offers.lookup key := by
  rw [writeDecision]
  split
  · rfl
  · exact AList.lookup_insert_ne h

theorem lookup_writeDecision {now offerId : String} {accepted : Bool} {offers : InboundOffers}
    {row : InboundOffer} (h : offers.lookup offerId = some row) :
    ∃ r, (writeDecision now offerId accepted offers).lookup offerId = some r ∧
      r.status = if accepted then .accepted else .rejected := by
  rw [writeDecision, h]
  exact ⟨_, AList.lookup_insert _, rfl⟩

theorem status_of_offerRow {env : Env} {now offerId : String} {change : SyncChange} {payload : Json}
    {held : List SyncChange} {row : InboundOffer}
    (h : offerRow env now change payload held = .ok (offerId, row)) : row.status = .pending := by
  rw [offerRow] at h
  split at h
  · cases h
  · cases h
  · cases h
  · cases h
  · cases Except.ok.inj h
    rfl

/-! ## Making an offer -/

/-- The log row of `offer_book`. -/
def offerEntry (now deviceId inventoryId payload : String) (log : ChangeLog) : ChangeEntry :=
  { entityType := "file_offer", entityId := inventoryId, operation := "OFFER"
    version := log.nextVersion, payload, changedAt := now, deviceId := some deviceId }

/-- `offer_book` logs the offer at the next version; `OFFER` is no apply operation. -/
def logOffer (now deviceId inventoryId payload : String) (log : ChangeLog) :
    Except SqlRows.SqlError ChangeLog :=
  log.insert (offerEntry now deviceId inventoryId payload log) log.nextVersion_bounds

end SyncOffers
