import Mathlib.Data.List.Forall2
import Livtet.Offers
import Livtet.Tokens

/-! # Offers stay private to their target

    A two-run statement: two logs that differ in offers to other devices look the same
    to a device. The page is cut before the offers are filtered out of it, so what the
    answer says about the page (how long it was, where it ended) must not depend on
    them either.

    It does on one thing: whether the row decodes. A row without a device id is dropped
    from the page before it is counted, so the rows that differ must agree on that. -/

namespace SyncPrivacy

open JsonText SyncStore SyncEngine SyncOffers SyncPairing SortedPages

/-! ## The two requests -/

/-- The rows stand at one place of the log, with one version. -/
def SamePlace (a b : ChangeRow) : Prop := a.id = b.id ∧ a.version = b.version

/-- What the queries take from SQLite: the order in which rows are visited, which
    depends on their row ids and versions, and `json_extract(payload, '$.offer_id')`,
    as the text it is where it is one, with an error for malformed JSON. -/
structure LogQueries (env : Env) where
  scan : KeyOrder ChangeRow fun _ _ => True
  scan_positional : scan.Positional SamePlace
  asc_positional : env.asc.Positional SamePlace
  extract : String → Except String (Option String)
  extract_of_parse : ∀ payload json, env.json.parse payload = .ok json →
    ∃ value, extract payload = .ok value

/-- What the desktop is told of an answer to an offer. -/
structure OfferDecision where
  offerId : String
  deviceId : String
  accepted : Bool
deriving DecidableEq, Repr

section Requests

variable (env : Env) (q : LogQueries env) (wire : WireState) (log : ChangeLog)

/-- The `Changes` branch of `dispatch`. -/
def dispatchChanges (token remote : String) (sinceVersion : Int) (limit : Option Int) :
    Except (ErrorCode × String) PullResponse :=
  match authorize env wire token remote with
  | .error e => .error e
  | .ok deviceId =>
      let response := pullChanges env log sinceVersion (limit.getD 100)
      .ok { response with changes := response.changes.filter fun c => changeIsFor env c deviceId }

/-- The first row, in the order of the scan, that the offer lookup accepts. -/
def findOffer (offerId : String) : List ChangeRow → Except String (Option ChangeRow)
  | [] => .ok none
  | r :: rows =>
      if r.entityType = "file_offer" then
        match q.extract r.payload with
        | .error e => .error e
        | .ok value => if value = some offerId then .ok (some r) else findOffer offerId rows
      else findOffer offerId rows

/-- `offer_decision`, with what it tells the desktop. -/
def offerDecision (offerId deviceId : String) (accepted : Bool) :
    Except (ErrorCode × String) OfferDecision :=
  match findOffer env q offerId (q.scan.visit 1 log.rows) with
  | .error e => .error (.internal, "offer lookup: " ++ e)
  | .ok none => .error (.notFound, "no such offer")
  | .ok (some r) =>
      let payload := (env.json.parse r.payload).toOption.getD .null
      if textField payload "to_device_id" = some deviceId then .ok { offerId, deviceId, accepted }
      else .error (.unauthorized, "the offer is addressed to another device")

/-- The `OfferDecision` branch of `dispatch`. -/
def dispatchOfferDecision (token remote offerId : String) (accepted : Bool) :
    Except (ErrorCode × String) OfferDecision :=
  match authorize env wire token remote with
  | .error e => .error e
  | .ok deviceId => offerDecision env q log offerId deviceId accepted

/-- Without a limit it is the answer a pulling peer reads. -/
theorem dispatchChanges_default {token remote deviceId : String} {sinceVersion : Int}
    (h : authorize env wire token remote = .ok deviceId) :
    dispatchChanges env wire log token remote sinceVersion none =
      .ok (changesFor env log sinceVersion deviceId) := by
  rw [dispatchChanges, h]
  rfl

end Requests

/-! ## The statement -/

section Statement

variable (env : Env) (q : LogQueries env) (d : String)

/-- An offer to another device. -/
def Elsewhere (r : ChangeRow) : Prop :=
  r.entityType = "file_offer" ∧ ∃ payload target, env.json.parse r.payload = .ok payload ∧
    textField payload "to_device_id" = some target ∧ target ≠ d

/-- Both rows are offers to other devices, at one place. -/
def Hidden (a b : ChangeRow) : Prop := SamePlace a b ∧ Elsewhere env d a ∧ Elsewhere env d b

/-- Hidden rows of which both have a device id, or neither. -/
def HiddenAlike (a b : ChangeRow) : Prop :=
  Hidden env d a b ∧ a.deviceId.isSome = b.deviceId.isSome

/-- The logs differ only in rows that are so related. -/
def Differ (rel : ChangeRow → ChangeRow → Prop) (log log' : ChangeLog) : Prop :=
  List.Forall₂ (fun a b => a = b ∨ rel a b) log.rows log'.rows

/-- No offer to another device has the id. -/
def NotElsewhere (offerId : String) (log : ChangeLog) : Prop :=
  ∀ r ∈ log.rows, Elsewhere env d r → q.extract r.payload ≠ .ok (some offerId)

/-- Every request that authenticates as the device gets one answer from both logs. -/
def SameAnswers (wire : WireState) (log log' : ChangeLog) : Prop :=
  (∀ token remote sinceVersion limit, authorize env wire token remote = .ok d →
    dispatchChanges env wire log token remote sinceVersion limit =
      dispatchChanges env wire log' token remote sinceVersion limit) ∧
  ∀ token remote offerId accepted, authorize env wire token remote = .ok d →
    NotElsewhere env q d offerId log → NotElsewhere env q d offerId log' →
    dispatchOfferDecision env q wire log token remote offerId accepted =
      dispatchOfferDecision env q wire log' token remote offerId accepted

end Statement

variable {env : Env} {q : LogQueries env} {d : String}

/-! ## Pages -/

/-- Two changes of a page: one change, or two of one version that are both filtered
    out. -/
def SameSeen (env : Env) (d : String) (c c' : SyncChange) : Prop :=
  c = c' ∨ (c.version = c'.version ∧ changeIsFor env c d = false ∧ changeIsFor env c' d = false)

theorem changeIsFor_eq_false {r : ChangeRow} {c : SyncChange} (hr : Elsewhere env d r)
    (hc : toSyncChange r = some c) : changeIsFor env c d = false ∧ c.version = r.version := by
  obtain ⟨htype, payload, target, hparse, htarget, hne⟩ := hr
  rw [toSyncChange] at hc
  split at hc
  · cases hc
  split at hc
  · cases Option.some.inj hc
    refine ⟨?_, rfl⟩
    simp only [changeIsFor, htype, hparse, htarget]
    simpa using hne
  · cases hc

theorem isSome_toSyncChange (r : ChangeRow) :
    (toSyncChange r).isSome =
      (r.deviceId.isSome && decide (minI64 ≤ r.version ∧ r.version ≤ maxI64)) := by
  rw [toSyncChange]
  cases r.deviceId with
  | none => rfl
  | some deviceId =>
      by_cases h : minI64 ≤ r.version ∧ r.version ≤ maxI64
      · simp [h]
      · simp [h]

/-- Related rows decode alike. -/
theorem rel_toSyncChange {a b : ChangeRow} (h : a = b ∨ HiddenAlike env d a b) :
    Option.Rel (SameSeen env d) (toSyncChange a) (toSyncChange b) := by
  rcases h with rfl | ⟨⟨⟨_, hversion⟩, ha, hb⟩, halike⟩
  · cases toSyncChange a with
    | none => exact .none
    | some c => exact .some (Or.inl rfl)
  have hsome : (toSyncChange a).isSome = (toSyncChange b).isSome := by
    rw [isSome_toSyncChange, isSome_toSyncChange, halike, hversion]
  cases hca : toSyncChange a with
  | none =>
      rw [hca] at hsome
      rw [Option.isSome_eq_false_iff.1 hsome.symm |> Option.isNone_iff_eq_none.1]
      exact .none
  | some c =>
      rw [hca] at hsome
      obtain ⟨c', hcb⟩ := Option.isSome_iff_exists.1 hsome.symm
      rw [hcb]
      obtain ⟨hseen, hv⟩ := changeIsFor_eq_false ha hca
      obtain ⟨hseen', hv'⟩ := changeIsFor_eq_false hb hcb
      refine .some (Or.inr ⟨?_, hseen, hseen'⟩)
      rw [hv, hv', hversion]

/-- The changes of one page, before the filter. -/
theorem forall₂_pageChanges {log log' : ChangeLog} (hasc : env.asc.Positional SamePlace)
    (h : Differ (HiddenAlike env d) log log') (since limit : Int) :
    List.Forall₂ (SameSeen env d) (pullChanges env log since limit).changes
      (pullChanges env log' since limit).changes := by
  have hplace : ∀ a b, a = b ∨ HiddenAlike env d a b → SamePlace a b := by
    rintro a b (rfl | hab)
    · exact ⟨rfl, rfl⟩
    · exact hab.1.1
  have habove : List.Forall₂ (fun a b => a = b ∨ HiddenAlike env d a b) (rowsAbove log since)
      (rowsAbove log' since) := by
    refine List.rel_filter (fun a b hab => ?_) h
    show decide (since < a.version) = true ↔ decide (since < b.version) = true
    rw [(hplace a b hab).2]
  exact List.rel_filterMap (fun _ _ hab => rel_toSyncChange hab)
    (forall₂_limited (hasc _ hplace limit _ _ habove))

theorem filter_eq_of_sameSeen {cs cs' : List SyncChange} (h : List.Forall₂ (SameSeen env d) cs cs') :
    (cs.filter fun c => changeIsFor env c d) = cs'.filter fun c => changeIsFor env c d := by
  induction h with
  | nil => rfl
  | cons hc _ ih =>
      rcases hc with rfl | ⟨_, hc, hc'⟩
      · rw [List.filter_cons, List.filter_cons, ih]
      · rw [List.filter_cons, List.filter_cons, hc, hc', ih]
        rfl

theorem versions_eq_of_sameSeen {cs cs' : List SyncChange}
    (h : List.Forall₂ (SameSeen env d) cs cs') :
    (cs.map fun c => c.version) = cs'.map fun c => c.version := by
  induction h with
  | nil => rfl
  | cons hc _ ih =>
      rw [List.map_cons, List.map_cons, ih]
      rcases hc with rfl | ⟨hv, _⟩
      · rfl
      · rw [hv]

/-- The filtered page, and what is said about the unfiltered one. -/
theorem dispatchChanges_eq {wire : WireState} {log log' : ChangeLog} {token remote : String}
    (hasc : env.asc.Positional SamePlace) (h : Differ (HiddenAlike env d) log log')
    (hauth : authorize env wire token remote = .ok d) (sinceVersion : Int) (limit : Option Int) :
    dispatchChanges env wire log token remote sinceVersion limit =
      dispatchChanges env wire log' token remote sinceVersion limit := by
  have hpage := forall₂_pageChanges hasc h sinceVersion (limit.getD 100)
  have hlength := hpage.length_eq
  have hlast : (pullChanges env log sinceVersion (limit.getD 100)).latestVersion =
      (pullChanges env log' sinceVersion (limit.getD 100)).latestVersion := by
    show (Option.map _ (List.getLast? _)).getD _ = (Option.map _ (List.getLast? _)).getD _
    rw [← List.getLast?_map, ← List.getLast?_map]
    exact congrArg (fun l => (List.getLast? l).getD sinceVersion) (versions_eq_of_sameSeen hpage)
  have hmore : (pullChanges env log sinceVersion (limit.getD 100)).hasMore =
      (pullChanges env log' sinceVersion (limit.getD 100)).hasMore :=
    congrArg (fun n : Nat => decide ((n : Int) = limit.getD 100)) hlength
  simp only [dispatchChanges, hauth, filter_eq_of_sameSeen hpage, hlast, hmore]

/-! ## The offer lookup -/

theorem findOffer_eq {offerId : String} {rows rows' : List ChangeRow}
    (h : List.Forall₂ (fun a b => a = b ∨ Hidden env d a b) rows rows')
    (hrows : ∀ r ∈ rows, Elsewhere env d r → q.extract r.payload ≠ .ok (some offerId))
    (hrows' : ∀ r ∈ rows', Elsewhere env d r → q.extract r.payload ≠ .ok (some offerId)) :
    findOffer env q offerId rows = findOffer env q offerId rows' := by
  -- a hidden row is read without an error, and passed over
  have hskip : ∀ (r : ChangeRow) (rest : List ChangeRow), Elsewhere env d r →
      q.extract r.payload ≠ .ok (some offerId) →
      findOffer env q offerId (r :: rest) = findOffer env q offerId rest := by
    intro r rest hr hne
    obtain ⟨htype, payload, _, hparse, _⟩ := hr
    obtain ⟨value, hvalue⟩ := q.extract_of_parse r.payload payload hparse
    rw [hvalue] at hne
    have hvne : value ≠ some offerId := fun hv => hne (congrArg _ hv)
    rw [findOffer, if_pos htype, hvalue]
    exact if_neg hvne
  induction h with
  | nil => rfl
  | @cons a b rows rows' hab hrest ih =>
      have ih := ih (fun r hr => hrows r (List.mem_cons_of_mem _ hr))
        fun r hr => hrows' r (List.mem_cons_of_mem _ hr)
      rcases hab with rfl | ⟨_, ha, hb⟩
      · rw [findOffer, findOffer, ih]
      · rw [hskip a rows ha (hrows a List.mem_cons_self ha),
          hskip b rows' hb (hrows' b List.mem_cons_self hb), ih]

theorem offerDecision_eq {log log' : ChangeLog} {offerId : String}
    (h : Differ (HiddenAlike env d) log log') (hlog : NotElsewhere env q d offerId log)
    (hlog' : NotElsewhere env q d offerId log') (accepted : Bool) :
    offerDecision env q log offerId d accepted = offerDecision env q log' offerId d accepted := by
  have hscan : List.Forall₂ (fun a b => a = b ∨ Hidden env d a b) (q.scan.visit 1 log.rows)
      (q.scan.visit 1 log'.rows) := by
    refine q.scan_positional _ ?_ 1 _ _ (h.imp fun a b hab => hab.imp_right And.left)
    rintro a b (rfl | hab)
    · exact ⟨rfl, rfl⟩
    · exact hab.1
  have hfind := findOffer_eq hscan
    (fun r hr => hlog r ((q.scan.perm 1 log.rows).mem_iff.1 hr))
    fun r hr => hlog' r ((q.scan.perm 1 log'.rows).mem_iff.1 hr)
  rw [offerDecision, offerDecision, hfind]

/-- **OFFERS STAY PRIVATE**: logs that differ in offers to other devices, of which both
    or neither have a device id, answer a device alike. -/
theorem sameAnswers_of_differ (env : Env) (q : LogQueries env) (wire : WireState) (d : String)
    (log log' : ChangeLog) (h : Differ (HiddenAlike env d) log log') :
    SameAnswers env q d wire log log' := by
  constructor
  · intro token remote sinceVersion limit hauth
    exact dispatchChanges_eq q.asc_positional h hauth sinceVersion limit
  · intro token remote offerId accepted hauth hlog hlog'
    rw [dispatchOfferDecision, dispatchOfferDecision, hauth]
    exact offerDecision_eq h hlog hlog' accepted

/-! ## One offer to another device -/

/-- The sort by version looks at nothing but the version. -/
theorem asc_positional_reference : Env.reference.asc.Positional SamePlace := by
  refine KeyOrder.positional_insertionSort
    (fun a b : ChangeRow => le_total a.version b.version) (fun _ _ _ h h' => le_trans h h')
    fun a b c d hac hbd => ?_
  rw [hac.2, hbd.2]

/-- Queries that visit rows in the order of their ids. -/
def LogQueries.reference : LogQueries Env.reference where
  scan := KeyOrder.insertionSort (fun _ _ => Or.inl trivial) fun _ _ _ _ _ => trivial
  scan_positional := KeyOrder.positional_insertionSort _ _ fun _ _ _ _ _ _ => Iff.rfl
  asc_positional := asc_positional_reference
  extract payload :=
    match Env.reference.json.parse payload with
    | .error _ => .error "malformed JSON"
    | .ok json => .ok (textField json "offer_id")
  extract_of_parse payload json h := by
    rw [h]
    exact ⟨_, rfl⟩

/-- An offer of the given text to device `x`. -/
def offerTo (payload : String) (deviceId : Option String) : ChangeRow where
  entityType := "file_offer"
  entityId := "i"
  operation := "OFFER"
  version := 1
  payload := payload
  changedAt := ""
  deviceId := deviceId
  id := 1

/-- The log of one row. -/
def logOf (r : ChangeRow) (h : minI64 ≤ r.version ∧ r.version ≤ realVersion) : ChangeLog where
  rows := [r]
  seq := r.id
  ascending := List.pairwise_singleton _ _
  ids_le := by
    intro r' hr'
    rw [List.mem_singleton.1 hr']
  bounded := by
    intro r' hr'
    rw [List.mem_singleton.1 hr']
    exact h
  remote := List.pairwise_singleton _ _

/-- A daemon with one paired device. -/
def pairedWire : WireState :=
  (Runs.exec (SyncTokens.step Env.reference SyncTokens.listOrder) SyncTokens.startState
    (SyncTokens.claimAndApprove (SyncTokens.sampleId 5))).wire

def pairedDevice : String := (SyncTokens.sampleId 3).text Env.reference

/-- Offers of one device id to `x`, whatever else they say, look the same to the paired
    device. -/
theorem sameAnswers_offers_to_x :
    (authorize Env.reference pairedWire ((SyncTokens.sampleId 5).text Env.reference)
      "node").toOption = some pairedDevice ∧
    SameAnswers Env.reference LogQueries.reference pairedDevice pairedWire
      (logOf (offerTo "\x7b\"to_device_id\":\"x\"\x7d" (some "s")) (by decide))
      (logOf (offerTo "\x7b\"to_device_id\":\"x\",\"n\":1\x7d" (some "s")) (by decide)) := by
  refine ⟨by decide, sameAnswers_of_differ _ _ _ _ _ _
    (.cons (Or.inr ⟨⟨⟨rfl, rfl⟩, ?_, ?_⟩, rfl⟩) .nil)⟩
  · exact ⟨rfl, _, "x", rfl, by decide, by decide⟩
  · exact ⟨rfl, _, "x", rfl, by decide, by decide⟩

/-- An offer to `x` without a device id is not counted on its page, so the device that
    asks for pages of one learns that the row has none. -/
theorem not_sameAnswers_unstamped :
    ¬ ∀ log log' : ChangeLog, Differ (Hidden Env.reference pairedDevice) log log' →
      SameAnswers Env.reference LogQueries.reference pairedDevice pairedWire log log' := by
  intro h
  have hsame := h (logOf (offerTo "\x7b\"to_device_id\":\"x\"\x7d" (some "s")) (by decide))
    (logOf (offerTo "\x7b\"to_device_id\":\"x\"\x7d" none) (by decide))
    (.cons (Or.inr ⟨⟨rfl, rfl⟩, ⟨rfl, _, "x", rfl, by decide, by decide⟩,
      ⟨rfl, _, "x", rfl, by decide, by decide⟩⟩) .nil)
  have hauth : authorize Env.reference pairedWire ((SyncTokens.sampleId 5).text Env.reference)
      "node" = .ok pairedDevice := rfl
  have hanswer := hsame.1 _ _ 0 (some 1) hauth
  rw [dispatchChanges, dispatchChanges, hauth] at hanswer
  have hmore := congrArg PullResponse.hasMore (Except.ok.inj hanswer)
  exact absurd hmore (by decide)

end SyncPrivacy
