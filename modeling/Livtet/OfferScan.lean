import Livtet.Offers
import Livtet.Paging
import Livtet.Bootstrap
import Mathlib.Order.MinMax

/-! # The offer scan — a pulled page split, and the log read for offers

    `split_offers` takes a page apart: the offers, each with the rows that describe its
    book, and the rows that apply straight away. `bootstrap` mirrors a library and then
    reads the first pages of the peer's log for the offers in it; the cursor it returns
    is at least the version of the dump, however far those pages reach. -/

namespace SyncOfferScan

open JsonText SyncStore SyncEngine SyncOffers SyncPaging SyncBootstrap SortedPages

/-- A book a paired device is offering, waiting on this device's reader. -/
structure SyncOffer where
  offerId : String
  inventoryId : String
  editionId : String
  workId : String
  fileName : String
  hasCover : Bool
  /-- The rows that describe the book, held back until it is accepted. -/
  deferredChanges : List SyncChange

/-- An id of the offer that is not empty. -/
def SyncOffer.names (offer : SyncOffer) (id : String) : Bool :=
  id != "" && [offer.inventoryId, offer.editionId, offer.workId].contains id

/-- A text member of an offer's payload, empty where there is none. -/
def text (payload : Json) (key : String) : String := (textField payload key).getD ""

section Split

variable (env : Env)

/-- The offer of a `file_offer` row, unless its payload does not parse or has no offer
    id. -/
def readOffer (change : SyncChange) : Option SyncOffer :=
  match env.json.parse change.payload with
  | .error _ => none
  | .ok payload =>
      if text payload "offer_id" = "" then none
      else some
        { offerId := text payload "offer_id", inventoryId := text payload "inventory_id"
          editionId := text payload "edition_id", workId := text payload "work_id"
          fileName := text payload "file_name"
          hasCover := match payload.get? "has_cover" with
            | some (.bool b) => b
            | _ => false
          deferredChanges := [] }

def parsedOffers (changes : List SyncChange) : List SyncOffer :=
  (changes.filter fun c => c.entityType == "file_offer").filterMap (readOffer env)

/-- The ids a pull holds rows back for. -/
def splitHeldIds (offers : List SyncOffer) : List String :=
  offers.flatMap fun o => [o.inventoryId, o.editionId, o.workId].filter fun id => id != ""

/-- A pulled page: the offers with the rows describing them, and the rows that can be
    applied straight away. -/
def splitOffers (changes : List SyncChange) : List SyncOffer × List SyncChange :=
  let parsed := parsedOffers env changes
  let heldIds := splitHeldIds parsed
  let (deferred, metadata) := (changes.filter fun c => c.entityType != "file_offer").partition
    fun c => heldIds.contains c.entityId
  (parsed.map fun offer => { offer with
    deferredChanges := deferred.filter fun c =>
      [offer.inventoryId, offer.editionId, offer.workId].any fun id =>
        id != "" && id == c.entityId }, metadata)

end Split

/-! ## What the split keeps -/

theorem contains_splitHeldIds (offers : List SyncOffer) (id : String) :
    (splitHeldIds offers).contains id = offers.any fun o => o.names id := by
  rw [Bool.eq_iff_iff]
  simp only [splitHeldIds, SyncOffer.names, List.contains_iff_mem, List.mem_flatMap,
    List.mem_filter, List.any_eq_true, Bool.and_eq_true, bne_iff_ne, and_comm]

theorem any_eq_names (offer : SyncOffer) (entityId : String) :
    ([offer.inventoryId, offer.editionId, offer.workId].any fun id => id != "" && id == entityId) =
      offer.names entityId := by
  rw [Bool.eq_iff_iff]
  simp only [SyncOffer.names, List.any_eq_true, Bool.and_eq_true, bne_iff_ne, beq_iff_eq,
    List.contains_iff_mem]
  constructor
  · rintro ⟨id, hmem, hne, rfl⟩
    exact ⟨hne, hmem⟩
  · rintro ⟨hne, hmem⟩
    exact ⟨entityId, hmem, hne, rfl⟩

section Pages

variable (env : Env) (changes : List SyncChange)

/-- The rows that apply now are the rows no offer of the page names. -/
theorem splitOffers_metadata : (splitOffers env changes).2 =
    (changes.filter fun c => c.entityType != "file_offer").filter fun c =>
      !(parsedOffers env changes).any fun o => o.names c.entityId := by
  simp only [splitOffers, List.partition_eq_filter_filter, contains_splitHeldIds]
  rfl

/-- An offer waits with the rows it names. -/
theorem splitOffers_offers : (splitOffers env changes).1 =
    (parsedOffers env changes).map fun offer => { offer with
      deferredChanges := (changes.filter fun c => c.entityType != "file_offer").filter fun c =>
        offer.names c.entityId } := by
  simp only [splitOffers, List.partition_eq_filter_filter, contains_splitHeldIds, any_eq_names]
  refine List.map_congr_left fun offer hoffer => ?_
  rw [List.filter_filter]
  congr 1
  refine List.filter_congr fun c _ => ?_
  cases hnames : offer.names c.entityId with
  | false => rfl
  | true =>
      rw [Bool.true_and]
      exact List.any_eq_true.2 ⟨offer, hoffer, hnames⟩

end Pages

/-! ## A page is partitioned -/

section Partition

variable (env : Env)

/-- A `file_offer` row with a readable payload that has an offer id. -/
def IsOffer (row : SyncChange) (payload : Json) : Prop :=
  row.entityType = "file_offer" ∧ env.json.parse row.payload = .ok payload ∧
    text payload "offer_id" ≠ ""

/-- The id is not empty, and some offer of the page names it. -/
def Named (changes : List SyncChange) (id : String) : Prop :=
  id ≠ "" ∧ ∃ row ∈ changes, ∃ payload, IsOffer env row payload ∧
    ∃ key ∈ ["inventory_id", "edition_id", "work_id"], id = text payload key

/-- What an offer row is handed out as, its held rows aside. -/
def Reads (row : SyncChange) (offer : SyncOffer) : Prop :=
  ∃ payload, IsOffer env row payload ∧ offer.offerId = text payload "offer_id" ∧
    offer.inventoryId = text payload "inventory_id" ∧
    offer.editionId = text payload "edition_id" ∧ offer.workId = text payload "work_id" ∧
    offer.fileName = text payload "file_name" ∧
    (offer.hasCover = true ↔ payload.get? "has_cover" = some (.bool true))

open Classical in
/-- Every row of the page that is no offer goes to the offers that name it, or is applied
    now when there are none; and every offer row makes one offer. -/
structure Partitioned (changes : List SyncChange) (offers : List SyncOffer)
    (metadata : List SyncChange) : Prop where
  one_each : List.Forall₂ (Reads env)
    (changes.filter fun row => decide (∃ payload, IsOffer env row payload)) offers
  metadata_eq : metadata = changes.filter fun c =>
    decide (c.entityType ≠ "file_offer" ∧ ¬ Named env changes c.entityId)
  deferred_eq : ∀ offer ∈ offers, offer.deferredChanges = changes.filter fun c =>
    decide (c.entityType ≠ "file_offer" ∧ c.entityId ≠ "" ∧
      c.entityId ∈ [offer.inventoryId, offer.editionId, offer.workId])
  not_both : ∀ c ∈ metadata, ∀ offer ∈ offers, c ∉ offer.deferredChanges
  none_dropped : ∀ c ∈ changes, c.entityType ≠ "file_offer" →
    c ∈ metadata ∨ ∃ offer ∈ offers, c ∈ offer.deferredChanges

end Partition

section Read

variable {env : Env} {changes : List SyncChange}

theorem readOffer_eq_some {row : SyncChange} {offer : SyncOffer}
    (htype : row.entityType = "file_offer") (h : readOffer env row = some offer) :
    Reads env row offer := by
  rw [readOffer] at h
  split at h
  · cases h
  next payload hparse =>
    split at h
    · cases h
    next hid =>
      cases h
      refine ⟨payload, ⟨htype, hparse, hid⟩, rfl, rfl, rfl, rfl, rfl, ?_⟩
      dsimp only
      split
      next b hb => rw [hb, Option.some.injEq, Json.bool.injEq]
      next hb => exact iff_of_false Bool.false_ne_true fun h => hb true h

theorem exists_readOffer {row : SyncChange} {payload : Json} (h : IsOffer env row payload) :
    ∃ offer, readOffer env row = some offer := by
  obtain ⟨_, hparse, hid⟩ := h
  rw [readOffer]
  rw [hparse]
  exact ⟨_, if_neg hid⟩

/-- The offers of a page, row by row. -/
theorem mem_parsedOffers {offer : SyncOffer} : offer ∈ parsedOffers env changes ↔
    ∃ row ∈ changes, row.entityType = "file_offer" ∧ readOffer env row = some offer := by
  simp only [parsedOffers, List.mem_filterMap, List.mem_filter, beq_iff_eq, and_assoc]

theorem names_iff_of_reads {row : SyncChange} {offer : SyncOffer} {payload : Json} {id : String}
    (hread : Reads env row offer) (hoffer : IsOffer env row payload) : offer.names id = true ↔
      id ≠ "" ∧ ∃ key ∈ ["inventory_id", "edition_id", "work_id"], id = text payload key := by
  obtain ⟨payload', ⟨_, hparse', _⟩, _, hinventory, hedition, hwork, _⟩ := hread
  cases Except.ok.inj (hparse'.symm.trans hoffer.2.1)
  simp only [SyncOffer.names, hinventory, hedition, hwork, Bool.and_eq_true, bne_iff_ne,
    List.contains_iff_mem, List.mem_cons, List.not_mem_nil, or_false, exists_eq_or_imp,
    exists_eq_left]

theorem any_names_iff (id : String) :
    ((parsedOffers env changes).any fun o => o.names id) = true ↔ Named env changes id := by
  rw [List.any_eq_true]
  constructor
  · rintro ⟨offer, hoffer, hnames⟩
    obtain ⟨row, hrow, htype, hread⟩ := mem_parsedOffers.1 hoffer
    have hreads := readOffer_eq_some htype hread
    have ⟨payload, hpayload, _⟩ := hreads
    obtain ⟨hne, hkey⟩ := (names_iff_of_reads hreads hpayload).1 hnames
    exact ⟨hne, row, hrow, payload, hpayload, hkey⟩
  · rintro ⟨hne, row, hrow, payload, hpayload, hkey⟩
    obtain ⟨offer, hread⟩ := exists_readOffer hpayload
    have hreads := readOffer_eq_some hpayload.1 hread
    exact ⟨offer, mem_parsedOffers.2 ⟨row, hrow, hpayload.1, hread⟩,
      (names_iff_of_reads hreads hpayload).2 ⟨hne, hkey⟩⟩

open Classical in
/-- Induction on the page: an offer row adds its offer in its place. -/
theorem forall₂_parsedOffers (env : Env) (changes : List SyncChange) :
    List.Forall₂ (Reads env)
      (changes.filter fun row => decide (∃ payload, IsOffer env row payload))
      (parsedOffers env changes) := by
  induction changes with
  | nil => exact .nil
  | cons row rest ih =>
      by_cases h : ∃ payload, IsOffer env row payload
      · obtain ⟨payload, hpayload⟩ := h
        obtain ⟨offer, hread⟩ := exists_readOffer hpayload
        have hcons : parsedOffers env (row :: rest) = offer :: parsedOffers env rest := by
          simp only [parsedOffers, List.filter_cons, hpayload.1, beq_self_eq_true, if_true,
            List.filterMap_cons, hread]
        have hkept : decide (∃ payload, IsOffer env row payload) = true :=
          decide_eq_true ⟨payload, hpayload⟩
        rw [hcons, List.filter_cons, if_pos hkept]
        exact .cons (readOffer_eq_some hpayload.1 hread) ih
      · have hcons : parsedOffers env (row :: rest) = parsedOffers env rest := by
          by_cases htype : row.entityType = "file_offer"
          · have hnone : readOffer env row = none := by
              rw [Option.eq_none_iff_forall_ne_some]
              intro offer hread
              obtain ⟨payload, hpayload, _⟩ := readOffer_eq_some htype hread
              exact h ⟨payload, hpayload⟩
            simp only [parsedOffers, List.filter_cons, htype, beq_self_eq_true, if_true,
              List.filterMap_cons, hnone]
          · simp only [parsedOffers, List.filter_cons, beq_iff_eq, htype, if_false]
        rw [hcons, List.filter_cons_of_neg (by simpa using h)]
        exact ih

end Read

open Classical in
/-- A page is split without loss. -/
theorem splitOffers_partitioned (env : Env) (changes : List SyncChange) :
    Partitioned env changes (splitOffers env changes).1 (splitOffers env changes).2 := by
  -- both halves filter the rows that are not offers
  have hrows : ∀ p : SyncChange → Bool,
      (changes.filter fun c => c.entityType != "file_offer").filter p =
        changes.filter fun c => p c && c.entityType != "file_offer" := fun p => List.filter_filter
  have hmetadata : (splitOffers env changes).2 = changes.filter fun c =>
      decide (c.entityType ≠ "file_offer" ∧ ¬ Named env changes c.entityId) := by
    rw [splitOffers_metadata, hrows]
    refine List.filter_congr fun c _ => ?_
    rw [Bool.eq_iff_iff, decide_eq_true_iff, Bool.and_eq_true, Bool.not_eq_true',
      ← Bool.not_eq_true, any_names_iff, bne_iff_ne, and_comm]
  have hdeferred : ∀ offer ∈ (splitOffers env changes).1, offer.deferredChanges =
      changes.filter fun c => decide (c.entityType ≠ "file_offer" ∧ c.entityId ≠ "" ∧
        c.entityId ∈ [offer.inventoryId, offer.editionId, offer.workId]) := by
    intro offer hoffer
    rw [splitOffers_offers] at hoffer
    obtain ⟨parsed, _, rfl⟩ := List.mem_map.1 hoffer
    rw [hrows]
    refine List.filter_congr fun c _ => ?_
    rw [Bool.eq_iff_iff, decide_eq_true_iff, Bool.and_eq_true, SyncOffer.names, Bool.and_eq_true,
      bne_iff_ne, bne_iff_ne, List.contains_iff_mem, and_comm]
  refine ⟨?_, hmetadata, hdeferred, ?_, ?_⟩
  · rw [splitOffers_offers]
    refine List.forall₂_map_right_iff.2 ?_
    exact (forall₂_parsedOffers env changes).imp fun row offer h => h
  · intro c hc offer hoffer hheld
    rw [splitOffers_metadata, List.mem_filter, Bool.not_eq_true'] at hc
    rw [splitOffers_offers] at hoffer
    obtain ⟨parsed, hparsed, rfl⟩ := List.mem_map.1 hoffer
    have hnames : parsed.names c.entityId = true := (List.mem_filter.1 hheld).2
    exact Bool.false_ne_true (hc.2.symm.trans (List.any_eq_true.2 ⟨parsed, hparsed, hnames⟩))
  · intro c hc htype
    have hrow : c ∈ changes.filter fun c => c.entityType != "file_offer" :=
      List.mem_filter.2 ⟨hc, bne_iff_ne.2 htype⟩
    -- a row goes with the offer that names it, or stays if none does
    cases hnamed : (parsedOffers env changes).any fun o => o.names c.entityId with
    | false =>
        rw [splitOffers_metadata]
        exact Or.inl (List.mem_filter.2 ⟨hrow, by rw [hnamed]; rfl⟩)
    | true =>
        obtain ⟨parsed, hparsed, hnames⟩ := List.any_eq_true.1 hnamed
        rw [splitOffers_offers]
        exact Or.inr ⟨_, List.mem_map_of_mem hparsed, List.mem_filter.2 ⟨hrow, hnames⟩⟩

/-! ## The scan after a bootstrap -/

structure SyncPullReport where
  applied : Nat
  conflicts : Nat
  cursor : Int
  hasMore : Bool
  offers : List SyncOffer

/-- The offers of a page whose id was not seen yet are added, each in its turn. -/
def addOffers (offers : List SyncOffer) : List SyncOffer → List SyncOffer
  | [] => offers
  | offer :: rest =>
      if offers.any fun seen => seen.offerId == offer.offerId then addOffers offers rest
      else addOffers (offers ++ [offer]) rest

section Scan

variable (env : Env) (log : ChangeLog) (deviceId : String) (limit : Int)

/-- The peer's answer to a `Changes` request with a limit. -/
def changesUpTo (sinceVersion : Int) : PullResponse :=
  let response := pullChanges env log sinceVersion limit
  { response with changes := response.changes.filter fun c => changeIsFor env c deviceId }

/-- The pages left to read, where the next one starts, the cursor and the offers so far. -/
def scanOffers : Nat → Int → Int → List SyncOffer → Int × List SyncOffer
  | 0, _, cursor, offers => (cursor, offers)
  | pages + 1, probe, cursor, offers =>
      let page := changesUpTo env log deviceId limit probe
      let offers := addOffers offers (splitOffers env page.changes).1
      let cursor := max cursor page.latestVersion
      if page.hasMore then scanOffers pages page.latestVersion cursor offers else (cursor, offers)

end Scan

/-- `bootstrap` with the offers it reports, against a peer that makes no change
    meanwhile. -/
def bootstrap (env : Env) (now : String) (limit : Int) (deviceId : String) (peer device : Db) :
    Except MirrorError SyncPullReport × Db :=
  let dump := pullFull env peer
  match applyDump env now dump.rows 0 device with
  | (.error e, device) => (.error e, device)
  | (.ok applied, device) =>
      let (cursor, offers) := scanOffers env peer.log deviceId limit maxBootstrapPages 0
        dump.version []
      (.ok { applied, conflicts := 0, cursor, hasMore := false, offers }, device)

/-! ## What the scan finds -/

section Found

variable {env : Env} {log : ChangeLog} {deviceId : String} {limit : Int}

theorem mem_addOffers_ids {id : String} : ∀ {found offers : List SyncOffer},
    id ∈ (addOffers offers found).map SyncOffer.offerId ↔
      id ∈ offers.map SyncOffer.offerId ∨ id ∈ found.map SyncOffer.offerId := by
  intro found
  induction found with
  | nil =>
      intro offers
      rw [addOffers, List.map_nil]
      exact (or_iff_left (List.not_mem_nil)).symm
  | cons offer rest ih =>
      intro offers
      rw [addOffers, List.map_cons, List.mem_cons]
      split
      next hseen =>
        obtain ⟨seen, hmem, hid⟩ := List.any_eq_true.1 hseen
        rw [ih]
        constructor
        · exact fun h => h.imp_right Or.inr
        · rintro (h | rfl | h)
          · exact Or.inl h
          · exact Or.inl (List.mem_map.2 ⟨seen, hmem, beq_iff_eq.1 hid⟩)
          · exact Or.inr h
      next => rw [ih, List.map_append, List.mem_append, List.map_singleton, List.mem_singleton,
        or_assoc]

/-- No offer id is reported twice. -/
theorem nodup_addOffers : ∀ {found offers : List SyncOffer},
    (offers.map SyncOffer.offerId).Nodup → ((addOffers offers found).map SyncOffer.offerId).Nodup := by
  intro found
  induction found with
  | nil => exact fun h => h
  | cons offer rest ih =>
      intro offers h
      rw [addOffers]
      split
      · exact ih h
      next hnew =>
        refine ih ?_
        rw [List.map_append, List.map_singleton, List.nodup_append]
        refine ⟨h, List.nodup_singleton _, ?_⟩
        intro id hid id' hid' heq
        rw [List.mem_singleton.1 hid'] at heq
        obtain ⟨seen, hmem, hseen⟩ := List.mem_map.1 hid
        exact hnew (List.any_eq_true.2 ⟨seen, hmem, beq_iff_eq.2 (hseen.trans heq)⟩)

variable (env log limit) in
/-- The rows of the first pages of the log from a version on, as the peer cuts them. -/
def firstPages : Nat → Int → List SyncChange
  | 0, _ => []
  | pages + 1, probe =>
      let page := pullChanges env log probe limit
      page.changes ++ if page.hasMore then firstPages pages page.latestVersion else []

variable (env deviceId) in
/-- The peer shows the row to the device, and it is an offer of this id. -/
def Shows (c : SyncChange) (id : String) : Prop :=
  changeIsFor env c deviceId = true ∧ ∃ payload, IsOffer env c payload ∧ text payload "offer_id" = id

theorem mem_pageIds {changes : List SyncChange} {id : String} :
    id ∈ (splitOffers env (changes.filter fun c => changeIsFor env c deviceId)).1.map
        SyncOffer.offerId ↔ ∃ c ∈ changes, Shows env deviceId c id := by
  rw [splitOffers_offers, List.map_map, List.mem_map]
  constructor
  · rintro ⟨offer, hoffer, rfl⟩
    obtain ⟨row, hrow, htype, hread⟩ := mem_parsedOffers.1 hoffer
    obtain ⟨payload, hpayload, hid, _⟩ := readOffer_eq_some htype hread
    obtain ⟨hmem, hfor⟩ := List.mem_filter.1 hrow
    exact ⟨row, hmem, hfor, payload, hpayload, hid.symm⟩
  · rintro ⟨c, hc, hfor, payload, hpayload, rfl⟩
    obtain ⟨offer, hread⟩ := exists_readOffer hpayload
    obtain ⟨payload', hpayload', hid, _⟩ := readOffer_eq_some hpayload.1 hread
    cases Except.ok.inj (hpayload'.2.1.symm.trans hpayload.2.1)
    exact ⟨offer, mem_parsedOffers.2 ⟨c, List.mem_filter.2 ⟨hc, hfor⟩, hpayload.1, hread⟩, hid⟩

variable (env log deviceId limit) in
/-- The offers of one page of the log. -/
def pageFound (probe : Int) : List SyncOffer :=
  (splitOffers env ((pullChanges env log probe limit).changes.filter fun c =>
    changeIsFor env c deviceId)).1

section Turns

variable {pages : Nat} {probe cursor : Int} {offers : List SyncOffer}

theorem scanOffers_more (h : (pullChanges env log probe limit).hasMore = true) :
    scanOffers env log deviceId limit (pages + 1) probe cursor offers =
      scanOffers env log deviceId limit pages (pullChanges env log probe limit).latestVersion
        (max cursor (pullChanges env log probe limit).latestVersion)
        (addOffers offers (pageFound env log deviceId limit probe)) :=
  if_pos h

theorem scanOffers_last (h : (pullChanges env log probe limit).hasMore = false) :
    scanOffers env log deviceId limit (pages + 1) probe cursor offers =
      (max cursor (pullChanges env log probe limit).latestVersion,
        addOffers offers (pageFound env log deviceId limit probe)) :=
  if_neg (Bool.not_eq_true _ ▸ h)

theorem firstPages_more (h : (pullChanges env log probe limit).hasMore = true) :
    firstPages env log limit (pages + 1) probe = (pullChanges env log probe limit).changes ++
      firstPages env log limit pages (pullChanges env log probe limit).latestVersion := by
  rw [firstPages]
  rw [if_pos h]

theorem firstPages_last (h : (pullChanges env log probe limit).hasMore = false) :
    firstPages env log limit (pages + 1) probe = (pullChanges env log probe limit).changes := by
  rw [firstPages]
  rw [if_neg (Bool.not_eq_true _ ▸ h), List.append_nil]

end Turns

/-- The ids the scan reports, by induction on the pages it may still read. -/
theorem mem_scanOffers_ids {id : String} : ∀ (pages : Nat) (probe cursor : Int)
    (offers : List SyncOffer),
    id ∈ (scanOffers env log deviceId limit pages probe cursor offers).2.map SyncOffer.offerId ↔
      id ∈ offers.map SyncOffer.offerId ∨
        ∃ c ∈ firstPages env log limit pages probe, Shows env deviceId c id := by
  intro pages
  induction pages with
  | zero =>
      intro probe cursor offers
      exact (or_iff_left (fun h => by cases h.choose_spec.1)).symm
  | succ pages ih =>
      intro probe cursor offers
      cases hmore : (pullChanges env log probe limit).hasMore with
      | true =>
          rw [scanOffers_more hmore, firstPages_more hmore, ih, mem_addOffers_ids, pageFound,
            mem_pageIds, or_assoc]
          simp only [List.mem_append, or_and_right, exists_or]
      | false =>
          rw [scanOffers_last hmore, firstPages_last hmore, mem_addOffers_ids, pageFound,
            mem_pageIds]

theorem nodup_scanOffers : ∀ (pages : Nat) (probe cursor : Int) (offers : List SyncOffer),
    (offers.map SyncOffer.offerId).Nodup →
      ((scanOffers env log deviceId limit pages probe cursor offers).2.map
        SyncOffer.offerId).Nodup := by
  intro pages
  induction pages with
  | zero => exact fun _ _ _ h => h
  | succ pages ih =>
      intro probe cursor offers h
      cases hmore : (pullChanges env log probe limit).hasMore with
      | true =>
          rw [scanOffers_more hmore]
          exact ih _ _ _ (nodup_addOffers h)
      | false =>
          rw [scanOffers_last hmore]
          exact nodup_addOffers h

/-- What the cursor is past: where it was, where the scan started, and every row read. -/
theorem le_scanOffers_cursor {v : Int} : ∀ (pages : Nat) (probe cursor : Int)
    (offers : List SyncOffer),
    v ≤ (scanOffers env log deviceId limit (pages + 1) probe cursor offers).1 ↔
      v ≤ cursor ∨ v ≤ probe ∨ ∃ c ∈ firstPages env log limit (pages + 1) probe, v ≤ c.version := by
  intro pages
  induction pages with
  | zero =>
      intro probe cursor offers
      have hpages : firstPages env log limit 1 probe = (pullChanges env log probe limit).changes := by
        cases hmore : (pullChanges env log probe limit).hasMore with
        | true => rw [firstPages_more hmore, firstPages, List.append_nil]
        | false => exact firstPages_last hmore
      have hcursor : (scanOffers env log deviceId limit 1 probe cursor offers).1 =
          max cursor (pullChanges env log probe limit).latestVersion := by
        cases hmore : (pullChanges env log probe limit).hasMore with
        | true => rw [scanOffers_more hmore, scanOffers]
        | false => rw [scanOffers_last hmore]
      rw [hpages, hcursor, le_max_iff, le_latestVersion_iff]
  | succ pages ih =>
      intro probe cursor offers
      cases hmore : (pullChanges env log probe limit).hasMore with
      | true =>
          rw [scanOffers_more hmore, firstPages_more hmore, ih, le_max_iff, or_assoc, or_self_left,
            le_latestVersion_iff, or_assoc]
          simp only [List.mem_append, or_and_right, exists_or]
      | false => rw [scanOffers_last hmore, firstPages_last hmore, le_max_iff, le_latestVersion_iff]

variable (deviceId) in
/-- The offers apart, the scan is the one the cursor comes from. -/
theorem scanOffers_fst : ∀ (pages : Nat) (probe cursor : Int) (offers : List SyncOffer),
    (scanOffers env log deviceId limit pages probe cursor offers).1 =
      scanPages env log limit pages probe cursor := by
  intro pages
  induction pages with
  | zero => exact fun _ _ _ => rfl
  | succ pages ih =>
      intro probe cursor offers
      cases hmore : (pullChanges env log probe limit).hasMore with
      | true =>
          rw [scanOffers_more hmore, ih, scanPages, scanPage, hmore]
          rfl
      | false =>
          rw [scanOffers_last hmore, scanPages, scanPage, hmore]
          rfl

end Found

/-- What the report says of the library is what `SyncBootstrap.bootstrap` says. -/
theorem bootstrap_report (env : Env) (now : String) (limit : Int) (deviceId : String)
    (peer device : Db) :
    ((bootstrap env now limit deviceId peer device).1.map fun report =>
        ({ applied := report.applied, cursor := report.cursor } : PullReport),
      (bootstrap env now limit deviceId peer device).2) =
      SyncBootstrap.bootstrap env now limit peer device := by
  unfold bootstrap SyncBootstrap.bootstrap
  obtain ⟨result, device', hdump⟩ : ∃ result device',
      applyDump env now (pullFull env peer).rows 0 device = (result, device') := ⟨_, _, rfl⟩
  simp only [hdump]
  cases result with
  | error e => rfl
  | ok applied =>
      rw [← scanOffers_fst deviceId _ _ _ []]
      rfl

/-! ## Every waiting offer -/

section Surfaced

variable (env : Env) (log : ChangeLog) (deviceId : String) (limit : Int)

/-- A log row that offers a book to the device. -/
def Addressed (r : ChangeRow) (id : String) : Prop :=
  r.entityType = "file_offer" ∧ ∃ payload, env.json.parse r.payload = .ok payload ∧
    textField payload "to_device_id" = some deviceId ∧ text payload "offer_id" = id ∧ id ≠ ""

/-- The offers the cursor is past are in the report, each id once. -/
def Surfaced (report : SyncPullReport) : Prop :=
  ∀ r ∈ log.rows, ∀ id, Addressed env deviceId r id → r.version ≤ report.cursor →
    (report.offers.map SyncOffer.offerId).count id = 1

/-- The version is not above the latest one the dump reports, nor above all rows of the
    first twenty pages. -/
def Passed (v : Int) : Prop :=
  v ≤ getLatestVersion log ∨ v ≤ 0 ∨
    ∃ c ∈ firstPages env log limit maxBootstrapPages 0, v ≤ c.version

/-- Every offer that is passed stands on the first twenty pages. -/
def WithinPages : Prop :=
  ∀ r ∈ log.rows, ∀ id, Addressed env deviceId r id → Passed env log limit r.version →
    ∃ c ∈ firstPages env log limit maxBootstrapPages 0, Shows env deviceId c id

end Surfaced

/-- A bootstrap surfaces every offer its cursor passes exactly when these offers stand on
    the first twenty pages of the log. -/
theorem surfaced_iff (env : Env) (now : String) (limit : Int) (deviceId : String)
    (peer device device' : Db) (report : SyncPullReport)
    (h : bootstrap env now limit deviceId peer device = (.ok report, device')) :
    Surfaced env peer.log deviceId report ↔ WithinPages env peer.log deviceId limit := by
  have hreport : report.cursor = (scanOffers env peer.log deviceId limit maxBootstrapPages 0
        (getLatestVersion peer.log) []).1 ∧
      report.offers = (scanOffers env peer.log deviceId limit maxBootstrapPages 0
        (getLatestVersion peer.log) []).2 := by
    rw [bootstrap] at h
    dsimp only at h
    split at h
    · cases h
    · cases h
      exact ⟨rfl, rfl⟩
  have hnodup : (report.offers.map SyncOffer.offerId).Nodup := by
    rw [hreport.2]
    exact nodup_scanOffers _ _ _ [] List.nodup_nil
  have honce : ∀ id, (report.offers.map SyncOffer.offerId).count id = 1 ↔
      ∃ c ∈ firstPages env peer.log limit maxBootstrapPages 0, Shows env deviceId c id := by
    intro id
    have hmem : id ∈ (scanOffers env peer.log deviceId limit maxBootstrapPages 0
        (getLatestVersion peer.log) []).2.map SyncOffer.offerId ↔ _ := mem_scanOffers_ids _ _ _ _
    rw [List.map_nil, or_iff_right List.not_mem_nil, ← hreport.2] at hmem
    rw [← hmem]
    constructor
    · intro hcount
      exact List.count_pos_iff.1 (by omega)
    · exact List.count_eq_one_of_mem hnodup
  have hpassed : ∀ v, v ≤ report.cursor ↔ Passed env peer.log limit v := by
    intro v
    rw [hreport.1]
    exact le_scanOffers_cursor 19 0 _ []
  simp only [Surfaced, WithinPages, honce, hpassed]

/-! ## Logs of at most twenty pages -/

/-- Every row of a log of so many pages is on them, when no page boundary falls inside a
    group of rows of one version. -/
theorem mem_firstPages {env : Env} {log : ChangeLog} {n : Nat} (hn : 0 < n) :
    ∀ (pages : Nat) (since : Int), AllDecode log since →
      NoStraddle n (versionsAbove log since) → (rowsAbove log since).length ≤ pages * n →
      ∀ r ∈ rowsAbove log since, ∀ c, toSyncChange r = some c →
        c ∈ firstPages env log n pages since := by
  intro pages
  induction pages with
  | zero =>
      intro since _ _ hlen r hr
      rw [Nat.zero_mul, Nat.le_zero, List.length_eq_zero_iff] at hlen
      rw [hlen] at hr
      cases hr
  | succ pages ih =>
      intro since hdec hstraddle hlen r hr c hc
      -- the row is on this page or behind it, and no page cuts a version in two
      have hvisited := (visited_perm env log n since).mem_iff.2 hr
      have hpage : ∀ rows : List ChangeRow, (pullChanges env log since n).changes.map some =
          rows.map toSyncChange → r ∈ rows → c ∈ (pullChanges env log since n).changes := by
        intro rows hmap hrow
        have hsome : some c ∈ (pullChanges env log since n).changes.map some := by
          rw [hmap, ← hc]
          exact List.mem_map_of_mem hrow
        obtain ⟨c', hc', h⟩ := List.mem_map.1 hsome
        exact Option.some.inj h ▸ hc'
      rcases page_cases env hn hdec with ⟨_, hmore, hmap⟩ | ⟨a, ha, hmore, hlatest, hmap⟩
      · rw [firstPages_last hmore]
        exact hpage _ hmap hvisited
      · obtain ⟨hcut, hrest⟩ := (noStraddle_iff hn _).1 hstraddle
        have hsince := since_lt_of_mem_visited (List.mem_of_getElem? ha)
        have hnext := visited_next hn ha hcut
        rw [firstPages_more hmore, hlatest]
        rw [← List.take_append_drop n (visited env log n since)] at hvisited
        rcases List.mem_append.1 hvisited with hrow | hrow
        · exact List.mem_append_left _ (hpage _ hmap hrow)
        · rw [← versionsAbove_next hn ha hcut] at hrest
          refine List.mem_append_right _ (ih a.version (allDecode_of_le (le_of_lt hsince) hdec)
            hrest ?_ r (hnext.mem_iff.2 hrow) c hc)
          rw [hnext.length_eq, List.length_drop, (visited_perm env log n since).length_eq]
          rw [Nat.add_mul] at hlen
          omega

/-- So a log of at most twenty pages surfaces all its offers, if it was numbered from one
    on and all its rows decode. -/
theorem withinPages_of_short {env : Env} {log : ChangeLog} {deviceId : String} {n : Nat}
    (hn : 0 < n) (hdec : AllDecode log 0) (hstraddle : NoStraddle n (versionsAbove log 0))
    (hlen : (rowsAbove log 0).length ≤ maxBootstrapPages * n)
    (hpos : ∀ r ∈ log.rows, 0 < r.version) : WithinPages env log deviceId n := by
  rintro r hr id ⟨htype, payload, hparse, hdevice, hid, hne⟩ _
  have habove : r ∈ rowsAbove log 0 := List.mem_filter.2 ⟨hr, decide_eq_true (hpos r hr)⟩
  obtain ⟨c, hc⟩ := Option.isSome_iff_exists.1 (hdec r habove)
  refine ⟨c, mem_firstPages hn _ 0 hdec hstraddle hlen r habove c hc, ?_⟩
  have hsame : c.entityType = r.entityType ∧ c.payload = r.payload := by
    rw [toSyncChange] at hc
    split at hc
    · cases hc
    · split at hc
      · cases hc
        exact ⟨rfl, rfl⟩
      · cases hc
  rw [← hsame.2] at hparse
  refine ⟨?_, payload, ⟨hsame.1.trans htype, hparse, hid ▸ hne⟩, hid⟩
  rw [changeIsFor, if_neg (not_not.2 (hsame.1.trans htype)), hparse]
  simp only [hdevice, Option.all_some, beq_self_eq_true]

/-! ## A log of twenty pages and an offer behind them -/

/-- A log of twenty deletes. -/
def twentyDeleted : ChangeLog :=
  (List.range 20).foldl (fun log _ => log.logLocal "" "work" "a" "DELETE" "") ChangeLog.empty

/-- The offer of one book to the device `x`. -/
def bookForX : String :=
  "\x7b\"offer_id\":\"o\",\"to_device_id\":\"x\"\x7d"

def offerRowAt (version : Int) (id : Nat) : ChangeRow :=
  { entityType := "file_offer", entityId := "i", operation := "OFFER", version
    payload := bookForX, changedAt := "", deviceId := some "desk", id }

/-- A peer that made the offer after what its log holds. -/
def offeredAfter (log : ChangeLog) : Db :=
  match logOffer "" "desk" "i" bookForX log with
  | .ok log => { Db.empty true with log }
  | .error _ => Db.empty true

/-- What a bootstrap of the device `x` reports, with pages of one row. -/
def reportOf (peer : Db) : SyncPullReport :=
  match (bootstrap Env.reference "" 1 "x" peer (Db.empty true)).1 with
  | .ok report => report
  | .error _ => { applied := 0, conflicts := 0, cursor := 0, hasMore := false, offers := [] }

theorem addressed_bookForX {version : Int} {rowId : Nat} {id : String} :
    Addressed Env.reference "x" (offerRowAt version rowId) id ↔ id = "o" := by
  have hparse : Env.reference.json.parse bookForX =
      .ok (.obj [("offer_id", .str "o"), ("to_device_id", .str "x")]) := rfl
  constructor
  · rintro ⟨_, payload, hpayload, _, rfl, _⟩
    cases Except.ok.inj (hparse.symm.trans hpayload)
    decide
  · rintro rfl
    exact ⟨rfl, _, hparse, by decide, by decide, by decide⟩

theorem surfaced_first_offer :
    Surfaced Env.reference (offeredAfter ChangeLog.empty).log "x"
      (reportOf (offeredAfter ChangeLog.empty)) := by
  refine (surfaced_iff Env.reference "" 1 "x" (offeredAfter ChangeLog.empty) (Db.empty true)
    (Db.empty true) _ rfl).2 ?_
  intro r hr id haddressed _
  cases List.mem_singleton.1 (show r ∈ [offerRowAt 1 1] from hr)
  rw [addressed_bookForX.1 haddressed]
  exact ⟨_, List.mem_cons_self, rfl, _, ⟨rfl, rfl, by decide⟩, by decide⟩

/-- The offer behind twenty pages is passed by the cursor and is not in the report. -/
theorem not_surfaced_late_offer :
    (∃ device', bootstrap Env.reference "" 1 "x" (offeredAfter twentyDeleted) (Db.empty true) =
      (.ok (reportOf (offeredAfter twentyDeleted)), device')) ∧
    ¬ Surfaced Env.reference (offeredAfter twentyDeleted).log "x"
      (reportOf (offeredAfter twentyDeleted)) := by
  refine ⟨⟨Db.empty true, rfl⟩, fun h => ?_⟩
  have hmem : offerRowAt 21 21 ∈ (offeredAfter twentyDeleted).log.rows := by decide
  have hcount := h _ hmem "o" (addressed_bookForX.2 rfl) (by decide)
  exact absurd hcount (by decide)

end SyncOfferScan
