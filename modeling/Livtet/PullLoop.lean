import Livtet.Daemon
import Livtet.Paging
import Livtet.Lib.Runs

/-! # The pull loop — one uninterrupted pass of `pull_device_once`

    The loop asks a peer for a page above its cursor, applies the library changes of the
    page, records its offers with the rows that describe them, and moves the cursor.
    Against a log that does not change it ends, since a page that goes on leaves a
    hundred rows behind. What a page brings is applied or waits with an offer, unless
    the offers that name it were decided before. -/

namespace SyncPullLoop

open JsonText SyncStore SyncEngine SyncOffers SyncDaemon SyncPaging SortedPages Maps Outcomes

inductive PullError
  | apply (error : SyncError)
  | offer (message : String)

/-- What one pass reads and writes; `stored` is the `sync.cursor` setting of the peer. -/
structure PullState where
  cursor : Int
  stored : Option Int
  db : Db
  offers : InboundOffers
  applied : Nat := 0
  offered : Nat := 0
  conflicts : Nat := 0

section Page

variable (env : Env) (now : String)

/-- `record_inbound_offer`: whether the offer is new, and the offers after it. -/
def recordInboundOffer (offer : SyncChange × Json) (held : List SyncChange)
    (offers : InboundOffers) : Except String (Bool × InboundOffers) :=
  match offerRow env now offer.1 offer.2 held with
  | .error e => .error e
  | .ok (offerId, row) =>
      let existing := offers.lookup offerId
      if existing.any fun old => old.status != .pending then .ok (false, offers)
      else .ok (existing.isNone, upsertOffer offerId row offers)

/-- The rows that wait with an offer. -/
def heldFor (deferred : List SyncChange) (offer : SyncChange × Json) : List SyncChange :=
  deferred.filter fun c => (offerRowIds offer.2).contains c.entityId

/-- The offers of a page, one after the other. -/
def recordOffers (deferred : List SyncChange) : List (SyncChange × Json) → InboundOffers →
    Except String (Nat × InboundOffers)
  | [], offers => .ok (0, offers)
  | offer :: rest, offers => do
      let (fresh, offers) ← recordInboundOffer env now offer (heldFor deferred offer) offers
      let (offered, offers) ← recordOffers deferred rest offers
      pure (offered + fresh.toNat, offers)

/-- The library changes of a page. -/
def applyMetadata (metadata : List SyncChange) (db : Db) : Except PullError (ApplyOutcome × Db) :=
  if metadata.isEmpty then .ok ({}, db)
  else (applyChanges env now metadata {} db).mapError .apply

/-- A page under the write gate: the rows passed to `apply_changes`, and the state when
    its cursor is written. -/
def pullPage (deviceId : String) (page : PullResponse) (s : PullState) :
    Except PullError (List SyncChange × PullState) := do
  let metadata := metadataRows env deviceId page.changes
  let (outcome, db) ← applyMetadata env now metadata s.db
  let (offered, offers) ← (recordOffers env now (deferredRows env deviceId page.changes)
    (pageOffers env deviceId page.changes) s.offers).mapError .offer
  pure (metadata, { s with
    db, offers, applied := s.applied + outcome.applied, offered := s.offered + offered
    conflicts := s.conflicts + outcome.conflicts.length
    cursor := page.latestVersion, stored := some page.latestVersion })

/-- One turn of the loop, and whether there is another. -/
def turn (log : ChangeLog) (deviceId : String) (s : PullState) :
    Except PullError (PullState × Bool) :=
  let page := changesFor env log s.cursor deviceId
  if page.changes.isEmpty then
    if page.hasMore then
      .ok ({ s with cursor := page.latestVersion, stored := some page.latestVersion }, true)
    else .ok (s, false)
  else (pullPage env now deviceId page s).map fun p => (p.2, page.hasMore)

/-- The loop, stopped after so many pages; `none` where it was still going. -/
def pullLoop (log : ChangeLog) (deviceId : String) : Nat → PullState →
    Option (Except PullError PullState)
  | 0, _ => none
  | pages + 1, s =>
      match turn env now log deviceId s with
      | .error e => some (.error e)
      | .ok (s, false) => some (.ok s)
      | .ok (s, true) => pullLoop log deviceId pages s

end Page

/-! ## The loop ends -/

section Ends

variable {env : Env} {log : ChangeLog} {since limit : Int}

/-- A full page leaves as many rows behind as it has. -/
theorem length_rowsAbove_add (hlimit : 0 < limit)
    (h : (pullChanges env log since limit).hasMore = true) :
    (rowsAbove log (pullChanges env log since limit).latestVersion).length + limit.toNat ≤
      (rowsAbove log since).length := by
  obtain ⟨n, rfl⟩ : ∃ n : Nat, limit = n := ⟨limit.toNat, by omega⟩
  rw [Int.toNat_natCast]
  have hrows : pageRows env log since n = (visited env log n since).take n := limited_of_pos _
  have hchanges : (pullChanges env log since n).changes =
      ((visited env log n since).take n).filterMap toSyncChange := by
    rw [← hrows]
    rfl
  have hfull : (((visited env log n since).take n).filterMap toSyncChange).length = n := by
    rw [← hchanges]
    exact Int.ofNat.inj (of_decide_eq_true h)
  have htake : ((visited env log n since).take n).length = n := by
    have := List.length_filterMap_le toSyncChange ((visited env log n since).take n)
    have := List.length_take_le n (visited env log n since)
    omega
  -- every row of the page decodes, so none is above the page's last version
  have hbelow : ∀ r ∈ (visited env log n since).take n,
      r.version ≤ (pullChanges env log since n).latestVersion := by
    intro r hr
    have hsome := (List.filterMap_length_eq_length.1 (hfull.trans htake.symm)) r hr
    obtain ⟨c, hc⟩ := Option.isSome_iff_exists.1 hsome
    refine le_latestVersion_iff.2 (Or.inr ⟨c, ?_, (version_of_toSyncChange hc).ge⟩)
    rw [hchanges]
    exact List.mem_filterMap.2 ⟨r, hr, hc⟩
  have hnone : ((visited env log n since).take n).filter (fun r =>
      decide ((pullChanges env log since n).latestVersion < r.version)) = [] := by
    rw [List.filter_eq_nil_iff]
    intro r hr
    have := hbelow r hr
    simpa using this
  rw [rowsAbove_of_le (le_latestVersion_iff.2 (Or.inl (le_refl since))),
    ← ((visited_perm env log n since).filter _).length_eq,
    ← (visited_perm env log n since).length_eq]
  conv_lhs => rw [← List.take_append_drop n (visited env log n since)]
  rw [List.filter_append, hnone, List.nil_append]
  have hdrop := List.length_filter_le (fun r : ChangeRow =>
    decide ((pullChanges env log since n).latestVersion < r.version))
    ((visited env log n since).drop n)
  have hlen : ((visited env log n since).drop n).length =
      (visited env log n since).length - n := List.length_drop
  rw [List.length_take] at htake
  omega

/-- So it strictly advances. -/
theorem lt_latestVersion (hlimit : 0 < limit)
    (h : (pullChanges env log since limit).hasMore = true) :
    since < (pullChanges env log since limit).latestVersion := by
  have hle : since ≤ (pullChanges env log since limit).latestVersion :=
    le_latestVersion_iff.2 (Or.inl (le_refl since))
  have hlen := length_rowsAbove_add hlimit h
  rcases lt_or_eq_of_le hle with hlt | heq
  · exact hlt
  · rw [← heq] at hlen
    omega

end Ends

section Loop

variable {env : Env} {now deviceId : String} {log : ChangeLog} {s s' : PullState}

/-- What a page that goes through did. -/
theorem pullPage_ok {page : PullResponse} {passed : List SyncChange}
    (h : pullPage env now deviceId page s = .ok (passed, s')) :
    passed = metadataRows env deviceId page.changes ∧ s'.cursor = page.latestVersion ∧
      s'.stored = some page.latestVersion ∧
      ∃ offered, recordOffers env now (deferredRows env deviceId page.changes)
        (pageOffers env deviceId page.changes) s.offers = .ok (offered, s'.offers) := by
  obtain ⟨⟨outcome, db⟩, _, h⟩ := bind_eq_ok.1 h
  obtain ⟨⟨offered, offers⟩, hoffers, h⟩ := bind_eq_ok.1 h
  cases Except.ok.inj h
  exact ⟨rfl, rfl, rfl, offered, mapError_eq_ok.1 hoffers⟩

/-- The page a device is shown is the peer's page without what is not for it. -/
theorem changes_changesFor (log : ChangeLog) (since : Int) :
    (changesFor env log since deviceId).changes.isEmpty = true ↔
      ∀ c ∈ (pullChanges env log since 100).changes, changeIsFor env c deviceId = false := by
  show ((pullChanges env log since 100).changes.filter _).isEmpty = true ↔ _
  rw [List.isEmpty_iff, List.filter_eq_nil_iff]
  simp only [Bool.not_eq_true]

/-- A turn that goes through ends the loop at a page that is not full. The cursor is at
    the end of the page, unless the device was shown nothing of the last one. -/
theorem turn_ok {more : Bool} (h : turn env now log deviceId s = .ok (s', more)) :
    more = (pullChanges env log s.cursor 100).hasMore ∧
      ((s' = s ∧ more = false ∧ ∀ c ∈ (pullChanges env log s.cursor 100).changes,
          changeIsFor env c deviceId = false) ∨
        (s'.cursor = (pullChanges env log s.cursor 100).latestVersion ∧
          s'.stored = some s'.cursor)) := by
  unfold turn at h
  dsimp only at h
  split at h
  next hempty =>
    split at h
    next hmore =>
      cases h
      exact ⟨hmore.symm, Or.inr ⟨rfl, rfl⟩⟩
    next hmore =>
      cases h
      exact ⟨(Bool.not_eq_true _ ▸ hmore : _ = false).symm,
        Or.inl ⟨rfl, rfl, (changes_changesFor log _).1 hempty⟩⟩
  next =>
    obtain ⟨⟨passed, next⟩, hpage, heq⟩ := map_eq_ok.1 h
    cases heq
    obtain ⟨_, hcursor, hstored, _⟩ := pullPage_ok hpage
    exact ⟨rfl, Or.inr ⟨hcursor, by rw [hstored, hcursor]⟩⟩

/-- The loop is over after a page for every hundred rows above the cursor, and one more.
    Induction on the number of pages; a page that goes on leaves a hundred rows behind. -/
theorem pullLoop_isSome : ∀ (pages : Nat) (s : PullState),
    (rowsAbove log s.cursor).length < 100 * pages →
      ∃ result, pullLoop env now log deviceId pages s = some result := by
  intro pages
  induction pages with
  | zero =>
      intro s h
      omega
  | succ pages ih =>
      intro s h
      rw [pullLoop]
      cases hturn : turn env now log deviceId s with
      | error e => exact ⟨_, rfl⟩
      | ok next =>
          obtain ⟨s', more⟩ := next
          obtain ⟨hmore, hcursor⟩ := turn_ok hturn
          cases more with
          | false => exact ⟨_, rfl⟩
          | true =>
              have hlen := length_rowsAbove_add (by decide) hmore.symm
              rcases hcursor with ⟨_, hno, _⟩ | ⟨hcursor, _⟩
              · cases hno
              · refine ih s' ?_
                rw [hcursor]
                have : (100 : Int).toNat = 100 := rfl
                omega

/-- A page that is not full holds all there is, when all of it decodes. -/
theorem mem_last_page {since : Int} {r : ChangeRow} {c : SyncChange} (hdec : AllDecode log since)
    (hmore : (pullChanges env log since 100).hasMore = false) (hr : r ∈ rowsAbove log since)
    (hc : toSyncChange r = some c) : c ∈ (pullChanges env log since 100).changes := by
  rcases page_cases (n := 100) env (by decide) hdec with ⟨_, _, hmap⟩ | ⟨a, _, hmore', _, _⟩
  · have hsome : some c ∈ (pullChanges env log since 100).changes.map some := by
      rw [show (100 : Int) = ((100 : Nat) : Int) from rfl, hmap, ← hc]
      exact List.mem_map_of_mem ((visited_perm env log 100 since).mem_iff.2 hr)
    obtain ⟨c', hc', heq⟩ := List.mem_map.1 hsome
    exact Option.some.inj heq ▸ hc'
  · cases hmore.symm.trans hmore'

/-- What is left above the stored cursor when the loop is over: offers to other devices. -/
theorem pullLoop_stored : ∀ (pages : Nat) (s : PullState), s.stored.getD 0 = s.cursor →
    AllDecode log s.cursor → pullLoop env now log deviceId pages s = some (.ok s') →
      ∀ r ∈ rowsAbove log (s'.stored.getD 0), ∃ c, toSyncChange r = some c ∧
        changeIsFor env c deviceId = false := by
  intro pages
  induction pages with
  | zero => exact fun _ _ _ h => by cases h
  | succ pages ih =>
      intro s hstored hdec h r hr
      rw [pullLoop] at h
      cases hturn : turn env now log deviceId s with
      | error e =>
          rw [hturn] at h
          cases h
      | ok next =>
          obtain ⟨t, more⟩ := next
          obtain ⟨hmore, hcursor⟩ := turn_ok hturn
          have hle : s.cursor ≤ (pullChanges env log s.cursor 100).latestVersion :=
            le_latestVersion_iff.2 (Or.inl (le_refl _))
          rw [hturn] at h
          cases more with
          | true =>
              rcases hcursor with ⟨_, hno, _⟩ | ⟨hcursor, hstored'⟩
              · cases hno
              · refine ih t (by rw [hstored']; rfl) (allDecode_of_le (hcursor ▸ hle) hdec) h r hr
          | false =>
              cases h
              -- the last page: nothing in it is for the device, or the cursor went to its end
              rcases hcursor with ⟨rfl, _, hnot⟩ | ⟨hcursor, hstored'⟩
              · rw [hstored] at hr
                obtain ⟨c, hc⟩ := Option.isSome_iff_exists.1 (hdec r hr)
                exact ⟨c, hc, hnot c (mem_last_page hdec hmore.symm hr hc)⟩
              · -- a row above the end of the last page would have been on it
                rw [hstored', Option.getD_some, hcursor] at hr
                have hr' := hr
                rw [rowsAbove_of_le hle] at hr'
                obtain ⟨c, hc⟩ := Option.isSome_iff_exists.1 (hdec r (List.mem_of_mem_filter hr'))
                have hpage := mem_last_page hdec hmore.symm (List.mem_of_mem_filter hr') hc
                have hversion := le_latestVersion_iff.2 (Or.inr ⟨c, hpage, le_refl _⟩)
                have habove : _ < r.version := of_decide_eq_true (List.mem_filter.1 hr).2
                rw [version_of_toSyncChange hc] at hversion
                omega

/-- Against a log that does not change the loop ends, after at most one page for every
    hundred rows above its cursor and one more; a page that goes on moves the cursor up;
    and when it is over without an error, every row above the stored cursor is one the
    peer does not show to this device, if all of them decode. -/
theorem pull_loop_ends (env : Env) (now deviceId : String) (log : ChangeLog) (s : PullState)
    (hstart : s.cursor = s.stored.getD 0) :
    (∃ result, pullLoop env now log deviceId ((rowsAbove log s.cursor).length / 100 + 1) s =
        some result) ∧
      (∀ t t', turn env now log deviceId t = .ok (t', true) →
        t.cursor < t'.cursor ∧ t'.stored = some t'.cursor) ∧
      ∀ pages s', pullLoop env now log deviceId pages s = some (.ok s') →
        AllDecode log s.cursor → ∀ r ∈ rowsAbove log (s'.stored.getD 0),
          ∃ c, toSyncChange r = some c ∧ changeIsFor env c deviceId = false := by
  refine ⟨pullLoop_isSome _ s (by omega), ?_, ?_⟩
  · intro t t' hturn
    obtain ⟨hmore, hcursor⟩ := turn_ok hturn
    rcases hcursor with ⟨_, hno, _⟩ | ⟨hcursor, hstored⟩
    · cases hno
    · rw [hcursor] at hstored ⊢
      exact ⟨lt_latestVersion (by decide) hmore.symm, hstored⟩
  · intro pages s' hloop hdec
    exact pullLoop_stored pages s hstart.symm hdec hloop

end Loop

/-- The log of a peer that offered one book, to the device `x`. -/
def oneOffer : ChangeLog :=
  match logOffer "" "desk" "i" "\x7b\"to_device_id\":\"x\"\x7d" ChangeLog.empty with
  | .ok log => log
  | .error _ => ChangeLog.empty

/-- A daemon that pulls from the peer for the first time. -/
def firstPull : PullState :=
  { cursor := 0, stored := none, db := Db.empty true, offers := ∅ }

theorem pull_loop_ends_first :
    ∃ result, pullLoop Env.reference "" oneOffer "y"
      ((rowsAbove oneOffer firstPull.cursor).length / 100 + 1) firstPull = some result :=
  (pull_loop_ends Env.reference "" "y" oneOffer firstPull rfl).1

/-- Another device's pull ends at a page it is shown nothing of, and stores no cursor for
    it. -/
theorem not_stored_past_hidden_offer :
    pullLoop Env.reference "" oneOffer "y" 1 firstPull = some (.ok firstPull) ∧
      ¬ ∀ r ∈ rowsAbove oneOffer firstPull.cursor, r.version ≤ firstPull.stored.getD 0 :=
  ⟨rfl, by decide⟩

/-! ## What becomes of a page -/

section Kept

variable {env : Env} {now : String} {offers offers' : InboundOffers} {c : SyncChange} {id : String}

/-- A pending offer of this id holds the row. -/
def Waits (offers : InboundOffers) (id : String) (c : SyncChange) : Prop :=
  ∃ row, offers.lookup id = some row ∧ row.status = .pending ∧ c ∈ row.deferredChanges

/-- No offer of this id was decided. -/
def Undecided (offers : InboundOffers) (id : String) : Prop :=
  ∀ row, offers.lookup id = some row → row.status = .pending

theorem offerId_of_offerRow {change : SyncChange} {payload : Json} {held : List SyncChange}
    {row : InboundOffer} (h : offerRow env now change payload held = .ok (id, row)) :
    textField payload "offer_id" = some id ∧ row.deferredChanges = held := by
  rw [offerRow] at h
  split at h
  · cases h
  · cases h
  · cases h
  · cases h
  next hid _ _ _ =>
    cases Except.ok.inj h
    exact ⟨hid, rfl⟩

theorem undecided_iff : (offers.lookup id).any (fun old => old.status != .pending) = false ↔
    Undecided offers id := by
  cases h : offers.lookup id with
  | none => simp [Undecided, h]
  | some old => simp [Undecided, h]

theorem lookup_upsertOffer_ne {offerId : String} {row : InboundOffer} (h : id ≠ offerId) :
    (upsertOffer offerId row offers).lookup id = offers.lookup id := by
  rw [upsertOffer]
  split
  · exact AList.lookup_insert_ne h
  · split
    · exact AList.lookup_insert_ne h
    · rfl

/-- An undecided offer is pending afterwards, with the rows it comes with. -/
theorem lookup_upsertOffer_self {row : InboundOffer} (hrow : row.status = .pending)
    (h : Undecided offers id) : ∃ r, (upsertOffer id row offers).lookup id = some r ∧
      r.status = .pending ∧ r.deferredChanges = row.deferredChanges := by
  rw [upsertOffer]
  cases hold : offers.lookup id with
  | none => exact ⟨row, AList.lookup_insert _, hrow, rfl⟩
  | some old =>
      have hpending := h old hold
      dsimp only
      rw [if_pos hpending]
      exact ⟨_, AList.lookup_insert _, hpending, rfl⟩

/-- An undecided offer is recorded with the rows of this page; a decided one is not, and
    no other changes. -/
theorem recordInboundOffer_ok {offer : SyncChange × Json} {held : List SyncChange} {fresh : Bool}
    (h : recordInboundOffer env now offer held offers = .ok (fresh, offers')) :
    ∃ offerId, textField offer.2 "offer_id" = some offerId ∧
      (∀ id, Undecided offers' id ↔ Undecided offers id) ∧
      (∀ c, Waits offers' offerId c ↔ Undecided offers offerId ∧ c ∈ held) ∧
      ∀ id c, id ≠ offerId → (Waits offers' id c ↔ Waits offers id c) := by
  unfold recordInboundOffer at h
  split at h
  · cases h
  next offerId row hrow =>
    obtain ⟨hid, hheld⟩ := offerId_of_offerRow hrow
    have hpending := status_of_offerRow hrow
    refine ⟨offerId, hid, ?_⟩
    dsimp only at h
    split at h
    next hdecided =>
      -- a decided row is left alone, and nothing waits for it
      cases h
      have hnot : ¬ Undecided offers offerId := by
        rw [← undecided_iff, hdecided]
        exact Bool.noConfusion
      refine ⟨fun _ => Iff.rfl, fun c => iff_of_false ?_ fun h => hnot h.1, fun _ _ _ => Iff.rfl⟩
      rintro ⟨old, hold, hstatus, _⟩
      refine hnot fun other hother => ?_
      cases Option.some.inj (hold.symm.trans hother)
      exact hstatus
    next hopen =>
      cases h
      have hundecided : Undecided offers offerId := undecided_iff.1 (Bool.not_eq_true _ ▸ hopen)
      obtain ⟨r, hr, hstatus, hdeferred⟩ := lookup_upsertOffer_self hpending hundecided
      refine ⟨?_, ?_, ?_⟩
      · intro id
        by_cases heq : id = offerId
        · subst heq
          refine iff_of_true (fun other hother => ?_) hundecided
          cases Option.some.inj (hr.symm.trans hother)
          exact hstatus
        · rw [Undecided, Undecided, lookup_upsertOffer_ne heq]
      · intro c
        rw [and_iff_right hundecided, ← hheld, ← hdeferred]
        constructor
        · rintro ⟨other, hother, _, hmem⟩
          cases Option.some.inj (hr.symm.trans hother)
          exact hmem
        · exact fun hmem => ⟨r, hr, hstatus, hmem⟩
      · intro id c heq
        rw [Waits, Waits, lookup_upsertOffer_ne heq]

/-- The last offer of an id on a page. -/
def lastOf (id : String) (offers : List (SyncChange × Json)) : Option (SyncChange × Json) :=
  (offers.filter fun o => textField o.2 "offer_id" == some id).getLast?

theorem lastOf_append (id : String) (offers : List (SyncChange × Json))
    (offer : SyncChange × Json) : lastOf id (offers ++ [offer]) =
      if textField offer.2 "offer_id" = some id then some offer else lastOf id offers := by
  rw [lastOf, List.filter_append, List.getLast?_append]
  simp only [List.filter_cons, List.filter_nil, beq_iff_eq]
  split
  · rfl
  · rfl

theorem recordOffers_append (deferred : List SyncChange) (l : List (SyncChange × Json))
    (offer : SyncChange × Json) : ∀ {offers offers' : InboundOffers} {n : Nat},
    recordOffers env now deferred (l ++ [offer]) offers = .ok (n, offers') →
      ∃ m between fresh, recordOffers env now deferred l offers = .ok (m, between) ∧
        recordInboundOffer env now offer (heldFor deferred offer) between =
          .ok (fresh, offers') := by
  induction l with
  | nil =>
      intro offers offers' n h
      obtain ⟨⟨fresh, after⟩, hrecord, h⟩ := bind_eq_ok.1 h
      cases Except.ok.inj h
      exact ⟨0, offers, fresh, rfl, hrecord⟩
  | cons o rest ih =>
      intro offers offers' n h
      obtain ⟨⟨fresh, after⟩, hrecord, h⟩ := bind_eq_ok.1 h
      obtain ⟨⟨k, last⟩, hrest, h⟩ := bind_eq_ok.1 h
      cases Except.ok.inj h
      obtain ⟨m, between, fresh', hm, hlast⟩ := ih hrest
      exact ⟨m + fresh.toNat, between, fresh',
        bind_eq_ok.2 ⟨_, hrecord, bind_eq_ok.2 ⟨_, hm, rfl⟩⟩, hlast⟩

/-- Which rows wait after a page: by induction on its offers from the last one back, the
    last offer of an id decides what waits under it. -/
theorem waits_recordOffers (deferred : List SyncChange) (l : List (SyncChange × Json)) :
    ∀ {offers offers' : InboundOffers} {n : Nat},
    recordOffers env now deferred l offers = .ok (n, offers') →
      (∀ id, Undecided offers' id ↔ Undecided offers id) ∧
      ∀ id c, Waits offers' id c ↔
        match lastOf id l with
        | some offer => Undecided offers id ∧ c ∈ heldFor deferred offer
        | none => Waits offers id c := by
  induction l using List.reverseRecOn with
  | nil =>
      intro offers offers' n h
      cases Except.ok.inj h
      exact ⟨fun _ => Iff.rfl, fun _ _ => Iff.rfl⟩
  | append_singleton l offer ih =>
      intro offers offers' n h
      obtain ⟨m, between, fresh, hbetween, hlast⟩ := recordOffers_append deferred l offer h
      obtain ⟨hundecided, hwaits⟩ := ih hbetween
      obtain ⟨offerId, hid, hundecided', hself, hother⟩ := recordInboundOffer_ok hlast
      refine ⟨fun id => (hundecided' id).trans (hundecided id), fun id c => ?_⟩
      rw [lastOf_append, hid]
      by_cases heq : id = offerId
      · subst heq
        rw [if_pos rfl, hself, hundecided]
      · rw [if_neg (fun h => heq (Option.some.inj h).symm), hother id c heq]
        exact hwaits id c

end Kept

section Lost

variable (env : Env) (deviceId : String)

/-- Every row of the page that is no offer was passed to `apply_changes` or waits with a
    pending offer. -/
def NothingLost (page : PullResponse) (passed : List SyncChange) (offers : InboundOffers) : Prop :=
  ∀ c ∈ page.changes, c.entityType ≠ "file_offer" → c ∈ passed ∨ ∃ id, Waits offers id c

/-- Every row that an offer of the page names is named by one that is still undecided and
    the last of its id on the page, or waits already with an offer the page does not
    bring again. -/
def Answerable (page : PullResponse) (offers : InboundOffers) : Prop :=
  ∀ c ∈ page.changes, c.entityType ≠ "file_offer" →
    (∃ offer ∈ pageOffers env deviceId page.changes, c.entityId ∈ offerRowIds offer.2) →
    ∃ id, match lastOf id (pageOffers env deviceId page.changes) with
      | some offer => Undecided offers id ∧ c.entityId ∈ offerRowIds offer.2
      | none => Waits offers id c

end Lost

/-- A page loses nothing exactly when its rows are answerable. -/
theorem nothingLost_iff (env : Env) (now deviceId : String) (page : PullResponse)
    (s s' : PullState) (passed : List SyncChange)
    (h : pullPage env now deviceId page s = .ok (passed, s')) :
    NothingLost page passed s'.offers ↔ Answerable env deviceId page s.offers := by
  obtain ⟨rfl, _, _, n, hoffers⟩ := pullPage_ok h
  have hwaits := (waits_recordOffers _ _ hoffers).2
  refine forall₃_congr fun c hc htype => ?_
  by_cases hnamed : ∃ offer ∈ pageOffers env deviceId page.changes, c.entityId ∈ offerRowIds offer.2
  · have hpassed : c ∉ metadataRows env deviceId page.changes := by
      intro hmem
      obtain ⟨offer, hoffer, hname⟩ := hnamed
      exact (mem_metadataRows.1 hmem).2.2 offer hoffer hname
    have hdeferred : c ∈ deferredRows env deviceId page.changes := by
      obtain ⟨offer, hoffer, hname⟩ := hnamed
      refine List.mem_filter.2 ⟨List.mem_filter.2 ⟨hc, bne_iff_ne.2 htype⟩, ?_⟩
      exact List.contains_iff_mem.2 (List.mem_flatMap.2 ⟨offer, hoffer, hname⟩)
    rw [or_iff_right hpassed]
    refine Iff.trans ?_ (forall_prop_of_true hnamed).symm
    refine exists_congr fun id => (hwaits id c).trans ?_
    split
    next offer _ =>
      rw [heldFor, List.mem_filter, List.contains_iff_mem, and_iff_right hdeferred]
    next => exact Iff.rfl
  · refine iff_of_true (Or.inl (mem_metadataRows.2 ⟨hc, htype, ?_⟩)) fun h => absurd h hnamed
    intro offer hoffer hname
    exact hnamed ⟨offer, hoffer, hname⟩

/-! ## The page as the daemon steps through it -/

section Steps

variable {env : Env} {now : String} {p : Nat} {peer : String} {cursor : Int} {page : PullResponse}

/-- The steps of one page with nothing in between. -/
def pageRun (p : Nat) (now : String) (offers : List (SyncChange × Json)) : List Action :=
  .applyPage p now :: offers.flatMap (fun _ => [.lookupOffer p, .recordOffer p now]) ++
    [.finishPage p]

theorem recordOffer_eq {d : State} {pull : Pull} {offer : SyncChange × Json}
    {rest : List (SyncChange × Json)} {found : Option InboundOffer} {offerId : String}
    {row : InboundOffer} (hrow : offerRow env now offer.1 offer.2
      (heldFor (deferredRows env d.deviceId page.changes) offer) = .ok (offerId, row)) :
    recordOffer env now p pull page offer rest found d =
      if found.any fun old => old.status != .pending then
        d.setPull p { pull with phase := .recording page rest none }
      else { d with
        offers := upsertOffer offerId row d.offers
        recorded := d.recorded ++ [offer.2] }.setPull p
          { pull with phase := .recording page rest none } := by
  rw [heldFor] at hrow
  simp only [recordOffer, hrow]

/-- Looking an offer up and recording it is `record_inbound_offer`. -/
theorem step_recordOffer {d : State} {offer : SyncChange × Json} {rest : List (SyncChange × Json)}
    {fresh : Bool} {offers' : InboundOffers}
    (hpull : d.pulls.lookup p = some ⟨peer, cursor, .recording page (offer :: rest) none⟩)
    (h : recordInboundOffer env now offer
      (heldFor (deferredRows env d.deviceId page.changes) offer) d.offers = .ok (fresh, offers')) :
    ∃ d', step env (step env d (.lookupOffer p)) (.recordOffer p now) = d' ∧
      d'.pulls.lookup p = some ⟨peer, cursor, .recording page rest none⟩ ∧
      d'.deviceId = d.deviceId ∧ d'.db = d.db ∧ d'.cursors = d.cursors ∧ d'.offers = offers' := by
  refine ⟨_, rfl, ?_⟩
  unfold recordInboundOffer at h
  split at h
  · cases h
  next offerId row hrow =>
    obtain ⟨hid, _⟩ := offerId_of_offerRow hrow
    have hlookup : step env d (.lookupOffer p) = d.setPull p ⟨peer, cursor,
        .recording page (offer :: rest) (some (d.offers.lookup offerId))⟩ := by
      rw [step, hpull]
      simp only [hid, Option.bind_some]
    have hfound : (d.setPull p ⟨peer, cursor, .recording page (offer :: rest)
        (some (d.offers.lookup offerId))⟩).pulls.lookup p = some ⟨peer, cursor,
          .recording page (offer :: rest) (some (d.offers.lookup offerId))⟩ :=
      AList.lookup_insert _
    rw [hlookup, step, hfound]
    dsimp only at h ⊢
    rw [recordOffer_eq (d := d.setPull p _) hrow]
    split at h
    next hdecided =>
      cases h
      rw [if_pos hdecided]
      exact ⟨AList.lookup_insert _, rfl, rfl, rfl, rfl⟩
    next hopen =>
      cases h
      rw [if_neg hopen]
      exact ⟨AList.lookup_insert _, rfl, rfl, rfl, rfl⟩

/-- The offers of the page, one after the other. -/
theorem exec_recordOffers (offers : List (SyncChange × Json)) :
    ∀ {d : State} {n : Nat} {offers' : InboundOffers},
    d.pulls.lookup p = some ⟨peer, cursor, .recording page offers none⟩ →
    recordOffers env now (deferredRows env d.deviceId page.changes) offers d.offers =
      .ok (n, offers') →
    ∃ d', Runs.exec (step env) d
        (offers.flatMap fun _ => [.lookupOffer p, .recordOffer p now]) = d' ∧
      d'.pulls.lookup p = some ⟨peer, cursor, .recording page [] none⟩ ∧
      d'.db = d.db ∧ d'.cursors = d.cursors ∧ d'.offers = offers' := by
  induction offers with
  | nil =>
      intro d n offers' hpull h
      cases Except.ok.inj h
      exact ⟨d, rfl, hpull, rfl, rfl, rfl⟩
  | cons offer rest ih =>
      intro d n offers' hpull h
      obtain ⟨⟨fresh, between⟩, hrecord, h⟩ := bind_eq_ok.1 h
      obtain ⟨⟨m, last⟩, hrest, h⟩ := bind_eq_ok.1 h
      cases Except.ok.inj h
      obtain ⟨d', hd', hpull', hdevice, hdb, hcursors, rfl⟩ := step_recordOffer hpull hrecord
      rw [← hdevice] at hrest
      obtain ⟨d'', hd'', hpull'', hdb', hcursors', hoffers⟩ := ih hpull' hrest
      refine ⟨d'', ?_, hpull'', hdb'.trans hdb, hcursors'.trans hcursors, hoffers⟩
      rw [List.flatMap_cons, Runs.exec_append, ← hd'', ← hd']
      rfl

/-- A page that goes through is what the daemon's steps make of it when no other task
    comes between them: the same library, the same offers, the cursor at its end. -/
theorem exec_pageRun {d : State} {s s' : PullState} {passed : List SyncChange}
    (hpull : d.pulls.lookup p = some ⟨peer, cursor, .fetched page⟩) (hgate : d.writeGate = none)
    (hdb : s.db = d.db) (hoffers : s.offers = d.offers)
    (h : pullPage env now d.deviceId page s = .ok (passed, s')) :
    ∃ d', Runs.exec (step env) d (pageRun p now (pageOffers env d.deviceId page.changes)) = d' ∧
      d'.db = s'.db ∧ d'.offers = s'.offers ∧
      d'.cursors = d.cursors.insert peer page.latestVersion := by
  obtain ⟨⟨outcome, db⟩, happly, h⟩ := bind_eq_ok.1 h
  obtain ⟨⟨offered, offers⟩, hrecord, h⟩ := bind_eq_ok.1 h
  cases Except.ok.inj h
  -- the page's rows, then its offers, then the cursor: one state after each
  have happlied : ∃ e, step env d (.applyPage p now) = e ∧
      e.pulls.lookup p = some ⟨peer, cursor,
        .recording page (pageOffers env d.deviceId page.changes) none⟩ ∧
      e.deviceId = d.deviceId ∧ e.db = db ∧ e.offers = d.offers ∧ e.cursors = d.cursors := by
    refine ⟨_, rfl, ?_⟩
    have hready : d.readyPage p = some (⟨peer, cursor, .fetched page⟩, page) := by
      rw [State.readyPage, hpull, hgate]
    rw [step, hready]
    unfold applyMetadata at happly
    dsimp only [applyPage]
    split at happly
    next hempty =>
      cases happly
      rw [if_pos hempty]
      exact ⟨AList.lookup_insert _, rfl, hdb.symm, rfl, rfl⟩
    next hsome =>
      have hchanges := mapError_eq_ok.1 happly
      rw [hdb] at hchanges
      rw [if_neg hsome, hchanges]
      exact ⟨AList.lookup_insert _, rfl, rfl, rfl, rfl⟩
  obtain ⟨e, he, hpull', hdevice, hdb', hoffers', hcursors⟩ := happlied
  rw [hoffers, ← hoffers', ← hdevice] at hrecord
  rw [← hdevice] at hpull'
  obtain ⟨f, hf, hpull'', hdb'', hcursors', hoffers''⟩ :=
    exec_recordOffers _ hpull' (mapError_eq_ok.1 hrecord)
  refine ⟨_, rfl, ?_⟩
  rw [pageRun, List.cons_append, Runs.exec_cons, Runs.exec_append, he, ← hdevice, hf,
    Runs.exec_cons, Runs.exec_nil, step, hpull'']
  have hmoved : f.cursors.insert peer page.latestVersion =
      d.cursors.insert peer page.latestVersion := by rw [hcursors', hcursors]
  dsimp only [finishPage]
  split
  · exact ⟨hdb''.trans hdb', hoffers'', hmoved⟩
  · exact ⟨hdb''.trans hdb', hoffers'', hmoved⟩

end Steps

/-! ## A book that is edited and offered again -/

/-- An edit of the work `w`. -/
def editedWork : SyncChange :=
  { id := 1, entityType := "work", entityId := "w", operation := "UPDATE", version := 1
    payload := "", changedAt := "", deviceId := "desk", version_i64 := one_i64 }

/-- The offer of a book of the work `w` to the device `x`. -/
def offeredBook : SyncChange :=
  { id := 2, entityType := "file_offer", entityId := "i", operation := "OFFER", version := 2
    payload :=
      "\x7b\"offer_id\":\"o\",\"inventory_id\":\"i\",\"edition_id\":\"e\",\"work_id\":\"w\",\"to_device_id\":\"x\"\x7d"
    changedAt := "", deviceId := "desk" }

def offerPage : PullResponse where
  changes := [editedWork, offeredBook]
  hasMore := false
  latestVersion := 2

/-- The pull after the page, where it goes through. -/
def afterPage (offers : InboundOffers) : PullState :=
  match pullPage Env.reference "" "x" offerPage { firstPull with offers } with
  | .ok (_, s) => s
  | .error _ => firstPull

theorem nothingLost_new_offer : NothingLost offerPage [] (afterPage ∅).offers := by
  refine (nothingLost_iff Env.reference "" "x" offerPage firstPull (afterPage ∅) [] rfl).2 ?_
  intro c hc htype _
  rcases List.mem_cons.1 hc with rfl | hc
  · refine ⟨"o", ?_⟩
    show Undecided ∅ "o" ∧ "w" ∈ ["i", "e", "w"]
    exact ⟨fun _ h => (by cases h), by decide⟩
  · cases List.mem_singleton.1 hc
    exact absurd rfl htype

/-- The reader accepted the offer. -/
def acceptedBook : InboundOffers := writeDecision "" "o" true (afterPage ∅).offers

/-- When the accepted offer comes again behind an edit of its work, the edit is neither
    applied nor kept, and the cursor moves past it. -/
theorem not_nothingLost_accepted_offer :
    pullPage Env.reference "" "x" offerPage { firstPull with offers := acceptedBook } =
        .ok ([], afterPage acceptedBook) ∧
      (afterPage acceptedBook).stored = some 2 ∧
      ¬ NothingLost offerPage [] (afterPage acceptedBook).offers := by
  refine ⟨rfl, rfl, fun h => ?_⟩
  rcases h editedWork List.mem_cons_self (by decide) with hmem | ⟨id, row, hrow, hstatus, _⟩
  · cases hmem
  · obtain ⟨first, last, hoffers, haccepted⟩ : ∃ first last : InboundOffer,
        (afterPage acceptedBook).offers = (AList.insert "o" first ∅).insert "o" last ∧
          last.status = .accepted := ⟨_, _, rfl, rfl⟩
    rw [hoffers] at hrow
    rcases lookup_insert.1 hrow with ⟨_, rfl⟩ | ⟨hne, hrow⟩
    · cases haccepted.symm.trans hstatus
    · rcases lookup_insert.1 hrow with ⟨heq, _⟩ | ⟨_, hrow⟩
      · exact hne heq
      · cases hrow

end SyncPullLoop
