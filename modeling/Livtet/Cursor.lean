import Livtet.Lib.Runs
import Livtet.Paging
import Livtet.Steps

/-! # What lies behind a peer's cursor

    A peer pulls from a device's log and keeps the latest version it was sent.
    Meanwhile the device is edited, and records changes of other devices under
    their own versions. A row that is recorded at or below the cursor, or cut off a
    page that ends on its version, is never sent. In a run without either, every
    row at or below the cursor has been delivered. -/

namespace SyncCursor

open SqlRows SyncSchema SyncStore SyncEngine SyncSteps SyncPaging SortedPages Outcomes

/-! ## The device and its peer -/

structure State where
  db : Db
  /-- The peer's cursor into the log. -/
  cursor : Int
  /-- Every change the peer was sent. -/
  delivered : List SyncChange

inductive Action
  | edit (now : String) (edit : LocalEdit)
  | push (now : String) (changes : List SyncChange)
  | apply (now : String) (changes : List SyncChange) (options : ApplyOptions)
  | pull (limit : Int)

/-- One step; a failed write is rolled back. -/
def step (env : Env) (s : State) : Action → State
  | .edit now edit =>
      match localEdit env now edit s.db with
      | .ok db => { s with db }
      | .error _ => s
  | .push now changes =>
      match pushChanges env now changes s.db with
      | .ok (_, db) => { s with db }
      | .error _ => s
  | .apply now changes options =>
      match applyChanges env now changes options s.db with
      | .ok (_, db) => { s with db }
      | .error _ => s
  | .pull limit =>
      let page := pullChanges env s.db.log s.cursor limit
      { s with cursor := page.latestVersion, delivered := s.delivered ++ page.changes }

/-! ## The condition on a step -/

/-- A pulled change that is going to be written and logged. -/
def ApplyWrites (env : Env) (log : ChangeLog) (change : SyncChange) : Prop :=
  (SyncableEntityKind.entityTypeToTable change.entityType).isSome ∧
    isOperation change.operation = true ∧ newerPayload? env log change = none

/-- A pushed change that is going to be written and logged. -/
def PushWrites (env : Env) (log : ChangeLog) (change : SyncChange) : Prop :=
  alreadyLogged log (toAsciiUppercase change.operation) change = false ∧
    divergentPayload? env log change = none

/-- Every change of the batch that is written, in the state it finds, is above the
    cursor. -/
def ApplyAbove (env : Env) (now : String) (options : ApplyOptions) (cursor : Int) :
    List SyncChange → Db → Prop
  | [], _ => True
  | change :: rest, db => (ApplyWrites env db.log change → cursor < change.version) ∧
      ∀ step db', applyChange env now options change db = .ok (step, db') →
        ApplyAbove env now options cursor rest db'

def PushAbove (env : Env) (now : String) (cursor : Int) : List SyncChange → Db → Prop
  | [], _ => True
  | change :: rest, db => (PushWrites env db.log change → cursor < change.version) ∧
      ∀ conflict db', pushChange env now change db = .ok (conflict, db') →
        PushAbove env now cursor rest db'

/-- The page does not end inside a group of rows of one version. -/
def PageEndsGroup (log : ChangeLog) (since limit : Int) : Prop :=
  ∀ n : Nat, 0 < n → limit = n → ∀ v, v ≤ maxI64 →
    (versionsAbove log since)[n - 1]? = some v → (versionsAbove log since)[n]? ≠ some v

def Guard (env : Env) (s : State) : Action → Prop
  | .edit _ _ => True
  | .push now changes => PushAbove env now s.cursor changes { s.db with syncApply := some "1" }
  | .apply now changes options =>
      ApplyAbove env now options s.cursor (sortByRank changes) s.db
  | .pull limit => PageEndsGroup s.db.log s.cursor limit

/-! ## The invariant -/

/-- Everything at or below the cursor was sent. -/
def NothingLost (s : State) : Prop :=
  ∀ r ∈ s.db.log.rows, r.version ≤ s.cursor → ∃ c ∈ s.delivered, toSyncChange r = some c

structure Inv (s : State) : Prop where
  sent : NothingLost s
  behind : s.cursor ≤ s.db.log.maxVersion
  cursor_i64 : s.cursor ≤ maxI64
  devices : ∀ r ∈ s.db.log.rows, r.deviceId.isSome

/-- Every row that was not there before is above the cursor, and the log still
    reaches the cursor. -/
structure Above (cursor : Int) (db db' : Db) : Prop where
  rows : ∀ r ∈ db'.log.rows, r ∈ db.log.rows ∨ (cursor < r.version ∧ r.deviceId.isSome)
  behind : cursor ≤ db'.log.maxVersion

variable {env : Env} {now : String} {options : ApplyOptions} {cursor : Int} {db db' db'' : Db}

theorem Above.refl (h : cursor ≤ db.log.maxVersion) : Above cursor db db :=
  ⟨fun _ hr => Or.inl hr, h⟩

theorem Above.of_log_eq (h : cursor ≤ db.log.maxVersion) (hlog : db'.log = db.log) :
    Above cursor db db' := by
  refine ⟨fun r hr => Or.inl ?_, ?_⟩
  · rwa [hlog] at hr
  · rwa [hlog]

theorem Above.trans (h : Above cursor db db') (h' : Above cursor db' db'') :
    Above cursor db db'' := by
  refine ⟨?_, h'.behind⟩
  intro r hr
  rcases h'.rows r hr with hr | hr
  · exact h.rows r hr
  · exact Or.inr hr

/-- A recorded change above the cursor keeps the log above it. -/
theorem above_of_recorded {operation : String} {change : SyncChange} {db1 : Db}
    (hversion : cursor < change.version)
    (h1 : ∀ r ∈ db1.log.rows, r ∈ db.log.rows ∨ (cursor < r.version ∧ r.deviceId.isSome))
    (h : insertChangeRow now operation change db1 = .ok db') : Above cursor db db' := by
  obtain ⟨log, rfl, hrows, _⟩ := insertChangeRow_eq_ok h
  have hmem : recordedRow now operation change db1.log.seq ∈ log.rows := by
    rw [hrows]
    exact List.mem_append_right _ List.mem_cons_self
  refine ⟨?_, le_trans (le_of_lt hversion) (ChangeLog.version_le_maxVersion hmem)⟩
  intro r hr
  have hr : r ∈ log.rows := hr
  rw [hrows] at hr
  rcases List.mem_append.1 hr with hr | hr
  · exact h1 r hr
  · cases List.mem_singleton.1 hr
    exact Or.inr ⟨hversion, rfl⟩

section Writes

variable (hc : cursor ≤ maxI64) (hb : cursor ≤ db.log.maxVersion)
include hc hb

/-- Trigger rows get a version above the cursor. -/
theorem above_of_echoed (h : Echoed db db') : Above cursor db db' := by
  obtain ⟨new, hext⟩ := h.log.extends
  refine ⟨?_, le_trans hb hext.max_le⟩
  intro r hr
  rw [hext.rows] at hr
  rcases List.mem_append.1 hr with hr | hr
  · exact Or.inl hr
  · refine Or.inr ⟨hext.above r hr cursor hb hc, ?_⟩
    rw [hext.device r hr]
    rfl

theorem above_applyChange {change : SyncChange} {step : ApplyStep}
    (hguard : ApplyWrites env db.log change → cursor < change.version)
    (h : applyChange env now options change db = .ok (step, db')) : Above cursor db db' := by
  cases applyChange_cases h with
  | ignored _ => exact Above.refl hb
  | conflict _ _ => exact Above.of_log_eq hb rfl
  | applied hk hnew hop hwrite hrecord =>
      have hversion := hguard ⟨Option.isSome_iff_exists.2 ⟨_, hk⟩, hop, hnew⟩
      refine above_of_recorded hversion ?_ hrecord
      intro r hr
      exact (above_of_echoed hc hb (echoed_writeEntity hwrite)).rows r (List.mem_of_mem_filter hr)

theorem above_pushChange {change : SyncChange} {conflict : Option ConflictRow}
    (hguard : PushWrites env db.log change → cursor < change.version)
    (h : pushChange env now change db = .ok (conflict, db')) : Above cursor db db' := by
  cases pushChange_cases h with
  | known _ _ => exact Above.refl hb
  | conflict _ _ _ => exact Above.of_log_eq hb rfl
  | applied hk hseen hdiv hwrite hrecord =>
      refine above_of_recorded (hguard ⟨hseen, hdiv⟩) ?_ hrecord
      exact (above_of_echoed hc hb (echoed_applyOne hwrite)).rows

end Writes

theorem above_applyOrdered (hc : cursor ≤ maxI64) : ∀ (changes : List SyncChange)
    (state : ApplyOutcome × Db) (outcome : ApplyOutcome) (db' : Db),
    cursor ≤ state.2.log.maxVersion → ApplyAbove env now options cursor changes state.2 →
    applyOrdered env now options changes state = .ok (outcome, db') →
    Above cursor state.2 db' := by
  intro changes
  induction changes with
  | nil =>
      intro state outcome db' hb _ h
      obtain ⟨_, rfl⟩ := Prod.mk.inj (Except.ok.inj h)
      exact Above.refl hb
  | cons c rest ih =>
      intro state outcome db' hb hguard h
      obtain ⟨step, mid, hstep, hrest⟩ := applyOrdered_cons.1 h
      have hfirst := above_applyChange hc hb hguard.1 hstep
      exact hfirst.trans (ih _ _ _ hfirst.behind (hguard.2 step mid hstep) hrest)

theorem above_pushLoop (hc : cursor ≤ maxI64) : ∀ (changes : List SyncChange)
    (state : List ConflictRow × Db) (conflicts : List ConflictRow) (db' : Db),
    cursor ≤ state.2.log.maxVersion → PushAbove env now cursor changes state.2 →
    pushLoop env now changes state = .ok (conflicts, db') → Above cursor state.2 db' := by
  intro changes
  induction changes with
  | nil =>
      intro state conflicts db' hb _ h
      obtain ⟨_, rfl⟩ := Prod.mk.inj (Except.ok.inj h)
      exact Above.refl hb
  | cons c rest ih =>
      intro state conflicts db' hb hguard h
      obtain ⟨conflict, mid, hstep, hrest⟩ := pushLoop_cons.1 h
      have hfirst := above_pushChange hc hb hguard.1 hstep
      exact hfirst.trans (ih _ _ _ hfirst.behind (hguard.2 conflict mid hstep) hrest)

/-- Rows that only appear above the cursor keep the invariant. -/
theorem inv_of_above {s : State} (hs : Inv s) (h : Above s.cursor s.db db') :
    Inv { s with db := db' } where
  sent := by
    intro r hr hle
    rcases h.rows r hr with hr | ⟨hlt, _⟩
    · exact hs.sent r hr hle
    · have hle : r.version ≤ s.cursor := hle
      omega
  behind := h.behind
  cursor_i64 := hs.cursor_i64
  devices := by
    intro r hr
    rcases h.rows r hr with hr | ⟨_, hdev⟩
    · exact hs.devices r hr
    · exact hdev

/-! ## The pull step -/

theorem toSyncChange_isSome {r : ChangeRow} (hdev : r.deviceId.isSome)
    (hlo : minI64 ≤ r.version) (hhi : r.version ≤ maxI64) : ∃ c, toSyncChange r = some c := by
  obtain ⟨d, hd⟩ := Option.isSome_iff_exists.1 hdev
  unfold toSyncChange
  rw [hd]
  simp only [hlo, hhi, and_self, dite_true]
  exact ⟨_, rfl⟩

/-- A row above the cursor and at or below the version of a row on the page is on the
    page too, unless the page ends inside its group. -/
theorem mem_pageRows {log : ChangeLog} {since limit : Int} (hends : PageEndsGroup log since limit)
    {a r : ChangeRow} (ha : a ∈ pageRows env log since limit) (hai : a.version ≤ maxI64)
    (hr : r ∈ rowsAbove log since) (hle : r.version ≤ a.version) :
    r ∈ pageRows env log since limit := by
  rw [pageRows, limited] at ha ⊢
  have hr' : r ∈ env.asc.visit limit (rowsAbove log since) := (env.asc.perm _ _).mem_iff.2 hr
  split at ha
  · next hneg =>
      rw [if_pos hneg]
      exact hr'
  next hneg =>
    rw [if_neg hneg]
    obtain ⟨n, rfl⟩ : ∃ n : Nat, limit = n := ⟨limit.toNat, by omega⟩
    rw [Int.toNat_natCast] at ha ⊢
    by_contra hnot
    -- the row is due on a later page
    have hdrop : r ∈ (visited env log n since).drop n := by
      have hr' : r ∈ visited env log n since := hr'
      rw [← List.take_append_drop n (visited env log n since)] at hr'
      rcases List.mem_append.1 hr' with h | h
      · exact absurd h hnot
      · exact h
    -- the page is full, and its last row and the next one both have this version
    have hn : 0 < n := by
      rcases Nat.eq_zero_or_pos n with rfl | hpos
      · cases ha
      · exact hpos
    have hlt : n < (visited env log n since).length := by
      by_contra hge
      rw [List.drop_eq_nil_of_le (by omega)] at hdrop
      cases hdrop
    have hlast : (visited env log n since)[n - 1]? = some (visited env log n since)[n - 1] :=
      List.getElem?_eq_getElem (by omega)
    have hnext : (visited env log n since)[n]? = some (visited env log n since)[n] :=
      List.getElem?_eq_getElem hlt
    have h1 : a.version ≤ (visited env log n since)[n - 1].version :=
      key_le_of_mem_take (fun r => r.version) (visited_sorted env log n _) hlast hn ha
    have h2 : (visited env log n since)[n - 1].version ≤ (visited env log n since)[n].version := by
      refine key_le_of_mem_drop (fun r => r.version) (visited_sorted env log n _) hlast hn ?_
      exact List.mem_of_getElem? (i := 0) (by rw [List.getElem?_drop]; exact hnext)
    have h3 : (visited env log n since)[n].version ≤ r.version := by
      rw [List.drop_eq_getElem_cons hlt] at hdrop
      rcases List.mem_cons.1 hdrop with rfl | hdrop
      · exact le_refl _
      · exact key_le_of_mem_drop (fun r => r.version) (visited_sorted env log n _) (n := n + 1) hnext
          (by omega) hdrop
    refine hends n hn rfl a.version hai ?_ ?_
    · rw [← map_version_visited env log n, List.getElem?_map, hlast]
      exact congrArg some (show (visited env log n since)[n - 1].version = a.version by omega)
    · rw [← map_version_visited env log n, List.getElem?_map, hnext]
      exact congrArg some (show (visited env log n since)[n].version = a.version by omega)

/-- Every row between the cursor and the end of the page is on the page. -/
theorem mem_changes_of_le {log : ChangeLog} {since limit : Int}
    (hends : PageEndsGroup log since limit) {r : ChangeRow} (hr : r ∈ log.rows)
    (hdev : r.deviceId.isSome) (hlt : since < r.version)
    (hle : r.version ≤ (pullChanges env log since limit).latestVersion) :
    ∃ c ∈ (pullChanges env log since limit).changes, toSyncChange r = some c := by
  rcases latestVersion_cases env limit log since with ⟨_, hlatest⟩ | ⟨last, hlast, hlatest, _, hi⟩
  · omega
  · obtain ⟨a, ha, hdecode⟩ := List.mem_filterMap.1 (List.mem_of_getLast? hlast)
    have hav := version_of_toSyncChange hdecode
    have habove : r ∈ rowsAbove log since := List.mem_filter.2 ⟨hr, by simpa using hlt⟩
    have hpage := mem_pageRows hends ha (by omega) habove (by omega)
    obtain ⟨c, hc⟩ := toSyncChange_isSome hdev (log.bounded r hr).1 (show r.version ≤ maxI64 by omega)
    exact ⟨c, List.mem_filterMap.2 ⟨r, hpage, hc⟩, hc⟩

theorem inv_pull {s : State} (hs : Inv s) {limit : Int}
    (hends : PageEndsGroup s.db.log s.cursor limit) : Inv (step env s (.pull limit)) := by
  have hcursor : (step env s (.pull limit)).cursor =
      (pullChanges env s.db.log s.cursor limit).latestVersion := rfl
  refine ⟨?_, ?_, ?_, hs.devices⟩
  · intro r hr hle
    rcases Int.lt_or_le s.cursor r.version with hlt | hge
    · obtain ⟨c, hc, hrc⟩ := mem_changes_of_le hends hr (hs.devices r hr) hlt hle
      exact ⟨c, List.mem_append_right _ hc, hrc⟩
    · obtain ⟨c, hc, hrc⟩ := hs.sent r hr hge
      exact ⟨c, List.mem_append_left _ hc, hrc⟩
  · rw [hcursor]
    rcases latestVersion_cases env limit s.db.log s.cursor with ⟨_, hlatest⟩ |
      ⟨_, _, hlatest, hmax, _⟩
    · rw [hlatest]
      exact hs.behind
    · rw [hlatest]
      exact hmax
  · rw [hcursor]
    rcases latestVersion_cases env limit s.db.log s.cursor with ⟨_, hlatest⟩ | ⟨_, _, hlatest, _, hi⟩
    · rw [hlatest]
      exact hs.cursor_i64
    · rw [hlatest]
      exact hi

theorem inv_step {s : State} {a : Action} (hs : Inv s) (hguard : Guard env s a) :
    Inv (step env s a) := by
  cases a with
  | edit now edit =>
      simp only [step]
      split
      · next db' h =>
          exact inv_of_above hs (above_of_echoed hs.cursor_i64 hs.behind (Echoed.localEdit h))
      · exact hs
  | push now changes =>
      simp only [step]
      split
      · next response db' h =>
          obtain ⟨⟨conflicts, db2⟩, hloop, h⟩ := bind_eq_ok.1 h
          obtain ⟨_, rfl⟩ := Prod.mk.inj (Except.ok.inj h)
          have := above_pushLoop hs.cursor_i64 changes ([], { s.db with syncApply := some "1" })
            conflicts db2 hs.behind hguard hloop
          exact inv_of_above hs ⟨this.rows, this.behind⟩
      · exact hs
  | apply now changes options =>
      simp only [step]
      split
      · next outcome db' h =>
          exact inv_of_above hs (above_applyOrdered hs.cursor_i64 (sortByRank changes)
            ({}, s.db) outcome db' hs.behind hguard h)
      · exact hs
  | pull limit => exact inv_pull hs hguard

/-- The start: the peer has pulled nothing, and every row already logged is above
    version 0 and names its device. -/
def Fresh (s : State) : Prop :=
  s.cursor = 0 ∧ ∀ r ∈ s.db.log.rows, 0 < r.version ∧ r.deviceId.isSome

theorem inv_of_fresh {s : State} (h : Fresh s) : Inv s := by
  obtain ⟨hcursor, hrows⟩ := h
  refine ⟨?_, ?_, ?_, fun r hr => (hrows r hr).2⟩
  · intro r hr hle
    have := (hrows r hr).1
    omega
  · rw [hcursor]
    cases hlog : s.db.log.rows with
    | nil =>
        rw [ChangeLog.maxVersion, ChangeLog.maxVersion?, hlog]
        decide
    | cons r rest =>
        have hr : r ∈ s.db.log.rows := by
          rw [hlog]
          exact List.mem_cons_self
        exact le_trans (le_of_lt (hrows r hr).1) (ChangeLog.version_le_maxVersion hr)
  · rw [hcursor]
    decide

/-- **NOTHING IS LOST BEHIND THE CURSOR** in any run in which every change that is
    recorded is above the cursor at that moment and no page ends inside a group of
    rows of one version. -/
theorem nothingLost_of_admitted (env : Env) (start : State) (run : List Action)
    (hfresh : Fresh start) (hrun : Runs.Admitted (step env) (Guard env) start run) :
    NothingLost (Runs.exec (step env) start run) :=
  (Runs.invariant (fun _ _ hs hg => inv_step hs hg) run (inv_of_fresh hfresh) hrun).sent

/-! ## Three devices -/

/-- A page with room for every row ends no group early. -/
theorem pageEndsGroup_of_length_le {log : ChangeLog} {since : Int} {n : Nat}
    (h : (versionsAbove log since).length ≤ n) : PageEndsGroup log since n := by
  intro m _ hm v _ _
  have hmn : n = m := by omega
  rw [← hmn, List.getElem?_eq_none h]
  exact (Option.some_ne_none v).symm

def startState : State := { db := Db.empty false, cursor := 0, delivered := [] }

/-- The device adds a work and its peer pulls it. -/
def addAndPull : List Action :=
  [.edit "2026-01-01 00:00:00" (.insert .work
      [("id", .blob (List.replicate 16 17)), ("title", .text "Dune")]),
    .pull 100]

/-- A change of a third device, at the given version. -/
def thirdDevice (version : Int) (h : minI64 ≤ version ∧ version ≤ maxI64) : SyncChange :=
  { id := 0, entityType := "work", entityId := "bbbbbbbbbbbbbbbbbbbbbbbbbbbbbbbb"
    operation := "DELETE", version, payload := "null", changedAt := "2026-01-01 00:00:01"
    deviceId := "phone", version_i64 := h }

/-- A change pushed above the peer's cursor is pulled next. -/
theorem nothingLost_above_cursor :
    Fresh startState ∧
    NothingLost (Runs.exec (step Env.reference) startState
      (addAndPull ++ [.push "2026-01-01 00:00:01" [thirdDevice 2 (by decide)], .pull 1])) := by
  have hfresh : Fresh startState := ⟨rfl, fun _ hr => by cases hr⟩
  refine ⟨hfresh, nothingLost_of_admitted Env.reference startState _ hfresh ?_⟩
  refine ⟨trivial, pageEndsGroup_of_length_le (n := 100) (by decide), ⟨?_, ?_⟩,
    pageEndsGroup_of_length_le (n := 1) (by decide), trivial⟩
  · intro _
    decide
  · intro _ _ _
    exact trivial

/-- A change pushed at the version the peer has already pulled is never sent to it. -/
theorem not_nothingLost_at_cursor :
    ¬ NothingLost (Runs.exec (step Env.reference) startState
      (addAndPull ++ [.push "2026-01-01 00:00:01" [thirdDevice 1 (by decide)]])) := by
  unfold NothingLost
  decide +kernel

end SyncCursor
