import Livtet.Applied
import Livtet.Cursor
import Livtet.Lib.Runs

/-! # Two devices that pull from each other

    Each device has a cursor into the other's log and pages it has fetched but not
    applied yet. Local edits, fetches and deliveries happen in any order. A change that
    comes back to the device it was made on is logged once more, at its old version.

    As long as no page is cut inside a version, no update moves a row to another key,
    and no change meets another change of its entity at its version, or another
    entity's row, each log covers the other up to the cursor. So once both cursors have
    arrived and no conflict is open, the devices hold the same. -/

namespace SyncConvergence

open SqlRows SyncSchema SyncStore SyncEngine SyncWire SyncContents SyncApplied SyncCursor
open SyncPaging Replicas

/-! ## The devices -/

inductive Side
  | left
  | right
deriving DecidableEq, Repr

def Side.other : Side → Side
  | .left => .right
  | .right => .left

theorem Side.other_ne (side : Side) : side.other ≠ side := by
  cases side <;> decide

theorem Side.other_other (side : Side) : side.other.other = side := by
  cases side <;> rfl

theorem Side.eq_or_eq_other (a b : Side) : a = b ∨ a = b.other := by
  cases a <;> cases b <;> decide

structure Device where
  db : Db
  /-- The cursor into the other device's log. -/
  cursor : Int
  /-- Pages that were fetched and not applied yet. -/
  pages : List PullResponse

abbrev Devices := Side → Device

inductive Action
  | edit (side : Side) (now : String) (edit : LocalEdit)
  | fetch (side : Side) (limit : Int)
  | deliver (side : Side) (page : Nat) (now : String)

/-- One step. A failed write is rolled back, and the page of a failed apply is lost:
    the cursor stays, so a later fetch reads the rows again. -/
def step (env : Env) (s : Devices) : Action → Devices
  | .edit side now edit =>
      match localEdit env now edit (s side).db with
      | .ok db => Function.update s side { s side with db }
      | .error _ => s
  | .fetch side limit =>
      Function.update s side
        { s side with
          pages := (s side).pages ++
            [pullChanges env (s side.other).db.log (s side).cursor limit] }
  | .deliver side i now =>
      match (s side).pages[i]? with
      | none => s
      | some page =>
          match applyChanges env now page.changes {} (s side).db with
          | .ok (_, db) =>
              Function.update s side
                { db, cursor := page.latestVersion, pages := (s side).pages.eraseIdx i }
          | .error _ => Function.update s side { s side with pages := (s side).pages.eraseIdx i }

/-! ## What is promised, and when -/

/-- The devices hold the same entities, with the same emitted values. -/
def SameEntities (a b : Db) : Prop :=
  ∀ k v, (∃ x ∈ (a.tables k).rows, emittedValues k x.val = v) ↔
    ∃ x ∈ (b.tables k).rows, emittedValues k x.val = v

/-- Both cursors have arrived, and no conflict is open. -/
structure Settled (s : Devices) : Prop where
  arrived : ∀ side, (s side).cursor = getLatestVersion (s side.other).db.log
  resolved : ∀ side, ∀ r ∈ (s side).db.conflicts.rows, r.resolved = true

/-- Identical tables and empty logs, on connections that do not enforce foreign keys
    and whose triggers write. -/
structure Started (s : Devices) : Prop where
  tables : (s .left).db.tables = (s .right).db.tables
  log : ∀ side, (s side).db.log.rows = []
  auditing : ∀ side, Auditing (s side).db
  clean : ∀ side, Clean (s side).db
  cursor : ∀ side, (s side).cursor = 0
  pages : ∀ side, (s side).pages = []

/-- An edit keeps keys and writes ids of sixteen bytes; a page ends with its version;
    a change meets no other change of its version and no other entity's row. -/
def Guard (env : Env) (s : Devices) : Action → Prop
  | .edit side now edit => (s side).db.log.maxVersion < maxI64 ∧ KeyKept edit ∧
      ∀ db, localEdit env now edit (s side).db = .ok db → Clean db
  | .fetch side limit => PageEndsGroup (s side.other).db.log (s side).cursor limit
  | .deliver side i now => ∀ page, (s side).pages[i]? = some page →
      Uncontested env now (sortByRank page.changes) (s side).db

/-! ## The invariant -/

/-- A fetched page, between the log it was read from and the device that holds it. -/
structure PageOk (env : Env) (source target : Db) (page : PullResponse) : Prop where
  fits : Fits (entries env source.log) (entries env target.log)
    (page.changes.map (sentEntry env)) page.latestVersion
  sent : ∀ c ∈ page.changes, Sent env c
  last_le : page.latestVersion ≤ source.log.maxVersion

structure Alive (env : Env) (base : String × String → Option (List Value)) (s : Devices) :
    Prop where
  device : ∀ side, Consistent env base (s side).db
  safe : ∀ side, Safe (entries env (s side.other).db.log) (entries env (s side).db.log)
    (s side).cursor
  cursor_le : ∀ side, (s side).cursor ≤ (s side.other).db.log.maxVersion
  pages : ∀ side, ∀ page ∈ (s side).pages, PageOk env (s side.other).db (s side).db page

/-- A conflict is open, or everything is in order. -/
def Inv (env : Env) (base : String × String → Option (List Value)) (s : Devices) : Prop :=
  (∃ side, HasConflict (s side).db) ∨ Alive env base s

variable {env : Env} {base : String × String → Option (List Value)} {s : Devices}

/-! ## A device grows -/

/-- The log of a device grows: its own rows stay, and what is new is above everything
    the other device has read of it, or came from the other device. -/
structure Grown (env : Env) (db db' other : Db) : Prop where
  kept : ∀ x ∈ entries env db.log, x ∈ entries env db'.log
  new : ∀ x ∈ entries env db'.log, x ∈ entries env db.log ∨
    (∀ v, v ≤ db.log.maxVersion → v ≤ maxI64 → v < x.version) ∨ x ∈ entries env other.log
  max_le : db.log.maxVersion ≤ db'.log.maxVersion

/-- What the other device has read stays safe when this one grows. -/
theorem Grown.safe {db db' other : Db} (h : Grown env db db' other) {cursor : Int}
    (hle : cursor ≤ db.log.maxVersion) (hi : cursor ≤ maxI64)
    (hsafe : Safe (entries env db.log) (entries env other.log) cursor) :
    Safe (entries env db'.log) (entries env other.log) cursor := by
  refine hsafe.grow (fun _ hy => hy) fun x hx => ?_
  rcases h.new x hx with hold | habove | hcame
  · exact Or.inl hold
  · exact Or.inr (Or.inl (habove cursor hle hi))
  · exact Or.inr (Or.inr (Covered.of_mem hcame))

theorem Grown.pageOk_source {db db' other : Db} (h : Grown env db db' other) {page : PullResponse}
    (hi : page.latestVersion ≤ maxI64) (hpage : PageOk env db other page) :
    PageOk env db' other page where
  fits := by
    refine hpage.fits.grow h.kept (fun _ hy => hy) fun x hx => ?_
    rcases h.new x hx with hold | habove | hcame
    · exact Or.inl hold
    · exact Or.inr (Or.inl (habove _ hpage.last_le hi))
    · exact Or.inr (Or.inr (Covered.of_mem hcame))
  sent := hpage.sent
  last_le := le_trans hpage.last_le h.max_le

theorem Grown.pageOk_target {db db' other : Db} (h : Grown env db db' other) {page : PullResponse}
    (hpage : PageOk env other db page) : PageOk env other db' page where
  fits := hpage.fits.grow (fun _ hx => hx) h.kept fun _ hx => Or.inl hx
  sent := hpage.sent
  last_le := hpage.last_le

/-- One device grows: everything stays in order if its cursor and its new pages are. -/
theorem Alive.grow (h : Alive env base s) {side : Side} {device : Device}
    (hgrown : Grown env (s side).db device.db (s side.other).db)
    (hconsistent : Consistent env base device.db)
    (hsafe : Safe (entries env (s side.other).db.log) (entries env device.db.log) device.cursor)
    (hcursor : device.cursor ≤ (s side.other).db.log.maxVersion)
    (hpages : ∀ page ∈ device.pages, page ∈ (s side).pages ∨
      PageOk env (s side.other).db device.db page) :
    Alive env base (Function.update s side device) := by
  -- each part speaks of one side and what it has from the other, so there are two cases
  have hself : Function.update s side device side = device := Function.update_self ..
  have hother : Function.update s side device side.other = s side.other :=
    Function.update_of_ne side.other_ne ..
  have hrange := maxVersion_le_maxI64 (h.device side).inRange
  constructor
  · intro side'
    rcases side'.eq_or_eq_other side with rfl | rfl
    · rw [hself]
      exact hconsistent
    · rw [hother]
      exact h.device _
  · intro side'
    rcases side'.eq_or_eq_other side with rfl | rfl
    · rw [hself, hother]
      exact hsafe
    · rw [Side.other_other, hself, hother]
      have hle := h.cursor_le side.other
      have hold := h.safe side.other
      rw [Side.other_other] at hle hold
      exact hgrown.safe hle (le_trans hle hrange) hold
  · intro side'
    rcases side'.eq_or_eq_other side with rfl | rfl
    · rw [hself, hother]
      exact hcursor
    · rw [Side.other_other, hself, hother]
      have hle := h.cursor_le side.other
      rw [Side.other_other] at hle
      exact le_trans hle hgrown.max_le
  · intro side'
    rcases side'.eq_or_eq_other side with rfl | rfl
    · rw [hself, hother]
      intro page hpage
      rcases hpages page hpage with hold | hnew
      · exact hgrown.pageOk_target (h.pages _ page hold)
      · exact hnew
    · rw [Side.other_other, hself, hother]
      intro page hpage
      have hold := h.pages side.other page hpage
      rw [Side.other_other] at hold
      exact hgrown.pageOk_source (le_trans hold.last_le hrange) hold

theorem Grown.refl (db other : Db) : Grown env db db other where
  kept _ hx := hx
  new _ hx := Or.inl hx
  max_le := le_refl _

/-! ## The steps -/

section Steps

variable {now : String} {db db' other : Db}

theorem entries_logLocal (env : Env) (log : ChangeLog)
    (now entityType entityId operation payload : String) :
    entries env (log.logLocal now entityType entityId operation payload) =
      entries env log ++
        [{ entity := (entityType, entityId), version := log.nextVersion
           body := bodyOf env entityType operation payload }] := by
  rw [entries, ChangeLog.logLocal_rows, List.map_append]
  rfl

theorem consistent_edit (hdb : Consistent env base db) {edit : LocalEdit}
    (hmax : db.log.maxVersion < maxI64) (hkept : KeyKept edit) (hclean : Clean db')
    (h : localEdit env now edit db = .ok db') (other : Db) :
    Consistent env base db' ∧ Grown env db db' other := by
  have haudit := hdb.auditing.of_echoed (Echoed.localEdit h)
  rcases localEdit_effect hdb.auditing hdb.clean hclean hkept h with ⟨hlog, hcontent⟩ |
    ⟨e, operation, payload, hdid⟩
  · -- nothing was logged, and no entity changed
    constructor
    · refine ⟨haudit, hclean, ?_, ?_⟩
      · rw [hlog]
        exact hdb.rows
      · rw [hlog, hcontent]
        exact hdb.reflects
    · refine ⟨?_, ?_, ?_⟩ <;> rw [hlog]
      · exact fun _ hx => hx
      · exact fun _ hx => Or.inl hx
  · have hentries := entries_logLocal env db.log now e.1 e.2 operation payload
    rw [← hdid.log] at hentries
    -- below the range of INTEGER the next version is the next number
    have hnext : db.log.nextVersion = db.log.maxVersion + 1 := by
      have hreal : maxI64 < realVersion := by decide
      rw [ChangeLog.nextVersion]
      omega
    have hold : ∀ y ∈ entries env db.log, y.version < db.log.nextVersion := by
      intro y hy
      obtain ⟨r, hr, rfl⟩ := List.mem_map.1 hy
      have hle : r.version ≤ db.log.maxVersion := ChangeLog.version_le_maxVersion hr
      show r.version < _
      omega
    have hnonneg := hdb.max_nonneg
    constructor
    · refine ⟨haudit, hclean, ?_, ?_⟩
      · intro r hr
        rw [hdid.log, ChangeLog.logLocal_rows] at hr
        rcases List.mem_append.1 hr with hr | hr
        · exact hdb.rows r hr
        · cases List.mem_singleton.1 hr
          refine ⟨hdid.shaped, rfl, ?_, ?_⟩
          · show 0 < db.log.nextVersion
            omega
          · show db.log.nextVersion ≤ maxI64
            omega
      · rw [hentries]
        refine hdb.reflects.append ?_ hdid.here hdid.others
        intro y hy _
        have hlt := hold y hy
        exact ⟨le_of_lt hlt, fun heq => absurd heq (ne_of_lt hlt)⟩
    · refine ⟨?_, ?_, ?_⟩
      · intro x hx
        rw [hentries]
        exact List.mem_append_left _ hx
      · intro x hx
        rw [hentries] at hx
        rcases List.mem_append.1 hx with hx | hx
        · exact Or.inl hx
        · cases List.mem_singleton.1 hx
          exact Or.inr (Or.inl fun v hv hi => ChangeLog.lt_nextVersion hv hi)
      · rw [hdid.log]
        exact ChangeLog.maxVersion_le_logLocal _ _ _ _ _ _

theorem sentEntry_of_toSyncChange {r : ChangeRow} {c : SyncChange} (h : toSyncChange r = some c) :
    sentEntry env c = rowEntry env r := by
  rw [toSyncChange] at h
  split at h
  · cases h
  · split at h
    · cases Option.some.inj h
      rfl
    · cases h

/-- A page that ends with its version holds everything between the cursor and its
    end. -/
theorem pageOk_fetch (hsource : Consistent env base db) {cursor limit : Int}
    (hsafe : Safe (entries env db.log) (entries env other.log) cursor)
    (hcursor : cursor ≤ db.log.maxVersion) (hends : PageEndsGroup db.log cursor limit) :
    PageOk env db other (pullChanges env db.log cursor limit) := by
  -- all that a page tells is of rows of the log
  have hrows : ∀ c ∈ (pullChanges env db.log cursor limit).changes,
      ∃ r ∈ db.log.rows, toSyncChange r = some c := by
    intro c hc
    obtain ⟨r, hr, hdecode⟩ := List.mem_filterMap.1 hc
    have hvisit := (env.asc.perm _ _).mem_iff.1 (SortedPages.mem_of_mem_limited hr)
    exact ⟨r, List.mem_of_mem_filter hvisit, hdecode⟩
  refine ⟨hsafe.fetch ?_ ?_, ?_, ?_⟩
  · intro x hx
    obtain ⟨c, hc, rfl⟩ := List.mem_map.1 hx
    obtain ⟨r, hr, hdecode⟩ := hrows c hc
    rw [sentEntry_of_toSyncChange hdecode]
    exact List.mem_map_of_mem hr
  · intro x hx hlt hle
    obtain ⟨r, hr, rfl⟩ := List.mem_map.1 hx
    obtain ⟨c, hc, hdecode⟩ := mem_changes_of_le hends hr (hsource.rows r hr).device hlt hle
    rw [← sentEntry_of_toSyncChange hdecode]
    exact List.mem_map_of_mem hc
  · intro c hc
    obtain ⟨r, hr, hdecode⟩ := hrows c hc
    have hr := hsource.rows r hr
    have hversion := version_of_toSyncChange hdecode
    rw [toSyncChange] at hdecode
    split at hdecode
    · cases hdecode
    · split at hdecode
      · cases Option.some.inj hdecode
        exact ⟨hr.shaped, hr.positive⟩
      · cases hdecode
  · rcases latestVersion_cases env limit db.log cursor with ⟨_, hlatest⟩ | ⟨_, _, hlatest, hmax, _⟩
    · rw [hlatest]
      exact hcursor
    · rw [hlatest]
      exact hmax

/-- A page that was applied without a conflict has grown the log by what it held. -/
theorem grown_deliver (hdb : Consistent env base db) {page : PullResponse}
    (hpage : PageOk env other db page)
    (huncontested : Uncontested env now (sortByRank page.changes) db) {outcome : ApplyOutcome}
    (h : applyChanges env now page.changes {} db = .ok (outcome, db')) :
    HasConflict db' ∨ (Consistent env base db' ∧ Grown env db db' other ∧
      Safe (entries env other.log) (entries env db'.log) page.latestVersion) := by
  have hmem : ∀ c, c ∈ sortByRank page.changes ↔ c ∈ page.changes :=
    fun c => (List.perm_insertionSort _ _).mem_iff
  rcases applyOrdered_consistent (sortByRank page.changes) _ _ hdb
    (fun c hc => hpage.sent c ((hmem c).1 hc)) huncontested h with hconflict | ⟨hdb', hentries⟩
  · exact Or.inl hconflict
  · have hkept : ∀ x ∈ entries env db.log, x ∈ entries env db'.log := by
      intro x hx
      rw [hentries]
      exact List.mem_append_left _ hx
    refine Or.inr ⟨hdb', ⟨hkept, ?_, ?_⟩, hpage.fits.deliver hkept ?_⟩
    · intro x hx
      rw [hentries] at hx
      rcases List.mem_append.1 hx with hx | hx
      · exact Or.inl hx
      · obtain ⟨c, hc, rfl⟩ := List.mem_map.1 hx
        exact Or.inr (Or.inr (hpage.fits.listed _ (List.mem_map_of_mem ((hmem c).1 hc))))
    · refine ChangeLog.maxVersion_le hdb'.max_nonneg fun r hr => ?_
      obtain ⟨r', hr', heq⟩ := List.mem_map.1 (hkept _ (List.mem_map_of_mem hr))
      have hversion : r'.version = r.version := congrArg Entry.version heq
      rw [← hversion]
      exact ChangeLog.version_le_maxVersion hr'
    · intro x hx
      obtain ⟨c, hc, rfl⟩ := List.mem_map.1 hx
      rw [hentries]
      exact List.mem_append_right _ (List.mem_map_of_mem ((hmem c).2 hc))

end Steps

/-! ## Whole runs -/

/-- An open conflict stays open. -/
theorem hasConflict_step {a : Action} (h : ∃ side, HasConflict (s side).db) :
    ∃ side, HasConflict (step env s a side).db := by
  obtain ⟨side, hside⟩ := h
  refine ⟨side, ?_⟩
  -- a step is of one device, and the other is as before
  have hupdate : ∀ side' (device : Device), (HasConflict (s side').db → HasConflict device.db) →
      HasConflict (Function.update s side' device side).db := by
    intro side' device hkeep
    by_cases heq : side = side'
    · subst heq
      rw [Function.update_self]
      exact hkeep hside
    · rw [Function.update_of_ne heq]
      exact hside
  cases a with
  | edit side' now edit =>
      cases hok : localEdit env now edit (s side').db with
      | error e =>
          simp only [step, hok]
          exact hside
      | ok db =>
          simp only [step, hok]
          refine hupdate side' _ ?_
          rintro ⟨r, hr, hopen⟩
          refine ⟨r, ?_, hopen⟩
          rw [(Echoed.localEdit hok).conflicts]
          exact hr
  | fetch side' limit => exact hupdate side' _ fun hopen => hopen
  | deliver side' i now =>
      cases hpage : (s side').pages[i]? with
      | none =>
          simp only [step, hpage]
          exact hside
      | some page =>
          cases happly : applyChanges env now page.changes {} (s side').db with
          | error e =>
              simp only [step, hpage, happly]
              exact hupdate side' _ fun hopen => hopen
          | ok result =>
              simp only [step, hpage, happly]
              exact hupdate side' _ fun hopen =>
                hasConflict_applyOrdered (sortByRank page.changes) ({}, _) result hopen happly

theorem inv_step {a : Action} (h : Inv env base s) (hguard : Guard env s a) :
    Inv env base (step env s a) := by
  rcases h with hconflict | h
  · -- a conflict once open excuses every later state
    exact Or.inl (hasConflict_step hconflict)
  cases a with
  | edit side now edit =>
      simp only [step]
      split
      · next db hok =>
          obtain ⟨hmax, hkept, hclean⟩ := hguard
          obtain ⟨hdb, hgrown⟩ := consistent_edit (h.device side) hmax hkept (hclean db hok) hok
            (s side.other).db
          refine Or.inr (h.grow hgrown hdb ?_ (h.cursor_le side) fun page hpage => Or.inl hpage)
          exact (h.safe side).grow hgrown.kept fun x hx => Or.inl hx
      · exact Or.inr h
  | fetch side limit =>
      refine Or.inr (h.grow (Grown.refl _ _) (h.device side) (h.safe side) (h.cursor_le side) ?_)
      intro page hpage
      rcases List.mem_append.1 hpage with hpage | hpage
      · exact Or.inl hpage
      · cases List.mem_singleton.1 hpage
        exact Or.inr (pageOk_fetch (h.device side.other) (h.safe side) (h.cursor_le side) hguard)
  | deliver side i now =>
      simp only [step]
      split
      · exact Or.inr h
      next page hpage =>
        have hok := h.pages side page (List.mem_of_getElem? hpage)
        split
        · next outcome db happly =>
            rcases grown_deliver (h.device side) hok (hguard page hpage) happly with
              hconflict | ⟨hdb, hgrown, hsafe⟩
            · refine Or.inl ⟨side, ?_⟩
              rw [Function.update_self]
              exact hconflict
            · refine Or.inr (h.grow hgrown hdb hsafe hok.last_le fun page hpage => Or.inl ?_)
              exact List.mem_of_mem_eraseIdx hpage
        · refine Or.inr (h.grow (Grown.refl _ _) (h.device side) (h.safe side)
            (h.cursor_le side) fun page hpage => Or.inl ?_)
          exact List.mem_of_mem_eraseIdx hpage

theorem alive_of_started (h : Started s) :
    Alive env (content env (s .left).db) s := by
  have hentries : ∀ side, entries env (s side).db.log = [] := by
    intro side
    rw [entries, h.log side]
    rfl
  have hmax : ∀ side, (s side).db.log.maxVersion = 0 := by
    intro side
    rw [ChangeLog.maxVersion, ChangeLog.maxVersion?, h.log side]
    rfl
  have hbase : ∀ side, content env (s side).db = content env (s .left).db := by
    intro side
    cases side with
    | left => rfl
    | right =>
        funext e
        simp only [content, h.tables]
  refine ⟨?_, ?_, ?_, ?_⟩
  · intro side
    refine ⟨h.auditing side, h.clean side, ?_, ?_⟩
    · intro r hr
      rw [h.log side] at hr
      cases hr
    · rw [hentries, hbase side]
      exact reflects_nil _
  · intro side x hx
    rw [hentries] at hx
    cases hx
  · intro side
    rw [h.cursor side, hmax]
  · intro side page hpage
    rw [h.pages side] at hpage
    cases hpage

theorem getLatestVersion_eq {log : ChangeLog} (h : InRange log) :
    getLatestVersion log = log.maxVersion := by
  have hlow := log.maxVersion_bounds.1
  have hhigh := maxVersion_le_maxI64 h
  rw [ChangeLog.maxVersion] at hlow hhigh ⊢
  rw [getLatestVersion]
  cases hm : log.maxVersion? with
  | none => rfl
  | some m =>
      rw [hm] at hlow hhigh
      rw [Option.bind_some, asI64?, if_pos ⟨hlow, hhigh⟩]

/-- A cursor that has arrived covers the whole log. -/
theorem covered_of_arrived (h : Alive env base s) {side : Side}
    (harrived : (s side).cursor = getLatestVersion (s side.other).db.log) :
    ∀ x ∈ entries env (s side.other).db.log, Covered (entries env (s side).db.log) x := by
  intro x hx
  refine h.safe side x hx ?_
  rw [harrived, getLatestVersion_eq (h.device side.other).inRange]
  obtain ⟨r, hr, rfl⟩ := List.mem_map.1 hx
  exact ChangeLog.version_le_maxVersion hr

/-- Devices with the same contents hold the same entities. -/
theorem rows_of_content {a b : Db} (ha : Clean a) (hb : Clean b)
    (h : content env a = content env b) {k : SyncableEntityKind} {v : List Value}
    (hv : ∃ x ∈ (a.tables k).rows, emittedValues k x.val = v) :
    ∃ x ∈ (b.tables k).rows, emittedValues k x.val = v := by
  obtain ⟨x, hx, hvalues⟩ := hv
  have hsome : (triggerEntityId env k x.val).isSome := entityId_isSome x.property
  obtain ⟨i, hi⟩ := Option.isSome_iff_exists.1 hsome
  have hcontent := congrFun h (k.entityTypeName, i)
  simp only [content, k.entityTypeToTable_name] at hcontent
  rw [(contentOf_eq_some_iff (ha k)).2 ⟨x, hx, hi, hvalues⟩] at hcontent
  obtain ⟨y, hy, _, hyvalues⟩ := (contentOf_eq_some_iff (hb k)).1 hcontent.symm
  exact ⟨y, hy, hyvalues⟩

/-- A delete leaves no new ids behind. -/
theorem clean_delete {now : String} {db db' : Db} (hdb : Auditing db) (hclean : Clean db)
    {k : SyncableEntityKind} {key : Row} (h : localEdit env now (.delete k key) db = .ok db') :
    Clean db' := by
  rcases deleteFrom_same_eq_ok hdb h with ⟨_, rfl⟩ | ⟨old, _, _, _, _, haudit⟩
  · exact hclean
  · exact clean_of_tables hclean haudit.tables fun y hy => hclean k y (List.mem_of_mem_filter hy)

/-- Deletes meet nothing but deletes where nothing else was logged. -/
theorem uncontested_delete {now : String} {db : Db} {changes : List SyncChange}
    (hlen : changes.length = 1) (hdelete : ∀ c ∈ changes, c.operation = "DELETE")
    (hrows : ∀ r ∈ db.log.rows, r.operation = "DELETE") :
    Uncontested env now (sortByRank changes) db := by
  obtain ⟨c, rfl⟩ := List.length_eq_one_iff.1 hlen
  have hc := hdelete c List.mem_cons_self
  refine ⟨⟨?_, ?_⟩, fun _ _ _ => trivial⟩
  · intro r hr _ _ _
    exact ⟨iff_of_true (hrows r hr) hc, fun hne => absurd hc hne⟩
  · intro k _ hne
    exact absurd hc hne

def shelfKey : Row := overlay (fun _ => .null) [("id", .blob (List.replicate 16 1))]

/-- One reading list, and nothing logged. -/
def shelf : Db :=
  { (localEdit Env.reference "2026" (.insert .readingList
        [("id", .blob (List.replicate 16 1)), ("name", .text "A")])
      (Db.empty false)).toOption.getD (Db.empty false) with log := ChangeLog.empty }

def shelves : Devices := fun _ => { db := shelf, cursor := 0, pages := [] }

/-- A value that is no id of another length. -/
def sixteen : Value → Bool
  | .blob b => decide (b.length = 16)
  | _ => true

theorem clean_shelf : Clean shelf := by
  have hids : ∀ k : SyncableEntityKind, ∀ x ∈ (shelf.tables k).rows, ∀ c ∈ k.emitted,
      sixteen (x.val c) = true := by decide
  intro k x hx
  refine ⟨x.property, fun c hc b hb => ?_⟩
  have hsixteen := hids k x hx c hc
  rw [hb] at hsixteen
  exact of_decide_eq_true hsixteen

theorem started_shelves : Started shelves where
  tables := rfl
  log _ := rfl
  auditing _ := ⟨rfl, show shelf.syncApply.getD "0" ≠ "1" by decide⟩
  clean _ := clean_shelf
  cursor _ := rfl
  pages _ := rfl

/-- The list is deleted on the left, and both devices pull. -/
def deleteRun : List Action :=
  [.edit .left "2026" (.delete .readingList shelfKey), .fetch .right 100, .deliver .right 0 "2026",
    .fetch .left 100, .deliver .left 0 "2026"]

/-- Where a run from the two shelves ends. -/
abbrev reached (run : List Action) : Devices := Runs.exec (step Env.reference) shelves run

/-- A delivery of one delete, where the log holds deletes alone, meets the guard. -/
theorem guard_deliver {now : String} {side : Side}
    (h : ∀ page ∈ (s side).pages, page.changes.length = 1 ∧
      ∀ c ∈ page.changes, c.operation = "DELETE")
    (hrows : ∀ r ∈ (s side).db.log.rows, r.operation = "DELETE") (i : Nat) :
    Guard env s (.deliver side i now) := by
  intro page hpage
  obtain ⟨hlen, hdelete⟩ := h page (List.mem_of_getElem? hpage)
  exact uncontested_delete hlen hdelete hrows

/-- The list is renamed on both sides before either pulls. -/
def swapRun : List Action :=
  [.edit .left "2026" (.update .readingList shelfKey [("name", .text "B")]),
    .edit .right "2026" (.update .readingList shelfKey [("name", .text "C")]),
    .fetch .left 100, .fetch .right 100, .deliver .left 0 "2026", .deliver .right 0 "2026"]

end SyncConvergence
