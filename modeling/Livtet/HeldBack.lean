import Livtet.Daemon
import Livtet.Lib.Runs

/-! # What a pull holds back

    A pull holds back the rows named by the offers of the SAME page. A row that
    names a book offered on an earlier page, and not accepted, is passed to
    `apply_changes` unless its own page carries an offer for it again. That is the
    only way such a row gets through, so nothing leaks exactly in the runs where it
    does not happen. -/

namespace SyncHeldBack

open JsonText SyncStore SyncEngine SyncOffers SyncDaemon Maps

variable {env : Env}

/-- The rows a step passes to `apply_changes` from a pulled page. -/
def passed (env : Env) (s : State) : Action → List SyncChange
  | .applyPage p _ =>
      match s.readyPage p with
      | some (_, page) => metadataRows env s.deviceId page.changes
      | none => []
  | _ => []

/-- Each row of the page that an unaccepted offer of an earlier page names comes with
    an offer of its own page that names it. -/
def PageCarriesOffers (env : Env) (s : State) (changes : List SyncChange) : Prop :=
  ∀ c ∈ changes, c.entityType ≠ "file_offer" → undecided s c.entityId = true →
    ∃ o ∈ pageOffers env s.deviceId changes, c.entityId ∈ offerRowIds o.2

def Guard (env : Env) (s : State) : Action → Prop
  | .applyPage p _ => ∀ pull page, s.readyPage p = some (pull, page) →
      PageCarriesOffers env s page.changes
  | _ => True

/-- A page lets nothing through exactly when it carries the offers again. -/
theorem filter_metadataRows_eq_nil {s : State} {changes : List SyncChange} :
    ((metadataRows env s.deviceId changes).filter fun c => undecided s c.entityId) = [] ↔
      PageCarriesOffers env s changes := by
  rw [List.filter_eq_nil_iff]
  constructor
  · intro h c hc htype hundecided
    by_contra hnone
    refine h c (mem_metadataRows.2 ⟨hc, htype, ?_⟩) hundecided
    intro o ho hin
    exact hnone ⟨o, ho, hin⟩
  · intro h c hc hundecided
    obtain ⟨hin, htype, hnot⟩ := mem_metadataRows.1 hc
    obtain ⟨o, ho, hid⟩ := h c hin htype hundecided
    exact hnot o ho hid

theorem leaked_applyPage {now : String} {p : Nat} {pull : Pull} {page : PullResponse} {s : State} :
    (applyPage env now p pull page s).leaked =
      s.leaked ++ (metadataRows env s.deviceId page.changes).filter
        fun c => undecided s c.entityId := by
  simp only [applyPage]
  split
  · rfl
  · split
    · rfl
    · rfl

/-- Everything a step adds to the leaked rows. -/
theorem leaked_step (s : State) (a : Action) :
    (step env s a).leaked =
      s.leaked ++ (passed env s a).filter fun c => undecided s c.entityId := by
  -- only the page that is applied can leak; the others pass no row
  have hsame : ∀ s' : State, s'.leaked = s.leaked →
      s'.leaked = s.leaked ++ ([] : List SyncChange).filter fun c => undecided s c.entityId := by
    intro s' h
    rw [h, List.filter_nil, List.append_nil]
  cases a with
  | applyPage p now =>
      simp only [step, passed]
      cases s.readyPage p with
      | none => exact hsame s rfl
      | some ready => exact leaked_applyPage
  | startPull p peer =>
      refine hsame _ ?_
      simp only [step]
      split <;> rfl
  | fetch p log =>
      refine hsame _ ?_
      simp only [step]
      split
      · simp only [SyncDaemon.fetch]
        split
        · split <;> rfl
        · rfl
      · rfl
  | lookupOffer p =>
      refine hsame _ ?_
      simp only [step]
      split <;> rfl
  | recordOffer p now =>
      refine hsame _ ?_
      simp only [step]
      split
      · simp only [SyncDaemon.recordOffer]
        split
        · rfl
        · split <;> rfl
      · rfl
  | finishPage p =>
      refine hsame _ ?_
      simp only [step]
      split
      · simp only [SyncDaemon.finishPage]
        split <;> rfl
      · rfl
  | failPull p => exact hsame _ rfl
  | crash => exact hsame _ rfl
  | _ => exact hsame _ (samePulls_step rfl).leaked

/-- A step lets nothing through exactly when it meets the condition. -/
theorem guard_iff (s : State) (a : Action) :
    Guard env s a ↔ ((passed env s a).filter fun c => undecided s c.entityId) = [] := by
  cases a with
  | applyPage p now =>
      simp only [Guard, passed]
      cases hready : s.readyPage p with
      | none => exact iff_of_true (fun _ _ h => by cases h) rfl
      | some ready =>
          refine Iff.trans ?_ filter_metadataRows_eq_nil.symm
          constructor
          · intro h
            exact h ready.1 ready.2 rfl
          · intro h pull page heq
            cases Option.some.inj heq
            exact h
  | _ => exact iff_of_true trivial rfl

/-- **NOTHING OF AN UNACCEPTED BOOK GETS THROUGH A PULL** exactly in the runs where
    every page that names it carries its offer. -/
theorem leaked_eq_nil_iff_admitted (env : Env) (start : State) (run : List Action)
    (hstart : start.leaked = []) :
    (Runs.exec (step env) start run).leaked = [] ↔
      Runs.Admitted (step env) (Guard env) start run := by
  -- what has leaked stays, so the first page that leaks decides
  have hmono : ∀ (run : List Action) (s : State), s.leaked ≠ [] →
      (Runs.exec (step env) s run).leaked ≠ [] := by
    intro run
    induction run with
    | nil => exact fun _ h => h
    | cons a rest ih =>
        intro s h
        refine ih _ ?_
        rw [leaked_step]
        exact List.append_ne_nil_of_left_ne_nil h _
  induction run generalizing start with
  | nil => exact iff_of_true hstart trivial
  | cons a rest ih =>
      have hstep : (step env start a).leaked =
          (passed env start a).filter fun c => undecided start c.entityId := by
        rw [leaked_step, hstart, List.nil_append]
      by_cases hguard : Guard env start a
      · have hrest := ih _ (hstep.trans ((guard_iff start a).1 hguard))
        exact ⟨fun h => ⟨hguard, hrest.1 h⟩, fun h => hrest.2 h.2⟩
      · have hne : (step env start a).leaked ≠ [] := by
          rw [hstep]
          exact fun h => hguard ((guard_iff start a).2 h)
        exact ⟨fun h => absurd h (hmono rest _ hne), fun h => absurd h.1 hguard⟩

/-! ## A book offered, and touched again -/

def inventoryId : String := "00000000000000000000000000000001"
def editionId : String := "00000000000000000000000000000002"
def workId : String := "00000000000000000000000000000003"

/-- The payload of an offer to the laptop. -/
def offerText : String :=
  "\x7b\"offer_id\":\"01J00000000000000000000000\",\"inventory_id\":\"00000000000000000000000000000001\"," ++
    "\"edition_id\":\"00000000000000000000000000000002\",\"work_id\":\"00000000000000000000000000000003\"," ++
    "\"to_device_id\":\"laptop\"\x7d"

/-- The offer, and the rows of its inventory, edition and work that `offer_book`
    touches. -/
def offeredLog : ChangeLog :=
  let offered := (logOffer "2026-01-01 00:00:00" "phone" inventoryId offerText
    ChangeLog.empty).toOption.getD ChangeLog.empty
  let inventory := offered.logLocal "2026-01-01 00:00:00" "digital_inventory" inventoryId "UPDATE"
    "\x7b\"id\":\"00000000000000000000000000000001\"\x7d"
  let edition := inventory.logLocal "2026-01-01 00:00:00" "edition" editionId "UPDATE"
    "\x7b\"id\":\"00000000000000000000000000000002\"\x7d"
  edition.logLocal "2026-01-01 00:00:00" "work" workId "UPDATE"
    "\x7b\"id\":\"00000000000000000000000000000003\"\x7d"

/-- The same log after the sender edited the work once more. -/
def touchedLog : ChangeLog :=
  offeredLog.logLocal "2026-01-01 00:00:01" "work" workId "UPDATE"
    "\x7b\"id\":\"00000000000000000000000000000003\",\"title\":\"Dune\"\x7d"

def startState : State where
  deviceId := "laptop"
  db := Db.empty false
  offers := ∅
  cursors := ∅
  writeGate := none
  pulls := ∅
  calls := ∅
  recorded := []
  leaked := []
  applied := []

/-- A whole pull of a log whose page has one offer. -/
def pullOffer (log : ChangeLog) : List Action :=
  [.startPull 0 "phone", .fetch 0 log, .applyPage 0 "2026-01-01 00:00:02", .lookupOffer 0,
    .recordOffer 0 "2026-01-01 00:00:02", .finishPage 0]

/-- The pull of the offer holds its rows back. -/
theorem admitted_pullOffer :
    startState.leaked = [] ∧
    Runs.Admitted (step Env.reference) (Guard Env.reference) startState (pullOffer offeredLog) :=
  ⟨rfl, (leaked_eq_nil_iff_admitted Env.reference startState (pullOffer offeredLog) rfl).1
    (by decide +kernel)⟩

/-- The next pull passes the work's new row on while the offer is still pending. -/
theorem leaked_next_pull :
    (Runs.exec (step Env.reference) startState (pullOffer offeredLog ++
      [.startPull 0 "phone", .fetch 0 touchedLog, .applyPage 0 "2026-01-01 00:00:03"])).leaked
      ≠ [] := by
  decide +kernel

end SyncHeldBack
