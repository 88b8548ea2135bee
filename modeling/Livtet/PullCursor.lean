import Livtet.Lib.Runs
import Livtet.Daemon
import Livtet.Paging

/-! # The stored pull cursor

    Passes against one peer can overlap: each reads the stored cursor when it
    starts, fetches pages without the write gate, and stores its own cursor after
    each page. Nothing compares it with what is stored by then.

    So a pass can be overtaken: while it holds a page, another pass stores a later
    cursor, and its own store moves the cursor back. Passes that do not overlap are
    never overtaken, because a page never ends before it begins. -/

namespace SyncPullCursor

open SyncStore SyncEngine SyncOffers SyncDaemon SyncPaging Maps

/-- The stored cursors of the second state are at or past those of the first. -/
def NotBefore (s s' : State) : Prop :=
  ∀ peer v, s.cursors.lookup peer = some v → ∃ v', s'.cursors.lookup peer = some v' ∧ v ≤ v'

/-- In a run no stored cursor ever moves backwards. -/
def NeverBack (env : Env) (start : State) (run : List Action) : Prop :=
  ∀ pre mid, pre <+: mid → mid <+: run →
    NotBefore (Runs.exec (step env) start pre) (Runs.exec (step env) start mid)

/-- Another pass has stored a later cursor than the end of this page. -/
def Overtaken (s : State) (peer : String) (page : PullResponse) : Prop :=
  ∃ v, s.cursors.lookup peer = some v ∧ page.latestVersion < v

/-- A pass that stores its cursor was not overtaken. A page that holds nothing for this
    device is stored as soon as it is fetched. -/
def Guard (env : Env) (s : State) : Action → Prop
  | .fetch p log => ∀ peer cursor, s.pulls.lookup p = some ⟨peer, cursor, .looping⟩ →
      (changesFor env log cursor s.deviceId).changes = [] →
      (changesFor env log cursor s.deviceId).hasMore = true →
      ¬ Overtaken s peer (changesFor env log cursor s.deviceId)
  | .finishPage p => ∀ peer cursor page,
      s.pulls.lookup p = some ⟨peer, cursor, .recording page [] none⟩ → ¬ Overtaken s peer page
  | _ => True

variable {env : Env}

theorem notBefore_refl (s : State) : NotBefore s s := fun _ v h => ⟨v, h, le_refl v⟩

theorem notBefore_trans (s t u : State) (h : NotBefore s t) (h' : NotBefore t u) :
    NotBefore s u := by
  intro peer v hv
  obtain ⟨v', hv', hle⟩ := h peer v hv
  obtain ⟨v'', hv'', hle'⟩ := h' peer v' hv'
  exact ⟨v'', hv'', le_trans hle hle'⟩

theorem notBefore_of_eq {s s' : State} (h : s'.cursors = s.cursors) : NotBefore s s' := by
  intro peer v hv
  exact ⟨v, by rw [h, hv], le_refl v⟩

/-- Storing a cursor keeps the order exactly if no later one is stored. -/
theorem notBefore_insert_iff {s s' : State} {peer : String} {page : PullResponse}
    (h : s'.cursors = s.cursors.insert peer page.latestVersion) :
    NotBefore s s' ↔ ¬ Overtaken s peer page := by
  constructor
  · rintro hkeep ⟨v, hv, hlt⟩
    obtain ⟨v', hv', hle⟩ := hkeep peer v hv
    rw [h, AList.lookup_insert] at hv'
    cases Option.some.inj hv'
    omega
  · intro hnot other v hv
    rw [h]
    by_cases hother : other = peer
    · subst hother
      refine ⟨page.latestVersion, AList.lookup_insert _, ?_⟩
      by_contra hlt
      exact hnot ⟨v, hv, by omega⟩
    · exact ⟨v, by rw [AList.lookup_insert_ne hother, hv], le_refl v⟩

/-! ## What a step does to the stored cursors -/

theorem cursors_finishPage {s : State} {p : Nat} {pull : Pull} {page : PullResponse} :
    (finishPage p pull page s).cursors = s.cursors.insert pull.peer page.latestVersion := by
  rw [finishPage]
  split <;> rfl

theorem cursors_applyPage {s : State} {now : String} {p : Nat} {pull : Pull} {page : PullResponse} :
    (applyPage env now p pull page s).cursors = s.cursors := by
  rw [applyPage]
  dsimp only
  split
  · rfl
  split <;> rfl

theorem cursors_recordOffer {s : State} {now : String} {p : Nat} {pull : Pull} {page : PullResponse}
    {offer : SyncChange × JsonText.Json} {rest : List (SyncChange × JsonText.Json)}
    {found : Option InboundOffer} :
    (recordOffer env now p pull page offer rest found s).cursors = s.cursors := by
  rw [recordOffer]
  split
  · rfl
  split <;> rfl

/-- A step that is no store of a pass leaves every cursor. -/
theorem cursors_step {s : State} {a : Action} (hfetch : ∀ p log, a ≠ .fetch p log)
    (hfinish : ∀ p, a ≠ .finishPage p) : (step env s a).cursors = s.cursors := by
  cases a with
  | startPull p peer =>
      simp only [step]
      split <;> rfl
  | fetch p log => exact absurd rfl (hfetch p log)
  | applyPage p now =>
      simp only [step]
      split
      · exact cursors_applyPage
      · rfl
  | lookupOffer p =>
      simp only [step]
      split <;> rfl
  | recordOffer p now =>
      simp only [step]
      split
      · exact cursors_recordOffer
      · rfl
  | finishPage p => exact absurd rfl (hfinish p)
  | failPull p => rfl
  | crash => rfl
  | _ => exact (samePulls_step rfl).cursors

theorem notBefore_fetch_iff (s : State) (p : Nat) (peer : String) (cursor : Int) (log : ChangeLog) :
    NotBefore s (fetch env p ⟨peer, cursor, .looping⟩ log s) ↔
      ((changesFor env log cursor s.deviceId).changes = [] →
        (changesFor env log cursor s.deviceId).hasMore = true →
        ¬ Overtaken s peer (changesFor env log cursor s.deviceId)) := by
  rw [fetch]
  dsimp only
  split
  · next hempty =>
      have hnil := List.isEmpty_iff.1 hempty
      split
      · next hmore =>
          refine (notBefore_insert_iff rfl).trans ?_
          exact ⟨fun h _ _ => h, fun h => h hnil hmore⟩
      · next hmore =>
          exact iff_of_true (notBefore_of_eq rfl) fun _ h => absurd h hmore
  · next hne =>
      refine iff_of_true (notBefore_of_eq rfl) fun hnil => ?_
      rw [hnil] at hne
      exact absurd rfl hne

/-- A step moves no stored cursor back exactly if it is not the store of a pass that
    was overtaken. -/
theorem notBefore_step_iff (s : State) (a : Action) :
    NotBefore s (step env s a) ↔ Guard env s a := by
  cases a with
  | fetch p log =>
      simp only [step]
      split
      · next peer cursor hpull =>
          rw [Guard]
          refine (notBefore_fetch_iff s p peer cursor log).trans ?_
          constructor
          · intro h peer' cursor' hpull'
            cases Option.some.inj (hpull.symm.trans hpull')
            exact h
          · exact fun h => h peer cursor hpull
      · next hno =>
          exact iff_of_true (notBefore_refl s) fun peer cursor h => absurd h (hno peer cursor)
  | finishPage p =>
      simp only [step]
      split
      · next peer cursor page hpull =>
          rw [Guard]
          refine (notBefore_insert_iff cursors_finishPage).trans ?_
          constructor
          · intro h peer' cursor' page' hpull'
            cases Option.some.inj (hpull.symm.trans hpull')
            exact h
          · exact fun h => h peer cursor page hpull
      · next hno =>
          exact iff_of_true (notBefore_refl s) fun peer cursor page h => absurd h (hno peer cursor page)
  | _ =>
      -- the other steps move no cursor
      refine iff_of_true (notBefore_of_eq (cursors_step ?_ ?_)) trivial
      · intro _ _ h
        cases h
      · intro _ h
        cases h

/-- **NO CURSOR MOVES BACK** in a run exactly if no pass stores its cursor after it was
    overtaken. -/
theorem neverBack_iff_admitted (env : Env) (start : State) (run : List Action) :
    NeverBack env start run ↔ Runs.Admitted (step env) (Guard env) start run :=
  (Runs.monotone_iff_admitted notBefore_refl notBefore_trans run).trans
    (Runs.Admitted.congr notBefore_step_iff run)

/-! ## Passes that do not overlap -/

/-- A pass is started only while no other one against the peer is on its way. -/
def Alone (s : State) : Action → Prop
  | .startPull _ peer => ∀ q pull, s.pulls.lookup q = some pull → pull.peer ≠ peer
  | _ => True

/-- The page a pass has in hand. -/
def inHand : PullPhase → Option PullResponse
  | .looping => none
  | .fetched page => some page
  | .recording page _ _ => some page

/-- One pass for each peer, which is not behind the stored cursor, with a page that
    does not end before it. -/
structure Ahead (s : State) : Prop where
  one : ∀ p q pull pull', s.pulls.lookup p = some pull → s.pulls.lookup q = some pull' →
    pull.peer = pull'.peer → p = q
  stored : ∀ p pull v, s.pulls.lookup p = some pull → s.cursors.lookup pull.peer = some v →
    v ≤ pull.cursor
  page : ∀ p pull page, s.pulls.lookup p = some pull → inHand pull.phase = some page →
    pull.cursor ≤ page.latestVersion

/-- A page never ends before the version it was asked from. -/
theorem le_latestVersion (log : ChangeLog) (since : Int) (deviceId : String) :
    since ≤ (changesFor env log since deviceId).latestVersion := by
  show since ≤ (pullChanges env log since 100).latestVersion
  rcases latestVersion_cases env 100 log since with ⟨_, h⟩ | ⟨c, hlast, h, _⟩
  · rw [h]
  · rw [h]
    obtain ⟨r, hr, hdecode⟩ := List.mem_filterMap.1 (List.mem_of_getLast? hlast)
    have hvisit := (env.asc.perm _ _).mem_iff.1 (SortedPages.mem_of_mem_limited hr)
    rw [version_of_toSyncChange hdecode]
    have habove : since < r.version := by simpa using List.of_mem_filter hvisit
    exact le_of_lt habove

theorem ahead_of_same {s s' : State} (hs : Ahead s) (hpulls : s'.pulls = s.pulls)
    (hcursors : s'.cursors = s.cursors) : Ahead s' := by
  constructor
  · rw [hpulls]
    exact hs.one
  · rw [hpulls, hcursors]
    exact hs.stored
  · rw [hpulls]
    exact hs.page

/-- A pass ends, and may have stored its cursor. -/
theorem ahead_erase {s s' : State} (hs : Ahead s) {p : Nat} (hpulls : s'.pulls = s.pulls.erase p)
    (hcursors : ∀ peer, (∀ pull, s.pulls.lookup p = some pull → peer ≠ pull.peer) →
      s'.cursors.lookup peer = s.cursors.lookup peer) : Ahead s' := by
  have hold : ∀ q pull, s'.pulls.lookup q = some pull → q ≠ p ∧ s.pulls.lookup q = some pull := by
    intro q pull h
    rw [hpulls] at h
    exact lookup_erase.1 h
  constructor
  · exact fun q r pull pull' hq hr => hs.one q r pull pull' (hold q pull hq).2 (hold r pull' hr).2
  · intro q pull v hq hv
    obtain ⟨hne, hq⟩ := hold q pull hq
    rw [hcursors pull.peer fun gone hgone heq => hne (hs.one q p pull gone hq hgone heq)] at hv
    exact hs.stored q pull v hq hv
  · exact fun q pull page hq => hs.page q pull page (hold q pull hq).2

/-- A pass moves on: to another phase, or to a stored cursor. -/
theorem ahead_insert {s s' : State} (hs : Ahead s) {p : Nat} {pull next : Pull}
    (hpull : s.pulls.lookup p = some pull) (hpulls : s'.pulls = s.pulls.insert p next)
    (hpeer : next.peer = pull.peer)
    (hcursors : ∀ peer, peer ≠ pull.peer → s'.cursors.lookup peer = s.cursors.lookup peer)
    (hstored : ∀ v, s'.cursors.lookup pull.peer = some v → v ≤ next.cursor)
    (hpage : ∀ page, inHand next.phase = some page → next.cursor ≤ page.latestVersion) :
    Ahead s' := by
  have hcases : ∀ q other, s'.pulls.lookup q = some other →
      (q = p ∧ other = next) ∨ (q ≠ p ∧ s.pulls.lookup q = some other) := by
    intro q other h
    rw [hpulls] at h
    exact lookup_insert.1 h
  -- a pass that did not move is against another peer
  have hother : ∀ q other, q ≠ p → s.pulls.lookup q = some other → other.peer ≠ pull.peer :=
    fun q other hne hq heq => hne (hs.one q p other pull hq hpull heq)
  constructor
  · intro q r a b hq hr heq
    rcases hcases q a hq with ⟨rfl, rfl⟩ | ⟨hne, hq⟩
    · rcases hcases r b hr with ⟨rfl, _⟩ | ⟨hne, hr⟩
      · rfl
      · exact absurd (heq.symm.trans hpeer) (hother r b hne hr)
    · rcases hcases r b hr with ⟨rfl, rfl⟩ | ⟨_, hr⟩
      · exact absurd (heq.trans hpeer) (hother q a hne hq)
      · exact hs.one q r a b hq hr heq
  · intro q a v hq hv
    rcases hcases q a hq with ⟨rfl, rfl⟩ | ⟨hne, hq⟩
    · rw [hpeer] at hv
      exact hstored v hv
    · rw [hcursors _ (hother q a hne hq)] at hv
      exact hs.stored q a v hq hv
  · intro q a page hq hin
    rcases hcases q a hq with ⟨rfl, rfl⟩ | ⟨_, hq⟩
    · exact hpage page hin
    · exact hs.page q a page hq hin

theorem ahead_phase {s s' : State} (hs : Ahead s) {p : Nat} {peer : String} {cursor : Int}
    {phase phase' : PullPhase} (hpull : s.pulls.lookup p = some ⟨peer, cursor, phase⟩)
    (hpulls : s'.pulls = s.pulls.insert p ⟨peer, cursor, phase'⟩) (hcursors : s'.cursors = s.cursors)
    (hpage : ∀ page, inHand phase' = some page → cursor ≤ page.latestVersion) : Ahead s' := by
  refine ahead_insert hs hpull hpulls rfl ?_ ?_ hpage
  · intro other _
    rw [hcursors]
  · intro v hv
    rw [hcursors] at hv
    exact hs.stored p ⟨peer, cursor, phase⟩ v hpull hv

theorem ahead_fetch {s : State} (hs : Ahead s) {p : Nat} {peer : String} {cursor : Int}
    (hpull : s.pulls.lookup p = some ⟨peer, cursor, .looping⟩) (log : ChangeLog) :
    Ahead (fetch env p ⟨peer, cursor, .looping⟩ log s) := by
  rw [fetch]
  dsimp only
  split
  · split
    · refine ahead_insert hs hpull rfl rfl (fun other hne => AList.lookup_insert_ne hne) ?_ ?_
      · intro v hv
        have hv : (s.cursors.insert peer _).lookup peer = some v := hv
        rw [AList.lookup_insert] at hv
        exact le_of_eq (Option.some.inj hv).symm
      · exact fun _ h => by cases h
    · exact ahead_erase hs rfl fun _ _ => rfl
  · refine ahead_phase hs hpull rfl rfl fun page h => ?_
    cases Option.some.inj h
    exact le_latestVersion log cursor s.deviceId

theorem ahead_finishPage {s : State} (hs : Ahead s) {p : Nat} {peer : String} {cursor : Int}
    {page : PullResponse}
    (hpull : s.pulls.lookup p = some ⟨peer, cursor, .recording page [] none⟩) :
    Ahead (finishPage p ⟨peer, cursor, .recording page [] none⟩ page s) := by
  rw [finishPage]
  dsimp only
  split
  · refine ahead_insert hs hpull rfl rfl (fun other hne => AList.lookup_insert_ne hne) ?_ ?_
    · intro v hv
      have hv : (s.cursors.insert peer _).lookup peer = some v := hv
      rw [AList.lookup_insert] at hv
      exact le_of_eq (Option.some.inj hv).symm
    · exact fun _ h => by cases h
  · refine ahead_erase hs rfl fun other hother => ?_
    exact AList.lookup_insert_ne (hother _ hpull)

theorem ahead_startPull {s : State} (hs : Ahead s) {p : Nat} {peer : String}
    (hnew : s.pulls.lookup p = none)
    (halone : ∀ q pull, s.pulls.lookup q = some pull → pull.peer ≠ peer) :
    Ahead (s.setPull p ⟨peer, (s.cursors.lookup peer).getD 0, .looping⟩) := by
  constructor
  · intro q r a b hq hr heq
    rcases lookup_insert.1 hq with ⟨rfl, rfl⟩ | ⟨_, hold⟩
    · rcases lookup_insert.1 hr with ⟨rfl, _⟩ | ⟨_, hold'⟩
      · rfl
      · exact absurd heq.symm (halone r b hold')
    · rcases lookup_insert.1 hr with ⟨rfl, rfl⟩ | ⟨_, hold'⟩
      · exact absurd heq (halone q a hold)
      · exact hs.one q r a b hold hold' heq
  · intro q a v hq hv
    rcases lookup_insert.1 hq with ⟨rfl, rfl⟩ | ⟨_, hq⟩
    · have hv : s.cursors.lookup peer = some v := hv
      show v ≤ (s.cursors.lookup peer).getD 0
      rw [hv]
      exact le_refl v
    · exact hs.stored q a v hq hv
  · intro q a page hq hin
    rcases lookup_insert.1 hq with ⟨rfl, rfl⟩ | ⟨_, hq⟩
    · cases hin
    · exact hs.page q a page hq hin

theorem ahead_applyPage {s : State} (hs : Ahead s) {now : String} {p : Nat} {pull : Pull}
    {page : PullResponse} (hready : s.readyPage p = some (pull, page)) :
    Ahead (applyPage env now p pull page s) := by
  rw [State.readyPage] at hready
  split at hready
  · next peer cursor fetched hpull _ =>
      cases Option.some.inj hready
      have hpage : ∀ page', inHand (.fetched page) = some page' → cursor ≤ page'.latestVersion :=
        fun page' h => hs.page p _ page' hpull h
      rw [applyPage]
      dsimp only
      split
      · exact ahead_phase hs hpull rfl rfl hpage
      split
      · exact ahead_erase hs rfl fun _ _ => rfl
      · exact ahead_phase hs hpull rfl rfl hpage
  · cases hready

theorem ahead_recordOffer {s : State} (hs : Ahead s) {now : String} {p : Nat} {peer : String}
    {cursor : Int} {page : PullResponse} {offer : SyncChange × JsonText.Json}
    {rest : List (SyncChange × JsonText.Json)} {found : Option InboundOffer}
    (hpull : s.pulls.lookup p = some ⟨peer, cursor, .recording page (offer :: rest) (some found)⟩) :
    Ahead (recordOffer env now p ⟨peer, cursor, .recording page (offer :: rest) (some found)⟩ page
      offer rest found s) := by
  have hpage : ∀ page', inHand (.recording page rest none) = some page' →
      cursor ≤ page'.latestVersion := fun page' h => hs.page p _ page' hpull h
  rw [recordOffer]
  dsimp only
  split
  · exact ahead_erase hs rfl fun _ _ => rfl
  split
  · exact ahead_phase hs hpull rfl rfl hpage
  · exact ahead_phase hs hpull rfl rfl hpage

theorem ahead_step {s : State} {a : Action} (hs : Ahead s) (halone : Alone s a) :
    Ahead (step env s a) := by
  cases a with
  | startPull p peer =>
      simp only [step]
      split
      · exact hs
      · next hnew =>
          exact ahead_startPull hs (Option.not_isSome_iff_eq_none.1 hnew) halone
  | fetch p log =>
      simp only [step]
      split
      · next peer cursor hpull => exact ahead_fetch hs hpull log
      · exact hs
  | applyPage p now =>
      simp only [step]
      split
      · next pull page hready => exact ahead_applyPage hs hready
      · exact hs
  | lookupOffer p =>
      simp only [step]
      split
      · next peer cursor page offer rest hpull =>
          refine ahead_phase hs hpull rfl rfl fun page' h => ?_
          exact hs.page p _ page' hpull h
      · exact hs
  | recordOffer p now =>
      simp only [step]
      split
      · next peer cursor page offer rest found hpull => exact ahead_recordOffer hs hpull
      · exact hs
  | finishPage p =>
      simp only [step]
      split
      · next peer cursor page hpull => exact ahead_finishPage hs hpull
      · exact hs
  | failPull p => exact ahead_erase hs rfl fun _ _ => rfl
  | crash =>
      exact ⟨fun _ _ _ _ h => (by cases h), fun _ _ _ h => (by cases h), fun _ _ _ h => (by cases h)⟩
  | _ =>
      -- a decision, which no pass sees
      exact ahead_of_same hs (samePulls_step rfl).pulls (samePulls_step rfl).cursors

/-- A pass that is not behind the stored cursor is not overtaken. -/
theorem guard_of_ahead {s : State} (hs : Ahead s) (a : Action) : Guard env s a := by
  cases a with
  | fetch p log =>
      rintro peer cursor hpull _ _ ⟨v, hv, hlt⟩
      have hstored := hs.stored p _ v hpull hv
      have hpage : cursor ≤ (changesFor env log cursor s.deviceId).latestVersion :=
        le_latestVersion log cursor s.deviceId
      dsimp only at hstored
      omega
  | finishPage p =>
      rintro peer cursor page hpull ⟨v, hv, hlt⟩
      have hstored := hs.stored p _ v hpull hv
      have hpage := hs.page p _ page hpull rfl
      dsimp only at hstored hpage
      omega
  | _ => trivial

/-- Passes that do not overlap are never overtaken. -/
theorem admitted_of_alone {start : State} (hstart : start.pulls = ∅) {run : List Action}
    (hrun : Runs.Admitted (step env) Alone start run) :
    Runs.Admitted (step env) (Guard env) start run := by
  have hinit : Ahead start := by
    constructor
    · intro p q pull pull' hp
      rw [hstart] at hp
      cases hp
    · intro p pull v hp
      rw [hstart] at hp
      cases hp
    · intro p pull page hp
      rw [hstart] at hp
      cases hp
  clear hstart
  induction run generalizing start with
  | nil => exact trivial
  | cons a rest ih => exact ⟨guard_of_ahead hinit a, ih hrun.2 (ahead_step hinit hrun.1)⟩

/-! ## Two passes against one peer -/

/-- The peer's log after it deleted one work, and after it deleted another. -/
def deletedOnce : ChangeLog :=
  ChangeLog.empty.logLocal "2026-01-01 00:00:00" "work" "aaaaaaaaaaaaaaaaaaaaaaaaaaaaaaaa"
    "DELETE" ""

def deletedTwice : ChangeLog :=
  deletedOnce.logLocal "2026-01-01 00:00:00" "work" "bbbbbbbbbbbbbbbbbbbbbbbbbbbbbbbb" "DELETE" ""

def startState : State where
  deviceId := "laptop"
  db := Db.empty false
  offers := ∅
  cursors := ∅
  writeGate := none
  pulls := ∅
  calls := ∅
  recorded := []
  leaked := []
  applied := []

/-- A page is fetched, then the peer deletes again and another pass pulls to the end. -/
def overtaking : List Action :=
  [.startPull 0 "phone", .fetch 0 deletedOnce, .startPull 1 "phone", .fetch 1 deletedTwice,
    .applyPage 1 "2026-01-01 00:00:01", .finishPage 1]

/-- One pass after the other, the cursor only moves on. -/
theorem neverBack_one_pass :
    NeverBack Env.reference startState
      [.startPull 0 "phone", .fetch 0 deletedOnce, .applyPage 0 "2026-01-01 00:00:01",
        .finishPage 0] := by
  refine (neverBack_iff_admitted Env.reference startState _).2 (admitted_of_alone rfl ?_)
  exact ⟨fun _ _ h => (by cases h), trivial, trivial, trivial, trivial⟩

/-- When the overtaken pass stores its page, the cursor falls from two to one. -/
theorem not_neverBack_overtaken :
    ¬ NeverBack Env.reference startState
      (overtaking ++ [.applyPage 0 "2026-01-01 00:00:02", .finishPage 0]) := by
  intro h
  have htwo : (Runs.exec (step Env.reference) startState overtaking).cursors.lookup "phone" =
      some 2 := by decide
  have hone : (Runs.exec (step Env.reference) startState
      (overtaking ++ [.applyPage 0 "2026-01-01 00:00:02", .finishPage 0])).cursors.lookup "phone" =
      some 1 := by decide
  obtain ⟨v, hv, hle⟩ := h overtaking _ (List.prefix_append _ _) (List.prefix_refl _) "phone" 2 htwo
  rw [hone] at hv
  cases Option.some.inj hv
  exact absurd hle (by decide)

end SyncPullCursor
