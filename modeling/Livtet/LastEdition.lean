import Livtet.Lib.Runs
import Livtet.Filters

/-! # The last edition of a work

    Deleting an edition is a sequence of statements: the edition is looked up, the editions
    of its work are counted, the edition is deleted, and if the count was at most one, the
    work is deleted, with all editions it has by then. Creating one is a look at the work and
    an insertion. Nothing holds these statements together, so those of other calls run in
    between.

    Two things go wrong. An edition that is created after the count goes with the work; and of
    two deletions that have both counted two editions, neither deletes the work. Apart from
    these steps (`Spared`) no edition is lost and no work is left without editions
    (`keepsAndClears_of_spared`). -/

namespace LastEdition

open SyncStore (Env)
open SyncPairing Reindex Outcomes Library

/-! ## Deletions keep the constraints -/

section Sound

variable {t : Tables}

/-- A reference among rows that stay is to a row that stays. -/
theorem subset_of_kept {α β : Type} {owner : α → DbId} {key : β → DbId} {gone : DbId → Bool}
    {rows : List α} {targets : List β} (h : rows.map owner ⊆ targets.map key) :
    (rows.filter fun r => !gone (owner r)).map owner ⊆
      (targets.filter fun x => !gone (key x)).map key := by
  intro id hid
  obtain ⟨r, hr, rfl⟩ := List.mem_map.1 hid
  obtain ⟨hmem, hkept⟩ := List.mem_filter.1 hr
  obtain ⟨x, hx, heq⟩ := List.mem_map.1 (h (List.mem_map_of_mem hmem))
  exact List.mem_map.2 ⟨x, List.mem_filter.2 ⟨hx, by rwa [heq]⟩, heq⟩

theorem subset_of_filter {α β : Type} {f : α → β} {p : α → Bool} {rows : List α} {ids : List β}
    (h : rows.map f ⊆ ids) : (rows.filter p).map f ⊆ ids :=
  fun _ hid => h ((List.filter_sublist.map f).subset hid)

theorem links_dropEditions (gone : DbId → Bool) :
    (t.dropEditions gone).editionLinks = t.editionLinks.filter fun l => !gone l.owner := by
  simp only [Tables.editionLinks, Tables.dropEditions, List.filter_append]

theorem sound_dropEditions (h : t.Sound) (gone : DbId → Bool) : (t.dropEditions gone).Sound := by
  have hkeys := h.keys
  have hrefs := h.references
  refine ⟨⟨?_, hkeys.workKeys, hkeys.authorKeys, hkeys.formatKeys, hkeys.languageKeys,
    hkeys.identifierKeys, hkeys.identifierValues, ?_, ?_, ?_⟩,
    ⟨?_, ?_, ?_, hrefs.workLanguage, ?_, ?_, hrefs.workAuthorWork, hrefs.workAuthorAuthor,
    ?_, ?_, ?_⟩⟩
  · exact hkeys.editionKeys.sublist (List.filter_sublist.map _)
  · exact hkeys.contributionKeys.sublist List.filter_sublist
  · exact hkeys.fileKeys.sublist (List.filter_sublist.map _)
  · exact hkeys.fileEditions.sublist (List.filter_sublist.map _)
  · exact subset_of_filter hrefs.editionWork
  · exact fun _ hid => hrefs.editionFormat ((List.filter_sublist.filterMap _).subset hid)
  · exact fun _ hid => hrefs.editionLanguage ((List.filter_sublist.filterMap _).subset hid)
  · exact subset_of_kept hrefs.contributionEdition
  · exact subset_of_filter hrefs.contributionAuthor
  · rw [links_dropEditions]
    exact subset_of_kept hrefs.linkEdition
  · exact subset_of_filter hrefs.linkIdentifier
  · exact subset_of_kept hrefs.fileEdition

theorem sound_dropWork (h : t.Sound) (workId : DbId) : (t.dropWork workId).Sound := by
  rw [dropWork_eq_without]
  have hdropped := sound_dropEditions h fun id =>
    ((t.editionsOfWork workId).map fun e => e.id).contains id
  have hkeys := hdropped.keys
  have hrefs := hdropped.references
  refine ⟨⟨hkeys.editionKeys, ?_, hkeys.authorKeys, hkeys.formatKeys, hkeys.languageKeys,
    hkeys.identifierKeys, hkeys.identifierValues, hkeys.contributionKeys, hkeys.fileKeys,
    hkeys.fileEditions⟩, ⟨?_, hrefs.editionFormat, hrefs.editionLanguage, ?_,
    hrefs.contributionEdition, hrefs.contributionAuthor, ?_, ?_, hrefs.linkEdition,
    hrefs.linkIdentifier, hrefs.fileEdition⟩⟩
  · exact h.keys.workKeys.sublist (List.filter_sublist.map _)
  · -- the editions of the work have gone
    intro id hid
    obtain ⟨e, he, rfl⟩ := List.mem_map.1 hid
    obtain ⟨hmem, hkept⟩ := List.mem_filter.1 he
    obtain ⟨w, hw, heq⟩ := List.mem_map.1 (h.references.editionWork (List.mem_map_of_mem hmem))
    refine List.mem_map.2 ⟨w, List.mem_filter.2 ⟨hw, ?_⟩, heq⟩
    rw [Bool.not_eq_true', decide_eq_false_iff_not]
    intro hwork
    have hgone : e.id ∈ (t.editionsOfWork workId).map fun e => e.id :=
      List.mem_map_of_mem (List.mem_filter.2 ⟨hmem, decide_eq_true (heq.symm.trans hwork)⟩)
    simp [hgone] at hkept
  · exact fun _ hid => h.references.workLanguage ((List.filter_sublist.filterMap _).subset hid)
  · exact @subset_of_kept _ _ _ _ (fun id => decide (id = workId)) _ _ h.references.workAuthorWork
  · exact subset_of_filter h.references.workAuthorAuthor

end Sound

/-! ## Calls, statement by statement -/

/-- A call, at the statement it runs next. -/
inductive Task
  | finding (editionId : DbId)
  | counting (editionId workId : DbId)
  | removing (editionId workId : DbId) (siblings : Nat)
  | dropping (workId : DbId)
  | checking (now : Int) (newId : DbId) (input : NewEdition)
  | inserting (now : Int) (newId : DbId) (input : NewEdition) (publishedDate : Option Date)
  | rereading (newId : DbId)
  | finished

/-- The row that `create_edition` inserts. -/
def newRow (now : Int) (newId : DbId) (input : NewEdition) (publishedDate : Option Date) :
    Edition where
  id := newId
  workId := input.workId
  title := nonBlank input.title
  publishedDate
  formatId := input.formatId
  languageId := input.languageId
  notes := nonBlank input.notes
  description := nonBlank input.description
  createdAt := now
  updatedAt := none
  coverImageUrl := nonBlank input.coverImageUrl

/-- A statement that fails ends the call. -/
def attempt (db : Db) (t : Tables) (next : Task) : Task × Db :=
  match execute t with
  | .ok db' => (next, db')
  | .error _ => (.finished, db)

/-- One statement of a call. The document of an edition that was deleted is deleted with it. -/
def statement (env : Env) (db : Db) : Task → Task × Db
  | .finding editionId =>
      match db.tables.editions.find? fun e => decide (e.id = editionId) with
      | none => (.finished, db)
      | some edition => (.counting editionId edition.workId, db)
  | .counting editionId workId =>
      (.removing editionId workId (db.tables.editionsOfWork workId).length, db)
  | .removing editionId workId siblings =>
      attempt db (db.tables.dropEditions fun id => [editionId].contains id)
        (if editionId ∈ db.tables.editionIds ∧ siblings ≤ 1 then .dropping workId else .finished)
  | .dropping workId => attempt db (db.tables.dropWork workId) .finished
  | .checking now newId input =>
      match requireWork env db input.workId, input.publishedDate.mapM fullDate with
      | .ok _, .ok publishedDate => (.inserting now newId input publishedDate, db)
      | _, _ => (.finished, db)
  | .inserting now newId input publishedDate =>
      attempt db
        { db.tables with
          editions := db.tables.editions ++ [newRow now newId input publishedDate] }
        (.rereading newId)
  | .rereading _ => (.finished, db)
  | .finished => (.finished, db)

/-- The tables, the calls, and the ids that were passed to a deletion. -/
structure State where
  db : Db
  tasks : List Task
  passed : List DbId

/-- A call is made, or the next statement of a call is run. -/
inductive Action
  | delete (editionId : DbId)
  | create (now : Int) (newId : DbId) (input : NewEdition)
  | run (i : Nat)

def step (env : Env) (s : State) : Action → State
  | .delete editionId => { s with
      tasks := s.tasks ++ [.finding editionId]
      passed := s.passed ++ [editionId] }
  | .create now newId input => { s with tasks := s.tasks ++ [.checking now newId input] }
  | .run i =>
      match s.tasks[i]? with
      | none => s
      | some task => { s with
          db := (statement env s.db task).2
          tasks := s.tasks.set i (statement env s.db task).1 }

def startState (db : Db) : State := ⟨db, [], []⟩

/-- All calls have finished. -/
def Finished (s : State) : Prop := ∀ task ∈ s.tasks, task = .finished

section Runs

variable (env : Env) (work : DbId)

def State.editions (s : State) : List Edition := s.db.tables.editionsOfWork work

/-- The calls are on editions of the work. -/
def OnWork (s : State) : Action → Prop
  | .delete editionId => ∀ e ∈ s.db.tables.editions, e.id = editionId → e.workId = work
  | .create _ _ input => input.workId = work
  | .run _ => True

/-- Of any edition that was there, what is to be there in the end. -/
structure KeepsAndClears (db : Db) (run : List Action) : Prop where
  keeps : ∀ pre mid, pre <+: mid → mid <+: run →
    Finished (Runs.exec (step env) (startState db) mid) →
    ∀ e ∈ (Runs.exec (step env) (startState db) pre).editions work,
      e.id ∉ (Runs.exec (step env) (startState db) mid).passed →
        e ∈ (Runs.exec (step env) (startState db) mid).editions work
  clears : ∀ pre mid, pre <+: mid → mid <+: run →
    Finished (Runs.exec (step env) (startState db) mid) →
    (Runs.exec (step env) (startState db) pre).editions work ≠ [] →
    (Runs.exec (step env) (startState db) mid).editions work = [] →
      work ∉ (Runs.exec (step env) (startState db) mid).db.tables.workIds

/-- A work is deleted only with editions that were passed to a deletion, and the last
    edition only by a call that counted no other, or while another is about to delete the
    work. -/
def Task.Spares (s : State) : Task → Prop
  | .dropping _ => ∀ e ∈ s.editions work, e.id ∈ s.passed
  | .removing editionId _ siblings => s.editions work ≠ [] →
      (∀ e ∈ s.editions work, e.id = editionId) → siblings ≤ 1 ∨ .dropping work ∈ s.tasks
  | _ => True

def Spared (s : State) : Action → Prop
  | .run i => ∀ task ∈ s.tasks[i]?, task.Spares work s
  | _ => True

end Runs

/-! ## What a statement does -/

section Steps

variable {env : Env} {work : DbId} {s : State}

theorem step_none {i : Nat} (h : s.tasks[i]? = none) : step env s (.run i) = s := by
  simp only [step, h]

theorem step_some {i : Nat} {task : Task} (h : s.tasks[i]? = some task) :
    step env s (.run i) = { s with
      db := (statement env s.db task).2
      tasks := s.tasks.set i (statement env s.db task).1 } := by
  simp only [step, h]

theorem attempt_of_sound {db : Db} {t : Tables} (h : t.Sound) (next : Task) :
    attempt db t next = (next, ⟨t, h⟩) := by
  rw [attempt, execute_of_sound h]

theorem statement_removing (editionId workId : DbId) (siblings : Nat) :
    statement env s.db (.removing editionId workId siblings) =
      (if editionId ∈ s.db.tables.editionIds ∧ siblings ≤ 1 then .dropping workId else .finished,
        ⟨s.db.tables.dropEditions fun id => [editionId].contains id,
          sound_dropEditions s.db.sound _⟩) :=
  attempt_of_sound _ _

theorem statement_dropping (workId : DbId) : statement env s.db (.dropping workId) =
    (.finished, ⟨s.db.tables.dropWork workId, sound_dropWork s.db.sound workId⟩) :=
  attempt_of_sound _ _

/-- Apart from the two deletions, a statement only adds, to the work of its call. -/
theorem statement_adds (task : Task) :
    (∃ id workId siblings, task = .removing id workId siblings) ∨
    (∃ workId, task = .dropping workId) ∨
    ((statement env s.db task).2.tables.works = s.db.tables.works ∧
      ∃ rows, (statement env s.db task).2.tables.editions = s.db.tables.editions ++ rows ∧
        ∀ e ∈ rows, ∃ now newId input date, task = .inserting now newId input date ∧
          e.workId = input.workId) := by
  have hsame : ∀ task', (statement env s.db task) = (task', s.db) →
      ((statement env s.db task).2.tables.works = s.db.tables.works ∧
        ∃ rows, (statement env s.db task).2.tables.editions = s.db.tables.editions ++ rows ∧
          ∀ e ∈ rows, ∃ now newId input date, task = .inserting now newId input date ∧
            e.workId = input.workId) := by
    intro task' h
    rw [h]
    exact ⟨rfl, [], (List.append_nil _).symm, fun e he => absurd he List.not_mem_nil⟩
  cases task with
  | removing id workId siblings => exact Or.inl ⟨id, workId, siblings, rfl⟩
  | dropping workId => exact Or.inr (Or.inl ⟨workId, rfl⟩)
  | finding id =>
      refine Or.inr (Or.inr ?_)
      -- a look leaves the database alone, whatever it finds
      cases hfound : s.db.tables.editions.find? fun e => decide (e.id = id) with
      | none => exact hsame .finished (by simp only [statement, hfound])
      | some e => exact hsame (.counting id e.workId) (by simp only [statement, hfound])
  | counting id workId => exact Or.inr (Or.inr (hsame _ rfl))
  | checking now newId input =>
      refine Or.inr (Or.inr ?_)
      cases hwork : requireWork env s.db input.workId with
      | error e => exact hsame .finished (by simp only [statement, hwork])
      | ok w =>
          cases hdate : input.publishedDate.mapM fullDate with
          | error e => exact hsame .finished (by simp only [statement, hwork, hdate])
          | ok date =>
              exact hsame (.inserting now newId input date) (by simp only [statement, hwork, hdate])
  | inserting now newId input date =>
      refine Or.inr (Or.inr ?_)
      rw [statement, attempt]
      split
      next db' hdb =>
        have ht := execute_eq_ok.1 hdb
        refine ⟨by rw [ht], [newRow now newId input date], by rw [ht], fun e he => ?_⟩
        rw [List.mem_singleton.1 he]
        exact ⟨now, newId, input, date, rfl, rfl⟩
      next e hdb =>
        exact ⟨rfl, [], (List.append_nil _).symm, fun e he => absurd he List.not_mem_nil⟩
  | rereading newId => exact Or.inr (Or.inr (hsame _ rfl))
  | finished => exact Or.inr (Or.inr (hsame _ rfl))

/-! ## The calls stay on the work -/

def Task.OnWork (work : DbId) (passed : List DbId) : Task → Prop
  | .finding editionId => editionId ∈ passed
  | .counting editionId workId | .removing editionId workId _ => editionId ∈ passed ∧ workId = work
  | .dropping workId => workId = work
  | .checking _ _ input | .inserting _ _ input _ => input.workId = work
  | .rereading _ | .finished => True

structure Tidy (work : DbId) (s : State) : Prop where
  tasks : ∀ task ∈ s.tasks, task.OnWork work s.passed
  editions : ∀ e ∈ s.db.tables.editions, e.id ∈ s.passed → e.workId = work

theorem tidy_startState (db : Db) : Tidy work (startState db) :=
  ⟨fun _ htask => absurd htask List.not_mem_nil, fun _ _ hid => absurd hid List.not_mem_nil⟩

theorem Task.OnWork.mono {passed passed' : List DbId} (h : passed ⊆ passed') :
    ∀ {task : Task}, task.OnWork work passed → task.OnWork work passed'
  | .finding _, hon => h hon
  | .counting _ _, hon => ⟨h hon.1, hon.2⟩
  | .removing _ _ _, hon => ⟨h hon.1, hon.2⟩
  | .dropping _, hon => hon
  | .checking _ _ _, hon => hon
  | .inserting _ _ _ _, hon => hon
  | .rereading _, _ => trivial
  | .finished, _ => trivial

theorem onWork_attempt {db : Db} {t : Tables} {next : Task} {passed : List DbId}
    (h : next.OnWork work passed) : (attempt db t next).1.OnWork work passed := by
  unfold attempt
  split
  · exact h
  · exact trivial

/-- The next statement of a call is on the work as well. -/
theorem onWork_statement (hs : Tidy work s) {task : Task} (htask : task.OnWork work s.passed) :
    (statement env s.db task).1.OnWork work s.passed := by
  cases task with
  | finding id =>
      simp only [statement]
      split
      · exact trivial
      next e hfound =>
        have hid : e.id = id := by simpa using List.find?_some hfound
        exact ⟨htask, hs.editions e (List.mem_of_find?_eq_some hfound) (hid ▸ htask)⟩
  | counting id workId => exact htask
  | removing id workId siblings =>
      refine onWork_attempt ?_
      split
      · exact htask.2
      · exact trivial
  | dropping workId => exact onWork_attempt trivial
  | checking now newId input =>
      simp only [statement]
      split
      · exact htask
      · exact trivial
  | inserting now newId input date => exact onWork_attempt trivial
  | rereading newId => exact trivial
  | finished => exact trivial

/-- An edition that is there after a statement was there, or is of the work. -/
theorem editions_statement {task : Task} (htask : task.OnWork work s.passed) {e : Edition}
    (he : e ∈ (statement env s.db task).2.tables.editions) :
    e ∈ s.db.tables.editions ∨ e.workId = work := by
  rcases @statement_adds env s task with
    ⟨id, workId, n, rfl⟩ | ⟨workId, rfl⟩ | ⟨_, rows, hrows, hnew⟩
  · rw [statement_removing] at he
    exact Or.inl (List.mem_filter.1 he).1
  · rw [statement_dropping] at he
    exact Or.inl (List.mem_filter.1 he).1
  · rw [hrows] at he
    rcases List.mem_append.1 he with he | he
    · exact Or.inl he
    · obtain ⟨_, _, _, _, rfl, hwork⟩ := hnew e he
      exact Or.inr (hwork.trans htask)

theorem tidy_step (hs : Tidy work s) {a : Action} (ha : OnWork work s a) :
    Tidy work (step env s a) := by
  cases a with
  | delete id =>
      have hmore : s.passed ⊆ s.passed ++ [id] := List.subset_append_left _ _
      refine ⟨fun task htask => ?_, fun e he hid => ?_⟩
      · rcases List.mem_append.1 htask with htask | htask
        · exact (hs.tasks task htask).mono hmore
        · rw [List.mem_singleton.1 htask]
          exact List.mem_append_right _ (List.mem_singleton_self id)
      · rcases List.mem_append.1 hid with hid | hid
        · exact hs.editions e he hid
        · exact ha e he (List.mem_singleton.1 hid)
  | create now newId input =>
      refine ⟨fun task htask => ?_, hs.editions⟩
      rcases List.mem_append.1 htask with htask | htask
      · exact hs.tasks task htask
      · rw [List.mem_singleton.1 htask]
        exact ha
  | run i =>
      cases htask : s.tasks[i]? with
      | none =>
          rw [step_none htask]
          exact hs
      | some task =>
          have hon := hs.tasks task (List.mem_of_getElem? htask)
          rw [step_some htask]
          refine ⟨fun task' htask' => ?_, fun e he hid => ?_⟩
          · rcases List.mem_or_eq_of_mem_set htask' with hmem | rfl
            · exact hs.tasks task' hmem
            · exact onWork_statement hs hon
          · rcases editions_statement hon he with hmem | hwork
            · exact hs.editions e hmem hid
            · exact hwork

/-! ## No edition is lost -/

theorem mem_editions {e : Edition} : e ∈ s.editions work ↔
    e ∈ s.db.tables.editions ∧ e.workId = work := by
  rw [State.editions, Tables.editionsOfWork, List.mem_filter, decide_eq_true_eq]

theorem passed_step (a : Action) : s.passed ⊆ (step env s a).passed := by
  cases a with
  | delete id => exact List.subset_append_left _ _
  | create now newId input => exact List.Subset.refl _
  | run i =>
      cases htask : s.tasks[i]? with
      | none =>
          rw [step_none htask]
          exact List.Subset.refl _
      | some task =>
          rw [step_some htask]
          exact List.Subset.refl _

/-- An edition that was passed to no deletion stays. -/
theorem mem_editions_step (hs : Tidy work s) {a : Action} (ha : Spared work s a) {e : Edition}
    (he : e ∈ s.editions work) (hid : e.id ∉ s.passed) : e ∈ (step env s a).editions work := by
  cases a with
  | delete id => exact he
  | create now newId input => exact he
  | run i =>
      cases htask : s.tasks[i]? with
      | none =>
          rw [step_none htask]
          exact he
      | some task =>
          have hon := hs.tasks task (List.mem_of_getElem? htask)
          obtain ⟨hmem, hwork⟩ := mem_editions.1 he
          rw [step_some htask]
          refine mem_editions.2 ⟨?_, hwork⟩
          rcases @statement_adds env s task with ⟨id, workId, n, rfl⟩ | ⟨workId, rfl⟩ |
            ⟨_, rows, hrows, _⟩
          · rw [statement_removing]
            refine List.mem_filter.2 ⟨hmem, ?_⟩
            have hne : e.id ≠ id := fun heq => hid (heq ▸ hon.1)
            simpa using hne
          · exact absurd (ha _ htask e he) hid
          · rw [hrows]
            exact List.mem_append_left _ hmem

/-! ## No work is left without editions -/

/-- The work has an edition, or is gone, or is about to go. -/
def CaredFor (work : DbId) (s : State) : Prop :=
  s.editions work ≠ [] ∨ work ∉ s.db.tables.workIds ∨ .dropping work ∈ s.tasks

theorem mem_set_of_ne {α : Type} {xs : List α} {i : Nat} {a b c : α} (ha : a ∈ xs)
    (hi : xs[i]? = some b) (hne : a ≠ b) : a ∈ xs.set i c := by
  obtain ⟨j, hj⟩ := List.mem_iff_getElem?.1 ha
  have hij : i ≠ j := by
    rintro rfl
    exact hne (Option.some.inj (hj.symm.trans hi))
  exact List.mem_iff_getElem?.2 ⟨j, by rw [List.getElem?_set_ne hij, hj]⟩

theorem caredFor_step (hs : Tidy work s) {a : Action} (ha : Spared work s a)
    (hcare : CaredFor work s) : CaredFor work (step env s a) := by
  cases a with
  | delete id => exact hcare.imp_right (Or.imp_right fun h => List.mem_append_left _ h)
  | create now newId input => exact hcare.imp_right (Or.imp_right fun h => List.mem_append_left _ h)
  | run i =>
      cases htask : s.tasks[i]? with
      | none =>
          rw [step_none htask]
          exact hcare
      | some task =>
          have hon := hs.tasks task (List.mem_of_getElem? htask)
          have hspared := ha task htask
          have hi : i < s.tasks.length := (List.getElem?_eq_some_iff.1 htask).1
          rw [step_some htask]
          -- the work itself is dropped, or its editions only change
          by_cases hdrop : task = .dropping work
          · rw [hdrop, statement_dropping]
            refine Or.inr (Or.inl fun hmem => ?_)
            obtain ⟨w, hw, hid⟩ := List.mem_map.1 hmem
            exact of_decide_eq_true (List.mem_filter.1 hw).2 hid
          rcases @statement_adds env s task with ⟨id, workId, n, rfl⟩ | ⟨workId, rfl⟩ |
            ⟨hworks, rows, hrows, _⟩
          · rw [statement_removing]
            rcases hcare with hsome | hgone | hdropping
            · by_cases hlast : ∀ e ∈ s.editions work, e.id = id
              · -- the last edition goes
                refine Or.inr (Or.inr ?_)
                rcases hspared hsome hlast with hfew | hdropping
                · obtain ⟨e, he⟩ := List.exists_mem_of_ne_nil _ hsome
                  have hthere : id ∈ s.db.tables.editionIds :=
                    hlast e he ▸ List.mem_map_of_mem (mem_editions.1 he).1
                  rw [if_pos ⟨hthere, hfew⟩, hon.2]
                  exact List.mem_iff_getElem?.2 ⟨i, List.getElem?_set_self hi⟩
                · exact mem_set_of_ne hdropping htask (by rintro ⟨⟩)
              · -- another stays
                simp only [not_forall] at hlast
                obtain ⟨e, he, hne⟩ := hlast
                obtain ⟨hmem, hwork⟩ := mem_editions.1 he
                refine Or.inl (List.ne_nil_of_mem (mem_editions.2 ⟨?_, hwork⟩))
                exact List.mem_filter.2 ⟨hmem, by simpa using hne⟩
            · exact Or.inr (Or.inl hgone)
            · exact Or.inr (Or.inr (mem_set_of_ne hdropping htask (by rintro ⟨⟩)))
          · exact absurd (congrArg Task.dropping hon) hdrop
          · rcases hcare with hsome | hgone | hdropping
            · obtain ⟨e, he⟩ := List.exists_mem_of_ne_nil _ hsome
              obtain ⟨hmem, hwork⟩ := mem_editions.1 he
              refine Or.inl (List.ne_nil_of_mem (mem_editions.2 ⟨?_, hwork⟩))
              rw [hrows]
              exact List.mem_append_left _ hmem
            · refine Or.inr (Or.inl ?_)
              rw [Tables.workIds, hworks]
              exact hgone
            · exact Or.inr (Or.inr (mem_set_of_ne hdropping htask (Ne.symm hdrop)))

end Steps

/-! ## Runs -/

section Run

variable {env : Env} {work : DbId} {db : Db} {run : List Action}

theorem tidy_exec {s : State} (run : List Action) (hs : Tidy work s)
    (hwork : Runs.Admitted (step env) (OnWork work) s run) :
    Tidy work (Runs.exec (step env) s run) := by
  have hstep : ∀ s a, Tidy work s → OnWork work s a → Tidy work (step env s a) :=
    fun s a hs ha => tidy_step hs ha
  exact Runs.invariant hstep run hs hwork

/-- A stretch of a run, from the state it begins in. -/
theorem keeps_stretch {s : State} (rest : List Action) (hs : Tidy work s)
    (h : Runs.Admitted (step env) (fun s a => OnWork work s a ∧ Spared work s a) s rest)
    {e : Edition} (he : e ∈ s.editions work) (hid : e.id ∉ (Runs.exec (step env) s rest).passed) :
    e ∈ (Runs.exec (step env) s rest).editions work := by
  have hstep : ∀ s a, (Tidy work s ∧ (e.id ∉ s.passed → e ∈ s.editions work)) →
      OnWork work s a ∧ Spared work s a → Tidy work (step env s a) ∧
        (e.id ∉ (step env s a).passed → e ∈ (step env s a).editions work) := by
    intro s a hs ha
    refine ⟨tidy_step hs.1 ha.1, fun hnot => ?_⟩
    have hbefore : e.id ∉ s.passed := fun hmem => hnot (passed_step a hmem)
    exact mem_editions_step hs.1 ha.2 (hs.2 hbefore) hbefore
  exact (Runs.invariant hstep rest ⟨hs, fun _ => he⟩ h).2 hid

theorem caredFor_stretch {s : State} (rest : List Action) (hs : Tidy work s)
    (h : Runs.Admitted (step env) (fun s a => OnWork work s a ∧ Spared work s a) s rest)
    (hcare : CaredFor work s) : CaredFor work (Runs.exec (step env) s rest) := by
  have hstep : ∀ s a, Tidy work s ∧ CaredFor work s → OnWork work s a ∧ Spared work s a →
      Tidy work (step env s a) ∧ CaredFor work (step env s a) :=
    fun s a hs ha => ⟨tidy_step hs.1 ha.1, caredFor_step hs.1 ha.2 hs.2⟩
  exact (Runs.invariant hstep rest ⟨hs, hcare⟩ h).2

/-- **NO EDITION IS LOST, AND NO WORK IS LEFT WITHOUT EDITIONS**, in any interleaving in which
    works and last editions are spared. -/
theorem keepsAndClears_of_spared (env : Env) (work : DbId) (db : Db) (run : List Action)
    (hwork : Runs.Admitted (step env) (OnWork work) (startState db) run)
    (hspared : Runs.Admitted (step env) (Spared work) (startState db) run) :
    KeepsAndClears env work db run := by
  have hboth := hwork.and hspared
  have hstretch : ∀ pre mid, pre <+: mid → mid <+: run → ∃ rest,
      Tidy work (Runs.exec (step env) (startState db) pre) ∧
      Runs.Admitted (step env) (fun s a => OnWork work s a ∧ Spared work s a)
        (Runs.exec (step env) (startState db) pre) rest ∧
      Runs.exec (step env) (startState db) mid =
        Runs.exec (step env) (Runs.exec (step env) (startState db) pre) rest := by
    rintro pre mid ⟨rest, rfl⟩ ⟨post, rfl⟩
    refine ⟨rest, ?_, ?_, Runs.exec_append _ _ _ _⟩
    · exact tidy_exec pre (tidy_startState db) ((hwork.of_append _ _).of_append _ _)
    · exact (hboth.of_append _ _).drop _ _
  constructor
  case keeps =>
    intro pre mid hpre hmid _ e he hid
    obtain ⟨rest, htidy, hadmitted, hexec⟩ := hstretch pre mid hpre hmid
    rw [hexec] at hid ⊢
    exact keeps_stretch rest htidy hadmitted he hid
  case clears =>
    intro pre mid hpre hmid hfinished hsome hnone
    obtain ⟨rest, htidy, hadmitted, hexec⟩ := hstretch pre mid hpre hmid
    rw [hexec] at hfinished hnone ⊢
    rcases caredFor_stretch rest htidy hadmitted (Or.inl hsome) with hleft | hgone | hdropping
    · exact absurd hnone hleft
    · exact hgone
    · cases hfinished _ hdropping

end Run

/-! ## A call alone -/

section Alone

variable {env : Env}

theorem step_single (db : Db) (task : Task) (passed : List DbId) :
    step env ⟨db, [task], passed⟩ (.run 0) =
      ⟨(statement env db task).2, [(statement env db task).1], passed⟩ := rfl

theorem attempt_of_ok {db db' : Db} {t : Tables} {next : Task} (h : execute t = .ok db') :
    attempt db t next = (next, db') := by
  rw [attempt, h]

/-- With nothing in between, the statements of a deletion are the deletion. -/
theorem deleteEdition_alone (store : Store) (editionId : DbId) {removed : Bool} {store' : Store}
    (h : deleteEdition env editionId store = .ok (removed, store')) :
    (Runs.exec (step env) (startState store.db) [.delete editionId, .run 0, .run 0, .run 0,
      .run 0]).db = store'.db := by
  show (step env (step env (step env (step env ⟨store.db, [.finding editionId], [editionId]⟩
    (.run 0)) (.run 0)) (.run 0)) (.run 0)).db = _
  unfold deleteEdition at h
  split at h
  next hfound =>
    cases h
    have hfinds : statement env store.db (.finding editionId) = (.finished, store.db) := by
      simp only [statement, hfound]
    rw [step_single, hfinds]
    rfl
  next edition hfound =>
    obtain ⟨db₁, hdb₁, h⟩ := bind_eq_ok.1 h
    obtain ⟨db₂, hdb₂, h⟩ := bind_eq_ok.1 h
    cases Except.ok.inj h
    have hfinds : statement env store.db (.finding editionId) =
        (.counting editionId edition.workId, store.db) := by
      simp only [statement, hfound]
    have hid : edition.id = editionId := by simpa using List.find?_some hfound
    have hthere : editionId ∈ store.db.tables.editionIds :=
      hid ▸ List.mem_map_of_mem (List.mem_of_find?_eq_some hfound)
    have hremoves : statement env store.db (.removing editionId edition.workId
        (store.db.tables.editionsOfWork edition.workId).length) =
          (if editionId ∈ store.db.tables.editionIds ∧
            (store.db.tables.editionsOfWork edition.workId).length ≤ 1
              then .dropping edition.workId else .finished, db₁) := attempt_of_ok hdb₁
    -- the call has one task left after each step, so the runs are its statements in order
    rw [step_single, hfinds, step_single]
    show (step env (step env ⟨store.db, [.removing editionId edition.workId
      (store.db.tables.editionsOfWork edition.workId).length], [editionId]⟩
        (.run 0)) (.run 0)).db = _
    rw [step_single, hremoves, step_single]
    unfold dropEmptied at hdb₂
    by_cases hfew : (store.db.tables.editionsOfWork edition.workId).length ≤ 1
    · rw [if_pos hfew] at hdb₂
      rw [if_pos ⟨hthere, hfew⟩]
      exact congrArg Prod.snd (attempt_of_ok hdb₂)
    · rw [if_neg hfew] at hdb₂
      rw [if_neg fun h => hfew h.2]
      exact Except.ok.inj hdb₂

end Alone

/-! ## A work with one edition -/

section OneEdition

theorem admitted_cons {env : Env} {guard : State → Action → Prop} {s s' : State} {a : Action}
    {rest : List Action} (hguard : guard s a) (hstep : step env s a = s')
    (h : Runs.Admitted (step env) guard s' rest) : Runs.Admitted (step env) guard s (a :: rest) :=
  ⟨hguard, hstep ▸ h⟩

/-- The edition is deleted by itself. -/
def lone : List Action := [.delete (sampleId 2), .run 0, .run 0, .run 0, .run 0]

def removedDb : Db :=
  ⟨oneEditionDb.tables.dropEditions fun id => [sampleId 2].contains id,
    sound_dropEditions oneEditionDb.sound _⟩

theorem step_removes : step Env.reference
    ⟨oneEditionDb, [.removing (sampleId 2) (sampleId 1) 1], [sampleId 2]⟩ (.run 0) =
      ⟨removedDb, [.dropping (sampleId 1)], [sampleId 2]⟩ := by
  rw [step_single, statement_removing (s := ⟨oneEditionDb, [], []⟩)]
  rfl

theorem keepsAndClears_lone : KeepsAndClears Env.reference (sampleId 1) oneEditionDb lone := by
  have hremoved : removedDb.tables.editionsOfWork (sampleId 1) = [] := rfl
  refine keepsAndClears_of_spared Env.reference (sampleId 1) oneEditionDb lone
    ⟨?_, trivial, trivial, trivial, trivial, trivial⟩ ?_
  · intro e he _
    rw [List.mem_singleton.1 he]
  refine admitted_cons trivial rfl (admitted_cons ?_ rfl (admitted_cons ?_ rfl
    (admitted_cons ?_ step_removes (admitted_cons ?_ rfl trivial))))
  · intro task htask
    cases htask
    exact trivial
  · intro task htask
    cases htask
    exact trivial
  · intro task htask
    cases htask
    exact fun _ _ => Or.inl (Nat.le_refl 1)
  · intro task htask
    cases htask
    intro e he
    rw [State.editions, hremoved] at he
    cases he

/-- The second edition is created after the editions were counted, and before the first is
    deleted. -/
def crossed : List Action :=
  [.delete (sampleId 2), .run 0, .run 0, .create 0 (sampleId 3) bareEdition, .run 1, .run 1]

def secondRow : Edition := newRow 0 (sampleId 3) bareEdition none

def joinedDb : Db where
  tables := { oneEditionDb.tables with editions := oneEditionDb.tables.editions ++ [secondRow] }
  sound := by decide

theorem exec_crossed : Runs.exec (step Env.reference) (startState oneEditionDb) crossed =
    ⟨joinedDb, [.removing (sampleId 2) (sampleId 1) 1, .rereading (sampleId 3)], [sampleId 2]⟩ := by
  have hinserted : statement Env.reference oneEditionDb
      (.inserting 0 (sampleId 3) bareEdition none) = (.rereading (sampleId 3), joinedDb) :=
    @attempt_of_ok oneEditionDb joinedDb _ _ (execute_of_sound joinedDb.sound)
  show step Env.reference ⟨oneEditionDb, [.removing (sampleId 2) (sampleId 1) 1,
    .inserting 0 (sampleId 3) bareEdition none], [sampleId 2]⟩ (.run 1) = _
  rw [@step_some _ _ 1 (.inserting 0 (sampleId 3) bareEdition none) rfl, hinserted]
  rfl

/-- Both editions are gone, and the work with them. -/
def sweptDb : Db where
  tables := (joinedDb.tables.dropEditions fun id => [sampleId 2].contains id).dropWork (sampleId 1)
  sound := sound_dropWork (sound_dropEditions joinedDb.sound _) _

theorem exec_swept : Runs.exec (step Env.reference) (startState oneEditionDb)
    (crossed ++ [.run 0, .run 0, .run 1]) = ⟨sweptDb, [.finished, .finished], [sampleId 2]⟩ := by
  have hremoves : step Env.reference ⟨joinedDb, [.removing (sampleId 2) (sampleId 1) 1,
      .rereading (sampleId 3)], [sampleId 2]⟩ (.run 0) =
        ⟨⟨joinedDb.tables.dropEditions fun id => [sampleId 2].contains id,
            sound_dropEditions joinedDb.sound _⟩,
          [.dropping (sampleId 1), .rereading (sampleId 3)], [sampleId 2]⟩ := by
    rw [@step_some _ _ 0 (.removing (sampleId 2) (sampleId 1) 1) rfl, statement_removing]
    rfl
  have hdrops : step Env.reference
      ⟨⟨joinedDb.tables.dropEditions fun id => [sampleId 2].contains id,
        sound_dropEditions joinedDb.sound _⟩, [.dropping (sampleId 1), .rereading (sampleId 3)],
        [sampleId 2]⟩ (.run 0) = ⟨sweptDb, [.finished, .rereading (sampleId 3)], [sampleId 2]⟩ := by
    rw [@step_some _ _ 0 (.dropping (sampleId 1)) rfl, statement_dropping]
    rfl
  rw [Runs.exec_append, exec_crossed, Runs.exec_cons, hremoves, Runs.exec_cons, hdrops]
  rfl

/-- The edition that was created in between goes with the work. -/
theorem not_keepsAndClears_crossed :
    ¬ KeepsAndClears Env.reference (sampleId 1) oneEditionDb
      (crossed ++ [.run 0, .run 0, .run 1]) := by
  intro h
  have hkept := h.keeps crossed _ (List.prefix_append _ _) (List.prefix_refl _)
  rw [exec_swept, exec_crossed] at hkept
  have hfinished : ∀ task ∈ [Task.finished, Task.finished], task = .finished := by simp
  have hthere : secondRow ∈ joinedDb.tables.editions :=
    List.mem_append_right _ (List.mem_singleton_self _)
  have hnone : sweptDb.tables.editions = [] := rfl
  have hleft := (mem_editions.1 (hkept hfinished secondRow (mem_editions.2 ⟨hthere, rfl⟩)
    (by decide))).1
  rw [hnone] at hleft
  cases hleft

end OneEdition

end LastEdition
