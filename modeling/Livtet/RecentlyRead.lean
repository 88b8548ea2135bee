import Livtet.Lib.KeyedRows
import Livtet.Sessions

/-! # Recently read books

    A book was last read at the start of its edition's latest session, or, if it has none,
    when its progress was first recorded. The books are listed in the order of their
    progress rows, newest first, and cut; when each was read is looked up afterwards.

    The list is in the order of reading, and leaves out nothing that was read later, if the
    rows were created in the order in which they were read, as far as it shows
    (`right_iff_inStep`). -/

namespace RecentlyRead

open SyncPairing (DbId)
open ReadingTime (Row Table)
open Sessions (SessionRow SessionTable)
open Timestamps Civil

/-! ## The query -/

/-- The tables that the dashboard reads. -/
structure Db (F : Type) where
  library : Library.Db
  progress : Table F
  sessions : SessionTable F
  progressEdition : (progress.rows.map fun r => r.editionId) ⊆ library.tables.editionIds

/-- How SQLite orders stored dates and times, which are texts: by time, if one of the two
    has a year from 0 on. Rows with equal ones come in any order. -/
structure SqlOrder (F : Type) where
  le : PrimitiveDateTime → PrimitiveDateTime → Bool
  newestFirst : List (Row F) → List (Row F)
  latest : List (SessionRow F) → Option (SessionRow F)
  le_iff : ∀ a b, 0 ≤ a.year ∨ 0 ≤ b.year → (le a b = true ↔ a.nanos ≤ b.nanos)
  perm : ∀ rows, (newestFirst rows).Perm rows
  sorted : ∀ rows, (newestFirst rows).Pairwise fun a b => le b.createdAt a.createdAt = true
  latest_none : ∀ rows, latest rows = none → rows = []
  latest_some : ∀ rows s, latest rows = some s →
    s ∈ rows ∧ ∀ s' ∈ rows, le s'.startedAt s.startedAt = true

structure RecentlyReadBook (F : Type) where
  workId : DbId
  editionId : DbId
  title : String
  authorName : Option String
  progress : F
  totalReadingTimeSecs : Int64
  lastReadAt : String

section Query

variable {F : Type} (lib : Rfc3339) (order : SqlOrder F) (db : Db F)

def sessionsOf (editionId : DbId) : List (SessionRow F) :=
  db.sessions.rows.filter fun s => decide (s.editionId = editionId)

def lastReadAt (progress : Row F) : PrimitiveDateTime :=
  ((order.latest (sessionsOf db progress.editionId)).map fun s => s.startedAt).getD
    progress.createdAt

def firstWorkAuthor (workId : DbId) : Option String :=
  (db.library.tables.workAuthors.find? fun l => decide (l.owner = workId)).bind fun l =>
    (db.library.tables.authors.find? fun a => decide (a.id = l.target)).map fun a => a.name

/-- The loop over the rows; `none` is a panic. -/
def collect : List (Row F) → Option (List (RecentlyReadBook F))
  | [] => some []
  | progress :: rest =>
      match db.library.tables.editions.find? fun e => decide (e.id = progress.editionId) with
      | none => collect rest
      | some edition =>
          match db.library.tables.works.find? fun w => decide (w.id = edition.workId) with
          | none => collect rest
          | some work => do
              let lastReadAt ← ts lib (lastReadAt order db progress)
              let out ← collect rest
              pure ({ workId := work.id, editionId := progress.editionId, title := work.title
                      authorName := firstWorkAuthor db work.id, progress := progress.progress
                      totalReadingTimeSecs := progress.totalReadingTimeSecs, lastReadAt } :: out)

def rowsShown (limit : UInt32) : Nat := max limit.toNat 1

def getRecentlyReadBooks (limit : UInt32) : Option (List (RecentlyReadBook F)) :=
  collect lib order db ((order.newestFirst db.progress.rows).take (rowsShown limit))

end Query

/-! ## What was read last -/

section Reading

variable {F : Type} (lib : Rfc3339) (order : SqlOrder F) (db : Db F)

/-- The start of the latest session of the row's edition, else when the row was created. -/
def lastRead (p : Row F) : Int :=
  ((sessionsOf db p.editionId).map fun s => s.startedAt.nanos).max?.getD p.createdAt.nanos

/-- The instant that a book is said to have been read at. -/
def shownAt (b : RecentlyReadBook F) (n : Int) : Prop :=
  ∃ r, lib.parse b.lastReadAt = .ok r ∧ r.instant = n

/-- The books are shown with the time they were last read at, the latest first; and if
    there are as many as are shown at most, no edition that is left out was read later. -/
structure MostRecent (limit : UInt32) (books : List (RecentlyReadBook F)) : Prop where
  dated : ∀ b ∈ books, ∃ p ∈ db.progress.rows, p.editionId = b.editionId ∧
    shownAt lib b (lastRead db p)
  ordered : books.Pairwise fun a b => ∃ m n, shownAt lib a m ∧ shownAt lib b n ∧ n ≤ m
  complete : books.length = rowsShown limit → ∀ p ∈ db.progress.rows,
    p.editionId ∉ (books.map fun b => b.editionId) →
      ∀ b ∈ books, ∃ n, shownAt lib b n ∧ lastRead db p ≤ n

/-- The call does not panic and returns the books read most recently. -/
def Right (limit : UInt32) : Prop :=
  ∃ books, getRecentlyReadBooks lib order db limit = some books ∧ MostRecent lib db limit books

/-- The year of an instant in Greenwich. -/
def yearAt (n : Int) : Int := (Reading.ofInt n 0).date.year

/-- Of the progress rows, newest first, none of those shown was read before one that comes
    later, if that is shown too, or is of an edition that is not; and all that are shown
    were read in a year from 0 on. -/
structure InStep (limit : UInt32) : Prop where
  years : ∀ p ∈ (order.newestFirst db.progress.rows).take (rowsShown limit),
    0 ≤ yearAt (lastRead db p)
  shown : ((order.newestFirst db.progress.rows).take (rowsShown limit)).Pairwise fun p q =>
    lastRead db q ≤ lastRead db p
  hidden : ∀ q ∈ (order.newestFirst db.progress.rows).drop (rowsShown limit),
    q.editionId ∉ (((order.newestFirst db.progress.rows).take (rowsShown limit)).map
      fun p => p.editionId) →
    ∀ p ∈ (order.newestFirst db.progress.rows).take (rowsShown limit),
      lastRead db q ≤ lastRead db p

end Reading

/-! ## Lists side by side -/

section SideBySide

variable {α β : Type} {R : α → β → Prop} {xs : List α} {ys : List β}

theorem exists_right (h : List.Forall₂ R xs ys) {x : α} (hx : x ∈ xs) : ∃ y ∈ ys, R x y := by
  induction h with
  | nil => cases hx
  | cons hr _ ih =>
      rcases List.mem_cons.1 hx with rfl | hx
      · exact ⟨_, List.mem_cons_self, hr⟩
      · obtain ⟨y, hy, hxy⟩ := ih hx
        exact ⟨y, List.mem_cons_of_mem _ hy, hxy⟩

theorem pairwise_right {S : α → α → Prop} {T : β → β → Prop} (h : List.Forall₂ R xs ys)
    (hst : ∀ x y x' y', R x y → R x' y' → S x x' → T y y') (hs : xs.Pairwise S) :
    ys.Pairwise T := by
  induction h with
  | nil => exact List.Pairwise.nil
  | cons hr hrest ih =>
      obtain ⟨hhead, htail⟩ := List.pairwise_cons.1 hs
      refine List.pairwise_cons.2 ⟨fun y' hy' => ?_, ih htail⟩
      obtain ⟨x', hx', hr'⟩ := exists_right hrest.flip hy'
      exact hst _ _ _ _ hr hr' (hhead x' hx')

end SideBySide

/-! ## What is shown of a row -/

section Rows

variable {F : Type} {lib : Rfc3339} {order : SqlOrder F} {db : Db F} {p : Row F}
  {rows : List (Row F)} {b : RecentlyReadBook F} {books : List (RecentlyReadBook F)}
  {limit : UInt32}

/-- The latest session in the order of the texts is the latest one, if either has a year
    from 0 on. -/
theorem nanos_lastReadAt
    (h : 0 ≤ (lastReadAt order db p).year ∨ 0 ≤ yearAt (lastRead db p)) :
    (lastReadAt order db p).nanos = lastRead db p := by
  rw [lastReadAt, lastRead] at h ⊢
  cases hlatest : order.latest (sessionsOf db p.editionId) with
  | none =>
      rw [order.latest_none _ hlatest]
      rfl
  | some s =>
      obtain ⟨hs, hle⟩ := order.latest_some _ s hlatest
      cases hmax : ((sessionsOf db p.editionId).map fun s => s.startedAt.nanos).max? with
      | none =>
          rw [List.max?_eq_none_iff, List.map_eq_nil_iff] at hmax
          rw [hmax] at hs
          cases hs
      | some n =>
          rw [hlatest, hmax] at h
          obtain ⟨hn, hup⟩ := List.max?_eq_some_iff.1 hmax
          obtain ⟨s', hs', rfl⟩ := List.mem_map.1 hn
          have hback := (order.le_iff s'.startedAt s.startedAt h.symm).1 (hle s' hs')
          exact Int.le_antisymm (hup _ (List.mem_map.2 ⟨s, hs, rfl⟩)) hback

theorem year_lastReadAt :
    0 ≤ (lastReadAt order db p).year ↔ 0 ≤ yearAt (lastRead db p) := by
  have hyear : (lastReadAt order db p).year = yearAt (lastReadAt order db p).nanos := rfl
  constructor
  · intro h
    rw [← nanos_lastReadAt (Or.inl h), ← hyear]
    exact h
  · intro h
    rw [hyear, nanos_lastReadAt (Or.inr h)]
    exact h

/-- A row and the book made from it. -/
structure Shows (lib : Rfc3339) (order : SqlOrder F) (db : Db F) (p : Row F)
    (b : RecentlyReadBook F) : Prop where
  edition : b.editionId = p.editionId
  text : lib.format (lastReadAt order db p) = some b.lastReadAt

theorem Shows.shownAt (h : Shows lib order db p b) : shownAt lib b (lastRead db p) := by
  refine ⟨_, lib.parse_format _ _ h.text, ?_⟩
  rw [instant_assumeUtc]
  exact nanos_lastReadAt (Or.inl (year_of_format h.text))

theorem shownAt_unique {m n : Int} (hm : shownAt lib b m) (hn : shownAt lib b n) : m = n := by
  obtain ⟨r, hr, rfl⟩ := hm
  obtain ⟨r', hr', rfl⟩ := hn
  cases hr.symm.trans hr'
  rfl

/-- No row is left out, since every edition has its work. -/
theorem collect_cons (hp : p.editionId ∈ db.library.tables.editionIds) :
    ∃ make : String → RecentlyReadBook F,
      (∀ text, (make text).editionId = p.editionId ∧ (make text).lastReadAt = text) ∧
      collect lib order db (p :: rows) = (do
        let text ← lib.format (lastReadAt order db p)
        let out ← collect lib order db rows
        pure (make text :: out)) := by
  rw [collect]
  cases hedition : db.library.tables.editions.find? fun e => decide (e.id = p.editionId) with
  | none => exact absurd hp (KeyedRows.find?_key_eq_none.1 hedition)
  | some edition =>
      have hmem := List.mem_of_find?_eq_some hedition
      have hwork := db.library.sound.references.editionWork
        (List.mem_map.2 ⟨edition, hmem, rfl⟩)
      dsimp only
      cases hfound : db.library.tables.works.find? fun w => decide (w.id = edition.workId) with
      | none => exact absurd hwork (KeyedRows.find?_key_eq_none.1 hfound)
      | some work => exact ⟨_, fun text => ⟨rfl, rfl⟩, rfl⟩

theorem forall₂_collect (hrows : ∀ p ∈ rows, p.editionId ∈ db.library.tables.editionIds)
    (h : collect lib order db rows = some books) :
    List.Forall₂ (Shows lib order db) rows books := by
  induction rows generalizing books with
  | nil =>
      cases h
      exact List.Forall₂.nil
  | cons p rest ih =>
      obtain ⟨make, hmake, hcollect⟩ := @collect_cons _ lib order db p rest (hrows p List.mem_cons_self)
      rw [hcollect] at h
      obtain ⟨text, htext, h⟩ := Option.bind_eq_some_iff.1 h
      obtain ⟨out, hout, h⟩ := Option.bind_eq_some_iff.1 h
      cases h
      refine List.Forall₂.cons ⟨(hmake text).1, ?_⟩
        (ih (fun p hp => hrows p (List.mem_cons_of_mem _ hp)) hout)
      rw [(hmake text).2]
      exact htext

theorem exists_collect (hrows : ∀ p ∈ rows, p.editionId ∈ db.library.tables.editionIds)
    (hyears : ∀ p ∈ rows, 0 ≤ yearAt (lastRead db p)) :
    ∃ books, collect lib order db rows = some books := by
  induction rows with
  | nil => exact ⟨[], rfl⟩
  | cons p rest ih =>
      obtain ⟨make, _, hcollect⟩ := @collect_cons _ lib order db p rest (hrows p List.mem_cons_self)
      obtain ⟨out, hout⟩ := ih (fun p hp => hrows p (List.mem_cons_of_mem _ hp))
        fun p hp => hyears p (List.mem_cons_of_mem _ hp)
      obtain ⟨text, htext⟩ := @format_of_year lib (lastReadAt order db p)
        (year_lastReadAt.2 (hyears p List.mem_cons_self))
      rw [hcollect, htext, hout]
      exact ⟨_, rfl⟩

/-! ## The list -/

theorem mem_newestFirst : p ∈ order.newestFirst db.progress.rows ↔ p ∈ db.progress.rows :=
  (order.perm _).mem_iff

theorem editions_shown (p : Row F) (hp : p ∈ (order.newestFirst db.progress.rows).take
    (rowsShown limit)) : p.editionId ∈ db.library.tables.editionIds := by
  have hrow := mem_newestFirst.1 (List.mem_of_mem_take hp)
  exact db.progressEdition (List.mem_map.2 ⟨p, hrow, rfl⟩)

theorem map_edition (h : List.Forall₂ (Shows lib order db) rows books) :
    (books.map fun b => b.editionId) = rows.map fun p => p.editionId := by
  induction h with
  | nil => rfl
  | cons hshows _ ih => rw [List.map_cons, List.map_cons, ih, hshows.edition]

theorem inStep_of_right (h : Right lib order db limit) : InStep order db limit := by
  obtain ⟨books, hbooks, hrecent⟩ := h
  have hside := forall₂_collect editions_shown hbooks
  refine ⟨fun p hp => ?_, ?_, fun q hq hleft p hp => ?_⟩
  · obtain ⟨b, _, hb⟩ := exists_right hside hp
    exact year_lastReadAt.1 (year_of_format hb.text)
  · refine pairwise_right hside.flip (fun b p b' p' hb hb' hle => ?_) hrecent.ordered
    obtain ⟨m, n, hm, hn, hle⟩ := hle
    rw [shownAt_unique hb.shownAt hm, shownAt_unique hb'.shownAt hn]
    exact hle
  · have hlength : books.length = rowsShown limit := by
      rw [← hside.length_eq, List.length_take]
      have hlt := List.length_pos_of_mem hq
      rw [List.length_drop] at hlt
      omega
    obtain ⟨b, hb, hshows⟩ := exists_right hside hp
    rw [← map_edition hside] at hleft
    obtain ⟨n, hn, hle⟩ := hrecent.complete hlength q
      (mem_newestFirst.1 (List.mem_of_mem_drop hq)) hleft b hb
    rw [shownAt_unique hshows.shownAt hn]
    exact hle

theorem right_of_inStep (h : InStep order db limit) : Right lib order db limit := by
  obtain ⟨books, hbooks⟩ := @exists_collect _ lib order db _ editions_shown h.years
  have hside := forall₂_collect editions_shown hbooks
  refine ⟨books, hbooks, fun b hb => ?_, ?_, fun _ q hq hleft b hb => ?_⟩
  · obtain ⟨p, hp, hshows⟩ := exists_right hside.flip hb
    exact ⟨p, mem_newestFirst.1 (List.mem_of_mem_take hp), hshows.edition.symm, hshows.shownAt⟩
  · refine pairwise_right hside (fun p b p' b' hb hb' hle => ?_) h.shown
    exact ⟨_, _, hb.shownAt, hb'.shownAt, hle⟩
  · obtain ⟨p, hp, hshows⟩ := exists_right hside.flip hb
    rw [map_edition hside] at hleft
    refine ⟨_, hshows.shownAt, h.hidden q ?_ hleft p hp⟩
    have hmem := (order.perm _).mem_iff.2 hq
    rw [← List.take_append_drop (rowsShown limit) (order.newestFirst _)] at hmem
    refine (List.mem_append.1 hmem).resolve_left fun hshown => hleft ?_
    exact List.mem_map.2 ⟨q, hshown, rfl⟩

/-- Where the rows were created in the order they were last read in, all is in step. -/
theorem inStep_of_agree (hyears : ∀ p ∈ db.progress.rows,
      0 ≤ p.createdAt.year ∧ 0 ≤ yearAt (lastRead db p))
    (hagree : ∀ p ∈ db.progress.rows, ∀ q ∈ db.progress.rows,
      q.createdAt.nanos ≤ p.createdAt.nanos → lastRead db q ≤ lastRead db p) :
    InStep order db limit := by
  have hsorted : (order.newestFirst db.progress.rows).Pairwise fun p q =>
      lastRead db q ≤ lastRead db p := by
    refine (order.sorted db.progress.rows).imp_of_mem fun hp hq hle => ?_
    have hp := mem_newestFirst.1 hp
    have hq := mem_newestFirst.1 hq
    exact hagree _ hp _ hq ((order.le_iff _ _ (Or.inl (hyears _ hq).1)).1 hle)
  refine ⟨fun p hp => (hyears p (mem_newestFirst.1 (List.mem_of_mem_take hp))).2,
    hsorted.take, fun q hq _ p hp => ?_⟩
  rw [← List.take_append_drop (rowsShown limit) (order.newestFirst _)] at hsorted
  exact (List.pairwise_append.1 hsorted).2.2 p hp q hq

end Rows

/-- **THE BOOKS SHOWN ARE THOSE READ MOST RECENTLY**, in their order, exactly if the
    progress rows were created in step with the reading, as far as the list shows. -/
theorem right_iff_inStep {F : Type} (lib : Rfc3339) (order : SqlOrder F) (db : Db F)
    (limit : UInt32) : Right lib order db limit ↔ InStep order db limit :=
  ⟨inStep_of_right, right_of_inStep⟩

/-! ## Two books, the older one read last -/

/-- The later one first. -/
def Later {α : Type} (f : α → PrimitiveDateTime) (a b : α) : Prop := (f b).nanos ≤ (f a).nanos

section Later

variable {α : Type} (f : α → PrimitiveDateTime)

instance : DecidableRel (Later f) := fun a b => inferInstanceAs (Decidable ((f b).nanos ≤ (f a).nanos))

instance : Std.Total (Later f) := ⟨fun a b => Int.le_total (f b).nanos (f a).nanos⟩

instance : IsTrans α (Later f) := ⟨fun _ _ _ h h' => Int.le_trans h' h⟩

def latestFirst (xs : List α) : List α := xs.insertionSort (Later f)

theorem head?_latestFirst {xs : List α} {x : α} (h : (latestFirst f xs).head? = some x) :
    x ∈ xs ∧ ∀ y ∈ xs, (f y).nanos ≤ (f x).nanos := by
  have hsorted : (latestFirst f xs).Pairwise (Later f) := List.pairwise_insertionSort _ xs
  have hperm : (latestFirst f xs).Perm xs := List.perm_insertionSort _ xs
  cases hlist : latestFirst f xs with
  | nil =>
      rw [hlist] at h
      cases h
  | cons y rest =>
      rw [hlist] at h hsorted hperm
      cases h
      refine ⟨hperm.mem_iff.1 List.mem_cons_self, fun z hz => ?_⟩
      rcases List.mem_cons.1 (hperm.mem_iff.2 hz) with rfl | hz
      · exact Int.le_refl _
      · exact (List.pairwise_cons.1 hsorted).1 z hz

end Later

/-- The order of time, which is that of the texts from the year 0 on. -/
def timeOrder : SqlOrder Int where
  le a b := decide (a.nanos ≤ b.nanos)
  newestFirst := latestFirst fun r => r.createdAt
  latest rows := (latestFirst (fun s => s.startedAt) rows).head?
  le_iff _ _ _ := decide_eq_true_iff
  perm rows := List.perm_insertionSort _ rows
  sorted rows := (List.pairwise_insertionSort (Later fun r : Row Int => r.createdAt) rows).imp
    decide_eq_true
  latest_none rows h := by
    have hperm : (latestFirst (fun s => s.startedAt) rows).Perm rows := List.perm_insertionSort _ rows
    rw [List.head?_eq_none_iff] at h
    rw [h] at hperm
    exact hperm.nil_eq.symm
  latest_some rows s h := by
    obtain ⟨hs, hlatest⟩ := head?_latestFirst _ h
    exact ⟨hs, fun s' hs' => decide_eq_true (hlatest s' hs')⟩

def editionOf (n : UInt8) : Library.Edition :=
  { id := Library.sampleId n, workId := Library.sampleId 1, title := none, publishedDate := none
    formatId := none, languageId := none, notes := none, description := none, createdAt := 0
    updatedAt := none, coverImageUrl := none }

def twoEditions : Library.Db where
  tables := { Library.oneWork with editions := [editionOf 2, editionOf 3] }
  sound := by decide

def progressOf (n : UInt8) (createdAt : PrimitiveDateTime) : Row Int :=
  { id := Library.sampleId n, editionId := Library.sampleId n, formatId := Library.sampleId 9
    progress := 0, progressUnit := none, lastLocation := none, totalReadingTimeSecs := 0, createdAt }

/-- An hour after noon, and two hours after it. -/
def oneOClock : PrimitiveDateTime := ⟨noon.nanos + 3600000000000, by decide⟩

def twoOClock : PrimitiveDateTime := ⟨noon.nanos + 7200000000000, by decide⟩

/-- The first book is begun at noon and the second at one; at two the first is read on. -/
def readOn : Db Int where
  library := twoEditions
  progress := ⟨[progressOf 2 noon, progressOf 3 oneOClock], by decide, by decide⟩
  sessions := ⟨[Sessions.newRow (Library.sampleId 4) ⟨twoOClock, twoOClock⟩
    { (Sessions.sessionInput 600 none) with editionId := Library.sampleId 2 } twoOClock],
    List.nodup_singleton _⟩
  progressEdition := by decide

/-- The first book was read last, but is shown last, or left out. -/
theorem not_right_readOn :
    ¬ Right .reference timeOrder readOn 2 ∧ ¬ Right .reference timeOrder readOn 1 := by
  refine ⟨fun h => ?_, fun h => ?_⟩
  · exact absurd (inStep_of_right h).shown (by decide)
  · have hleft : progressOf 2 noon ∈
        (timeOrder.newestFirst readOn.progress.rows).drop (rowsShown 1) :=
      List.mem_singleton_self _
    exact absurd ((inStep_of_right h).hidden _ hleft (by decide)) (by decide)

end RecentlyRead
