import Livtet.Lib.DocIndex
import Livtet.Lib.Runs
import Livtet.Pairing

/-! # The search index — single-document writes

    Editions and authors are documents of one index. Writing an edition replaces
    the documents with its edition id, writing an author those with the author's
    id. But an edition document carries the ids of its authors in that same field,
    so writing an author also takes the editions the author is named in. The index
    holds exactly what was written as long as no author is written while an indexed
    edition names it. -/

namespace SearchIndex

open SyncStore SyncPairing DocIndex

/-! ## Documents -/

inductive Field
  | editionId
  | workId
  | workIdHash
  | authorId
  | kind
  | title
  | editionTitle
  | workDescription
  | editionDescription
  | authors
  | tags
  | genres
  | subjects
  | publishers
  | identifierKinds
  | identifierValues
  | notes
  | format
  | language
  | languageFacet
  | publisherFacet
  | subjectFacet
  | genreFacet
  | pubDate
  | publishedYear
  | titleSort
  | primaryAuthorSort
  | createdAt
  | updatedAt
  | popularity
  | source
  | hasFile
  | tagId
  | genreId
  | subjectId
  | seriesId
  | publisherId
deriving DecidableEq, Repr

/-- A date is its nanoseconds since the epoch. -/
inductive FieldValue
  | text (s : String)
  | u64 (n : Nat)
  | date (nanos : Int)
  | facet (path : String)
  | bool (b : Bool)
deriving DecidableEq, Repr

instance : LawfulBEq (Field × FieldValue) := inferInstance

abbrev Document := List (Field × FieldValue)

/-- A text value of one of the fields that are indexed whole. -/
abbrev Term := Field × String

def hasTerm (t : Term) (d : Document) : Bool := decide ((t.1, .text t.2) ∈ d)

/-- What the documents take from libraries: the hash of a work id, facet paths, lower
    case, and dates from seconds. -/
structure IndexLib where
  hashWorkId : String → Nat
  facetFromText : String → Option String
  toLowercase : String → String
  fromTimestampSecs : Int → Int

/-- Denormalized data for a single edition document. -/
structure EditionDoc where
  editionId : String
  workId : String
  title : String
  editionTitle : Option String
  workDescription : Option String
  editionDescription : Option String
  authors : List String
  authorsIds : List String
  tags : List String
  genres : List String
  subjects : List String
  publishers : List String
  identifierKinds : List String
  identifierValues : List String
  notes : Option String
  format : Option String
  language : Option String
  pubDate : Option Int
  publishedYear : Option Int
  titleSort : String
  primaryAuthorSort : Option String
  createdAt : Int
  updatedAt : Option Int
  popularity : Int

/-- Denormalized data for a single author document. -/
structure AuthorDoc where
  authorId : String
  name : String
  sortName : String
  birthYear : Option Int
  deathYear : Option Int
  source : String

def texts (field : Field) (values : List String) : Document :=
  values.map fun v => (field, .text v)

section Documents

variable (lib : IndexLib)

/-- The facet of a name, or the one for names that make none. -/
def facets (field : Field) (names : List String) : Document :=
  names.map fun name => (field, .facet ((lib.facetFromText ("/" ++ name)).getD "/misc"))

def dates (field : Field) (nanos : Option Int) : Document :=
  nanos.toList.map fun n => (field, .date n)

def years (year : Nat) : Document := if 0 < year then [(.publishedYear, .u64 year)] else []

/-- The document `upsert_edition` writes. -/
def editionDocument (doc : EditionDoc) : Document :=
  List.flatten [
    texts .editionId [doc.editionId],
    texts .workId [doc.workId],
    [(.workIdHash, .u64 (lib.hashWorkId doc.workId))],
    texts .authorId doc.authorsIds,
    texts .kind ["edition"],
    texts .title [doc.title],
    texts .editionTitle doc.editionTitle.toList,
    texts .workDescription doc.workDescription.toList,
    texts .editionDescription doc.editionDescription.toList,
    texts .authors doc.authors,
    texts .tags doc.tags,
    texts .genres doc.genres,
    texts .subjects doc.subjects,
    texts .publishers doc.publishers,
    texts .identifierKinds doc.identifierKinds,
    texts .identifierValues doc.identifierValues,
    texts .notes [doc.notes.getD ""],
    texts .format doc.format.toList,
    texts .language doc.language.toList,
    facets lib .languageFacet doc.language.toList,
    facets lib .publisherFacet doc.publishers,
    facets lib .subjectFacet doc.subjects,
    facets lib .genreFacet doc.genres,
    dates .pubDate (doc.pubDate.map lib.fromTimestampSecs),
    years ((doc.publishedYear.map Int.toNat).getD 0),
    texts .titleSort [lib.toLowercase doc.titleSort],
    texts .primaryAuthorSort (doc.primaryAuthorSort.map lib.toLowercase).toList,
    dates .createdAt (some (lib.fromTimestampSecs doc.createdAt)),
    dates .updatedAt (doc.updatedAt.map lib.fromTimestampSecs),
    [(.popularity, .u64 doc.popularity.toNat)],
    texts .source ["catalog"]]

/-- The document `upsert_author` writes. -/
def authorDocument (doc : AuthorDoc) : Document :=
  List.flatten [
    texts .authorId [doc.authorId],
    texts .kind ["author"],
    texts .title [doc.name],
    texts .authors [doc.name],
    texts .titleSort [lib.toLowercase doc.sortName],
    texts .primaryAuthorSort [lib.toLowercase doc.sortName],
    texts .source [doc.source]]

/-! ## Writes

    Each runs under the writer's lock, so it is one step. -/

abbrev IndexWriter := DocIndex.Writer Term Document

def upsertEdition (doc : EditionDoc) (w : IndexWriter) : IndexWriter :=
  ((w.deleteTerm (.editionId, doc.editionId)).addDocument (editionDocument lib doc)).commit hasTerm

def upsertAuthor (doc : AuthorDoc) (w : IndexWriter) : IndexWriter :=
  ((w.deleteTerm (.authorId, doc.authorId)).addDocument (authorDocument lib doc)).commit hasTerm

def deleteEdition (env : Env) (id : DbId) (w : IndexWriter) : IndexWriter :=
  (w.deleteTerm (.editionId, id.text env)).commit hasTerm

end Documents

/-! ## What the terms of a document are -/

section Terms

variable {lib : IndexLib}

theorem mem_texts {f g : Field} {v : String} {values : List String} :
    (f, FieldValue.text v) ∈ texts g values ↔ f = g ∧ v ∈ values := by
  rw [texts, List.mem_map]
  constructor
  · rintro ⟨v', hv', h⟩
    cases h
    exact ⟨rfl, hv'⟩
  · rintro ⟨rfl, hv⟩
    exact ⟨v, hv, rfl⟩

theorem not_mem_facets {f g : Field} {v : String} {names : List String} :
    (f, FieldValue.text v) ∉ facets lib g names := by
  rw [facets, List.mem_map]
  rintro ⟨_, _, h⟩
  cases h

theorem not_mem_dates {f g : Field} {v : String} {nanos : Option Int} :
    (f, FieldValue.text v) ∉ dates g nanos := by
  rw [dates, List.mem_map]
  rintro ⟨_, _, h⟩
  cases h

theorem not_mem_years {f : Field} {v : String} {year : Nat} :
    (f, FieldValue.text v) ∉ years year := by
  rw [years]
  split <;> simp

theorem hasTerm_editionId_edition {doc : EditionDoc} {id : String} :
    hasTerm (.editionId, id) (editionDocument lib doc) = true ↔ id = doc.editionId := by
  rw [hasTerm, decide_eq_true_eq]
  simp [editionDocument, mem_texts, not_mem_facets, not_mem_dates, not_mem_years]

theorem hasTerm_authorId_edition {doc : EditionDoc} {id : String} :
    hasTerm (.authorId, id) (editionDocument lib doc) = true ↔ id ∈ doc.authorsIds := by
  rw [hasTerm, decide_eq_true_eq]
  simp [editionDocument, mem_texts, not_mem_facets, not_mem_dates, not_mem_years]

theorem hasTerm_kind_edition {doc : EditionDoc} {kind : String} :
    hasTerm (.kind, kind) (editionDocument lib doc) = true ↔ kind = "edition" := by
  rw [hasTerm, decide_eq_true_eq]
  simp [editionDocument, mem_texts, not_mem_facets, not_mem_dates, not_mem_years]

theorem hasTerm_editionId_author {doc : AuthorDoc} {id : String} :
    hasTerm (.editionId, id) (authorDocument lib doc) = false := by
  simp [hasTerm, authorDocument, mem_texts]

theorem hasTerm_authorId_author {doc : AuthorDoc} {id : String} :
    hasTerm (.authorId, id) (authorDocument lib doc) = true ↔ id = doc.authorId := by
  simp [hasTerm, authorDocument, mem_texts]

theorem hasTerm_kind_author {doc : AuthorDoc} {kind : String} :
    hasTerm (.kind, kind) (authorDocument lib doc) = true ↔ kind = "author" := by
  simp [hasTerm, authorDocument, mem_texts]

end Terms

/-! ## Sequences of writes -/

inductive Action
  | upsertEdition (doc : EditionDoc)
  | upsertAuthor (doc : AuthorDoc)
  | deleteEdition (id : DbId)

/-- The index, and the calls that were made on it. -/
structure State where
  writer : IndexWriter
  history : List Action

def startState : State := ⟨DocIndex.Writer.empty, []⟩

def State.docs (s : State) : List Document := s.writer.committed

section System

variable (lib : IndexLib) (env : Env)

def write (w : IndexWriter) : Action → IndexWriter
  | .upsertEdition doc => upsertEdition lib doc w
  | .upsertAuthor doc => upsertAuthor lib doc w
  | .deleteEdition id => deleteEdition env id w

def step (s : State) (a : Action) : State where
  writer := write lib env s.writer a
  history := s.history ++ [a]

/-- An edition's last upsert after one more call. -/
def noteEdition (id : String) (last : Option EditionDoc) : Action → Option EditionDoc
  | .upsertEdition doc => if doc.editionId = id then some doc else last
  | .upsertAuthor _ => last
  | .deleteEdition gone => if gone.text env = id then none else last

/-- The edition's last upsert, unless it was deleted since. -/
def lastEdition (history : List Action) (id : String) : Option EditionDoc :=
  history.foldl (noteEdition env id) none

def noteAuthor (id : String) (last : Option AuthorDoc) : Action → Option AuthorDoc
  | .upsertAuthor doc => if doc.authorId = id then some doc else last
  | _ => last

def lastAuthor (history : List Action) (id : String) : Option AuthorDoc :=
  history.foldl (noteAuthor id) none

def isEditionOf (id : String) (d : Document) : Bool :=
  hasTerm (.kind, "edition") d && hasTerm (.editionId, id) d

def isAuthorOf (id : String) (d : Document) : Bool :=
  hasTerm (.kind, "author") d && hasTerm (.authorId, id) d

/-- The index holds exactly what was written to it. -/
structure Exact (s : State) : Prop where
  editions : ∀ id, s.docs.filter (isEditionOf id) =
    ((lastEdition env s.history id).map (editionDocument lib)).toList
  authors : ∀ id, s.docs.filter (isAuthorOf id) =
    ((lastAuthor s.history id).map (authorDocument lib)).toList
  only : ∀ d ∈ s.docs, (∃ doc, d = editionDocument lib doc) ∨ ∃ doc, d = authorDocument lib doc

/-- An author is written only while no indexed edition names it. -/
def Guard (s : State) : Action → Prop
  | .upsertAuthor doc => ∀ d ∈ s.docs, hasTerm (.kind, "edition") d = true →
      hasTerm (.authorId, doc.authorId) d = false
  | _ => True

end System

variable {lib : IndexLib} {env : Env}

/-! ## What a call leaves -/

theorem lastEdition_concat (history : List Action) (a : Action) (id : String) :
    lastEdition env (history ++ [a]) id = noteEdition env id (lastEdition env history id) a := by
  rw [lastEdition, List.foldl_append]
  rfl

theorem lastAuthor_concat (history : List Action) (a : Action) (id : String) :
    lastAuthor (history ++ [a]) id = noteAuthor id (lastAuthor history id) a := by
  rw [lastAuthor, List.foldl_append]
  rfl

/-- The last upsert of an edition is one of that edition. -/
theorem editionId_of_lastEdition {history : List Action} {id : String} {doc : EditionDoc}
    (h : lastEdition env history id = some doc) : doc.editionId = id := by
  induction history using List.reverseRecOn with
  | nil => cases h
  | append_singleton history a ih =>
      rw [lastEdition_concat] at h
      cases a with
      | upsertEdition doc' =>
          simp only [noteEdition] at h
          split at h
          · next heq =>
              cases h
              exact heq
          · exact ih h
      | upsertAuthor doc' => exact ih h
      | deleteEdition gone =>
          simp only [noteEdition] at h
          split at h
          · cases h
          · exact ih h

theorem isEditionOf_edition {doc : EditionDoc} {id : String} :
    isEditionOf id (editionDocument lib doc) = true ↔ id = doc.editionId := by
  rw [isEditionOf, Bool.and_eq_true, hasTerm_kind_edition, hasTerm_editionId_edition]
  exact and_iff_right rfl

theorem isAuthorOf_author {doc : AuthorDoc} {id : String} :
    isAuthorOf id (authorDocument lib doc) = true ↔ id = doc.authorId := by
  rw [isAuthorOf, Bool.and_eq_true, hasTerm_kind_author, hasTerm_authorId_author]
  exact and_iff_right rfl

theorem isAuthorOf_edition {doc : EditionDoc} {id : String} :
    isAuthorOf id (editionDocument lib doc) = false := by
  rw [isAuthorOf, Bool.and_eq_false_iff, ← Bool.not_eq_true, hasTerm_kind_edition]
  exact Or.inl (by decide)

theorem isEditionOf_author {doc : AuthorDoc} {id : String} :
    isEditionOf id (authorDocument lib doc) = false := by
  rw [isEditionOf, Bool.and_eq_false_iff, hasTerm_editionId_author]
  exact Or.inr rfl

/-- Between calls nothing is queued. -/
def Settled (s : State) : Prop := s.writer.pending = []

theorem settled_step (s : State) (a : Action) : Settled (step lib env s a) := by
  cases a <;> rfl

theorem docs_upsertEdition {s : State} (hs : Settled s) (doc : EditionDoc) :
    (step lib env s (.upsertEdition doc)).docs =
      (s.docs.filter fun d => !hasTerm (.editionId, doc.editionId) d) ++
        [editionDocument lib doc] := by
  show ((((s.writer.deleteTerm _).addDocument _).commit hasTerm).committed) = _
  rw [Writer.committed_addDocument, Writer.committed_deleteTerm,
    Writer.committed_commit_of_pending_nil hs]
  rfl

theorem docs_upsertAuthor {s : State} (hs : Settled s) (doc : AuthorDoc) :
    (step lib env s (.upsertAuthor doc)).docs =
      (s.docs.filter fun d => !hasTerm (.authorId, doc.authorId) d) ++ [authorDocument lib doc] := by
  show ((((s.writer.deleteTerm _).addDocument _).commit hasTerm).committed) = _
  rw [Writer.committed_addDocument, Writer.committed_deleteTerm,
    Writer.committed_commit_of_pending_nil hs]
  rfl

theorem docs_deleteEdition {s : State} (hs : Settled s) (id : DbId) :
    (step lib env s (.deleteEdition id)).docs =
      s.docs.filter fun d => !hasTerm (.editionId, id.text env) d := by
  show (((s.writer.deleteTerm _).commit hasTerm).committed) = _
  rw [Writer.committed_deleteTerm, Writer.committed_commit_of_pending_nil hs]
  rfl

/-! ## One call keeps the index exact -/

theorem authorId_of_lastAuthor {history : List Action} {id : String} {doc : AuthorDoc}
    (h : lastAuthor history id = some doc) : doc.authorId = id := by
  induction history using List.reverseRecOn with
  | nil => cases h
  | append_singleton history a ih =>
      rw [lastAuthor_concat] at h
      cases a with
      | upsertEdition doc' => exact ih h
      | upsertAuthor doc' =>
          simp only [noteAuthor] at h
          split at h
          · next heq =>
              cases h
              exact heq
          · exact ih h
      | deleteEdition gone => exact ih h

/-- A remembered document goes with the term exactly if the term is its own id. -/
theorem filter_last {α : Type} {last : Option α} {document : α → Document} {t : Term}
    {gone id : String}
    (h : ∀ doc, last = some doc → (hasTerm t (document doc) = true ↔ gone = id)) :
    ((last.map document).toList.filter fun d => !hasTerm t d) =
      if gone = id then [] else (last.map document).toList := by
  cases last with
  | none => simp
  | some doc =>
      by_cases hgone : gone = id
      · have hterm := (h doc rfl).2 hgone
        simp [hgone, hterm]
      · have hterm : hasTerm t (document doc) = false := by
          rw [← Bool.not_eq_true, h doc rfl]
          exact hgone
        simp [hgone, hterm]

/-- Without the documents of an edition, the other editions are as they were. -/
theorem editions_without {s : State} (hs : Exact lib env s) (gone id : String) :
    (s.docs.filter fun d => !hasTerm (.editionId, gone) d).filter (isEditionOf id) =
      if gone = id then [] else ((lastEdition env s.history id).map (editionDocument lib)).toList := by
  rw [List.filter_comm, hs.editions id]
  refine filter_last fun doc hlast => ?_
  rw [hasTerm_editionId_edition, editionId_of_lastEdition hlast]

/-- No author document has an edition id. -/
theorem authors_without {s : State} (hs : Exact lib env s) (gone id : String) :
    (s.docs.filter fun d => !hasTerm (.editionId, gone) d).filter (isAuthorOf id) =
      ((lastAuthor s.history id).map (authorDocument lib)).toList := by
  rw [List.filter_comm, hs.authors id]
  cases lastAuthor s.history id with
  | none => rfl
  | some doc => simp [hasTerm_editionId_author]

theorem authors_rewritten {s : State} (hs : Exact lib env s) (gone id : String) :
    (s.docs.filter fun d => !hasTerm (.authorId, gone) d).filter (isAuthorOf id) =
      if gone = id then [] else ((lastAuthor s.history id).map (authorDocument lib)).toList := by
  rw [List.filter_comm, hs.authors id]
  refine filter_last fun doc hlast => ?_
  rw [hasTerm_authorId_author, authorId_of_lastAuthor hlast]

/-- An indexed edition is the last upsert of its id. -/
theorem lastEdition_of_mem {s : State} (hs : Exact lib env s) {doc : EditionDoc}
    (h : editionDocument lib doc ∈ s.docs) :
    ∃ last, lastEdition env s.history doc.editionId = some last ∧
      editionDocument lib last = editionDocument lib doc := by
  have hmem : editionDocument lib doc ∈ s.docs.filter (isEditionOf doc.editionId) :=
    List.mem_filter.2 ⟨h, isEditionOf_edition.2 rfl⟩
  rw [hs.editions, Option.mem_toList, Option.map_eq_some_iff] at hmem
  exact hmem

/-- Where no indexed edition names the author, its upsert leaves them all. -/
theorem editions_rewritten {s : State} (hs : Exact lib env s) {doc : AuthorDoc}
    (hguard : Guard s (.upsertAuthor doc)) (id : String) :
    (s.docs.filter fun d => !hasTerm (.authorId, doc.authorId) d).filter (isEditionOf id) =
      ((lastEdition env s.history id).map (editionDocument lib)).toList := by
  rw [← hs.editions id, List.filter_comm]
  refine List.filter_eq_self.2 fun d hd => ?_
  obtain ⟨hd, hedition⟩ := List.mem_filter.1 hd
  rw [isEditionOf, Bool.and_eq_true] at hedition
  rw [hguard d hd hedition.1]
  rfl

theorem only_concat {docs : List Document} {p : Document → Bool} {new : Document}
    (hdocs : ∀ d ∈ docs, (∃ doc, d = editionDocument lib doc) ∨ ∃ doc, d = authorDocument lib doc)
    (hnew : (∃ doc, new = editionDocument lib doc) ∨ ∃ doc, new = authorDocument lib doc) :
    ∀ d ∈ docs.filter p ++ [new],
      (∃ doc, d = editionDocument lib doc) ∨ ∃ doc, d = authorDocument lib doc := by
  intro d hd
  rcases List.mem_append.1 hd with hd | hd
  · exact hdocs d (List.mem_filter.1 hd).1
  · cases List.mem_singleton.1 hd
    exact hnew

theorem exact_upsertEdition {s : State} (hs : Exact lib env s) (hsettled : Settled s)
    (doc : EditionDoc) : Exact lib env (step lib env s (.upsertEdition doc)) := by
  have hdocs : (step lib env s (.upsertEdition doc)).docs = _ := docs_upsertEdition hsettled doc
  constructor
  · intro id
    rw [hdocs, List.filter_append, editions_without hs]
    show _ = ((lastEdition env (s.history ++ [_]) id).map (editionDocument lib)).toList
    rw [lastEdition_concat]
    by_cases hid : doc.editionId = id
    · have hkeep : isEditionOf id (editionDocument lib doc) = true :=
        isEditionOf_edition.2 hid.symm
      simp [noteEdition, hid, hkeep]
    · have hdrop : isEditionOf id (editionDocument lib doc) = false := by
        rw [← Bool.not_eq_true, isEditionOf_edition]
        exact fun h => hid h.symm
      simp [noteEdition, hid, hdrop]
  · intro id
    rw [hdocs, List.filter_append, authors_without hs]
    show _ = ((lastAuthor (s.history ++ [_]) id).map (authorDocument lib)).toList
    rw [lastAuthor_concat]
    simp [noteAuthor, isAuthorOf_edition]
  · rw [hdocs]
    exact only_concat hs.only (Or.inl ⟨doc, rfl⟩)

theorem exact_upsertAuthor {s : State} (hs : Exact lib env s) (hsettled : Settled s)
    {doc : AuthorDoc} (hguard : Guard s (.upsertAuthor doc)) :
    Exact lib env (step lib env s (.upsertAuthor doc)) := by
  have hdocs : (step lib env s (.upsertAuthor doc)).docs = _ := docs_upsertAuthor hsettled doc
  constructor
  · intro id
    rw [hdocs, List.filter_append, editions_rewritten hs hguard]
    show _ = ((lastEdition env (s.history ++ [_]) id).map (editionDocument lib)).toList
    rw [lastEdition_concat]
    simp [noteEdition, isEditionOf_author]
  · intro id
    rw [hdocs, List.filter_append, authors_rewritten hs]
    show _ = ((lastAuthor (s.history ++ [_]) id).map (authorDocument lib)).toList
    rw [lastAuthor_concat]
    by_cases hid : doc.authorId = id
    · have hkeep : isAuthorOf id (authorDocument lib doc) = true := isAuthorOf_author.2 hid.symm
      simp [noteAuthor, hid, hkeep]
    · have hdrop : isAuthorOf id (authorDocument lib doc) = false := by
        rw [← Bool.not_eq_true, isAuthorOf_author]
        exact fun h => hid h.symm
      simp [noteAuthor, hid, hdrop]
  · rw [hdocs]
    exact only_concat hs.only (Or.inr ⟨doc, rfl⟩)

theorem exact_deleteEdition {s : State} (hs : Exact lib env s) (hsettled : Settled s) (gone : DbId) :
    Exact lib env (step lib env s (.deleteEdition gone)) := by
  have hdocs : (step lib env s (.deleteEdition gone)).docs = _ := docs_deleteEdition hsettled gone
  constructor
  · intro id
    rw [hdocs, editions_without hs]
    show _ = ((lastEdition env (s.history ++ [_]) id).map (editionDocument lib)).toList
    rw [lastEdition_concat, noteEdition]
    by_cases hid : gone.text env = id <;> simp [hid]
  · intro id
    rw [hdocs, authors_without hs]
    show _ = ((lastAuthor (s.history ++ [_]) id).map (authorDocument lib)).toList
    rw [lastAuthor_concat]
    rfl
  · rw [hdocs]
    exact fun d hd => hs.only d (List.mem_filter.1 hd).1

/-- An author written while an indexed edition names it takes that edition along. -/
theorem guard_of_exact {s : State} (hs : Exact lib env s) (hsettled : Settled s) {doc : AuthorDoc}
    (hafter : Exact lib env (step lib env s (.upsertAuthor doc))) :
    Guard s (.upsertAuthor doc) := by
  intro d hd hkind
  rcases hs.only d hd with ⟨edition, rfl⟩ | ⟨author, rfl⟩
  · by_contra hnamed
    rw [Bool.not_eq_false] at hnamed
    obtain ⟨last, hlast, hsame⟩ := lastEdition_of_mem hs hd
    -- its id's last operation is still the upsert, but the document is gone
    have hstill := hafter.editions edition.editionId
    rw [docs_upsertAuthor hsettled, List.filter_append, List.filter_comm, hs.editions, hlast] at hstill
    have hunchanged : lastEdition env (step lib env s (.upsertAuthor doc)).history
        edition.editionId = some last := by
      show lastEdition env (s.history ++ [_]) _ = _
      rw [lastEdition_concat]
      exact hlast
    rw [hunchanged, Option.map_some, hsame] at hstill
    simp [hnamed, isEditionOf_author] at hstill
  · exact absurd (hasTerm_kind_author.1 hkind) (by decide)

/-- A call keeps the index exact exactly if it meets the condition. -/
theorem exact_step_iff {s : State} (hs : Exact lib env s ∧ Settled s) (a : Action) :
    Exact lib env (step lib env s a) ∧ Settled (step lib env s a) ↔ Guard s a := by
  cases a with
  | upsertEdition doc =>
      exact iff_of_true ⟨exact_upsertEdition hs.1 hs.2 doc, settled_step s _⟩ trivial
  | upsertAuthor doc =>
      exact ⟨fun h => guard_of_exact hs.1 hs.2 h.1,
        fun h => ⟨exact_upsertAuthor hs.1 hs.2 h, settled_step s _⟩⟩
  | deleteEdition id =>
      exact iff_of_true ⟨exact_deleteEdition hs.1 hs.2 id, settled_step s _⟩ trivial

theorem settled_exec (run : List Action) : ∀ s, Settled s →
    Settled (Runs.exec (step lib env) s run) := by
  induction run with
  | nil => exact fun _ hs => hs
  | cons a rest ih => exact fun s _ => ih _ (settled_step s a)

/-- **THE INDEX IS EXACT** after every call of a sequence exactly if no author is
    written while an indexed edition names it. -/
theorem exact_iff_admitted (lib : IndexLib) (env : Env) (run : List Action) :
    (∀ pre, pre <+: run → Exact lib env (Runs.exec (step lib env) startState pre)) ↔
      Runs.Admitted (step lib env) Guard startState run := by
  have hstart : Exact lib env startState ∧ Settled startState :=
    ⟨⟨fun _ => rfl, fun _ => rfl, fun _ h => by cases h⟩, rfl⟩
  have halways := @Runs.always_iff_admitted _ _ (step lib env) Guard
    (fun s => Exact lib env s ∧ Settled s) (fun _ a hs => exact_step_iff hs a) startState run hstart
  rw [← halways]
  refine forall₂_congr fun pre _ => ?_
  exact (and_iff_left (settled_exec pre startState rfl)).symm

/-! ## An edition and its author -/

/-- An index without a hash, facets or letter case. -/
def plainLib : IndexLib where
  hashWorkId _ := 0
  facetFromText path := some path
  toLowercase s := s
  fromTimestampSecs secs := secs * 10 ^ 9

/-- An edition of which only the id, the title and the author ids are known. -/
def sampleEdition (editionId : String) (authorsIds : List String) : EditionDoc where
  editionId := editionId
  workId := "w1"
  title := "Old Title"
  editionTitle := none
  workDescription := none
  editionDescription := none
  authors := []
  authorsIds := authorsIds
  tags := []
  genres := []
  subjects := []
  publishers := []
  identifierKinds := []
  identifierValues := []
  notes := none
  format := none
  language := none
  pubDate := none
  publishedYear := none
  titleSort := ""
  primaryAuthorSort := none
  createdAt := 0
  updatedAt := none
  popularity := 0

def sampleAuthor : AuthorDoc where
  authorId := "a1"
  name := "Ursula K. Le Guin"
  sortName := "le guin, ursula k."
  birthYear := some 1929
  deathYear := some 2018
  source := "catalog"

/-- The author is written before the edition that names it: nothing is lost. -/
theorem exact_author_first :
    ∀ pre, pre <+: [.upsertAuthor sampleAuthor, .upsertEdition (sampleEdition "e1" ["a1"])] →
      Exact plainLib Env.reference (Runs.exec (step plainLib Env.reference) startState pre) := by
  refine (exact_iff_admitted plainLib Env.reference _).2 ⟨?_, trivial, trivial⟩
  exact fun d hd => by cases hd

/-- Writing the author after the edition leaves no edition in the index. -/
theorem not_exact_author_last :
    ¬ Exact plainLib Env.reference (Runs.exec (step plainLib Env.reference) startState
      [.upsertEdition (sampleEdition "e1" ["a1"]), .upsertAuthor sampleAuthor]) := by
  intro h
  have hlost := h.editions "e1"
  have hnone : (Runs.exec (step plainLib Env.reference) startState
      [.upsertEdition (sampleEdition "e1" ["a1"]), .upsertAuthor sampleAuthor]).docs.filter
        (isEditionOf "e1") = [] := by decide
  rw [hnone] at hlost
  cases hlost

end SearchIndex
