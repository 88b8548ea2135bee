import Livtet.Lib.BoolQuery
import Livtet.Isbn

/-! # Saved searches, lowered to queries

    A saved search is a tree of conjunctions, disjunctions and negations over
    topical filters. It is lowered to a query of the search engine, one clause
    for each combinator: `Must` for a conjunction, `Should` for a disjunction,
    and a lone `MustNot` for a negation.

    A clause of exclusions alone matches nothing, so a lowered negation is never
    satisfied, wherever it stands. Lowering can only lose documents: it keeps
    those that satisfy the tree for a reason in which no negation takes part. -/

namespace SavedSearch

open BoolQuery Maps SyncStore SyncPairing

/-! ## The query language -/

inductive Delimiter
  | singleQuotes
  | doubleQuotes
  | none
deriving DecidableEq, Repr

structure UserInputLiteral where
  fieldName : Option String
  phrase : String
  delimiter : Delimiter
  slop : Nat
  asPrefix : Bool
deriving DecidableEq, Repr

inductive UserInputBound
  | inclusive (value : String)
  | exclusive (value : String)
  | unbounded
deriving DecidableEq, Repr

inductive UserInputLeaf
  | literal (l : UserInputLiteral)
  | all
  | range (field : Option String) (lower upper : UserInputBound)
  | set (field : Option String) (elements : List String)
  | fieldExists (field : String)
  | regex (field : Option String) (pattern : String)
deriving DecidableEq, Repr

abbrev UserInputAst := Query UserInputLeaf

/-- `field:value`, a single token without quotes. -/
def fieldTerm (field value : String) : UserInputAst :=
  .leaf (.literal { fieldName := some field, phrase := value, delimiter := .none, slop := 0
                    asPrefix := false })

/-- `field:"value"`, a whole phrase. -/
def fieldTermExact (field value : String) : UserInputAst :=
  .leaf (.literal { fieldName := some field, phrase := value, delimiter := .doubleQuotes, slop := 0
                    asPrefix := false })

def fieldTermUndelimited (field value : String) : UserInputAst := fieldTerm field value

def fieldExists (field : String) : UserInputAst := .leaf (.fieldExists field)

def rangeInclusive (field lower upper : String) : UserInputAst :=
  .leaf (.range (some field) (.inclusive lower) (.inclusive upper))

def andClause (children : List UserInputAst) : UserInputAst := withOccur .must children

def orClause (children : List UserInputAst) : UserInputAst := withOccur .should children

def mustNotClause (child : UserInputAst) : UserInputAst := withOccur .mustNot [child]

/-! ## Topical filters -/

inductive ResourceKind
  | author
  | genre
  | subject
  | series
  | publisher
  | tag
deriving DecidableEq, Repr

/-- The names of the rows a saved search refers to, by axis and id. -/
abbrev NameMap := Map (ResourceKind × DbId) String

inductive CategorizationSearch
  | byAuthor (id : DbId)
  | byGenre (id : DbId)
  | bySubject (id : DbId)
  | bySeries (id : DbId)
  | byPublisher (id : DbId)
  | byTag (id : DbId)
  | inCollection (id : DbId)

inductive LimitSearch
  | byYear (year : Int)
  | byYearRange (lower upper : Int)
  | byDateAdded (fromDate toDate : String)
  | byRating (value : Nat)
  | bySeriesIndex (index : Nat)
  | byFileSize (bytes : Nat)
  | byPageCount (pages : Nat)

inductive FormatSearch
  | byFormat (label : String)
  | byLanguage (code : String)
  | byItemType (kind : String)
  | byReadStatus (status : String)

/-- The kinds of which there is a `By` and a `Has` filter each. -/
inductive IdentifierPrefix
  | isbn
  | oclc
  | lccn
  | doi
  | web
  | opds
  | custom
deriving DecidableEq, Repr

inductive IdentifierSearch
  | byKind (kind : IdentifierPrefix) (needle : String)
  | hasKind (kind : IdentifierPrefix) (value : Bool)

inductive AvailabilitySearch
  | hasCover (value : Bool)
  | hasNotes (value : Bool)
  | hasAttachments (value : Bool)
  | hasFullText (value : Bool)
  | hasInventory (value : Bool)

inductive OrderingSearch
  | mostRecentlyAdded
  | mostRecentlyUpdated
  | recentlyRead
  | recentlyImported
  | neverRead

inductive TextSearch
  | byTitle (phrase : String)
  | byDescription (phrase : String)
  | byNotes (phrase : String)
  | fullText (phrase : String)

/-- A saved search. -/
inductive SavedSearchKind
  | and (of : List SavedSearchKind)
  | or (of : List SavedSearchKind)
  | not (of : SavedSearchKind)
  | categorization (c : CategorizationSearch)
  | limit (l : LimitSearch)
  | format (f : FormatSearch)
  | identifier (i : IdentifierSearch)
  | availability (a : AvailabilitySearch)
  | ordering (o : OrderingSearch)
  | text (t : TextSearch)
  | userDefined (queryDsl : String)

/-! ## Lowering a filter -/

def LimitSearch.intoAst : LimitSearch → UserInputAst
  | .byYear year => fieldTerm "published_year" (toString year)
  | .byYearRange lower upper => rangeInclusive "published_year" (toString lower) (toString upper)
  | .byDateAdded fromDate toDate => rangeInclusive "created_at" fromDate toDate
  | .byRating value => fieldTerm "rating" (toString value)
  | .bySeriesIndex index => fieldTerm "series_index" (toString index)
  | .byFileSize bytes => fieldTerm "file_size" (toString bytes)
  | .byPageCount pages => fieldTerm "page_count" (toString pages)

def FormatSearch.intoAst : FormatSearch → UserInputAst
  | .byFormat label => fieldTerm "format" label
  | .byLanguage code => fieldTerm "language" code
  | .byItemType kind => fieldTerm "item_type" kind
  | .byReadStatus status => fieldTerm "read_status" status

def IdentifierPrefix.dslPrefix : IdentifierPrefix → String
  | .isbn => "isbn"
  | .oclc => "oclc"
  | .lccn => "lccn"
  | .doi => "doi"
  | .web => "web"
  | .opds => "opds"
  | .custom => "custom"

def IdentifierPrefix.field (kind : IdentifierPrefix) : String :=
  "identifier_values:" ++ kind.dslPrefix

/-- The text an identifier is looked up as: an ISBN in its canonical form, if it has one. -/
def IdentifierPrefix.needle (kind : IdentifierPrefix) (needle : String) : String :=
  if kind.dslPrefix = "isbn" then (Isbn.parse needle).toOption.getD needle else needle

/-- `arm`: presence of a field, or its negation. -/
def arm (field : String) (value : Bool) : UserInputAst :=
  if value then fieldExists field else mustNotClause (fieldExists field)

def IdentifierSearch.intoAst : IdentifierSearch → UserInputAst
  | .byKind kind needle => fieldTerm kind.field (kind.needle needle)
  | .hasKind kind value => arm kind.field value

def AvailabilitySearch.intoAst : AvailabilitySearch → UserInputAst
  | .hasCover value => arm "cover" value
  | .hasNotes value => arm "notes" value
  | .hasAttachments value => arm "attachments" value
  | .hasFullText value => arm "full_text" value
  | .hasInventory value => arm "inventory_rows" value

def OrderingSearch.marker : OrderingSearch → String
  | .mostRecentlyAdded => "ordering:most_recently_added"
  | .mostRecentlyUpdated => "ordering:most_recently_updated"
  | .recentlyRead => "ordering:recently_read"
  | .recentlyImported => "ordering:recently_imported"
  | .neverRead => "ordering:never_read"

def OrderingSearch.intoAst (o : OrderingSearch) : UserInputAst := fieldTerm "ordering" o.marker

def TextSearch.intoAst : TextSearch → UserInputAst
  | .byTitle phrase => fieldTermExact "title" phrase
  | .byDescription phrase => fieldTermExact "edition_description" phrase
  | .byNotes phrase => fieldTermExact "notes" phrase
  | .fullText phrase => fieldTermExact "body" phrase

section Lowering

variable (env : Env) (names : NameMap)

/-- The id, or else the name of the row it refers to, when that is known. -/
def hybrid (kind : ResourceKind) (id : DbId) (idField textField : String) : UserInputAst :=
  let idArm := fieldTermExact idField (id.text env)
  match names.lookup (kind, id) with
  | none => idArm
  | some name => orClause [idArm, fieldTermUndelimited textField name]

def CategorizationSearch.intoAstWithNames : CategorizationSearch → UserInputAst
  | .byAuthor id => hybrid env names .author id "author_id" "authors"
  | .byGenre id => hybrid env names .genre id "genre_id" "genres"
  | .bySubject id => hybrid env names .subject id "subject_id" "subjects"
  | .bySeries id => hybrid env names .series id "series_id" "series"
  | .byPublisher id => hybrid env names .publisher id "publisher_id" "publishers"
  | .byTag id => hybrid env names .tag id "tag_id" "tags"
  | .inCollection id => fieldTermExact "collection_id" (id.text env)

/-! ## Lowering a tree -/

structure InvalidDslError where
  message : String
  position : Nat
deriving DecidableEq, Repr

def maxDslLen : Nat := 8192
def maxDslDepth : Nat := 64

/-- The bracket depth after a text and the greatest one in it. -/
def dslDepth (s : String) : Nat × Nat :=
  s.toList.foldl (fun (depth, maxDepth) c =>
    if c == '(' || c == '[' || c == '\x7b' then (depth + 1, max maxDepth (depth + 1))
    else if c == ')' || c == ']' || c == '\x7d' then (depth - 1, maxDepth)
    else (depth, maxDepth)) (0, 0)

/-- The lenient query parser of the engine: a query, and its complaints as text. -/
abbrev Grammar := String → UserInputAst × List String

variable (parseQueryLenient : Grammar)

def parseUserDsl (queryDsl : String) : Except InvalidDslError UserInputAst :=
  let maxDepth := (dslDepth queryDsl).2
  if maxDslLen < queryDsl.utf8ByteSize then
    .error {
      message := "query is too long (" ++ toString queryDsl.utf8ByteSize ++ " bytes; limit " ++
        toString maxDslLen ++ ")"
      position := 0 }
  else if maxDslDepth < maxDepth then
    .error {
      message := "query nesting is too deep (" ++ toString maxDepth ++ "; limit " ++
        toString maxDslDepth ++ ")"
      position := 0 }
  else match parseQueryLenient queryDsl with
    | (_, e :: _) => .error { message := e, position := 0 }
    | (ast, []) => .ok ast

mutual

def intoAstWithNames : SavedSearchKind → Except InvalidDslError UserInputAst
  | .and of => do
      let children ← intoAsts of
      -- an empty conjunction stands for every document
      if children.isEmpty then pure (fieldExists "_all") else pure (andClause children)
  | .or of => do
      let children ← intoAsts of
      if children.isEmpty then pure (fieldExists "_all") else pure (orClause children)
  | .not of => do
      let inner ← intoAstWithNames of
      pure (mustNotClause inner)
  | .categorization c => pure (c.intoAstWithNames env names)
  | .limit l => pure l.intoAst
  | .format f => pure f.intoAst
  | .identifier i => pure i.intoAst
  | .availability a => pure a.intoAst
  | .ordering o => pure o.intoAst
  | .text t => pure t.intoAst
  | .userDefined queryDsl => parseUserDsl parseQueryLenient queryDsl

def intoAsts : List SavedSearchKind → Except InvalidDslError (List UserInputAst)
  | [] => pure []
  | c :: rest => do
      let ast ← intoAstWithNames c
      let asts ← intoAsts rest
      pure (ast :: asts)

end

end Lowering

/-! ## What a tree says

    A document is known by the leaves it satisfies. -/

section Meaning

variable (env : Env) (names : NameMap) (holds : UserInputLeaf → Bool)

/-- A query that is a single leaf, which the document satisfies. -/
def leafHolds : UserInputAst → Bool
  | .leaf l => holds l
  | _ => false

/-- The row itself, or what its name is known as. -/
def hybridHolds (kind : ResourceKind) (id : DbId) (idField textField : String) : Bool :=
  leafHolds holds (fieldTermExact idField (id.text env)) ||
    (names.lookup (kind, id)).any fun name => leafHolds holds (fieldTerm textField name)

def CategorizationSearch.satisfied : CategorizationSearch → Bool
  | .byAuthor id => hybridHolds env names holds .author id "author_id" "authors"
  | .byGenre id => hybridHolds env names holds .genre id "genre_id" "genres"
  | .bySubject id => hybridHolds env names holds .subject id "subject_id" "subjects"
  | .bySeries id => hybridHolds env names holds .series id "series_id" "series"
  | .byPublisher id => hybridHolds env names holds .publisher id "publisher_id" "publishers"
  | .byTag id => hybridHolds env names holds .tag id "tag_id" "tags"
  | .inCollection id => leafHolds holds (fieldTermExact "collection_id" (id.text env))

/-- The field an availability filter asks for, and whether it wants it there. -/
def AvailabilitySearch.wants : AvailabilitySearch → String × Bool
  | .hasCover value => ("cover", value)
  | .hasNotes value => ("notes", value)
  | .hasAttachments value => ("attachments", value)
  | .hasFullText value => ("full_text", value)
  | .hasInventory value => ("inventory_rows", value)

def present (field : String) : Bool := holds (.fieldExists field)

mutual

/-- The tree read as intersection, union and complement over its filters; an empty
    combinator stands for every document. A raw query is no part of this reading. -/
def satisfied : SavedSearchKind → Bool
  | .and of => (satisfiedEach of).all id
  | .or of => (satisfiedEach of).isEmpty || (satisfiedEach of).any id
  | .not of => !satisfied of
  | .categorization c => c.satisfied env names holds
  | .limit l => leafHolds holds l.intoAst
  | .format f => leafHolds holds f.intoAst
  | .identifier (.byKind kind needle) =>
      leafHolds holds (fieldTerm kind.field (kind.needle needle))
  | .identifier (.hasKind kind value) => present holds kind.field == value
  | .availability a => present holds a.wants.1 == a.wants.2
  | .ordering o => leafHolds holds o.intoAst
  | .text t => leafHolds holds t.intoAst
  | .userDefined _ => false

def satisfiedEach : List SavedSearchKind → List Bool
  | [] => []
  | c :: rest => satisfied c :: satisfiedEach rest

end

mutual

/-- The document has a reason to satisfy the tree in which no negation takes part:
    neither a `Not` nor a filter for an absent field. For an empty combinator the
    reason is the marker that stands for every document. -/
def affirmed : SavedSearchKind → Bool
  | .and of =>
      if of.isEmpty then present holds "_all" else (affirmedEach of).all id
  | .or of =>
      if of.isEmpty then present holds "_all" else (affirmedEach of).any id
  | .not _ => false
  | .identifier (.hasKind kind value) => value && present holds kind.field
  | .availability a => a.wants.2 && present holds a.wants.1
  | leaf => satisfied env names holds leaf

def affirmedEach : List SavedSearchKind → List Bool
  | [] => []
  | c :: rest => affirmed c :: affirmedEach rest

end

mutual

/-- No raw query occurs in the tree. -/
def Topical : SavedSearchKind → Prop
  | .and of => TopicalEach of
  | .or of => TopicalEach of
  | .not of => Topical of
  | .userDefined _ => False
  | _ => True

def TopicalEach : List SavedSearchKind → Prop
  | [] => True
  | c :: rest => Topical c ∧ TopicalEach rest

end

end Meaning

/-- The engine reads a query as a conjunction where nothing else is said. -/
def documentMatches (holds : UserInputLeaf → Bool) (ast : UserInputAst) : Bool :=
  isMatch .must holds ast

variable {env : Env} {names : NameMap} {grammar : Grammar} {holds : UserInputLeaf → Bool}

/-! ## What a lowered filter matches -/

theorem documentMatches_leaf (l : UserInputLeaf) : documentMatches holds (.leaf l) = holds l := by
  rw [documentMatches, isMatch]

/-- A presence filter that is negated matches no document. -/
theorem documentMatches_arm (field : String) (value : Bool) :
    documentMatches holds (arm field value) = (value && present holds field) := by
  cases value with
  | true => exact documentMatches_leaf _
  | false => exact isMatch_mustNot _ _ _

theorem documentMatches_hybrid (kind : ResourceKind) (id : DbId) (idField textField : String) :
    documentMatches holds (hybrid env names kind id idField textField) =
      hybridHolds env names holds kind id idField textField := by
  rw [hybrid, hybridHolds]
  cases names.lookup (kind, id) with
  | none =>
      rw [Option.any_none, Bool.or_false]
      exact documentMatches_leaf _
  | some name =>
      show isMatch .must holds (withOccur .should _) = _
      rw [isMatch_should, Option.any_some, List.any_cons, List.any_cons, List.any_nil,
        Bool.or_false]
      simp only [fieldTermExact, fieldTermUndelimited, fieldTerm, isMatch, leafHolds]

theorem documentMatches_categorization (c : CategorizationSearch) :
    documentMatches holds (c.intoAstWithNames env names) = c.satisfied env names holds := by
  cases c with
  | inCollection id => exact documentMatches_leaf _
  | _ => exact documentMatches_hybrid _ _ _ _

theorem documentMatches_limit (l : LimitSearch) :
    documentMatches holds l.intoAst = leafHolds holds l.intoAst := by
  cases l <;> exact documentMatches_leaf _

theorem documentMatches_format (f : FormatSearch) :
    documentMatches holds f.intoAst = leafHolds holds f.intoAst := by
  cases f <;> exact documentMatches_leaf _

theorem documentMatches_text (t : TextSearch) :
    documentMatches holds t.intoAst = leafHolds holds t.intoAst := by
  cases t <;> exact documentMatches_leaf _

theorem documentMatches_availability (a : AvailabilitySearch) :
    documentMatches holds a.intoAst = (a.wants.2 && present holds a.wants.1) := by
  cases a <;> exact documentMatches_arm _ _

/-! ## What a lowered tree matches -/

/-- A combinator over lowered children: the marker when there are none, else its clause. -/
theorem lowered_combinator (clause : List UserInputAst → UserInputAst) (f : List Bool → Bool)
    {of : List SavedSearchKind} {asts : List UserInputAst}
    (hlower : intoAsts env names grammar of = .ok asts)
    (hmatch : asts.map (documentMatches holds) = affirmedEach env names holds of)
    (hclause : asts ≠ [] →
      documentMatches holds (clause asts) = f (asts.map (documentMatches holds))) :
    ∃ ast, (do
        let children ← intoAsts env names grammar of
        if children.isEmpty then pure (fieldExists "_all") else pure (clause children)) =
        Except.ok ast ∧
      documentMatches holds ast =
        if of.isEmpty then present holds "_all" else f (affirmedEach env names holds of) := by
  rw [hlower]
  cases of with
  | nil =>
      cases asts with
      | nil => exact ⟨_, rfl, documentMatches_leaf _⟩
      | cons a rest => cases hmatch
  | cons c rest =>
      have hne : asts ≠ [] := by
        rintro rfl
        cases hmatch
      refine ⟨clause asts, ?_, ?_⟩
      · show (if asts.isEmpty then pure _ else pure _ : Except _ _) = _
        rw [if_neg (by simpa using hne)]
        rfl
      · rw [hclause hne, hmatch]
        rfl

mutual

/-- **A LOWERED TREE** matches the documents that satisfy it without a negation. -/
theorem lowered (k : SavedSearchKind) (hk : Topical k) :
    ∃ ast, intoAstWithNames env names grammar k = .ok ast ∧
      documentMatches holds ast = affirmed env names holds k := by
  cases k with
  | and of =>
      obtain ⟨asts, hlower, hmatch⟩ := loweredEach of hk
      rw [intoAstWithNames, affirmed]
      refine lowered_combinator andClause (fun bs => bs.all id) hlower hmatch fun hne => ?_
      rw [List.all_map]
      exact isMatch_must _ _ hne
  | or of =>
      obtain ⟨asts, hlower, hmatch⟩ := loweredEach of hk
      rw [intoAstWithNames, affirmed]
      refine lowered_combinator orClause (fun bs => bs.any id) hlower hmatch fun _ => ?_
      rw [List.any_map]
      exact isMatch_should _ _ _
  | not of =>
      obtain ⟨inner, hlower, _⟩ := lowered of hk
      refine ⟨mustNotClause inner, ?_, isMatch_mustNot _ _ _⟩
      rw [intoAstWithNames, hlower]
      rfl
  | categorization c => exact ⟨_, rfl, documentMatches_categorization c⟩
  | limit l => exact ⟨_, rfl, documentMatches_limit l⟩
  | format f => exact ⟨_, rfl, documentMatches_format f⟩
  | identifier i =>
      cases i with
      | byKind kind needle => exact ⟨_, rfl, documentMatches_leaf _⟩
      | hasKind kind value => exact ⟨_, rfl, documentMatches_arm _ _⟩
  | availability a => exact ⟨_, rfl, documentMatches_availability a⟩
  | ordering o => exact ⟨_, rfl, documentMatches_leaf _⟩
  | text t => exact ⟨_, rfl, documentMatches_text t⟩
  | userDefined queryDsl => exact hk.elim

theorem loweredEach (ks : List SavedSearchKind) (hks : TopicalEach ks) :
    ∃ asts, intoAsts env names grammar ks = .ok asts ∧
      asts.map (documentMatches holds) = affirmedEach env names holds ks := by
  cases ks with
  | nil => exact ⟨[], rfl, rfl⟩
  | cons k rest =>
      obtain ⟨ast, hlower, hmatch⟩ := lowered k hks.1
      obtain ⟨asts, hlowers, hmatches⟩ := loweredEach rest hks.2
      refine ⟨ast :: asts, ?_, ?_⟩
      · rw [intoAsts, hlower, hlowers]
        rfl
      · rw [List.map_cons, hmatch, hmatches, affirmedEach]

end

/-! ## Affirmed documents satisfy the tree -/

/-- Each of the second is true where the first is. -/
abbrev Below (xs ys : List Bool) : Prop := List.Forall₂ (fun a b => a = true → b = true) xs ys

theorem all_of_below {xs ys : List Bool} (h : Below xs ys) (hall : xs.all id = true) :
    ys.all id = true := by
  induction h with
  | nil => rfl
  | cons hab _ ih =>
      rw [List.all_cons, Bool.and_eq_true] at hall ⊢
      exact ⟨hab hall.1, ih hall.2⟩

theorem any_of_below {xs ys : List Bool} (h : Below xs ys) (hany : xs.any id = true) :
    ys.any id = true := by
  induction h with
  | nil => exact hany
  | cons hab _ ih =>
      rw [List.any_cons, Bool.or_eq_true] at hany ⊢
      exact hany.imp hab ih

mutual

/-- A reason without a negation is a reason. -/
theorem satisfied_of_affirmed (k : SavedSearchKind) (h : affirmed env names holds k = true) :
    satisfied env names holds k = true := by
  cases k with
  | and of =>
      rw [affirmed] at h
      rw [satisfied]
      cases of with
      | nil => rfl
      | cons c rest => exact all_of_below (affirmedEach_below (c :: rest)) h
  | or of =>
      rw [affirmed] at h
      rw [satisfied]
      cases of with
      | nil => rfl
      | cons c rest => exact any_of_below (affirmedEach_below (c :: rest)) h
  | not of => cases h
  | identifier i =>
      cases i with
      | byKind kind needle => exact h
      | hasKind kind value =>
          rw [affirmed, Bool.and_eq_true] at h
          rw [satisfied, h.1, h.2]
          rfl
  | availability a =>
      rw [affirmed, Bool.and_eq_true] at h
      rw [satisfied, h.1, h.2]
      rfl
  | _ => exact h

theorem affirmedEach_below (ks : List SavedSearchKind) :
    Below (affirmedEach env names holds ks) (satisfiedEach env names holds ks) := by
  cases ks with
  | nil => exact List.Forall₂.nil
  | cons k rest =>
      rw [affirmedEach, satisfiedEach]
      exact List.Forall₂.cons (satisfied_of_affirmed k) (affirmedEach_below rest)

end

/-! ## Meaning and lowering -/

/-- The tree is lowered, and the document matches the query exactly if it satisfies
    the tree. -/
def KeepsMeaning (env : Env) (names : NameMap) (grammar : Grammar) (holds : UserInputLeaf → Bool)
    (k : SavedSearchKind) : Prop :=
  ∃ ast, intoAstWithNames env names grammar k = .ok ast ∧
    documentMatches holds ast = satisfied env names holds k

/-- **MEANING IS KEPT** for a document exactly if, when it satisfies the tree, it does
    so without a negation. -/
theorem keepsMeaning_iff (env : Env) (names : NameMap) (grammar : Grammar)
    (holds : UserInputLeaf → Bool) (k : SavedSearchKind) (hk : Topical k) :
    KeepsMeaning env names grammar holds k ↔
      (satisfied env names holds k = true → affirmed env names holds k = true) := by
  obtain ⟨ast, hlower, hmatch⟩ : ∃ ast, intoAstWithNames env names grammar k = .ok ast ∧
      documentMatches holds ast = affirmed env names holds k := lowered k hk
  constructor
  · rintro ⟨ast', hlower', hkeeps⟩ hsat
    cases Except.ok.inj (hlower.symm.trans hlower')
    rw [← hmatch, hkeeps]
    exact hsat
  · intro h
    refine ⟨ast, hlower, ?_⟩
    rw [hmatch]
    exact Bool.eq_iff_iff.2 ⟨satisfied_of_affirmed k, h⟩

/-- A parser that reads every text as one word. -/
def oneWord : Grammar := fun text => (fieldTerm "title" text, [])

/-- A conjunction of two filters that the document satisfies. -/
theorem keepsMeaning_conjunction :
    Topical (.and [.text (.byTitle "dune"), .availability (.hasCover true)]) ∧
    KeepsMeaning Env.reference ∅ oneWord (fun _ => true)
      (.and [.text (.byTitle "dune"), .availability (.hasCover true)]) := by
  have htopical : Topical (.and [.text (.byTitle "dune"), .availability (.hasCover true)]) :=
    ⟨trivial, trivial, trivial⟩
  refine ⟨htopical, (keepsMeaning_iff Env.reference ∅ oneWord (fun _ => true) _ htopical).2 ?_⟩
  exact fun _ => by decide

/-- A document without the phrase satisfies the negated filter, and is not found. -/
theorem not_keepsMeaning_negation :
    ¬ KeepsMeaning Env.reference ∅ oneWord (fun _ => false) (.not (.text (.byTitle "dune"))) := by
  rintro ⟨ast, hlower, hkeeps⟩
  obtain ⟨ast', hlower', hmatch⟩ : ∃ ast', intoAstWithNames Env.reference ∅ oneWord
      (.not (.text (.byTitle "dune"))) = .ok ast' ∧ documentMatches (fun _ => false) ast' =
        affirmed Env.reference ∅ (fun _ => false) (.not (.text (.byTitle "dune"))) :=
    lowered _ trivial
  cases Except.ok.inj (hlower.symm.trans hlower')
  rw [hmatch] at hkeeps
  exact absurd hkeeps (by decide)

end SavedSearch
