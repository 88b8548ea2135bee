import Livtet.SavedSearch

/-! # Composing saved searches

    `SavedSearches::render` checks the ids its children refer to, resolves their names,
    lowers each child, replaces the `$$..$$` placeholders in its literals and bounds its
    depth. The result names fields; the search engine refuses a query that names a field
    which is not in its schema.

    The two lists of field names are kept by hand in different crates. A rendered search
    can be executed exactly when its filters are among those the schema knows, it has no
    empty combinator (which renders to a marker field), and every placeholder resolves
    (an error renders to another). -/

namespace SavedSearch

open BoolQuery Maps SyncStore SyncPairing

/-! ## Placeholders -/

inductive ReservedPlaceholder
  | now
  | today
  | yesterday
  | tomorrow
  | thisWeekStart
  | thisWeekEnd
  | lastWeekStart
  | thisMonthStart
  | thisMonthEnd
  | lastMonthStart
  | lastMonthEnd
  | thisYearStart
  | lastYearStart
  | firstDay
  | lastDay
  | begin
deriving DecidableEq, Repr

namespace ReservedPlaceholder

def all : List ReservedPlaceholder :=
  [now, today, yesterday, tomorrow, thisWeekStart, thisWeekEnd, lastWeekStart, thisMonthStart,
    thisMonthEnd, lastMonthStart, lastMonthEnd, thisYearStart, lastYearStart, firstDay, lastDay,
    begin]

def asToken : ReservedPlaceholder → String
  | now => "now"
  | today => "today"
  | yesterday => "yesterday"
  | tomorrow => "tomorrow"
  | thisWeekStart => "this_week_start"
  | thisWeekEnd => "this_week_end"
  | lastWeekStart => "last_week_start"
  | thisMonthStart => "this_month_start"
  | thisMonthEnd => "this_month_end"
  | lastMonthStart => "last_month_start"
  | lastMonthEnd => "last_month_end"
  | thisYearStart => "this_year_start"
  | lastYearStart => "last_year_start"
  | firstDay => "first_day"
  | lastDay => "last_day"
  | begin => "begin"

def fromStr (s : String) : Option ReservedPlaceholder := all.find? fun r => r.asToken == s

end ReservedPlaceholder

inductive DateUnit
  | year
  | month
  | week
  | day
  | hour
  | minute
deriving DecidableEq, Repr

namespace DateUnit

def asToken : DateUnit → String
  | year => "year"
  | month => "month"
  | week => "week"
  | day => "day"
  | hour => "hour"
  | minute => "minute"

def fromStr (s : String) : Option DateUnit :=
  [year, month, week, day, hour, minute].find? fun u => u.asToken == s

end DateUnit

inductive DateOffsetSign
  | plus
  | minus
deriving DecidableEq, Repr

inductive PlaceholderName
  | reserved (r : ReservedPlaceholder)
  | dateOffset (unit : DateUnit) (sign : DateOffsetSign) (amount : Nat)
  | user (name : String)
deriving DecidableEq, Repr

inductive PlaceholderParseError
  | empty
  | missingDelimiters
  | unknownOffsetSign (c : Char)
  | missingOffsetAmount
  | invalidOffsetAmount (text : String)
  | zeroOffset
  | whitespaceInName
deriving DecidableEq, Repr

def DateOffsetSign.fromToken (c : Char) : Except PlaceholderParseError DateOffsetSign :=
  if c = '+' then .ok .plus
  else if c = '-' then .ok .minus
  else .error (.unknownOffsetSign c)

/-- `str::parse::<u32>`: digits, after a plus sign if there is one. -/
def parseU32 (cs : List Char) : Option Nat :=
  let digits := match cs with
    | '+' :: rest => rest
    | cs => cs
  if digits.isEmpty || !digits.all Char.isDigit then none
  else if Nat.ofDigitChars 10 digits 0 < 2 ^ 32 then some (Nat.ofDigitChars 10 digits 0) else none

/-- `split_once(':')`. -/
def splitColon : List Char → Option (List Char × List Char)
  | [] => none
  | c :: rest =>
      if c = ':' then some ([], rest) else (splitColon rest).map fun p => (c :: p.1, p.2)

/-- What follows the unit of a date offset. -/
def offsetAmount (unit : DateUnit) : List Char → Except PlaceholderParseError PlaceholderName
  | [] => .error .missingOffsetAmount
  | c :: rest => do
      let sign ← DateOffsetSign.fromToken c
      match parseU32 rest with
      | none => .error (.invalidOffsetAmount (String.ofList rest))
      | some 0 => .error .zeroOffset
      | some amount => .ok (.dateOffset unit sign amount)

/-- `PlaceholderName::from_str`: a reserved word, an offset from now, or a bound name. -/
def PlaceholderName.fromStr (s : String) : Except PlaceholderParseError PlaceholderName :=
  let s := trim s
  if s = "" then .error .empty
  else match ReservedPlaceholder.fromStr s with
    | some r => .ok (.reserved r)
    | none =>
        match (splitColon s.toList).bind fun p =>
          (DateUnit.fromStr (String.ofList p.1)).map fun unit => (unit, p.2) with
        | some (unit, amount) => offsetAmount unit amount
        | none =>
            if s.toList.any fun c => c == ' ' || c == '\n' || c == '\t' then
              .error .whitespaceInName
            else .ok (.user s)

/-- The text between the delimiters. -/
def stripDelimiters (cs : List Char) : Option (List Char) :=
  match cs with
  | '$' :: '$' :: rest =>
      match rest.reverse with
      | '$' :: '$' :: inner => some inner.reverse
      | _ => none
  | _ => none

def parsePlaceholder (s : String) : Except PlaceholderParseError PlaceholderName :=
  match stripDelimiters (trim s).toList with
  | none => .error .missingDelimiters
  | some inner => PlaceholderName.fromStr (String.ofList inner)

/-! ## Rendering -/

/-- The text of the instant a placeholder stands for; `none` where the arithmetic leaves
    the calendar, which stops the program. -/
abbrev Clock := PlaceholderName → Option String

abbrev CompositionBindings := Map String String

inductive CompositionError (DbErr : Type)
  | staleReferences (refs : List (ResourceKind × DbId))
  | unboundPlaceholders (name : String)
  | invalidPlaceholderSyntax (e : PlaceholderParseError)
  | recursionLimitExceeded (depth : Nat)
  | invalidUserDsl (message : String) (position : Nat)
  | db (e : DbErr)
  | userDefinedDisabled

structure CompositionOptions where
  maxDepth : Nat := 4
  allowUserDefined : Bool := true

/-- One saved search; its id plays no part in rendering. -/
structure Saved where
  id : DbId
  definition : SavedSearchKind

structure SavedSearches where
  children : List Saved
  options : CompositionOptions := {}

structure ResourceLookup (DbErr : Type) where
  isPresent : ResourceKind → DbId → Except DbErr Bool
  names : ResourceKind → List DbId → Except DbErr (List (DbId × String))

/-- The order in which a hash map hands out its keys. -/
structure KeyVisit where
  visit : List ResourceKind → List ResourceKind
  perm : ∀ kinds, (visit kinds).Perm kinds

def CategorizationSearch.referencedIds : CategorizationSearch → List (ResourceKind × DbId)
  | .byAuthor id => [(.author, id)]
  | .byGenre id => [(.genre, id)]
  | .bySubject id => [(.subject, id)]
  | .bySeries id => [(.series, id)]
  | .byPublisher id => [(.publisher, id)]
  | .byTag id => [(.tag, id)]
  | .inCollection _ => []

mutual

def referencedIds : SavedSearchKind → List (ResourceKind × DbId)
  | .and of => referencedIdsEach of
  | .or of => referencedIdsEach of
  | .not of => referencedIds of
  | .categorization c => c.referencedIds
  | _ => []

def referencedIdsEach : List SavedSearchKind → List (ResourceKind × DbId)
  | [] => []
  | c :: rest => referencedIds c ++ referencedIdsEach rest

end

mutual

def containsUserDefined : SavedSearchKind → Bool
  | .userDefined _ => true
  | .and of => containsUserDefinedEach of
  | .or of => containsUserDefinedEach of
  | .not of => containsUserDefined of
  | _ => false

def containsUserDefinedEach : List SavedSearchKind → Bool
  | [] => false
  | c :: rest => containsUserDefined c || containsUserDefinedEach rest

end

mutual

def nestingDepth : UserInputAst → Nat
  | .leaf _ => 1
  | .boost inner => nestingDepth inner
  | .clause children => 1 + deepest children

/-- The depth of the deepest child. -/
def deepest : List (Option Occur × UserInputAst) → Nat
  | [] => 0
  | (_, child) :: rest => max (nestingDepth child) (deepest rest)

end

/-- The first `$$` of a text: what stands before it and what stands after. -/
def splitDollars : List Char → Option (List Char × List Char)
  | [] => none
  | c :: rest =>
      if c = '$' ∧ rest.head? = some '$' then some ([], rest.tail)
      else (splitDollars rest).map fun p => (c :: p.1, p.2)

theorem length_splitDollars : ∀ {cs before after : List Char},
    splitDollars cs = some (before, after) → after.length + 2 ≤ cs.length := by
  intro cs
  induction cs with
  | nil =>
      intro before after h
      cases h
  | cons c rest ih =>
      intro before after h
      rw [splitDollars] at h
      split at h
      · next hdollars =>
          obtain ⟨_, rfl⟩ := Prod.mk.inj (Option.some.inj h)
          cases rest with
          | nil => cases hdollars.2
          | cons d rest => exact le_refl _
      · obtain ⟨p, hp, hpair⟩ := Option.map_eq_some_iff.1 h
        obtain ⟨_, rfl⟩ := Prod.mk.inj hpair
        have := ih hp
        rw [List.length_cons]
        omega

/-- What the substitution makes of a literal. -/
inductive Substituted
  | unchanged
  | replaced (phrase : String)
  | marker
deriving DecidableEq, Repr

/-- The loop over the tokens of a phrase. An opening `$$` that is not closed gives up the
    whole substitution. -/
def substituteFrom {ε : Type} (resolve : String → Option (Except ε String)) (rest out : List Char)
    (changed : Bool) : Option Substituted :=
  match _hopen : splitDollars rest with
  | none => some (if changed then .replaced (String.ofList (out ++ rest)) else .unchanged)
  | some (before, afterOpen) =>
      match _hclose : splitDollars afterOpen with
      | none => some .unchanged
      | some (token, afterClose) =>
          match resolve (String.ofList token) with
          | none => none
          | some (.error _) => some .marker
          | some (.ok text) =>
              substituteFrom resolve afterClose (out ++ before ++ text.toList) true
termination_by rest.length
decreasing_by
  have hopen := length_splitDollars _hopen
  have hclose := length_splitDollars _hclose
  omega

section Render

variable {DbErr : Type} (bindings : CompositionBindings) (clock : Clock)

/-- The text of one token; `none` where the program stops. -/
def resolveToken (token : String) : Option (Except (CompositionError DbErr) String) :=
  match parsePlaceholder ("$$" ++ token ++ "$$") with
  | .error e => some (.error (.invalidPlaceholderSyntax e))
  | .ok (.user name) =>
      match bindings.lookup name with
      | none => some (.error (.unboundPlaceholders name))
      | some value => some (.ok value)
  | .ok name => (clock name).map .ok

/-- The leaf an error renders to. -/
def errorMarker : UserInputAst := fieldTermExact "_error" "_ERR_"

variable (DbErr)

def substituteLiteral (l : UserInputLiteral) : Option UserInputAst :=
  (substituteFrom (resolveToken bindings clock : String → Option (Except (CompositionError DbErr) _))
    l.phrase.toList [] false).map fun
    | .unchanged => .leaf (.literal l)
    | .replaced phrase => .leaf (.literal { l with phrase })
    | .marker => errorMarker

mutual

/-- `substitute_placeholders`; `none` where the program stops. -/
def substitutePlaceholders : UserInputAst → Option UserInputAst
  | .clause children => (substituteChildren children).map .clause
  | .boost inner => (substitutePlaceholders inner).map .boost
  | .leaf (.literal l) => substituteLiteral DbErr bindings clock l
  | .leaf l => some (.leaf l)

def substituteChildren : List (Option Occur × UserInputAst) →
    Option (List (Option Occur × UserInputAst))
  | [] => some []
  | (occur, child) :: rest => do
      let child ← substitutePlaceholders child
      let rest ← substituteChildren rest
      pure ((occur, child) :: rest)

end

variable {DbErr} (env : Env) (grammar : Grammar) (lookup : ResourceLookup DbErr) (order : KeyVisit)

/-- The ids of one axis, in the order they are referred to. -/
def idsOf (refs : List (ResourceKind × DbId)) (kind : ResourceKind) : List DbId :=
  (refs.filter fun p => p.1 == kind).map Prod.snd

/-- The axes that are referred to, as the map that groups them hands them out. -/
def axes (refs : List (ResourceKind × DbId)) : List ResourceKind :=
  order.visit (refs.map Prod.fst).dedup

/-- Step 2: every referenced row is still there. -/
def checkReferences (refs : List (ResourceKind × DbId)) : Except (CompositionError DbErr) Unit :=
  (axes order refs).forM fun kind => do
    let stale ← (idsOf refs kind).foldlM (fun stale id =>
      match lookup.isPresent kind id with
      | .ok true => .ok stale
      | .ok false => .ok (stale ++ [(kind, id)])
      | .error e => .error (.db e)) []
    if stale.isEmpty then .ok () else .error (.staleReferences stale)

/-- Step 3: the names of the referenced rows. -/
def resolveNames (refs : List (ResourceKind × DbId)) : Except (CompositionError DbErr) NameMap :=
  (axes order refs).foldlM (fun names kind =>
    match lookup.names kind (idsOf refs kind) with
    | .error e => .error (.db e)
    | .ok resolved =>
        .ok (resolved.foldl (fun names p => names.insert (kind, p.1) p.2) names)) ∅

/-- Step 4: the children lowered, unless one holds a raw query that is not allowed. -/
def lowerChildren (names : NameMap) (searches : SavedSearches) :
    Except (CompositionError DbErr) (List UserInputAst) :=
  searches.children.mapM fun child =>
    match intoAstWithNames env names grammar child.definition with
    | .error e => .error (.invalidUserDsl e.message e.position)
    | .ok ast =>
        if !searches.options.allowUserDefined && containsUserDefined child.definition then
          .error .userDefinedDisabled
        else .ok ast

def SavedSearches.references (searches : SavedSearches) : List (ResourceKind × DbId) :=
  searches.children.flatMap fun child => referencedIds child.definition

/-- Steps 1 to 4. -/
def lowerAll (searches : SavedSearches) : Except (CompositionError DbErr) (List UserInputAst) := do
  if searches.options.maxDepth = 0 then .error (.recursionLimitExceeded 0)
  else do
    checkReferences lookup order searches.references
    let names ← resolveNames lookup order searches.references
    lowerChildren env grammar names searches

/-- `SavedSearches::render`; `none` where the program stops. -/
def render (searches : SavedSearches) : Option (Except (CompositionError DbErr) UserInputAst) :=
  match lowerAll env grammar lookup order searches with
  | .error e => some (.error e)
  | .ok renderings =>
      (renderings.mapM (substitutePlaceholders DbErr bindings clock)).map fun substituted =>
        match substituted.find? fun ast => searches.options.maxDepth < nestingDepth ast with
        | some ast => .error (.recursionLimitExceeded (nestingDepth ast))
        | none => .ok (andClause (substituted.map fun ast => orClause [ast]))

end Render

/-! ## The schema -/

/-- The fields of `build_schema`. -/
def schemaFields : List String :=
  ["edition_id", "work_id", "work_id_hash", "kind", "author_id", "tag_id", "genre_id",
    "subject_id", "series_id", "publisher_id", "title", "edition_title", "work_description",
    "edition_description", "authors", "tags", "genres", "subjects", "publishers",
    "identifier_kinds", "identifier_values", "notes", "format", "language", "language_facet",
    "publisher_facet", "subject_facet", "genre_facet", "pub_date", "published_year", "title_sort",
    "primary_author_sort", "created_at", "updated_at", "popularity", "source", "has_file"]

/-- The field a leaf names. -/
def UserInputLeaf.field : UserInputLeaf → Option String
  | .literal l => l.fieldName
  | .all => none
  | .range field _ _ => field
  | .set field _ => field
  | .fieldExists field => some field
  | .regex field _ => field

mutual

/-- The fields that a query names. -/
def fields : UserInputAst → List String
  | .clause children => fieldsEach children
  | .boost inner => fields inner
  | .leaf l => l.field.toList

def fieldsEach : List (Option Occur × UserInputAst) → List String
  | [] => []
  | (_, child) :: rest => fields child ++ fieldsEach rest

end

/-- The query parser finds every field the query names. -/
def InSchema (ast : UserInputAst) : Prop := ∀ f ∈ fields ast, f ∈ schemaFields

/-! ## The searches that can be executed -/

/-- The tokens that a substitution looks at: those of the closed placeholders. -/
def placeholders (rest : List Char) : List String :=
  match _hopen : splitDollars rest with
  | none => []
  | some (_, afterOpen) =>
      match _hclose : splitDollars afterOpen with
      | none => []
      | some (token, afterClose) => String.ofList token :: placeholders afterClose
termination_by rest.length
decreasing_by
  have hopen := length_splitDollars _hopen
  have hclose := length_splitDollars _hclose
  omega

/-- The token is a date, or a name that is bound. -/
def tokenBound (bindings : CompositionBindings) (token : String) : Bool :=
  match parsePlaceholder ("$$" ++ token ++ "$$") with
  | .error _ => false
  | .ok (.user name) => (bindings.lookup name).isSome
  | .ok _ => true

/-- Every placeholder of the phrase resolves. -/
def phraseBound (bindings : CompositionBindings) (phrase : String) : Prop :=
  ∀ token ∈ placeholders phrase.toList, tokenBound bindings token = true

section Executable

variable (bindings : CompositionBindings) (names : NameMap)

/-- The name that is looked for beside the id, if it is known, has no open placeholder. -/
def nameBound (kind : ResourceKind) (id : DbId) : Prop :=
  ∀ name, names.lookup (kind, id) = some name → phraseBound bindings name

/-- The schema has no field for the name of a series and none for collections. -/
def CategorizationSearch.Executable : CategorizationSearch → Prop
  | .byAuthor id => nameBound bindings names .author id
  | .byGenre id => nameBound bindings names .genre id
  | .bySubject id => nameBound bindings names .subject id
  | .bySeries id => names.lookup (.series, id) = none
  | .byPublisher id => nameBound bindings names .publisher id
  | .byTag id => nameBound bindings names .tag id
  | .inCollection _ => False

def LimitSearch.Executable : LimitSearch → Prop
  | .byYear _ => True
  | .byYearRange _ _ => True
  | .byDateAdded _ _ => True
  | _ => False

def FormatSearch.Executable : FormatSearch → Prop
  | .byFormat label => phraseBound bindings label
  | .byLanguage code => phraseBound bindings code
  | _ => False

def AvailabilitySearch.Executable : AvailabilitySearch → Prop
  | .hasNotes _ => True
  | _ => False

def TextSearch.Executable : TextSearch → Prop
  | .byTitle phrase => phraseBound bindings phrase
  | .byDescription phrase => phraseBound bindings phrase
  | .byNotes phrase => phraseBound bindings phrase
  | .fullText _ => False

mutual

/-- The filters are ones that the schema has a field for, no combinator is empty, and
    every placeholder resolves. -/
def Executable : SavedSearchKind → Prop
  | .and of => of ≠ [] ∧ ExecutableEach of
  | .or of => of ≠ [] ∧ ExecutableEach of
  | .not of => Executable of
  | .categorization c => c.Executable bindings names
  | .limit l => l.Executable
  | .format f => f.Executable bindings
  | .identifier _ => False
  | .availability a => a.Executable
  | .ordering _ => False
  | .text t => t.Executable bindings
  | .userDefined _ => False

def ExecutableEach : List SavedSearchKind → Prop
  | [] => True
  | c :: rest => Executable c ∧ ExecutableEach rest

end

end Executable

/-! ## One literal -/

section Literal

theorem placeholders_none {rest : List Char} (hopen : splitDollars rest = none) :
    placeholders rest = [] := by
  rw [placeholders]
  split
  · rfl
  · next hsome =>
      rw [hopen] at hsome
      cases hsome

theorem placeholders_unclosed {rest before afterOpen : List Char}
    (hopen : splitDollars rest = some (before, afterOpen))
    (hclose : splitDollars afterOpen = none) : placeholders rest = [] := by
  rw [placeholders]
  split
  · rfl
  · next hsome =>
      rw [hopen] at hsome
      obtain ⟨rfl, rfl⟩ := Prod.mk.inj (Option.some.inj hsome)
      split
      · rfl
      · next hsome =>
          rw [hclose] at hsome
          cases hsome

theorem placeholders_closed {rest before afterOpen token afterClose : List Char}
    (hopen : splitDollars rest = some (before, afterOpen))
    (hclose : splitDollars afterOpen = some (token, afterClose)) :
    placeholders rest = String.ofList token :: placeholders afterClose := by
  rw [placeholders]
  split
  · next hnone =>
      rw [hopen] at hnone
      cases hnone
  · next hsome =>
      rw [hopen] at hsome
      obtain ⟨rfl, rfl⟩ := Prod.mk.inj (Option.some.inj hsome)
      split
      · next hnone =>
          rw [hclose] at hnone
          cases hnone
      · next hsome =>
          rw [hclose] at hsome
          obtain ⟨rfl, rfl⟩ := Prod.mk.inj (Option.some.inj hsome)
          rfl

/-- A text without a dollar sign has no placeholder. -/
theorem placeholders_plain {cs : List Char} (h : '$' ∉ cs) : placeholders cs = [] := by
  refine placeholders_none ?_
  induction cs with
  | nil => rfl
  | cons c rest ih =>
      have hc : c ≠ '$' := fun hc => h (hc ▸ List.mem_cons_self)
      rw [splitDollars, if_neg fun hd => hc hd.1, ih fun hr => h (List.mem_cons_of_mem _ hr)]
      rfl

/-- The loop renders an error exactly when a placeholder that it looks at does not resolve.
    By induction on the phrase that is left. -/
theorem substituteFrom_marker {ε : Type} {resolve : String → Option (Except ε String)}
    {bound : String → Bool}
    (hbound : ∀ token result, resolve token = some result →
      (bound token = true ↔ ∃ text, result = .ok text))
    (rest out : List Char) (changed : Bool) : ∀ s,
    substituteFrom resolve rest out changed = some s →
    (s = .marker ↔ ∃ token ∈ placeholders rest, bound token = false) := by
  fun_induction substituteFrom resolve rest out changed with
  | case1 rest out changed hopen =>
      intro s h
      rw [placeholders_none hopen]
      cases Option.some.inj h
      cases changed <;> simp
  | case2 rest out changed before afterOpen hopen hclose =>
      intro s h
      rw [placeholders_unclosed hopen hclose]
      cases Option.some.inj h
      simp
  | case3 rest out changed before afterOpen hopen token afterClose hclose hstop =>
      intro s h
      cases h
  | case4 rest out changed before afterOpen hopen token afterClose hclose e herror =>
      intro s h
      rw [placeholders_closed hopen hclose]
      cases Option.some.inj h
      -- a token that is not bound ends the scan with the marker, whatever follows it
      have hfalse : bound (String.ofList token) = false := by
        rw [Bool.eq_false_iff]
        intro htrue
        obtain ⟨text, htext⟩ := (hbound _ _ herror).1 htrue
        cases htext
      exact ⟨fun _ => ⟨_, List.mem_cons_self, hfalse⟩, fun _ => rfl⟩
  | case5 rest out changed before afterOpen hopen token afterClose hclose text htext ih =>
      intro s h
      rw [placeholders_closed hopen hclose, ih s h]
      have htrue : bound (String.ofList token) = true := (hbound _ _ htext).2 ⟨text, rfl⟩
      simp [htrue]

variable {DbErr : Type} {bindings : CompositionBindings} {clock : Clock}

theorem tokenBound_iff {token : String} {result : Except (CompositionError DbErr) String}
    (h : resolveToken bindings clock token = some result) :
    tokenBound bindings token = true ↔ ∃ text, result = .ok text := by
  unfold resolveToken at h
  unfold tokenBound
  cases hparse : parsePlaceholder ("$$" ++ token ++ "$$") with
  | error e =>
      rw [hparse] at h
      cases Option.some.inj h
      simp
  | ok name =>
      rw [hparse] at h
      cases name with
      | user name =>
          simp only at h ⊢
          cases hlookup : bindings.lookup name with
          | none =>
              rw [hlookup] at h
              cases Option.some.inj h
              simp
          | some value =>
              rw [hlookup] at h
              cases Option.some.inj h
              simp
      | reserved r =>
          obtain ⟨text, _, rfl⟩ := Option.map_eq_some_iff.1 h
          simp
      | dateOffset unit sign amount =>
          obtain ⟨text, _, rfl⟩ := Option.map_eq_some_iff.1 h
          simp

theorem inSchema_leaf {l : UserInputLeaf} {field : String} (h : l.field = some field) :
    InSchema (.leaf l) ↔ field ∈ schemaFields := by
  unfold InSchema
  rw [fields, h]
  simp

theorem not_inSchema_errorMarker : ¬ InSchema errorMarker := by
  intro h
  exact absurd ((inSchema_leaf rfl).1 h) (by decide)

/-- A literal is found in the schema when its field is there and its phrase resolves. -/
theorem inSchema_substituteLiteral {l : UserInputLiteral} {field : String}
    (hfield : l.fieldName = some field) {ast : UserInputAst}
    (h : substituteLiteral DbErr bindings clock l = some ast) :
    InSchema ast ↔ field ∈ schemaFields ∧ phraseBound bindings l.phrase := by
  obtain ⟨s, hs, rfl⟩ := Option.map_eq_some_iff.1 h
  have hmarker := substituteFrom_marker (fun _ _ => tokenBound_iff) _ _ _ s hs
  have hphrase : phraseBound bindings l.phrase ↔ s ≠ .marker := by
    rw [Ne, hmarker]
    simp [phraseBound]
  rw [hphrase]
  cases s with
  | unchanged =>
      have hleaf : (UserInputLeaf.literal l).field = some field := hfield
      rw [inSchema_leaf hleaf]
      simp
  | replaced phrase =>
      have hleaf : (UserInputLeaf.literal { l with phrase }).field = some field := hfield
      rw [inSchema_leaf hleaf]
      simp
  | marker => simp [not_inSchema_errorMarker]

end Literal

/-! ## A tree -/

section Tree

variable {DbErr : Type} {bindings : CompositionBindings} {clock : Clock} {env : Env}
  {names : NameMap} {grammar : Grammar}

theorem inSchema_withOccur (occur : Occur) (asts : List UserInputAst) :
    InSchema (withOccur occur asts) ↔ ∀ ast ∈ asts, InSchema ast := by
  unfold InSchema withOccur
  rw [fields]
  induction asts with
  | nil =>
      rw [List.map_nil, fieldsEach]
      simp
  | cons ast rest ih =>
      rw [List.map_cons, fieldsEach]
      simp only [List.mem_append, List.mem_cons, forall_eq_or_imp, ← ih]
      constructor
      · intro h
        exact ⟨fun f hf => h f (Or.inl hf), fun f hf => h f (Or.inr hf)⟩
      · rintro ⟨hfirst, hrest⟩ f (hf | hf)
        · exact hfirst f hf
        · exact hrest f hf

/-- The children of a clause are substituted one by one. -/
theorem substitute_withOccur (occur : Occur) (asts : List UserInputAst) :
    substitutePlaceholders DbErr bindings clock (withOccur occur asts) =
      (asts.mapM (substitutePlaceholders DbErr bindings clock)).map (withOccur occur) := by
  have hchildren : substituteChildren DbErr bindings clock (asts.map fun c => (some occur, c)) =
      (asts.mapM (substitutePlaceholders DbErr bindings clock)).map
        fun asts => asts.map fun c => (some occur, c) := by
    induction asts with
    | nil => rw [List.map_nil, substituteChildren]; rfl
    | cons ast rest ih =>
        rw [List.map_cons, substituteChildren, List.mapM_cons, ih]
        cases substitutePlaceholders DbErr bindings clock ast with
        | none => rfl
        | some ast' =>
            cases rest.mapM (substitutePlaceholders DbErr bindings clock) with
            | none => rfl
            | some rest' => rfl
  rw [withOccur, substitutePlaceholders, hchildren, Option.map_map]
  rfl

theorem inSchema_substitute_withOccur {occur : Occur} {asts : List UserInputAst}
    {ast : UserInputAst}
    (h : substitutePlaceholders DbErr bindings clock (withOccur occur asts) = some ast) :
    ∃ asts', asts.mapM (substitutePlaceholders DbErr bindings clock) = some asts' ∧
      (InSchema ast ↔ ∀ a ∈ asts', InSchema a) := by
  rw [substitute_withOccur] at h
  obtain ⟨asts', hasts, rfl⟩ := Option.map_eq_some_iff.1 h
  exact ⟨asts', hasts, inSchema_withOccur occur asts'⟩

/-- `field:value` and `field:"value"`. -/
theorem inSchema_literal {field value : String} {delimiter : Delimiter} {ast : UserInputAst}
    (h : substitutePlaceholders DbErr bindings clock (.leaf (.literal
      { fieldName := some field, phrase := value, delimiter, slop := 0, asPrefix := false })) =
        some ast) :
    InSchema ast ↔ field ∈ schemaFields ∧ phraseBound bindings value := by
  rw [substitutePlaceholders] at h
  exact inSchema_substituteLiteral rfl h

theorem phraseBound_plain {value : String} (h : '$' ∉ value.toList) :
    phraseBound bindings value := by
  intro token htoken
  rw [placeholders_plain h] at htoken
  cases htoken

theorem inSchema_exists {field : String} {ast : UserInputAst}
    (h : substitutePlaceholders DbErr bindings clock (fieldExists field) = some ast) :
    InSchema ast ↔ field ∈ schemaFields := by
  rw [fieldExists, substitutePlaceholders] at h
  · cases Option.some.inj h
    exact inSchema_leaf rfl
  · intro l hl
    cases hl

theorem inSchema_range {field lower upper : String} {ast : UserInputAst}
    (h : substitutePlaceholders DbErr bindings clock (rangeInclusive field lower upper) = some ast) :
    InSchema ast ↔ field ∈ schemaFields := by
  rw [rangeInclusive, substitutePlaceholders] at h
  · cases Option.some.inj h
    exact inSchema_leaf rfl
  · intro l hl
    cases hl

theorem inSchema_arm {field : String} {value : Bool} {ast : UserInputAst}
    (h : substitutePlaceholders DbErr bindings clock (arm field value) = some ast) :
    InSchema ast ↔ field ∈ schemaFields := by
  cases value with
  | true => exact inSchema_exists h
  | false =>
      obtain ⟨asts', hasts, hiff⟩ := inSchema_substitute_withOccur h
      rw [hiff]
      rw [List.mapM_cons] at hasts
      obtain ⟨first, hfirst, hrest⟩ := Option.bind_eq_some_iff.1 hasts
      cases Option.some.inj hrest
      rw [← inSchema_exists hfirst]
      simp

theorem dollar_not_mem_text (id : DbId) : '$' ∉ (id.text env).toList := by
  intro hmem
  exact absurd (env.ulidText_alphanum id.val '$' hmem) (by decide)

/-- The id arm is always found, the name arm when its field is and its name resolves. -/
theorem inSchema_hybrid {kind : ResourceKind} {id : DbId} {idField textField : String}
    {ast : UserInputAst} (hid : idField ∈ schemaFields)
    (h : substitutePlaceholders DbErr bindings clock
      (hybrid env names kind id idField textField) = some ast) :
    InSchema ast ↔ ∀ name, names.lookup (kind, id) = some name →
      textField ∈ schemaFields ∧ phraseBound bindings name := by
  have hplain : phraseBound bindings (id.text env) := phraseBound_plain (dollar_not_mem_text id)
  rw [hybrid] at h
  cases hname : names.lookup (kind, id) with
  | none =>
      rw [hname] at h
      rw [inSchema_literal h]
      simp [hid, hplain]
  | some name =>
      rw [hname] at h
      obtain ⟨asts', hasts, hiff⟩ := inSchema_substitute_withOccur h
      rw [hiff]
      rw [List.mapM_cons] at hasts
      obtain ⟨first, hfirst, hasts⟩ := Option.bind_eq_some_iff.1 hasts
      obtain ⟨others, hothers, hpair⟩ := Option.bind_eq_some_iff.1 hasts
      rw [List.mapM_cons] at hothers
      obtain ⟨second, hsecond, hnil⟩ := Option.bind_eq_some_iff.1 hothers
      cases Option.some.inj hnil
      cases Option.some.inj hpair
      simp [inSchema_literal hfirst, inSchema_literal hsecond, hid, hplain]

theorem inSchema_categorization (c : CategorizationSearch) {ast : UserInputAst}
    (h : substitutePlaceholders DbErr bindings clock (c.intoAstWithNames env names) = some ast) :
    InSchema ast ↔ c.Executable bindings names := by
  cases c with
  | inCollection id =>
      rw [inSchema_literal h]
      simp [CategorizationSearch.Executable, schemaFields]
  | bySeries id =>
      rw [inSchema_hybrid (by decide) h]
      have hno : "series" ∉ schemaFields := by decide
      rw [CategorizationSearch.Executable, Option.eq_none_iff_forall_ne_some]
      simp [hno]
  | _ id =>
      rw [inSchema_hybrid (by decide) h]
      simp [CategorizationSearch.Executable, nameBound, schemaFields]

/-- A number is written without a dollar sign. -/
theorem dollar_not_mem_toString (n : Int) : '$' ∉ (toString n).toList := by
  have hnat : ∀ m : Nat, '$' ∉ (toString m).toList := by
    intro m hmem
    rw [Nat.toString_eq_ofList_toDigits, String.toList_ofList] at hmem
    exact absurd (Nat.isDigit_of_mem_toDigits (by decide) (by decide) hmem) (by decide)
  cases n with
  | ofNat m => exact hnat m
  | negSucc m =>
      intro hmem
      have hmem : '$' ∈ ("-" ++ toString (m + 1)).toList := hmem
      rw [String.toList_append, List.mem_append] at hmem
      rcases hmem with hmem | hmem
      · exact absurd hmem (by decide)
      · exact hnat (m + 1) hmem

theorem inSchema_limit (l : LimitSearch) {ast : UserInputAst}
    (h : substitutePlaceholders DbErr bindings clock l.intoAst = some ast) :
    InSchema ast ↔ l.Executable := by
  cases l with
  | byYear year =>
      rw [inSchema_literal h]
      exact ⟨fun _ => trivial, fun _ =>
        ⟨by decide, phraseBound_plain (dollar_not_mem_toString year)⟩⟩
  | byYearRange lower upper =>
      rw [inSchema_range h]
      simp [LimitSearch.Executable, schemaFields]
  | byDateAdded fromDate toDate =>
      rw [inSchema_range h]
      simp [LimitSearch.Executable, schemaFields]
  | _ n =>
      rw [inSchema_literal h]
      simp [LimitSearch.Executable, schemaFields]

theorem inSchema_format (f : FormatSearch) {ast : UserInputAst}
    (h : substitutePlaceholders DbErr bindings clock f.intoAst = some ast) :
    InSchema ast ↔ f.Executable bindings := by
  cases f with
  | _ value =>
      rw [inSchema_literal h]
      simp [FormatSearch.Executable, schemaFields]

theorem inSchema_text (t : TextSearch) {ast : UserInputAst}
    (h : substitutePlaceholders DbErr bindings clock t.intoAst = some ast) :
    InSchema ast ↔ t.Executable bindings := by
  cases t with
  | _ phrase =>
      rw [inSchema_literal h]
      simp [TextSearch.Executable, schemaFields]

theorem inSchema_availability (a : AvailabilitySearch) {ast : UserInputAst}
    (h : substitutePlaceholders DbErr bindings clock a.intoAst = some ast) :
    InSchema ast ↔ a.Executable := by
  cases a with
  | _ value =>
      rw [inSchema_arm h]
      simp [AvailabilitySearch.Executable, schemaFields]

/-- The schema has one field for identifiers, and none for a kind of them. -/
theorem not_inSchema_identifier (i : IdentifierSearch) {ast : UserInputAst}
    (h : substitutePlaceholders DbErr bindings clock i.intoAst = some ast) : ¬ InSchema ast := by
  have hfield : ∀ kind : IdentifierPrefix, kind.field ∉ schemaFields := by
    intro kind
    cases kind <;> decide
  cases i with
  | byKind kind needle =>
      rw [inSchema_literal h]
      exact fun hin => hfield kind hin.1
  | hasKind kind value =>
      rw [inSchema_arm h]
      exact hfield kind

/-- A combinator over lowered children: the marker when there are none, else its clause. -/
theorem inSchema_combinator {occur : Occur} {of : List SavedSearchKind} {lowered ast : UserInputAst}
    (hlower : (do
      let children ← intoAsts env names grammar of
      if children.isEmpty then pure (fieldExists "_all") else pure (withOccur occur children)) =
        Except.ok lowered)
    (h : substitutePlaceholders DbErr bindings clock lowered = some ast)
    (heach : ∀ asts asts', intoAsts env names grammar of = .ok asts →
      asts.mapM (substitutePlaceholders DbErr bindings clock) = some asts' →
      ((∀ a ∈ asts', InSchema a) ↔ ExecutableEach bindings names of)) :
    InSchema ast ↔ of ≠ [] ∧ ExecutableEach bindings names of := by
  cases hof : intoAsts env names grammar of with
  | error e =>
      rw [hof] at hlower
      cases hlower
  | ok asts =>
      rw [hof] at hlower
      have hlower : (if asts.isEmpty then pure (fieldExists "_all")
        else pure (withOccur occur asts) : Except InvalidDslError UserInputAst) = .ok lowered :=
        hlower
      cases of with
      | nil =>
          rw [intoAsts] at hof
          cases Except.ok.inj hof
          cases Except.ok.inj hlower
          -- no children at all: the field asked for is none of the schema
          rw [inSchema_exists h]
          simp [schemaFields]
      | cons c rest =>
          have hne : asts.isEmpty = false := by
            rw [intoAsts] at hof
            obtain ⟨first, _, hof⟩ := Outcomes.bind_eq_ok.1 hof
            obtain ⟨others, _, hof⟩ := Outcomes.bind_eq_ok.1 hof
            cases Except.ok.inj hof
            rfl
          rw [hne] at hlower
          cases Except.ok.inj hlower
          obtain ⟨asts', hasts, hiff⟩ := inSchema_substitute_withOccur h
          rw [hiff, heach asts asts' hof hasts]
          simp

mutual

/-- **A LOWERED TREE** names only fields of the schema exactly when it is executable. -/
theorem inSchema_iff (k : SavedSearchKind) (hk : Topical k) (lowered ast : UserInputAst)
    (hlower : intoAstWithNames env names grammar k = .ok lowered)
    (h : substitutePlaceholders DbErr bindings clock lowered = some ast) :
    InSchema ast ↔ Executable bindings names k := by
  cases k with
  | and of =>
      rw [intoAstWithNames] at hlower
      rw [Executable]
      exact inSchema_combinator hlower h (inSchema_iffEach of hk)
  | or of =>
      rw [intoAstWithNames] at hlower
      rw [Executable]
      exact inSchema_combinator hlower h (inSchema_iffEach of hk)
  | not of =>
      rw [intoAstWithNames] at hlower
      obtain ⟨inner, hinner, hlower⟩ := Outcomes.bind_eq_ok.1 hlower
      cases Except.ok.inj hlower
      -- a negation is one clause that must not occur
      obtain ⟨asts', hasts, hiff⟩ := inSchema_substitute_withOccur h
      rw [List.mapM_cons] at hasts
      obtain ⟨first, hfirst, hrest⟩ := Option.bind_eq_some_iff.1 hasts
      cases Option.some.inj hrest
      rw [hiff, Executable, ← inSchema_iff of hk inner first hinner hfirst]
      simp
  | categorization c =>
      rw [intoAstWithNames] at hlower
      cases Except.ok.inj hlower
      exact inSchema_categorization c h
  | limit l =>
      rw [intoAstWithNames] at hlower
      cases Except.ok.inj hlower
      exact inSchema_limit l h
  | format f =>
      rw [intoAstWithNames] at hlower
      cases Except.ok.inj hlower
      exact inSchema_format f h
  | identifier i =>
      rw [intoAstWithNames] at hlower
      cases Except.ok.inj hlower
      rw [Executable, iff_false]
      exact not_inSchema_identifier i h
  | availability a =>
      rw [intoAstWithNames] at hlower
      cases Except.ok.inj hlower
      exact inSchema_availability a h
  | ordering o =>
      rw [intoAstWithNames] at hlower
      cases Except.ok.inj hlower
      rw [inSchema_literal h]
      simp [Executable, schemaFields]
  | text t =>
      rw [intoAstWithNames] at hlower
      cases Except.ok.inj hlower
      exact inSchema_text t h
  | userDefined queryDsl => exact absurd hk (by rw [Topical]; exact id)

theorem inSchema_iffEach (of : List SavedSearchKind) (hof : TopicalEach of)
    (asts asts' : List UserInputAst) (hlower : intoAsts env names grammar of = .ok asts)
    (h : asts.mapM (substitutePlaceholders DbErr bindings clock) = some asts') :
    (∀ a ∈ asts', InSchema a) ↔ ExecutableEach bindings names of := by
  cases of with
  | nil =>
      rw [intoAsts] at hlower
      cases Except.ok.inj hlower
      cases Option.some.inj h
      rw [ExecutableEach]
      simp
  | cons c rest =>
      rw [intoAsts] at hlower
      rw [TopicalEach] at hof
      obtain ⟨first, hfirst, hlower⟩ := Outcomes.bind_eq_ok.1 hlower
      obtain ⟨others, hothers, hlower⟩ := Outcomes.bind_eq_ok.1 hlower
      cases Except.ok.inj hlower
      rw [List.mapM_cons] at h
      obtain ⟨first', hfirst', h⟩ := Option.bind_eq_some_iff.1 h
      obtain ⟨others', hothers', h⟩ := Option.bind_eq_some_iff.1 h
      cases Option.some.inj h
      rw [ExecutableEach, ← inSchema_iff c hof.1 first first' hfirst hfirst',
        ← inSchema_iffEach rest hof.2 others others' hothers hothers']
      simp

end

end Tree

/-! ## A composition -/

section Composition

variable {DbErr : Type} {bindings : CompositionBindings} {clock : Clock} {env : Env}
  {grammar : Grammar} {lookup : ResourceLookup DbErr} {order : KeyVisit} {searches : SavedSearches}

/-- The children of a composition, lowered and substituted one by one. -/
theorem inSchema_children {names : NameMap}
    {lower : Saved → Except (CompositionError DbErr) UserInputAst}
    (hlower : ∀ c ast, lower c = .ok ast →
      intoAstWithNames env names grammar c.definition = .ok ast) :
    ∀ (children : List Saved) (renderings substituted : List UserInputAst),
    (∀ c ∈ children, Topical c.definition) → children.mapM lower = .ok renderings →
    renderings.mapM (substitutePlaceholders DbErr bindings clock) = some substituted →
    ((∀ ast ∈ substituted, InSchema ast) ↔
      ∀ c ∈ children, Executable bindings names c.definition) := by
  intro children
  induction children with
  | nil =>
      intro renderings substituted _ hrender h
      cases Except.ok.inj hrender
      cases Option.some.inj h
      simp
  | cons c rest ih =>
      intro renderings substituted htopical hrender h
      rw [List.mapM_cons] at hrender
      obtain ⟨first, hfirst, hrender⟩ := Outcomes.bind_eq_ok.1 hrender
      obtain ⟨others, hothers, hrender⟩ := Outcomes.bind_eq_ok.1 hrender
      cases Except.ok.inj hrender
      rw [List.mapM_cons] at h
      obtain ⟨first', hfirst', h⟩ := Option.bind_eq_some_iff.1 h
      obtain ⟨others', hothers', h⟩ := Option.bind_eq_some_iff.1 h
      cases Option.some.inj h
      rw [List.forall_mem_cons, List.forall_mem_cons,
        inSchema_iff c.definition (htopical c List.mem_cons_self) first first' (hlower c first hfirst)
          hfirst',
        ih others others' (fun d hd => htopical d (List.mem_cons_of_mem _ hd)) hothers hothers']

theorem inSchema_andClause (asts : List UserInputAst) :
    InSchema (andClause (asts.map fun ast => orClause [ast])) ↔ ∀ ast ∈ asts, InSchema ast := by
  rw [andClause, inSchema_withOccur, List.forall_mem_map]
  constructor
  · intro hall ast hast
    exact (inSchema_withOccur _ _).1 (hall ast hast) ast List.mem_cons_self
  · intro hall ast hast
    refine (inSchema_withOccur _ _).2 ?_
    intro a ha
    cases List.mem_singleton.1 ha
    exact hall ast hast

end Composition

/-! ## Two searches -/

/-- A lookup that finds every row and knows no name. -/
def emptyLookup : ResourceLookup String where
  isPresent _ _ := .ok true
  names _ _ := .ok []

def plainVisit : KeyVisit := ⟨fun kinds => kinds, fun _ => List.Perm.refl _⟩

/-- The composition of one child. -/
def single (definition : SavedSearchKind) : SavedSearches :=
  { children := [{ id := ⟨List.replicate 16 0, rfl⟩, definition }] }

end SavedSearch
