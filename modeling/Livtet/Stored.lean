import Livtet.SavedSearch
import Livtet.Lib.JsonDocs
import Livtet.Lib.TaggedJson

/-! # Saved searches as they are stored

    A saved search is kept as text in the column `definition_json`. The tree itself is
    tagged adjacently, and so are the filters by limit, format, availability and text.
    The orderings, the categorical filters and the identifiers are tagged internally:
    an ordering has nothing beside its name, but an id, a text or a flag has no place
    in such an object, so a tree that filters by category or identifier has no text.

    Every other tree reads back as it was, unless it is nested deeper than the reader
    goes: a conjunction or disjunction is three levels, a negation two. -/

namespace SavedSearch

open Maps Outcomes SyncStore SyncPairing JsonText JsonText.Json TaggedJson

/-! ## Filters -/

/-- `#[serde(tag = "type", content = "value")]`. -/
def variant (name : String) (payload : Json) : Json := adjacent "type" "value" name payload

/-- The variant an object names, and its fields. -/
def readFields (j : Json) : Except String (String × Members) := do
  let (name, content) ← readAdjacent "type" "value" j
  let members ← readMembers content
  pure (name, members)

def unknownVariant {α : Type} (name : String) : Except String α :=
  .error s!"unknown variant `{name}`"

/-- A number of a type that holds those from `lo` up to `hi`. -/
def readInt (lo hi : Int) : Json → Except String Int
  | .int n => if lo ≤ n ∧ n < hi then .ok n else .error "invalid value, integer out of range"
  | _ => .error "invalid type, expected an integer"

def readNat (hi : Int) (j : Json) : Except String Nat := Int.toNat <$> readInt 0 hi j

def readI32 : Json → Except String Int := readInt (-2 ^ 31) (2 ^ 31)

/-- A `DbId` is the text of its ULID. -/
def readDbId (env : Env) (j : Json) : Except String DbId := do
  let text ← Codec.str.read j
  match (env.ulidParse text).bind DbId.ofBytes? with
  | some id => .ok id
  | none => .error "invalid ULID"

/-- The variant's name in the source and in the text, and the id it holds. -/
def CategorizationSearch.variant : CategorizationSearch → String × String × DbId
  | .byAuthor id => ("ByAuthor", "by_author", id)
  | .byGenre id => ("ByGenre", "by_genre", id)
  | .bySubject id => ("BySubject", "by_subject", id)
  | .bySeries id => ("BySeries", "by_series", id)
  | .byPublisher id => ("ByPublisher", "by_publisher", id)
  | .byTag id => ("ByTag", "by_tag", id)
  | .inCollection id => ("InCollection", "in_collection", id)

def CategorizationSearch.serialize (env : Env) (c : CategorizationSearch) : Except String Json :=
  tagNewtype "CategorizationSearch" c.variant.1 "type" c.variant.2.1
    (.string (c.variant.2.2.text env))

def CategorizationSearch.deserialize (env : Env) (j : Json) :
    Except String CategorizationSearch := do
  let (name, members) ← readTag "type" j
  match name with
  | "by_author" => .byAuthor <$> readDbId env (.obj members)
  | "by_genre" => .byGenre <$> readDbId env (.obj members)
  | "by_subject" => .bySubject <$> readDbId env (.obj members)
  | "by_series" => .bySeries <$> readDbId env (.obj members)
  | "by_publisher" => .byPublisher <$> readDbId env (.obj members)
  | "by_tag" => .byTag <$> readDbId env (.obj members)
  | "in_collection" => .inCollection <$> readDbId env (.obj members)
  | _ => unknownVariant name

def IdentifierPrefix.kinds : List IdentifierPrefix :=
  [.isbn, .oclc, .lccn, .doi, .web, .opds, .custom]

/-- `$kind`, as the macro is given it. -/
def IdentifierPrefix.kindName : IdentifierPrefix → String
  | .isbn => "Isbn"
  | .oclc => "Oclc"
  | .lccn => "Lccn"
  | .doi => "Doi"
  | .web => "Web"
  | .opds => "Opds"
  | .custom => "Custom"

/-- In snake case the name of a kind is its prefix. -/
def IdentifierSearch.serialize : IdentifierSearch → Except String Json
  | .byKind kind needle =>
      tagNewtype "IdentifierSearch" ("By" ++ kind.kindName) "type" ("by_" ++ kind.dslPrefix)
        (.string needle)
  | .hasKind kind value =>
      tagNewtype "IdentifierSearch" ("Has" ++ kind.kindName) "type" ("has_" ++ kind.dslPrefix)
        (.boolean value)

def IdentifierSearch.deserialize (j : Json) : Except String IdentifierSearch := do
  let (name, members) ← readTag "type" j
  match IdentifierPrefix.kinds.find? fun kind => "by_" ++ kind.dslPrefix == name with
  | some kind => .byKind kind <$> Codec.str.read (.obj members)
  | none =>
      match IdentifierPrefix.kinds.find? fun kind => "has_" ++ kind.dslPrefix == name with
      | some kind => .hasKind kind <$> Codec.bool.read (.obj members)
      | none => unknownVariant name

def OrderingSearch.asStr : OrderingSearch → String
  | .mostRecentlyAdded => "most_recently_added"
  | .mostRecentlyUpdated => "most_recently_updated"
  | .recentlyRead => "recently_read"
  | .recentlyImported => "recently_imported"
  | .neverRead => "never_read"

def OrderingSearch.serialize (o : OrderingSearch) : Json := tagged "type" o.asStr []

def OrderingSearch.deserialize (j : Json) : Except String OrderingSearch := do
  let (name, _) ← readTag "type" j
  match name with
  | "most_recently_added" => .ok .mostRecentlyAdded
  | "most_recently_updated" => .ok .mostRecentlyUpdated
  | "recently_read" => .ok .recentlyRead
  | "recently_imported" => .ok .recentlyImported
  | "never_read" => .ok .neverRead
  | _ => unknownVariant name

def LimitSearch.variant : LimitSearch → String × Members
  | .byYear year => ("by_year", [("year", .int year)])
  | .byYearRange lower upper => ("by_year_range", [("lower", .int lower), ("upper", .int upper)])
  | .byDateAdded fromDate toDate =>
      ("by_date_added", [("from", .str fromDate), ("to", .str toDate)])
  | .byRating value => ("by_rating", [("value", .int value)])
  | .bySeriesIndex index => ("by_series_index", [("index", .int index)])
  | .byFileSize bytes => ("by_file_size", [("bytes", .int bytes)])
  | .byPageCount pages => ("by_page_count", [("pages", .int pages)])

def LimitSearch.read (name : String) (members : Members) : Except String LimitSearch :=
  match name with
  | "by_year" => .byYear <$> field members "year" readI32
  | "by_year_range" => do
      let lower ← field members "lower" readI32
      let upper ← field members "upper" readI32
      pure (.byYearRange lower upper)
  | "by_date_added" => do
      let fromDate ← field members "from" Codec.str.read
      let toDate ← field members "to" Codec.str.read
      pure (.byDateAdded fromDate toDate)
  | "by_rating" => .byRating <$> field members "value" (readNat (2 ^ 8))
  | "by_series_index" => .bySeriesIndex <$> field members "index" (readNat (2 ^ 32))
  | "by_file_size" => .byFileSize <$> field members "bytes" (readNat (2 ^ 64))
  | "by_page_count" => .byPageCount <$> field members "pages" (readNat (2 ^ 32))
  | _ => unknownVariant name

def FormatSearch.variant : FormatSearch → String × Members
  | .byFormat label => ("by_format", [("label", .str label)])
  | .byLanguage code => ("by_language", [("code", .str code)])
  | .byItemType kind => ("by_item_type", [("kind", .str kind)])
  | .byReadStatus status => ("by_read_status", [("status", .str status)])

def FormatSearch.read (name : String) (members : Members) : Except String FormatSearch :=
  match name with
  | "by_format" => .byFormat <$> field members "label" Codec.str.read
  | "by_language" => .byLanguage <$> field members "code" Codec.str.read
  | "by_item_type" => .byItemType <$> field members "kind" Codec.str.read
  | "by_read_status" => .byReadStatus <$> field members "status" Codec.str.read
  | _ => unknownVariant name

def AvailabilitySearch.variant : AvailabilitySearch → String × Members
  | .hasCover value => ("has_cover", [("value", .bool value)])
  | .hasNotes value => ("has_notes", [("value", .bool value)])
  | .hasAttachments value => ("has_attachments", [("value", .bool value)])
  | .hasFullText value => ("has_full_text", [("value", .bool value)])
  | .hasInventory value => ("has_inventory", [("value", .bool value)])

def AvailabilitySearch.read (name : String) (members : Members) :
    Except String AvailabilitySearch :=
  match name with
  | "has_cover" => .hasCover <$> field members "value" Codec.bool.read
  | "has_notes" => .hasNotes <$> field members "value" Codec.bool.read
  | "has_attachments" => .hasAttachments <$> field members "value" Codec.bool.read
  | "has_full_text" => .hasFullText <$> field members "value" Codec.bool.read
  | "has_inventory" => .hasInventory <$> field members "value" Codec.bool.read
  | _ => unknownVariant name

def TextSearch.variant : TextSearch → String × Members
  | .byTitle phrase => ("by_title", [("phrase", .str phrase)])
  | .byDescription phrase => ("by_description", [("phrase", .str phrase)])
  | .byNotes phrase => ("by_notes", [("phrase", .str phrase)])
  | .fullText phrase => ("full_text", [("phrase", .str phrase)])

def TextSearch.read (name : String) (members : Members) : Except String TextSearch :=
  match name with
  | "by_title" => .byTitle <$> field members "phrase" Codec.str.read
  | "by_description" => .byDescription <$> field members "phrase" Codec.str.read
  | "by_notes" => .byNotes <$> field members "phrase" Codec.str.read
  | "full_text" => .fullText <$> field members "phrase" Codec.str.read
  | _ => unknownVariant name

/-- A variant with named fields. -/
def structVariant (v : String × Members) : Json := variant v.1 (.obj v.2)

def readStruct {α : Type} (read : String → Members → Except String α) (j : Json) :
    Except String α := do
  let (name, members) ← readFields j
  read name members

/-! ## Trees -/

def readList {α : Type} (read : Json → Except String α) : Json → Except String (List α)
  | .arr items => items.mapM read
  | _ => .error "invalid type, expected a sequence"

section Trees

variable (env : Env)

mutual

def serialize : SavedSearchKind → Except String Json
  | .and of => do
      let children ← serializeEach of
      pure (structVariant ("and", [("of", .arr children)]))
  | .or of => do
      let children ← serializeEach of
      pure (structVariant ("or", [("of", .arr children)]))
  | .not of => do
      let child ← serialize of
      pure (structVariant ("not", [("of", child)]))
  | .categorization c => variant "categorization" <$> c.serialize env
  | .limit l => pure (variant "limit" (structVariant l.variant))
  | .format f => pure (variant "format" (structVariant f.variant))
  | .identifier i => variant "identifier" <$> i.serialize
  | .availability a => pure (variant "availability" (structVariant a.variant))
  | .ordering o => pure (variant "ordering" o.serialize)
  | .text t => pure (variant "text" (structVariant t.variant))
  | .userDefined queryDsl => pure (structVariant ("user_defined", [("query_dsl", .str queryDsl)]))

def serializeEach : List SavedSearchKind → Except String (List Json)
  | [] => pure []
  | c :: rest => do
      let child ← serialize c
      let children ← serializeEach rest
      pure (child :: children)

end

/-- A tree from a document of so many levels. -/
def readKind : Nat → Json → Except String SavedSearchKind
  | 0, _ => .error "invalid type, expected a map"
  | levels + 1, j => do
      let (name, content) ← readAdjacent "type" "value" j
      match name with
      | "and" => do
          let members ← readMembers content
          .and <$> field members "of" (readList (readKind levels))
      | "or" => do
          let members ← readMembers content
          .or <$> field members "of" (readList (readKind levels))
      | "not" => do
          let members ← readMembers content
          .not <$> field members "of" (readKind levels)
      | "categorization" => .categorization <$> CategorizationSearch.deserialize env content
      | "limit" => .limit <$> readStruct LimitSearch.read content
      | "format" => .format <$> readStruct FormatSearch.read content
      | "identifier" => .identifier <$> IdentifierSearch.deserialize content
      | "availability" => .availability <$> readStruct AvailabilitySearch.read content
      | "ordering" => .ordering <$> OrderingSearch.deserialize content
      | "text" => .text <$> readStruct TextSearch.read content
      | "user_defined" => do
          let members ← readMembers content
          .userDefined <$> field members "query_dsl" Codec.str.read
      | _ => unknownVariant name

/-- A nested tree is a part of the document, so its levels run out no sooner than it does. -/
def deserialize (j : Json) : Except String SavedSearchKind := readKind env j.depth j

end Trees

/-! ## Storing a search -/

section Storing

variable (env : Env) (lib : SerdeJson)

/-- `serde_json::to_string`: the text, as bytes. -/
def toText (k : SavedSearchKind) : Except String (List UInt8) := lib.toVec <$> serialize env k

/-- `serde_json::from_str`. -/
def fromText (text : List UInt8) : Except String SavedSearchKind :=
  lib.fromSlice text >>= deserialize env

/-- A search has a text, and reads back from it as it was. -/
def SurvivesStorage (k : SavedSearchKind) : Prop :=
  ∃ text, toText env lib k = .ok text ∧ fromText env lib text = .ok k

end Storing

/-! ## What can be stored -/

mutual

/-- Every filter of a tree has a property. -/
def EachFilter (P : SavedSearchKind → Prop) : SavedSearchKind → Prop
  | .and of => EachFilters P of
  | .or of => EachFilters P of
  | .not of => EachFilter P of
  | filter => P filter

def EachFilters (P : SavedSearchKind → Prop) : List SavedSearchKind → Prop
  | [] => True
  | c :: rest => EachFilter P c ∧ EachFilters P rest

end

/-- The numbers of a limit are of the types of their fields. -/
def LimitSearch.Fits : LimitSearch → Prop
  | .byYear year => -2 ^ 31 ≤ year ∧ year < 2 ^ 31
  | .byYearRange lower upper =>
      (-2 ^ 31 ≤ lower ∧ lower < 2 ^ 31) ∧ -2 ^ 31 ≤ upper ∧ upper < 2 ^ 31
  | .byDateAdded _ _ => True
  | .byRating value => value < 2 ^ 8
  | .bySeriesIndex index => index < 2 ^ 32
  | .byFileSize bytes => bytes < 2 ^ 64
  | .byPageCount pages => pages < 2 ^ 32

def FilterFits : SavedSearchKind → Prop
  | .limit l => l.Fits
  | _ => True

/-- A saved search as the source has it: every number is of its field's type. -/
structure Definition where
  kind : SavedSearchKind
  fits : EachFilter FilterFits kind

/-- Neither an id nor an identifier, which an internally tagged object has no room for. -/
def FilterStorable : SavedSearchKind → Prop
  | .categorization _ => False
  | .identifier _ => False
  | _ => True

def Storable : SavedSearchKind → Prop := EachFilter FilterStorable

mutual

/-- How deep the text of a tree is nested. -/
def levels : SavedSearchKind → Nat
  | .and of => levelsEach of + 3
  | .or of => levelsEach of + 3
  | .not of => levels of + 2
  | .limit _ => 3
  | .format _ => 3
  | .availability _ => 3
  | .text _ => 3
  | .categorization _ => 2
  | .identifier _ => 2
  | .ordering _ => 2
  | .userDefined _ => 2

def levelsEach : List SavedSearchKind → Nat
  | [] => 0
  | c :: rest => max (levels c) (levelsEach rest)

end

/-! ## Reading a filter back -/

theorem readInt_int {lo hi n : Int} (h : lo ≤ n ∧ n < hi) : readInt lo hi (.int n) = .ok n :=
  if_pos h

theorem readNat_int {hi : Int} {n : Nat} (h : (n : Int) < hi) : readNat hi (.int n) = .ok n := by
  rw [readNat, readInt_int ⟨Int.natCast_nonneg n, h⟩, map_ok, Int.toNat_natCast]

theorem field_singleton {α : Type} {name : String} {x : Json} {read : Json → Except String α} :
    field [(name, x)] name read = read x := field_cons_self (by simp)

theorem field_nat {name : String} {hi n : Nat} (h : n < hi) :
    field [(name, .int n)] name (readNat hi) = .ok n := by
  rw [field_singleton, readNat_int (by exact_mod_cast h)]

theorem LimitSearch.read_variant {l : LimitSearch} (h : l.Fits) :
    LimitSearch.read l.variant.1 l.variant.2 = .ok l := by
  cases l with
  | byYear year =>
      show byYear <$> field [("year", .int year)] "year" readI32 = _
      rw [field_singleton, readI32, readInt_int h, map_ok]
  | byYearRange lower upper =>
      have hlower : readI32 (.int lower) = .ok lower := readInt_int h.1
      have hupper : readI32 (.int upper) = .ok upper := readInt_int h.2
      simp [variant, read, hlower, hupper]
  | byDateAdded fromDate toDate => simp [variant, read, Codec.str]
  | byRating value =>
      show byRating <$> field [("value", .int value)] "value" (readNat (2 ^ 8 : Nat)) = _
      rw [field_nat h, map_ok]
  | bySeriesIndex index =>
      show bySeriesIndex <$> field [("index", .int index)] "index" (readNat (2 ^ 32 : Nat)) = _
      rw [field_nat h, map_ok]
  | byFileSize bytes =>
      show byFileSize <$> field [("bytes", .int bytes)] "bytes" (readNat (2 ^ 64 : Nat)) = _
      rw [field_nat h, map_ok]
  | byPageCount pages =>
      show byPageCount <$> field [("pages", .int pages)] "pages" (readNat (2 ^ 32 : Nat)) = _
      rw [field_nat h, map_ok]

theorem FormatSearch.read_variant (f : FormatSearch) :
    FormatSearch.read f.variant.1 f.variant.2 = .ok f := by
  cases f with
  | _ => simp [variant, read, Codec.str]

theorem AvailabilitySearch.read_variant (a : AvailabilitySearch) :
    AvailabilitySearch.read a.variant.1 a.variant.2 = .ok a := by
  cases a with
  | _ => simp [variant, read, Codec.bool]

theorem TextSearch.read_variant (t : TextSearch) :
    TextSearch.read t.variant.1 t.variant.2 = .ok t := by
  cases t with
  | _ => simp [variant, read, Codec.str]

theorem OrderingSearch.deserialize_serialize (o : OrderingSearch) :
    OrderingSearch.deserialize o.serialize = .ok o := by
  have htag : readTag "type" o.serialize = .ok (o.asStr, []) := readTag_tagged (by simp)
  rw [deserialize, htag]
  cases o <;> simp [asStr]

theorem readAdjacent_variant (name : String) (payload : Json) :
    readAdjacent "type" "value" (variant name payload) = .ok (name, payload) :=
  readAdjacent_adjacent (by decide)

theorem readStruct_structVariant {α : Type} (read : String → Members → Except String α)
    (v : String × Members) : readStruct read (structVariant v) = read v.1 v.2 := by
  rw [readStruct, readFields, structVariant, readAdjacent_variant]
  rfl

section Flat

variable {members : Members}

theorem LimitSearch.light_variant {l : LimitSearch} (h : l.Fits) :
    ∀ p ∈ l.variant.2, Light 0 p.2 := by
  have hnat : ∀ {n : Nat}, n < 2 ^ 64 → Light 0 (.int n) := by
    intro n hn
    exact .int ⟨by omega, by exact_mod_cast hn⟩
  have hint : ∀ {n : Int}, -2 ^ 31 ≤ n ∧ n < 2 ^ 31 → Light 0 (.int n) := by
    intro n hn
    exact .int ⟨by omega, by omega⟩
  cases l with
  | byYear year => simpa [variant] using hint h
  | byYearRange lower upper => simpa [variant] using ⟨hint h.1, hint h.2⟩
  | byDateAdded fromDate toDate => simp [variant, Light.str]
  | byRating value => simpa [variant] using hnat (h.trans (by decide))
  | bySeriesIndex index => simpa [variant] using hnat (h.trans (by decide))
  | byFileSize bytes => simpa [variant] using hnat h
  | byPageCount pages => simpa [variant] using hnat (h.trans (by decide))

theorem FormatSearch.light_variant (f : FormatSearch) : ∀ p ∈ f.variant.2, Light 0 p.2 := by
  cases f with
  | _ => simp [variant, Light.str]

theorem AvailabilitySearch.light_variant (a : AvailabilitySearch) :
    ∀ p ∈ a.variant.2, Light 0 p.2 := by
  cases a with
  | _ => simp [variant, Light.bool]

theorem TextSearch.light_variant (t : TextSearch) : ∀ p ∈ t.variant.2, Light 0 p.2 := by
  cases t with
  | _ => simp [variant, Light.str]

/-- An object of scalars is one level. -/
theorem depth_flat (h : ∀ p ∈ members, Light 0 p.2) : (Json.obj members).depth = 1 := by
  have hle : membersDepth members ≤ 0 := membersDepth_le_iff.2 fun p hp => (h p hp).depth_le
  rw [depth, Nat.le_zero.1 hle]

theorem depth_structVariant (v : String × Members) :
    (structVariant v).depth = (Json.obj v.2).depth + 1 := depth_adjacent _ _ _ _

end Flat

/-! ## Reading a tree back -/

section Back

variable (env : Env)

/-- A document that a tree was written as: an object, as deep as the tree says, that reads
    back as the tree. -/
structure Document (k : SavedSearchKind) (j : Json) : Prop where
  object : ∃ members, j = .obj members
  depth_eq : j.depth = levels k
  light : Light (levels k) j
  back : ∀ n, levels k ≤ n → readKind env n j = .ok k

variable {env} {k : SavedSearchKind} {name : String} {payload : Json} {m : Nat}

theorem Document.of_variant (hlevels : levels k = m + 1) (hdepth : payload.depth = m)
    (hlight : Light m payload)
    (hback : ∀ n, m ≤ n → readKind env (n + 1) (variant name payload) = .ok k) :
    Document env k (variant name payload) where
  object := ⟨_, rfl⟩
  depth_eq := by rw [variant, depth_adjacent, hdepth, hlevels]
  light := by
    rw [hlevels]
    exact .adjacent hlight
  back n hn := by
    obtain ⟨n, rfl⟩ := Nat.exists_eq_succ_of_ne_zero (n := n) (by omega)
    exact hback n (by omega)

/-- A filter with named fields, inside the tree. -/
theorem Document.of_struct {v : String × Members} (hlevels : levels k = 3)
    (hlight : ∀ p ∈ v.2, Light 0 p.2)
    (hback : ∀ n, readKind env (n + 1) (variant name (structVariant v)) = .ok k) :
    Document env k (variant name (structVariant v)) := by
  refine .of_variant hlevels ?_ (.adjacent (.obj hlight)) fun n _ => hback n
  rw [depth_structVariant, depth_flat hlight]

section Children

variable {of : List SavedSearchKind} {children : List Json}

theorem Document.itemsDepth_eq (h : List.Forall₂ (Document env) of children) :
    itemsDepth children = levelsEach of := by
  induction h with
  | nil => rfl
  | cons hc _ ih => rw [itemsDepth, levelsEach, hc.depth_eq, ih]

theorem Document.light_children (h : List.Forall₂ (Document env) of children) :
    ∀ x ∈ children, Light (levelsEach of) x := by
  induction h with
  | nil => exact fun _ hx => by cases hx
  | cons hc _ ih =>
      rw [levelsEach]
      refine List.forall_mem_cons.2 ⟨hc.light.mono (Nat.le_max_left _ _), fun x hx => ?_⟩
      exact (ih x hx).mono (Nat.le_max_right _ _)

theorem Document.mapM_children (h : List.Forall₂ (Document env) of children) {n : Nat}
    (hn : levelsEach of ≤ n) : children.mapM (readKind env n) = .ok of := by
  induction h with
  | nil => rfl
  | cons hc _ ih =>
      rw [levelsEach, Nat.max_le] at hn
      rw [List.mapM_cons, hc.back n hn.1, ih hn.2]
      rfl

/-- A conjunction or disjunction: the children stand in a list under `of`. -/
theorem Document.of_children (h : List.Forall₂ (Document env) of children)
    (hlevels : levels k = levelsEach of + 3)
    (hback : ∀ n, levelsEach of ≤ n →
      readKind env (n + 1) (structVariant (name, [("of", .arr children)])) = .ok k) :
    Document env k (structVariant (name, [("of", .arr children)])) := by
  refine .of_variant hlevels ?_ ?_ fun n hn => hback n (by omega)
  · simp [depth, membersDepth, Document.itemsDepth_eq h]
  · exact .obj (List.forall_mem_singleton.2 (.arr (Document.light_children h)))

end Children

mutual

theorem document_serialize (k : SavedSearchKind) (hfits : EachFilter FilterFits k) {j : Json}
    (h : serialize env k = .ok j) : Document env k j := by
  cases k with
  | and of =>
      rw [serialize] at h
      obtain ⟨children, hchildren, h⟩ := bind_eq_ok.1 h
      cases Except.ok.inj h
      rw [EachFilter] at hfits
      have hof := documents_serializeEach of hfits hchildren
      refine .of_children hof (by rw [levels]) fun n hn => ?_
      rw [readKind, structVariant, readAdjacent_variant]
      simp [readMembers, readList, Document.mapM_children hof hn]
  | or of =>
      rw [serialize] at h
      obtain ⟨children, hchildren, h⟩ := bind_eq_ok.1 h
      cases Except.ok.inj h
      rw [EachFilter] at hfits
      have hof := documents_serializeEach of hfits hchildren
      refine .of_children hof (by rw [levels]) fun n hn => ?_
      rw [readKind, structVariant, readAdjacent_variant]
      simp [readMembers, readList, Document.mapM_children hof hn]
  | not of =>
      rw [serialize] at h
      obtain ⟨child, hchild, h⟩ := bind_eq_ok.1 h
      cases Except.ok.inj h
      rw [EachFilter] at hfits
      have hof := document_serialize of hfits hchild
      refine .of_variant (by rw [levels]) ?_ (.obj (List.forall_mem_singleton.2 hof.light)) ?_
      · simp [depth, membersDepth, hof.depth_eq]
      · intro n hn
        rw [readKind, readAdjacent_variant]
        simp [readMembers, hof.back n (by omega)]
  | categorization c => cases h
  | identifier i =>
      cases i with
      | byKind kind needle => cases h
      | hasKind kind value => cases h
  | limit l =>
      -- the only leaf with a number, which has to fit its type
      cases Except.ok.inj h
      rw [EachFilter] at hfits
      · refine .of_struct rfl (LimitSearch.light_variant hfits) fun n => ?_
        rw [readKind, readAdjacent_variant]
        simp [readStruct_structVariant, LimitSearch.read_variant hfits]
      all_goals simp
  | format f =>
      cases Except.ok.inj h
      refine .of_struct rfl f.light_variant fun n => ?_
      rw [readKind, readAdjacent_variant]
      simp [readStruct_structVariant, f.read_variant]
  | availability a =>
      cases Except.ok.inj h
      refine .of_struct rfl a.light_variant fun n => ?_
      rw [readKind, readAdjacent_variant]
      simp [readStruct_structVariant, a.read_variant]
  | text t =>
      cases Except.ok.inj h
      refine .of_struct rfl t.light_variant fun n => ?_
      rw [readKind, readAdjacent_variant]
      simp [readStruct_structVariant, t.read_variant]
  | ordering o =>
      cases Except.ok.inj h
      refine .of_variant rfl rfl (.obj (List.forall_mem_singleton.2 (.str _))) fun n _ => ?_
      rw [readKind, readAdjacent_variant]
      simp [o.deserialize_serialize]
  | userDefined queryDsl =>
      cases Except.ok.inj h
      refine .of_variant rfl rfl (.obj (List.forall_mem_singleton.2 (.str _))) fun n _ => ?_
      rw [readKind, readAdjacent_variant]
      simp [readMembers, Codec.str]

theorem documents_serializeEach (of : List SavedSearchKind) (hfits : EachFilters FilterFits of)
    {children : List Json} (h : serializeEach env of = .ok children) :
    List.Forall₂ (Document env) of children := by
  cases of with
  | nil =>
      cases Except.ok.inj h
      exact .nil
  | cons c rest =>
      rw [serializeEach] at h
      obtain ⟨child, hchild, h⟩ := bind_eq_ok.1 h
      obtain ⟨others, hothers, h⟩ := bind_eq_ok.1 h
      cases Except.ok.inj h
      rw [EachFilters] at hfits
      exact .cons (document_serialize c hfits.1 hchild)
        (documents_serializeEach rest hfits.2 hothers)

end

mutual

/-- Exactly the trees without an id or an identifier have a document. -/
theorem storable_iff_serialize (k : SavedSearchKind) :
    Storable k ↔ ∃ j, serialize env k = .ok j := by
  cases k with
  | and of =>
      rw [Storable, EachFilter, storable_iff_serializeEach of, serialize]
      exact exists_bind_pure_iff.symm
  | or of =>
      rw [Storable, EachFilter, storable_iff_serializeEach of, serialize]
      exact exists_bind_pure_iff.symm
  | not of =>
      have ih := storable_iff_serialize of
      rw [Storable] at ih ⊢
      rw [EachFilter, ih, serialize]
      exact exists_bind_pure_iff.symm
  | categorization c => exact iff_of_false id fun h => by cases h.choose_spec
  | identifier i =>
      cases i with
      | byKind kind needle => exact iff_of_false id fun h => by cases h.choose_spec
      | hasKind kind value => exact iff_of_false id fun h => by cases h.choose_spec
  | _ => exact iff_of_true trivial ⟨_, rfl⟩

theorem storable_iff_serializeEach (of : List SavedSearchKind) :
    EachFilters FilterStorable of ↔ ∃ children, serializeEach env of = .ok children := by
  cases of with
  | nil => exact iff_of_true trivial ⟨_, rfl⟩
  | cons c rest =>
      have hc := storable_iff_serialize c
      rw [Storable] at hc
      rw [EachFilters, hc, storable_iff_serializeEach rest, serializeEach]
      constructor
      · rintro ⟨⟨child, hchild⟩, others, hothers⟩
        exact ⟨_, bind_eq_ok.2 ⟨child, hchild, bind_eq_ok.2 ⟨others, hothers, rfl⟩⟩⟩
      · rintro ⟨children, h⟩
        obtain ⟨child, hchild, h⟩ := bind_eq_ok.1 h
        obtain ⟨others, hothers, _⟩ := bind_eq_ok.1 h
        exact ⟨⟨child, hchild⟩, others, hothers⟩

end

/-- The text of a document reads back as the tree unless it is nested too deeply. -/
theorem Document.fromText_iff (lib : SerdeJson) {j : Json} (h : Document env k j) :
    fromText env lib (lib.toVec j) = .ok k ↔ levels k ≤ recursionLimit := by
  obtain ⟨members, rfl⟩ := h.object
  by_cases hdepth : levels k ≤ recursionLimit
  · have hread := lib.fromSlice_toVec members h.light.inRange (h.depth_eq.trans_le hdepth)
    rw [h.light.mapReal_eq] at hread
    refine iff_of_true ?_ hdepth
    rw [fromText, hread, Outcomes.ok_bind, deserialize, h.back _ h.depth_eq.ge]
  · have hdeep : recursionLimit < (Json.obj members).depth := by
      rw [h.depth_eq]
      exact Nat.not_le.1 hdepth
    obtain ⟨e, he⟩ := lib.fromSlice_deep members h.light.inRange hdeep
    refine iff_of_false ?_ hdepth
    rw [fromText, he]
    exact fun h => by cases h

end Back

/-- A saved search survives storage exactly if it filters by no category and no identifier,
    and its text is nested no deeper than the reader goes. -/
theorem survivesStorage_iff (env : Env) (lib : SerdeJson) (d : Definition) :
    SurvivesStorage env lib d.kind ↔ Storable d.kind ∧ levels d.kind ≤ recursionLimit := by
  have hstorable : Storable d.kind ↔ ∃ j, serialize env d.kind = .ok j :=
    storable_iff_serialize d.kind
  rw [hstorable]
  constructor
  · rintro ⟨text, hwrite, hread⟩
    obtain ⟨j, hj, rfl⟩ := Outcomes.map_eq_ok.1 hwrite
    exact ⟨⟨j, hj⟩, ((document_serialize d.kind d.fits hj).fromText_iff lib).1 hread⟩
  · rintro ⟨⟨j, hj⟩, hlevels⟩
    refine ⟨lib.toVec j, ?_, ((document_serialize d.kind d.fits hj).fromText_iff lib).2 hlevels⟩
    rw [toText, hj, map_ok]

/-- A shelf by tag, which has no text. -/
theorem not_survivesStorage_byTag :
    ¬ SurvivesStorage Env.reference SerdeJson.exact
      (Definition.mk (.categorization (.byTag ⟨List.replicate 16 0, rfl⟩)) trivial).kind := by
  rintro ⟨text, hwrite, _⟩
  cases hwrite

end SavedSearch
