import Livtet.Lib.JsonText

/-! # Format schemas

    A format carries a JSON Schema document. The three families of the library are told by
    what their documents require, and are stored as whole documents; any other document is
    stored as it is. A document of another that requires one of the three fields is taken for
    a family's, and is lost. -/

namespace FormatSchemas

open JsonText

inductive FormatMetadataSchema
  | physicalBook
  | ebook
  | audiobook
  | custom (v : Json)

/-- The texts of the `required` array, if there is one. -/
def requiredFields (v : Json) : List String :=
  match v.get? "required" with
  | some (.arr items) => items.filterMap Json.asStr?
  | _ => []

/-- The schemas that are generated from `PhysicalBookDef`, `EbookDef` and `AudiobookDef`: each
    requires the one field that has no default. -/
structure Generated where
  physicalBookDef : Json
  ebookDef : Json
  audiobookDef : Json
  physicalBook_required : requiredFields physicalBookDef = ["page_count"]
  ebook_required : requiredFields ebookDef = ["virtual_page_count"]
  audiobook_required : requiredFields audiobookDef = ["duration_seconds"]

def stripSchemaMeta : Json → Json
  | .obj members => .obj (members.filter fun p => !List.contains ["$schema", "title"] p.1)
  | v => v

namespace Generated

variable (docs : Generated)

def physicalBookSchema : Json := stripSchemaMeta docs.physicalBookDef

def ebookSchema : Json := stripSchemaMeta docs.ebookDef

def audiobookSchema : Json := stripSchemaMeta docs.audiobookDef

end Generated

/-- A JSON Schema library: a schema is built, or refused, and lists the errors of a value. -/
structure Validator where
  build : Json → Except String (Json → List String)

section Schemas

variable (docs : Generated) (validator : Validator)

def serialize : FormatMetadataSchema → Json
  | .physicalBook => docs.physicalBookSchema
  | .ebook => docs.ebookSchema
  | .audiobook => docs.audiobookSchema
  | .custom v => v

def deserialize (v : Json) : FormatMetadataSchema :=
  let required := requiredFields v
  if required.contains "page_count" then .physicalBook
  else if required.contains "virtual_page_count" then .ebook
  else if required.contains "duration_seconds" then .audiobook
  else .custom v

/-- The errors of a value that is checked against a schema, or of the schema. -/
def checkAgainst (schema value : Json) : Except (List String) Unit :=
  match validator.build schema with
  | .error e => .error [e]
  | .ok compiled => if (compiled value).isEmpty then .ok () else .error (compiled value)

def validate (s : FormatMetadataSchema) (value : Json) : Except (List String) Unit :=
  checkAgainst validator (serialize docs s) value

end Schemas

def familyFields : List String := ["page_count", "virtual_page_count", "duration_seconds"]

/-- One of the fields that tell the families is required. -/
def NamesFamily (v : Json) : Prop := ∃ name ∈ requiredFields v, name ∈ familyFields

/-! ## Which documents are kept -/

theorem lookup_filter {α : Type} {name : String} {keep : String → Bool} (hname : keep name = true)
    (members : List (String × α)) :
    (members.filter fun p => keep p.1).lookup name = members.lookup name := by
  induction members with
  | nil => rfl
  | cons p members ih =>
      obtain ⟨key, value⟩ := p
      rw [List.filter_cons]
      by_cases hkey : name = key
      · rw [← hkey, if_pos hname, List.lookup_cons_self, List.lookup_cons_self]
      · have hskip : List.lookup name ((key, value) :: members) = members.lookup name := by
          rw [List.lookup_cons, beq_false_of_ne hkey]
        rw [hskip, ← ih]
        split
        · rw [List.lookup_cons, beq_false_of_ne hkey]
        · rfl

/-- What is required stays so. -/
theorem requiredFields_strip (v : Json) :
    requiredFields (stripSchemaMeta v) = requiredFields v := by
  cases v with
  | obj members =>
      have hget : (stripSchemaMeta (.obj members)).get? "required" =
          (Json.obj members).get? "required" := by
        show (members.filter _).reverse.lookup "required" = members.reverse.lookup "required"
        rw [← List.filter_reverse]
        exact @lookup_filter _ _ (fun key => !List.contains ["$schema", "title"] key) (by decide) _
      rw [requiredFields, hget, requiredFields]
  | null => rfl
  | bool b => rfl
  | int n => rfl
  | real d => rfl
  | str s => rfl
  | arr items => rfl

section Kept

variable {docs : Generated} {v : Json}

theorem deserialize_eq_custom_iff : deserialize v = .custom v ↔ ¬ NamesFamily v := by
  rw [deserialize]
  constructor
  · rintro h ⟨name, hname, hfamily⟩
    rw [← List.contains_iff_mem] at hname
    simp only [familyFields, List.mem_cons, List.not_mem_nil, or_false] at hfamily
    split at h
    · cases h
    · rename_i hpage
      split at h
      · cases h
      -- none of the three is required, or the document is not kept
      · rename_i hvirtual
        split at h
        · cases h
        · rename_i hduration
          rcases hfamily with rfl | rfl | rfl
          · exact hpage hname
          · exact hvirtual hname
          · exact hduration hname
  · intro h
    have habsent : ∀ name ∈ familyFields, ¬ (requiredFields v).contains name = true :=
      fun name hfamily hname => h ⟨name, List.contains_iff_mem.1 hname, hfamily⟩
    rw [if_neg (habsent _ (by decide)), if_neg (habsent _ (by decide)),
      if_neg (habsent _ (by decide))]

/-- A family's document is told by its one field. -/
theorem deserialize_serialize {s : FormatMetadataSchema} (h : ∀ v, s ≠ .custom v) :
    deserialize (serialize docs s) = s := by
  cases s with
  | physicalBook =>
      rw [serialize, deserialize, Generated.physicalBookSchema, requiredFields_strip,
        docs.physicalBook_required]
      rfl
  | ebook =>
      rw [serialize, deserialize, Generated.ebookSchema, requiredFields_strip,
        docs.ebook_required]
      rfl
  | audiobook =>
      rw [serialize, deserialize, Generated.audiobookSchema, requiredFields_strip,
        docs.audiobook_required]
      rfl
  | custom v => exact absurd rfl (h v)

end Kept

/-- **SCHEMAS ARE STORED WITHOUT LOSS** exactly if they do not require a field of a family: then
    a document is kept as it is and values are checked against it, and a schema is read back. -/
theorem schemas_kept_iff (docs : Generated) (validator : Validator) :
    (∀ v, v ∉ [docs.physicalBookSchema, docs.ebookSchema, docs.audiobookSchema] →
      ((deserialize v = .custom v ∧ serialize docs (deserialize v) = v ∧
        ∀ value, validate docs validator (deserialize v) value = checkAgainst validator v value) ↔
          ¬ NamesFamily v)) ∧
    ∀ s, deserialize (serialize docs s) = s ↔ ∀ v, s = .custom v → ¬ NamesFamily v := by
  refine ⟨fun v _ => ?_, fun s => ?_⟩
  · rw [← deserialize_eq_custom_iff]
    constructor
    · exact fun h => h.1
    · intro h
      have hsame : serialize docs (deserialize v) = v := by
        rw [h]
        rfl
      refine ⟨h, hsame, fun value => ?_⟩
      rw [validate, hsame]
  · constructor
    · rintro h v rfl
      exact deserialize_eq_custom_iff.1 h
    · intro h
      cases s with
      | custom v => exact deserialize_eq_custom_iff.2 (h v rfl)
      | physicalBook => exact deserialize_serialize (by rintro v ⟨⟩)
      | ebook => exact deserialize_serialize (by rintro v ⟨⟩)
      | audiobook => exact deserialize_serialize (by rintro v ⟨⟩)

/-! ## A plugin's schema -/

/-- A document of an object with one number, which is required. -/
def numberSchema (field : String) : Json :=
  .obj [("type", .str "object"),
    ("properties", .obj [(field, .obj [("type", .str "integer"), ("minimum", .int 1)])]),
    ("required", .arr [.str field])]

def numberSchemas : Generated where
  physicalBookDef := numberSchema "page_count"
  ebookDef := numberSchema "virtual_page_count"
  audiobookDef := numberSchema "duration_seconds"
  physicalBook_required := rfl
  ebook_required := rfl
  audiobook_required := rfl

/-- It requires the pages, and where on the page. -/
def pluginSchema : Json :=
  .obj [("type", .str "object"), ("required", .arr [.str "page_count", .str "scroll_pct"])]

def acceptAll : Validator where
  build := fun _ => .ok fun _ => []

/-- A plugin's schema of another field is read back. -/
theorem schemas_kept_scroll :
    deserialize (numberSchema "scroll_pct") = .custom (numberSchema "scroll_pct") := by
  have hnone : ¬ NamesFamily (numberSchema "scroll_pct") := by
    rintro ⟨name, hname, hfamily⟩
    rw [List.mem_singleton.1 (show name ∈ ["scroll_pct"] from hname)] at hfamily
    revert hfamily
    decide
  have hother : ∀ field, field ≠ "scroll_pct" →
      numberSchema "scroll_pct" ≠ numberSchema field := by
    intro field hfield h
    have hrequired := congrArg requiredFields h
    exact hfield (List.singleton_inj.1 hrequired).symm
  have hmem : numberSchema "scroll_pct" ∉ [numberSchemas.physicalBookSchema,
      numberSchemas.ebookSchema, numberSchemas.audiobookSchema] := by
    simp only [List.mem_cons, List.not_mem_nil, or_false, not_or]
    exact ⟨hother _ (by decide), hother _ (by decide), hother _ (by decide)⟩
  exact (((schemas_kept_iff numberSchemas acceptAll).1 _ hmem).2 hnone).1

/-- A plugin's schema that requires the pages too is taken for that of a book. -/
theorem schemas_not_kept :
    ¬ (pluginSchema ∉ [numberSchemas.physicalBookSchema, numberSchemas.ebookSchema,
        numberSchemas.audiobookSchema] → deserialize pluginSchema = .custom pluginSchema) := by
  intro h
  have hother : ∀ field, pluginSchema ≠ numberSchema field := by
    intro field hsame
    -- it requires two fields, and a family's document one
    have hrequired := congrArg requiredFields hsame
    exact absurd (congrArg List.length hrequired) (show 2 ≠ 1 by decide)
  have hcustom := h (by
    simp only [List.mem_cons, List.not_mem_nil, or_false, not_or]
    exact ⟨hother _, hother _, hother _⟩)
  exact deserialize_eq_custom_iff.1 hcustom ⟨"page_count", List.mem_cons_self, by decide⟩

end FormatSchemas
