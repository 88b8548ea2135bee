import Livtet.Csl
import Mathlib.Algebra.Ring.Nat
import Mathlib.Data.String.Basic

/-! # RIS blocks

    An item is rendered as a block of lines, a tag and a value to a line. A reader takes
    the block apart at its line feeds and stops at the first line that ends a record. It
    reads back what the item carries unless a value brings a line feed of its own, or a
    note is written for an identifier that is empty. -/

namespace Citations

/-! ## Rendering -/

def line (tag value : String) : String := tag ++ "  - " ++ value ++ "\n"

def lineOptional (tag : String) (value : Option String) : String :=
  ((nonEmpty value).map (line tag)).getD ""

def risNames (tag : String) (names : List CslName) : String :=
  String.join ((names.filterMap CslName.displayName).map (line tag))

/-- A note names the catalogue its value is from. -/
def noteLine (catalogue : String) (value : Option String) : String :=
  (value.map fun v => line "N1" (catalogue ++ ": " ++ v)).getD ""

def toRis (item : CslItem) : String :=
  line "TY" "BOOK" ++
  risNames "AU" item.author ++
  risNames "A2" item.editor ++
  risNames "A3" item.translator ++
  lineOptional "TI" item.title ++
  lineOptional "PB" item.publisher ++
  lineOptional "CY" item.publisherPlace ++
  line "PY" item.yearLabel ++
  lineOptional "ET" item.edition ++
  lineOptional "LA" item.language ++
  lineOptional "SN" item.isbn ++
  lineOptional "DO" item.doi ++
  noteLine "OCLC" item.oclc ++
  noteLine "LCCN" item.lccn ++
  "ER  -\n"

/-! ## Reading -/

/-- A two-character tag, two spaces, a hyphen, a space and the value. -/
def readField : List Char → Option (List Char × List Char)
  | a :: b :: ' ' :: ' ' :: '-' :: ' ' :: value => some ([a, b], value)
  | _ => none

/-- The fields of the lines before the first that ends a record, and the lines after it. -/
def readRecord : List (List Char) → Option (List (List Char × List Char) × List (List Char))
  | [] => none
  | l :: rest =>
      if ['E', 'R', ' ', ' ', '-'].isPrefixOf l then some ([], rest)
      else
        (readField l).bind fun field =>
          (readRecord rest).map fun p => (field :: p.1, p.2)

/-- What is read of a block: its fields, and what is left of it after the record. -/
def readRis (block : String) : Option (List (List Char × List Char) × List (List Char)) :=
  readRecord (block.toList.splitOn '\n')

/-! ## What an item carries -/

/-- A field of one value, if it is there and not empty. -/
def carriedField (tag : String) (value : Option String) : List (String × String) :=
  ((nonEmpty value).map fun v => (tag, v)).toList

def carriedNames (tag : String) (names : List CslName) : List (String × String) :=
  (names.filterMap CslName.displayName).map fun name => (tag, name)

def carriedNote (catalogue : String) (value : Option String) : List (String × String) :=
  carriedField "N1" ((nonEmpty value).map fun v => catalogue ++ ": " ++ v)

/-- The tags and values of what is not empty in the item, in their order. -/
def carriedFields (item : CslItem) : List (String × String) :=
  [("TY", "BOOK")] ++
  carriedNames "AU" item.author ++
  carriedNames "A2" item.editor ++
  carriedNames "A3" item.translator ++
  carriedField "TI" item.title ++
  carriedField "PB" item.publisher ++
  carriedField "CY" item.publisherPlace ++
  [("PY", item.yearLabel)] ++
  carriedField "ET" item.edition ++
  carriedField "LA" item.language ++
  carriedField "SN" item.isbn ++
  carriedField "DO" item.doi ++
  carriedNote "OCLC" item.oclc ++
  carriedNote "LCCN" item.lccn

def toChars (field : String × String) : List Char × List Char := (field.1.toList, field.2.toList)

/-- Every text of an item that is written to its block is free of line feeds, and no note is
    written for an empty identifier. -/
structure RisPlain (item : CslItem) : Prop where
  names : ∀ name ∈ item.author ++ (item.editor ++ item.translator), ∀ s,
    name.displayName = some s → '\n' ∉ s.toList
  texts : ∀ text ∈ [item.title, item.publisher, item.publisherPlace, item.edition, item.language,
    item.isbn, item.doi, item.oclc, item.lccn], ∀ s, text = some s → '\n' ∉ s.toList
  oclc : item.oclc ≠ some ""
  lccn : item.lccn ≠ some ""

/-- The fields are read as they are carried, and nothing is left of the block. -/
def RisReadsBack (item : CslItem) : Prop :=
  readRis (toRis item) = some ((carriedFields item).map toChars, [[]])

/-! ## Blocks as lists of lines -/

/-- The lines of some fields. -/
def rendered (fields : List (String × String)) : String :=
  String.join (fields.map fun f => line f.1 f.2)

def writtenNote (catalogue : String) (value : Option String) : List (String × String) :=
  (value.map fun v => ("N1", catalogue ++ ": " ++ v)).toList

/-- The fields without the notes. -/
def leadingFields (item : CslItem) : List (String × String) :=
  [("TY", "BOOK")] ++
  carriedNames "AU" item.author ++
  carriedNames "A2" item.editor ++
  carriedNames "A3" item.translator ++
  carriedField "TI" item.title ++
  carriedField "PB" item.publisher ++
  carriedField "CY" item.publisherPlace ++
  [("PY", item.yearLabel)] ++
  carriedField "ET" item.edition ++
  carriedField "LA" item.language ++
  carriedField "SN" item.isbn ++
  carriedField "DO" item.doi

def writtenFields (item : CslItem) : List (String × String) :=
  leadingFields item ++ writtenNote "OCLC" item.oclc ++ writtenNote "LCCN" item.lccn

theorem rendered_append (fs gs : List (String × String)) :
    rendered (fs ++ gs) = rendered fs ++ rendered gs := by
  rw [rendered, List.map_append, String.join_append]
  rfl

theorem rendered_cons (f : String × String) (fs : List (String × String)) :
    rendered (f :: fs) = line f.1 f.2 ++ rendered fs := by
  rw [rendered, List.map_cons, String.join_cons]
  rfl

theorem rendered_one (tag value : String) : rendered [(tag, value)] = line tag value := by
  rw [rendered_cons]
  exact String.append_empty

theorem lineOptional_eq (tag : String) (value : Option String) :
    lineOptional tag value = rendered (carriedField tag value) := by
  rw [lineOptional, carriedField]
  cases nonEmpty value with
  | none => rfl
  | some v => exact (rendered_one tag v).symm

theorem noteLine_eq (catalogue : String) (value : Option String) :
    noteLine catalogue value = rendered (writtenNote catalogue value) := by
  rw [noteLine, writtenNote]
  cases value with
  | none => rfl
  | some v => exact (rendered_one "N1" (catalogue ++ ": " ++ v)).symm

theorem risNames_eq (tag : String) (names : List CslName) :
    risNames tag names = rendered (carriedNames tag names) := by
  rw [risNames, carriedNames, rendered, List.map_map]
  rfl

theorem toRis_eq (item : CslItem) : toRis item = rendered (writtenFields item) ++ "ER  -\n" := by
  simp only [toRis, writtenFields, leadingFields, rendered_append, rendered_one, lineOptional_eq,
    noteLine_eq, risNames_eq]

/-! ## Reading a block -/

/-- Two characters, none a line feed, that do not end a record. -/
def IsTag (tag : String) : Prop :=
  ∃ a b, tag.toList = [a, b] ∧ a ≠ '\n' ∧ b ≠ '\n' ∧ ¬ (a = 'E' ∧ b = 'R')

theorem toList_line (tag value : String) : (line tag value).toList =
    tag.toList ++ ' ' :: ' ' :: '-' :: ' ' :: (value.toList ++ ['\n']) := by
  rw [line]
  simp only [String.toList_append, List.append_assoc]
  rfl

/-- A line is one field, whatever follows it. -/
theorem readRis_line {tag value : String} (htag : IsTag tag) (hvalue : '\n' ∉ value.toList)
    (rest : String) : readRis (line tag value ++ rest) =
      (readRis rest).map fun p => (toChars (tag, value) :: p.1, p.2) := by
  obtain ⟨a, b, hchars, ha, hb, hend⟩ := htag
  have hline : ∀ c ∈ a :: b :: ' ' :: ' ' :: '-' :: ' ' :: value.toList, (c == '\n') = false := by
    intro c hc
    rw [beq_eq_false_iff_ne]
    rintro rfl
    simp only [List.mem_cons, ha.symm, hb.symm, hvalue, or_false, false_or] at hc
    revert hc
    decide
  have hsplit : (line tag value ++ rest).toList.splitOn '\n' =
      (a :: b :: ' ' :: ' ' :: '-' :: ' ' :: value.toList) :: rest.toList.splitOn '\n' := by
    rw [String.toList_append, toList_line, hchars, List.splitOn_eq_splitOnP,
      List.splitOn_eq_splitOnP, ← List.splitOnP_append_cons_of_forall_mem hline '\n' rfl]
    simp only [List.cons_append, List.nil_append, List.append_assoc]
  -- no tag of a field is that of the end
  have hnotEnd : List.isPrefixOf ['E', 'R', ' ', ' ', '-']
      (a :: b :: ' ' :: ' ' :: '-' :: ' ' :: value.toList) = false := by
    rw [Bool.eq_false_iff]
    intro hprefix
    obtain ⟨t, ht⟩ := List.isPrefixOf_iff_prefix.1 hprefix
    simp only [List.cons_append, List.cons.injEq] at ht
    exact hend ⟨ht.1.symm, ht.2.1.symm⟩
  rw [readRis, hsplit, readRecord, hnotEnd]
  have htoChars : toChars (tag, value) = ([a, b], value.toList) := by
    rw [toChars, hchars]
  rw [htoChars]
  rfl

theorem readRis_rendered {fields : List (String × String)}
    (h : ∀ f ∈ fields, IsTag f.1 ∧ '\n' ∉ f.2.toList) :
    readRis (rendered fields ++ "ER  -\n") = some (fields.map toChars, [[]]) := by
  induction fields with
  | nil => rfl
  | cons f fields ih =>
      obtain ⟨htag, hvalue⟩ := h f List.mem_cons_self
      rw [rendered_cons, String.append_assoc, readRis_line htag hvalue,
        ih fun g hg => h g (List.mem_cons_of_mem f hg)]
      rfl

/-! ## How many lines are read -/

theorem length_splitOn (c : Char) (s : List Char) : (s.splitOn c).length = s.count c + 1 := by
  rw [List.splitOn_eq_splitOnP]
  induction s with
  | nil => rfl
  | cons d s ih =>
      rw [List.splitOnP_cons_eq_if_modifyHead, List.count_cons]
      split
      · rw [List.length_cons, ih]
      · rw [List.length_modifyHead, ih, Nat.add_zero]

/-- Each line that is read is one field, or ends the record, or is left. -/
theorem length_of_readRecord {lines left : List (List Char)}
    {fields : List (List Char × List Char)} (h : readRecord lines = some (fields, left)) :
    lines.length = fields.length + 1 + left.length := by
  induction lines generalizing fields with
  | nil => cases h
  | cons l rest ih =>
      rw [readRecord] at h
      split at h
      · cases h
        rw [List.length_cons, List.length_nil]
        omega
      · obtain ⟨field, _, h⟩ := Option.bind_eq_some_iff.1 h
        obtain ⟨p, hp, heq⟩ := Option.map_eq_some_iff.1 h
        cases heq
        rw [List.length_cons, List.length_cons, ih hp]
        omega

/-- The line feeds of the values. -/
def breaks (fields : List (String × String)) : Nat :=
  (fields.map fun f => f.2.toList.count '\n').sum

theorem breaks_cons (f : String × String) (fields : List (String × String)) :
    breaks (f :: fields) = f.2.toList.count '\n' + breaks fields := by
  rw [breaks, List.map_cons, List.sum_cons]
  rfl

theorem count_rendered {fields : List (String × String)} (h : ∀ f ∈ fields, IsTag f.1) :
    (rendered fields).toList.count '\n' = fields.length + breaks fields := by
  induction fields with
  | nil => rfl
  | cons f fields ih =>
      obtain ⟨a, b, hchars, ha, hb, _⟩ := h f List.mem_cons_self
      have hline : (line f.1 f.2).toList.count '\n' = f.2.toList.count '\n' + 1 := by
        have htag : List.count '\n' [a, b] = 0 := by
          rw [List.count_eq_zero]
          simp only [List.mem_cons, ha.symm, hb.symm, List.not_mem_nil, or_false, not_false_iff]
        have hvalue : List.count '\n' (' ' :: ' ' :: '-' :: ' ' :: (f.2.toList ++ ['\n'])) =
            List.count '\n' (f.2.toList ++ ['\n']) := rfl
        rw [toList_line, hchars, List.count_append, htag, Nat.zero_add, hvalue, List.count_append]
        rfl
      rw [rendered_cons, String.toList_append, List.count_append, hline,
        ih fun g hg => h g (List.mem_cons_of_mem f hg), breaks_cons, List.length_cons]
      omega

theorem breaks_eq_zero {fields : List (String × String)} (h : breaks fields = 0) :
    ∀ f ∈ fields, '\n' ∉ f.2.toList := by
  induction fields with
  | nil => exact List.forall_mem_nil _
  | cons g fields ih =>
      rw [breaks_cons] at h
      refine List.forall_mem_cons.2 ⟨List.count_eq_zero.1 (by omega), ih (by omega)⟩

/-! ## Which blocks are read back -/

theorem isTag_of_mem {tag : String} (h : tag ∈ ["TY", "AU", "A2", "A3", "TI", "PB", "CY", "PY",
    "ET", "LA", "SN", "DO", "N1"]) : IsTag tag := by
  simp only [List.mem_cons, List.not_mem_nil, or_false] at h
  rcases h with rfl | rfl | rfl | rfl | rfl | rfl | rfl | rfl | rfl | rfl | rfl | rfl | rfl <;>
    exact ⟨_, _, rfl, by decide, by decide, by decide⟩

theorem fst_of_carriedField {tag : String} {value : Option String} :
    ∀ f ∈ carriedField tag value, f.1 = tag := by
  intro f hf
  rw [carriedField, Option.mem_toList, Option.map_eq_some_iff] at hf
  obtain ⟨_, _, rfl⟩ := hf
  rfl

theorem fst_of_carriedNames {tag : String} {names : List CslName} :
    ∀ f ∈ carriedNames tag names, f.1 = tag := by
  intro f hf
  obtain ⟨_, _, rfl⟩ := List.mem_map.1 hf
  rfl

theorem fst_of_writtenNote {catalogue : String} {value : Option String} :
    ∀ f ∈ writtenNote catalogue value, f.1 = "N1" := by
  intro f hf
  rw [writtenNote, Option.mem_toList, Option.map_eq_some_iff] at hf
  obtain ⟨_, _, rfl⟩ := hf
  rfl

theorem isTag_of_written (item : CslItem) : ∀ f ∈ writtenFields item, IsTag f.1 := by
  have htag : ∀ {fields : List (String × String)} (tag : String), (∀ f ∈ fields, f.1 = tag) →
      tag ∈ ["TY", "AU", "A2", "A3", "TI", "PB", "CY", "PY", "ET", "LA", "SN", "DO", "N1"] →
        ∀ f ∈ fields, IsTag f.1 := by
    intro fields tag hfields hmem f hf
    rw [hfields f hf]
    exact isTag_of_mem hmem
  have hone : ∀ {tag value : String}, ∀ f ∈ [(tag, value)], f.1 = tag := by
    intro tag value f hf
    rw [List.mem_singleton.1 hf]
  simp only [writtenFields, leadingFields, List.forall_mem_append]
  exact ⟨⟨⟨⟨⟨⟨⟨⟨⟨⟨⟨⟨⟨htag "TY" hone (by decide),
    htag "AU" fst_of_carriedNames (by decide)⟩,
    htag "A2" fst_of_carriedNames (by decide)⟩,
    htag "A3" fst_of_carriedNames (by decide)⟩,
    htag "TI" fst_of_carriedField (by decide)⟩,
    htag "PB" fst_of_carriedField (by decide)⟩,
    htag "CY" fst_of_carriedField (by decide)⟩,
    htag "PY" hone (by decide)⟩,
    htag "ET" fst_of_carriedField (by decide)⟩,
    htag "LA" fst_of_carriedField (by decide)⟩,
    htag "SN" fst_of_carriedField (by decide)⟩,
    htag "DO" fst_of_carriedField (by decide)⟩,
    htag "N1" fst_of_writtenNote (by decide)⟩,
    htag "N1" fst_of_writtenNote (by decide)⟩

theorem carriedNote_eq (catalogue : String) (value : Option String) :
    carriedNote catalogue value = writtenNote catalogue (nonEmpty value) := by
  rw [carriedNote, carriedField, writtenNote]
  cases nonEmpty value with
  | none => rfl
  | some v =>
      have hne : catalogue ++ ": " ++ v ≠ "" := by
        intro hempty
        have hlength := congrArg String.length hempty
        rw [String.length_append, String.length_append] at hlength
        have hcolon : (": ").length = 2 := rfl
        have hnone : ("").length = 0 := rfl
        omega
      rw [Option.map_some, nonEmpty_eq_some.2 ⟨rfl, hne⟩]
      rfl

theorem nonEmpty_eq_self {value : Option String} : nonEmpty value = value ↔ value ≠ some "" := by
  cases value with
  | none => exact ⟨fun _ => by decide, fun _ => rfl⟩
  | some s =>
      rw [nonEmpty_eq_some]
      exact ⟨fun h hs => h.2 (Option.some.inj hs), fun h => ⟨rfl, fun hs => h (congrArg some hs)⟩⟩

/-- A note is written for an empty identifier, though it carries nothing. -/
theorem length_writtenNote (catalogue : String) (value : Option String) :
    (writtenNote catalogue value).length =
      (carriedNote catalogue value).length + if value = some "" then 1 else 0 := by
  rw [carriedNote_eq]
  split
  · rename_i hempty
    rw [hempty]
    rfl
  · rename_i hne
    rw [nonEmpty_eq_self.2 hne]
    rfl

theorem carriedFields_eq (item : CslItem) : carriedFields item =
    leadingFields item ++ carriedNote "OCLC" item.oclc ++ carriedNote "LCCN" item.lccn := rfl

theorem forall_carriedField {tag : String} {value : Option String} :
    (∀ f ∈ carriedField tag value, '\n' ∉ f.2.toList) ↔
      ∀ s, value = some s → '\n' ∉ s.toList := by
  constructor
  · intro h s hs
    by_cases hempty : s = ""
    · rw [hempty]
      exact List.not_mem_nil
    · refine h (tag, s) ?_
      rw [carriedField, nonEmpty_eq_some.2 ⟨hs, hempty⟩]
      exact List.mem_singleton.2 rfl
  · intro h f hf
    rw [carriedField, Option.mem_toList, Option.map_eq_some_iff] at hf
    obtain ⟨s, hs, rfl⟩ := hf
    exact h s (nonEmpty_eq_some.1 hs).1

theorem forall_carriedNames {tag : String} {names : List CslName} :
    (∀ f ∈ carriedNames tag names, '\n' ∉ f.2.toList) ↔
      ∀ name ∈ names, ∀ s, name.displayName = some s → '\n' ∉ s.toList := by
  constructor
  · intro h name hname s hs
    exact h (tag, s) (List.mem_map.2 ⟨s, List.mem_filterMap.2 ⟨name, hname, hs⟩, rfl⟩)
  · intro h f hf
    obtain ⟨s, hs, rfl⟩ := List.mem_map.1 hf
    obtain ⟨name, hname, hshown⟩ := List.mem_filterMap.1 hs
    exact h name hname s hshown

theorem forall_writtenNote {catalogue : String} (hcatalogue : '\n' ∉ catalogue.toList)
    {value : Option String} : (∀ f ∈ writtenNote catalogue value, '\n' ∉ f.2.toList) ↔
      ∀ s, value = some s → '\n' ∉ s.toList := by
  cases value with
  | none =>
      refine ⟨fun _ s hs => ?_, fun _ => List.forall_mem_nil _⟩
      cases hs
  | some v =>
      have hcolon : '\n' ∉ (": ").toList := by decide
      have hnote : '\n' ∈ (catalogue ++ ": " ++ v).toList ↔ '\n' ∈ v.toList := by
        rw [String.toList_append, String.toList_append, List.mem_append, List.mem_append]
        simp only [hcatalogue, hcolon, false_or]
      have hone : writtenNote catalogue (some v) = [("N1", catalogue ++ ": " ++ v)] := rfl
      rw [hone, List.forall_mem_singleton, hnote]
      exact ⟨fun h s hs => Option.some.inj hs ▸ h, fun h => h v rfl⟩

/-- The texts of the fields are the texts of the item. -/
theorem forall_writtenFields (item : CslItem) :
    (∀ f ∈ writtenFields item, '\n' ∉ f.2.toList) ↔
      (∀ name ∈ item.author ++ (item.editor ++ item.translator), ∀ s,
        name.displayName = some s → '\n' ∉ s.toList) ∧
      ∀ text ∈ [item.title, item.publisher, item.publisherPlace, item.edition, item.language,
        item.isbn, item.doi, item.oclc, item.lccn], ∀ s, text = some s → '\n' ∉ s.toList := by
  have hyear : '\n' ∉ item.yearLabel.toList := by
    intro hmem
    rcases mem_yearLabel hmem with h | h
    · revert h
      decide
    · revert h
      decide
  have hbook : '\n' ∉ ("BOOK").toList := by decide
  have hoclc := @forall_writtenNote "OCLC" (by decide) item.oclc
  have hlccn := @forall_writtenNote "LCCN" (by decide) item.lccn
  simp only [writtenFields, leadingFields, List.forall_mem_append, List.forall_mem_singleton,
    forall_carriedField, forall_carriedNames, hoclc, hlccn, List.forall_mem_cons, hyear, hbook,
    not_false_iff, and_true, true_and, and_assoc]

theorem risReadsBack_of_plain {item : CslItem} (h : RisPlain item) : RisReadsBack item := by
  have hfields : writtenFields item = carriedFields item := by
    rw [writtenFields, carriedFields_eq, carriedNote_eq, carriedNote_eq,
      nonEmpty_eq_self.2 h.oclc, nonEmpty_eq_self.2 h.lccn]
  have hread := readRis_rendered fun f hf =>
    ⟨isTag_of_written item f hf, (forall_writtenFields item).2 ⟨h.names, h.texts⟩ f hf⟩
  rw [← toRis_eq, hfields] at hread
  exact hread

/-- A block of as many lines as the item has fields has a line for each, and no more. -/
theorem risPlain_of_readsBack {item : CslItem} (h : RisReadsBack item) : RisPlain item := by
  have hlines := length_of_readRecord h
  have hend : List.count '\n' ("ER  -\n").toList = 1 := by decide
  -- both sides count the lines of the block
  rw [length_splitOn, toRis_eq, String.toList_append, List.count_append, hend,
    count_rendered (isTag_of_written item), List.length_map, carriedFields_eq, writtenFields] at hlines
  simp only [List.length_append, length_writtenNote, List.length_singleton] at hlines
  have hbreaks : breaks (writtenFields item) = 0 := by
    rw [writtenFields]
    omega
  obtain ⟨hnames, htexts⟩ := (forall_writtenFields item).1 (breaks_eq_zero hbreaks)
  refine ⟨hnames, htexts, ?_, ?_⟩
  -- an empty identifier has a line to itself, and no field
  · intro hempty
    rw [if_pos hempty] at hlines
    omega
  · intro hempty
    rw [if_pos hempty] at hlines
    omega

/-- A block is read back when no value has a line feed in it and no note is empty, and then
    only. -/
theorem ris_iff (item : CslItem) : RisReadsBack item ↔ RisPlain item :=
  ⟨risPlain_of_readsBack, risReadsBack_of_plain⟩

/-- A title of two lines, the second of which ends the record: the year is not read. -/
theorem ris_cut_short : ¬ RisReadsBack { CslItem.bare "9" with title := some "Emma\nER  - " } := by
  intro h
  exact (risPlain_of_readsBack h).texts _ List.mem_cons_self _ rfl (by decide)

end Citations
