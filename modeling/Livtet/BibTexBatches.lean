import Livtet.BibTex

/-! # BibTeX batches

    The entries of a batch are read one after another, each as its item if its fields are good.
    A name field is good when its names are told apart, a title always, and any other text when
    it is plain. -/

namespace Citations

open Delimited (run upTo)

/-! ## Entries one after another -/

/-- Entries with a blank line between them. -/
def batchChars (es : List Entry) : List Char := ['\n'].intercalate (es.map Entry.chars)

/-- What is behind the first entry, but for the end of its line. -/
def behindFirst : List Entry → List Char
  | [] => []
  | e :: es => '\n' :: batchChars (e :: es)

theorem batchChars_cons (e : Entry) (es : List Entry) :
    batchChars (e :: es) = e.chars ++ behindFirst es := by
  cases es with
  | nil =>
      rw [behindFirst, List.append_nil]
      exact List.intercalate_singleton
  | cons e' es =>
      rw [batchChars, List.map_cons, List.map_cons, List.intercalate_cons_cons, List.append_assoc]
      rfl

theorem readEntries_blank {c : Char} (hc : isBlank c = true) (fuel : Nat) (s : List Char) :
    readEntries fuel (c :: s) = readEntries fuel s := by
  cases fuel with
  | zero => rfl
  | succ fuel => rw [readEntries, readEntries, List.dropWhile_cons_of_pos hc, readEntry_blank hc]

theorem readEntries_behindFirst (fuel : Nat) (es : List Entry) :
    readEntries fuel ('\n' :: behindFirst es) = readEntries fuel (batchChars es) := by
  rw [readEntries_blank rfl]
  cases es with
  | nil => rfl
  | cons e es => exact readEntries_blank rfl fuel _

theorem readEntries_chars (fuel : Nat) (e : Entry) (rest : List Char) :
    readEntries (fuel + 1) (e.chars ++ rest) = (readEntry (e.chars ++ rest)).bind fun p =>
      (readEntries fuel p.2).map fun q => p.1 :: q := by
  rw [readEntries, if_neg]
  rw [Entry.chars, List.cons_append, List.cons_append, List.dropWhile_cons_of_neg (by decide)]
  exact Bool.false_ne_true

theorem readEntries_good {es : List Entry} (h : ∀ e ∈ es, e.Telling)
    (hgood : ∀ e ∈ es, ∀ f ∈ e.fields, f.Good) {fuel : Nat} (hfuel : es.length < fuel) :
    readEntries fuel (batchChars es) = some (es.map Entry.expected) := by
  induction es generalizing fuel with
  | nil =>
      obtain ⟨fuel, rfl⟩ := Nat.exists_eq_add_one.2 hfuel
      rfl
  | cons e es ih =>
      obtain ⟨fuel, rfl⟩ := Nat.exists_eq_add_one.2 (Nat.zero_lt_of_lt hfuel)
      rw [List.length_cons] at hfuel
      rw [batchChars_cons, readEntries_chars, readEntry_good (h e List.mem_cons_self)
        (hgood e List.mem_cons_self), Option.bind_some, readEntries_behindFirst,
        ih (fun e' he => h e' (List.mem_cons_of_mem e he))
          (fun e' he => hgood e' (List.mem_cons_of_mem e he)) (by omega)]
      rfl

/-- Entries that are read as what they carry have good fields, the first one first. -/
theorem good_of_readEntries {es : List Entry} (h : ∀ e ∈ es, e.Telling) {fuel : Nat}
    (hread : readEntries fuel (batchChars es) = some (es.map Entry.expected)) :
    ∀ e ∈ es, ∀ f ∈ e.fields, f.Good := by
  induction es generalizing fuel with
  | nil => exact List.forall_mem_nil _
  | cons e es ih =>
      cases fuel with
      | zero => cases hread
      | succ fuel =>
          rw [batchChars_cons, readEntries_chars] at hread
          obtain ⟨p, hp, hmap⟩ := Option.bind_eq_some_iff.1 hread
          obtain ⟨q, hq, heq⟩ := Option.map_eq_some_iff.1 hmap
          obtain ⟨hentry, hrest⟩ := List.cons.inj heq
          have hfirst : readEntry (e.chars ++ behindFirst es) = some (e.expected, p.2) := by
            rw [hp, ← hentry]
          obtain ⟨hgood, hbehind⟩ := good_of_readEntry (h e List.mem_cons_self) hfirst
          rw [hbehind, readEntries_behindFirst, hrest] at hq
          exact List.forall_mem_cons.2
            ⟨hgood, ih (fun e' he => h e' (List.mem_cons_of_mem e he)) hq⟩

theorem length_le_batchChars (es : List Entry) : es.length ≤ (batchChars es).length := by
  induction es with
  | nil => exact Nat.zero_le _
  | cons e es ih =>
      have hpos : 0 < e.chars.length := Nat.succ_pos _
      have hbehind : (batchChars es).length ≤ (behindFirst es).length := by
        cases es with
        | nil => exact Nat.le_refl 0
        | cons e' es => exact Nat.le_succ _
      rw [batchChars_cons, List.length_append, List.length_cons]
      omega

/-! ## Names, titles and other texts -/

def writtenNames (field : String) (names : List CslName) : List Written :=
  if (names.filterMap CslName.displayName).isEmpty then []
  else [⟨field, " and ".intercalate ((names.filterMap CslName.displayName).map bibtexEscape),
    names.filterMap CslName.displayName⟩]

def writtenTitle (title : Option String) : List Written :=
  ((nonEmpty title).map fun t => ⟨"title", "\x7b" ++ bibtexEscape t ++ "\x7d", [t]⟩).toList

def writtenText (field : String) (value : Option String) : List Written :=
  ((nonEmpty value).map fun v => ⟨field, v, [v]⟩).toList

/-- The texts that are not escaped, under their names. -/
def bibTexts (item : CslItem) : List (String × Option String) :=
  [("publisher", item.publisher), ("address", item.publisherPlace), ("year", some item.yearLabel),
    ("edition", item.edition), ("language", item.language), ("isbn", item.isbn), ("doi", item.doi),
    ("oclc", item.oclc), ("lccn", item.lccn), ("pages", item.numberOfPages)]

/-- The fields of an item as they are written. -/
def written (item : CslItem) : List Written :=
  writtenNames "author" item.author ++
  writtenNames "editor" item.editor ++
  writtenNames "translator" item.translator ++
  writtenTitle item.title ++
  (bibTexts item).flatMap fun text => writtenText text.1 text.2

/-- What the fields carry is what the item does. -/
theorem expected_written (item : CslItem) :
    (written item).map Written.expected = (bibFields item).map fieldChars := by
  have hnames : ∀ field names, (writtenNames field names).map Written.expected =
      (bibNames field names).map fieldChars := by
    intro field names
    rw [writtenNames, bibNames]
    split <;> rfl
  have htitle : ∀ title, (writtenTitle title).map Written.expected =
      (bibText "title" title).map fieldChars := by
    intro title
    rw [writtenTitle, bibText]
    cases nonEmpty title <;> rfl
  have htext : ∀ field value, (writtenText field value).map Written.expected =
      (bibText field value).map fieldChars := by
    intro field value
    rw [writtenText, bibText]
    cases nonEmpty value <;> rfl
  simp only [written, bibTexts, bibFields, List.flatMap_cons, List.flatMap_nil, List.map_append,
    List.append_assoc, List.append_nil, hnames, htitle, htext]

theorem toList_bibtexEscape (value : String) :
    (bibtexEscape value).toList = value.toList.flatMap escapeChar := String.toList_ofList

theorem escapeChar_ne_nil (c : Char) : escapeChar c ≠ [] := by
  rw [escapeChar]
  split <;> exact List.cons_ne_nil _ _

theorem bibtexEscape_eq_empty {value : String} : bibtexEscape value = "" ↔ value = "" := by
  rw [← String.toList_eq_nil_iff, toList_bibtexEscape, ← String.toList_eq_nil_iff,
    List.flatMap_eq_nil_iff]
  constructor
  · intro h
    exact List.eq_nil_iff_forall_not_mem.2 fun c hc => escapeChar_ne_nil c (h c hc)
  · intro h c hc
    rw [h] at hc
    cases hc

theorem flatMap_intercalate {α β : Type} (f : α → List β) (sep : List α) (pieces : List (List α)) :
    (sep.intercalate pieces).flatMap f =
      (sep.flatMap f).intercalate (pieces.map fun piece => piece.flatMap f) := by
  induction pieces with
  | nil => rfl
  | cons piece pieces ih =>
      cases pieces with
      | nil => rw [List.map_singleton, List.intercalate_singleton, List.intercalate_singleton]
      | cons next rest =>
          rw [List.intercalate_cons_cons, List.flatMap_append, List.flatMap_append, ih, List.map_cons,
            List.map_cons, List.map_cons, List.intercalate_cons_cons]

/-- Names that are escaped and joined are the joined names, escaped. -/
theorem toList_joined (shown : List String) :
    (" and ".intercalate (shown.map bibtexEscape)).toList =
      (nameSeparator.intercalate (shown.map String.toList)).flatMap escapeChar := by
  rw [String.toList_intercalate, List.map_map, flatMap_intercalate, List.map_map]
  have hsep : nameSeparator.flatMap escapeChar = (" and ").toList := by decide
  have heach : String.toList ∘ bibtexEscape =
      (fun piece => piece.flatMap escapeChar) ∘ String.toList :=
    funext fun name => toList_bibtexEscape name
  rw [hsep, heach]

theorem joined_ne_empty {shown : List String} (hne : shown ≠ []) (hshown : ∀ s ∈ shown, s ≠ "") :
    " and ".intercalate (shown.map bibtexEscape) ≠ "" := by
  rw [ne_eq, ← String.toList_eq_nil_iff, toList_joined, List.flatMap_eq_nil_iff]
  intro h
  cases shown with
  | nil => exact hne rfl
  | cons s rest =>
      have hs := hshown s List.mem_cons_self
      rw [ne_eq, ← String.toList_eq_nil_iff] at hs
      obtain ⟨c, hc⟩ := List.exists_mem_of_ne_nil _ hs
      refine escapeChar_ne_nil c (h c ?_)
      rw [List.map_cons]
      cases rest with
      | nil =>
          rw [List.map_nil, List.intercalate_singleton]
          exact hc
      | cons t rest =>
          rw [List.map_cons, List.intercalate_cons_cons]
          exact List.mem_append_left _ (List.mem_append_left _ hc)

theorem toList_field (f : Written) :
    ("  " ++ f.name ++ " = \x7b" ++ f.raw ++ "\x7d,\n").toList = f.chars := by
  rw [Written.chars]
  simp only [String.toList_append, List.append_assoc]
  rfl

theorem toList_renderOptional (field : String) (value : Option String) :
    (renderOptional field value).toList = (writtenText field value).flatMap Written.chars := by
  rw [renderOptional, writtenText]
  cases nonEmpty value with
  | none => rfl
  | some v =>
      rw [Option.map_some, Option.map_some, Option.getD_some, Option.toList_some,
        List.flatMap_singleton, ← toList_field]

theorem toList_renderTitle (title : Option String) :
    (renderTitle title).toList = (writtenTitle title).flatMap Written.chars := by
  have hescaped : nonEmpty (title.map bibtexEscape) = (nonEmpty title).map bibtexEscape := by
    cases title with
    | none => rfl
    | some t =>
        by_cases ht : t = ""
        · rw [ht]
          decide
        · rw [Option.map_some, nonEmpty_eq_some.2 ⟨rfl, ht⟩,
            nonEmpty_eq_some.2 ⟨rfl, fun h => ht (bibtexEscape_eq_empty.1 h)⟩]
          rfl
  rw [renderTitle, writtenTitle, hescaped]
  cases nonEmpty title with
  | none => rfl
  | some t =>
      rw [Option.map_some, Option.map_some, Option.map_some, Option.getD_some, Option.toList_some,
        List.flatMap_singleton, ← toList_field]
      simp only [String.toList_append, List.append_assoc]
      rfl

theorem toList_renderNames (field : String) (names : List CslName) :
    (renderNames field names).toList = (writtenNames field names).flatMap Written.chars := by
  have hshown : ∀ s ∈ names.filterMap CslName.displayName, s ≠ "" := by
    intro s hs
    obtain ⟨name, _, hname⟩ := List.mem_filterMap.1 hs
    exact displayName_ne_empty hname
  have hall : ((names.filterMap CslName.displayName).map bibtexEscape).filter
      (fun name => decide (name ≠ "")) = (names.filterMap CslName.displayName).map bibtexEscape := by
    refine List.filter_eq_self.2 fun name hname => ?_
    obtain ⟨s, hs, rfl⟩ := List.mem_map.1 hname
    exact decide_eq_true fun h => hshown s hs (bibtexEscape_eq_empty.1 h)
  rw [renderNames, hall, toList_renderOptional, writtenNames, writtenText]
  split
  · rename_i hempty
    rw [List.isEmpty_iff.1 hempty]
    rfl
  · rename_i hne
    rw [nonEmpty_eq_some.2 ⟨rfl, joined_ne_empty (fun h => hne (List.isEmpty_iff.2 h)) hshown⟩]
    rfl

/-- The text of an entry is its key and its fields. -/
theorem toList_toBibtexWithKey (item : CslItem) (key : String) :
    (toBibtexWithKey item key).toList = Entry.chars ⟨key.toList, written item⟩ := by
  have hbook : ("@book\x7b").toList = ['@', 'b', 'o', 'o', 'k', '{'] := rfl
  have hcomma : (",\n").toList = [',', '\n'] := rfl
  have hclose : ("\x7d\n").toList = ['}', '\n'] := rfl
  have hentry : ∀ fs, Entry.chars ⟨key.toList, fs⟩ = ['@', 'b', 'o', 'o', 'k', '{'] ++
      (key.toList ++ ([',', '\n'] ++ (fs.flatMap Written.chars ++ ['}', '\n']))) := fun _ => rfl
  rw [hentry, toBibtexWithKey, written, bibTexts, String.toList_join]
  simp only [List.flatMap_append, List.flatMap_cons, List.flatMap_nil, hbook, hcomma, hclose,
    toList_renderNames, toList_renderTitle, toList_renderOptional, List.append_assoc,
    List.append_nil]

/-! ## Which fields are good -/

theorem telling_of_closed {f : Written}
    (hname : f.name.toList ≠ [] ∧ f.name.toList.all isNameChar = true)
    (hclosed : run nextReading opened f.raw.toList = some opened) : f.Telling := by
  refine ⟨hname, fun rest r left hread _ => ?_⟩
  rw [Delimited.upTo_append hclosed rfl] at hread
  exact (Prod.mk.inj (Option.some.inj hread)).1.symm

theorem closed_names (shown : List String) : run nextReading opened
    (" and ".intercalate (shown.map bibtexEscape)).toList = some opened := by
  rw [toList_joined]
  exact run_escape 0 _

theorem closed_title (t : String) :
    run nextReading opened ("\x7b" ++ bibtexEscape t ++ "\x7d").toList = some opened := by
  have htoList : ("\x7b" ++ bibtexEscape t ++ "\x7d").toList =
      '{' :: (t.toList.flatMap escapeChar ++ ['}']) := by
    rw [String.toList_append, String.toList_append, toList_bibtexEscape]
    rfl
  have hopen : nextReading opened '{' = some ⟨false, 1⟩ := rfl
  rw [htoList, run, hopen, Option.bind_some, Delimited.run_append, run_escape 1]
  rfl

theorem contents_title (t : String) :
    contents ("title").toList ("\x7b" ++ bibtexEscape t ++ "\x7d").toList = [t.toList] := by
  have htoList : ("\x7b" ++ bibtexEscape t ++ "\x7d").toList =
      '{' :: (t.toList.flatMap escapeChar ++ ['}']) := by
    rw [String.toList_append, String.toList_append, toList_bibtexEscape]
    rfl
  rw [contents, if_neg (by decide), if_pos rfl, htoList, unbrace, List.getLast?_concat, if_pos rfl,
    List.dropLast_concat, unescape_escape]

/-- A text that is read as itself is read where it is, and not more or less of it. -/
theorem telling_text {v : List Char} {rest r left : List Char}
    (hread : upTo nextReading opened (v ++ '}' :: rest) = some (r, left)) (htold : unescape r = v) :
    r = v := by
  obtain ⟨c, _, htext, _, _⟩ := Delimited.upTo_eq_some hread
  have hle : v.length ≤ r.length := by
    rw [← htold]
    exact length_unescapeFrom_le false r
  rcases Nat.lt_or_eq_of_le hle with hlt | heq
  -- a longer value than the text goes on behind the brace that should close it
  · have hread : r <+: v ++ '}' :: rest := by
      rw [htext]
      exact List.prefix_append _ _
    have hclosed : v ++ ['}'] <+: v ++ '}' :: rest :=
      ⟨rest, by rw [List.append_assoc, List.singleton_append]⟩
    have hprefix : v ++ ['}'] <+: r := by
      refine List.prefix_of_prefix_length_le hclosed hread ?_
      rw [List.length_append, List.length_singleton]
      exact hlt
    rw [← htold] at hprefix
    exact absurd hprefix (unescape_not_begins false 0 (fun h => Bool.noConfusion h) r)
  · exact (List.append_inj_left htext heq).symm

def isNames (field : String) : Bool :=
  List.contains (["author", "editor", "translator"].map String.toList) field.toList

/-- A name that is read, of a field with no more than a text. -/
structure IsText (field : String) : Prop where
  named : field.toList ≠ [] ∧ field.toList.all isNameChar = true
  notNames : isNames field = false
  notTitle : field.toList ≠ ("title").toList

theorem isText_of_mem {item : CslItem} : ∀ text ∈ bibTexts item, IsText text.1 := by
  have hall : ((bibTexts item).all fun text => !text.1.toList.isEmpty && text.1.toList.all isNameChar &&
      !isNames text.1 && text.1.toList != ("title").toList) = true := by
    show (["publisher", "address", "year", "edition", "language", "isbn", "doi", "oclc", "lccn",
      "pages"].all fun field => !field.toList.isEmpty && field.toList.all isNameChar &&
        !isNames field && field.toList != ("title").toList) = true
    decide +kernel
  intro text htext
  have htrue := List.all_eq_true.1 hall text htext
  simp only [Bool.and_eq_true, Bool.not_eq_true', bne_iff_ne, List.isEmpty_eq_false_iff] at htrue
  exact ⟨htrue.1.1, htrue.1.2, htrue.2⟩

theorem contents_text {field : String} (h : IsText field) (raw : List Char) :
    contents field.toList raw = [unescape raw] := by
  have hnames := h.notNames
  rw [isNames] at hnames
  rw [contents, hnames, if_neg Bool.false_ne_true, if_neg h.notTitle]

theorem telling_writtenNames {field : String}
    (hname : field.toList ≠ [] ∧ field.toList.all isNameChar = true) (names : List CslName) :
    ∀ f ∈ writtenNames field names, f.Telling := by
  intro f hf
  rw [writtenNames] at hf
  split at hf
  · cases hf
  · rw [List.mem_singleton.1 hf]
    exact telling_of_closed hname (closed_names _)

theorem telling_writtenTitle (title : Option String) : ∀ f ∈ writtenTitle title, f.Telling := by
  intro f hf
  rw [writtenTitle, Option.mem_toList, Option.map_eq_some_iff] at hf
  obtain ⟨t, _, rfl⟩ := hf
  have hname : ("title").toList ≠ [] ∧ ("title").toList.all isNameChar = true := by decide
  exact telling_of_closed hname (closed_title t)

theorem telling_writtenText {field : String} (h : IsText field) (value : Option String) :
    ∀ f ∈ writtenText field value, f.Telling := by
  intro f hf
  rw [writtenText, Option.mem_toList, Option.map_eq_some_iff] at hf
  obtain ⟨v, _, rfl⟩ := hf
  refine ⟨h.named, fun rest r left hread htold => telling_text hread ?_⟩
  rw [contents_text h] at htold
  exact (List.cons.inj htold).1

/-- No field tells what it carries but by its own value. -/
theorem telling_written (item : CslItem) : ∀ f ∈ written item, f.Telling := by
  simp only [written, List.forall_mem_append, List.forall_mem_flatMap]
  exact ⟨⟨⟨⟨telling_writtenNames (by decide) _, telling_writtenNames (by decide) _⟩,
    telling_writtenNames (by decide) _⟩, telling_writtenTitle _⟩,
    fun text htext => telling_writtenText (isText_of_mem text htext) _⟩

theorem good_writtenNames {field : String} (hfield : isNames field = true) (names : List CslName) :
    (∀ f ∈ writtenNames field names, f.Good) ↔
      Pieces.Apart nameSeparator ((names.filterMap CslName.displayName).map String.toList) := by
  rw [writtenNames]
  split
  · rename_i hempty
    rw [List.isEmpty_iff.1 hempty]
    exact ⟨fun _ => trivial, fun _ => List.forall_mem_nil _⟩
  · rename_i hne
    generalize names.filterMap CslName.displayName = shown at hne
    have hshown : shown.map String.toList ≠ [] := fun h =>
      hne (List.isEmpty_iff.2 (List.map_eq_nil_iff.1 h))
    have hsep : nameSeparator ≠ [] := List.cons_ne_nil _ _
    have hcontents : contents field.toList (" and ".intercalate (shown.map bibtexEscape)).toList =
        Pieces.split nameSeparator (nameSeparator.intercalate (shown.map String.toList)) := by
      rw [isNames] at hfield
      rw [contents, if_pos hfield, toList_joined, unescape_escape]
    rw [List.forall_mem_singleton, ← Pieces.split_join_iff hsep hshown, ← hcontents]
    exact ⟨fun h => h.carries, fun h => ⟨closed_names shown, h⟩⟩

theorem good_writtenTitle (title : Option String) : ∀ f ∈ writtenTitle title, f.Good := by
  intro f hf
  rw [writtenTitle, Option.mem_toList, Option.map_eq_some_iff] at hf
  obtain ⟨t, _, rfl⟩ := hf
  exact ⟨closed_title t, contents_title t⟩

theorem good_writtenText {field : String} (htext : IsText field) (value : Option String) :
    (∀ f ∈ writtenText field value, f.Good) ↔ ∀ s, value = some s → PlainText s.toList := by
  have hgood : ∀ v, Written.Good ⟨field, v, [v]⟩ ↔ PlainText v.toList := by
    intro v
    have hcarries : contents field.toList v.toList = [v].map String.toList ↔ '\\' ∉ v.toList := by
      rw [contents_text htext, List.map_singleton, List.cons.injEq, unescape_eq_self]
      exact and_iff_left rfl
    exact ⟨fun h => ⟨hcarries.1 h.carries, h.closed⟩, fun h => ⟨h.2, hcarries.2 h.1⟩⟩
  constructor
  · intro h s hs
    by_cases hempty : s = ""
    · rw [hempty]
      exact ⟨List.not_mem_nil, rfl⟩
    · refine (hgood s).1 (h _ ?_)
      rw [writtenText, nonEmpty_eq_some.2 ⟨hs, hempty⟩]
      exact List.mem_singleton.2 rfl
  · intro h f hf
    rw [writtenText, Option.mem_toList, Option.map_eq_some_iff] at hf
    obtain ⟨v, hv, rfl⟩ := hf
    exact (hgood v).2 (h v (nonEmpty_eq_some.1 hv).1)

/-- A year has neither a backslash nor a brace in it. -/
theorem plainText_yearLabel (item : CslItem) : PlainText item.yearLabel.toList := by
  have hchars : ∀ c ∈ item.yearLabel.toList, c ≠ '\\' ∧ c ≠ '{' ∧ c ≠ '}' := by
    intro c hc
    refine ⟨?_, ?_, ?_⟩ <;>
      · rintro rfl
        rcases mem_yearLabel hc with h | h
        · revert h
          decide
        · revert h
          decide
  refine ⟨fun h => (hchars _ h).1 rfl, ?_⟩
  generalize item.yearLabel.toList = s at hchars
  induction s with
  | nil => rfl
  | cons c s ih =>
      obtain ⟨hbackslash, hopen, hclose⟩ := hchars c List.mem_cons_self
      have hsame : nextReading opened c = some opened := by
        rw [nextReading, opened, if_neg Bool.false_ne_true, if_neg hbackslash, if_neg hopen,
          if_neg hclose]
      rw [run, hsame]
      exact ih fun d hd => hchars d (List.mem_cons_of_mem c hd)

/-- Of the texts, all but the year come from the item as they are. -/
theorem forall_bibTexts (item : CslItem) :
    (∀ text ∈ bibTexts item, ∀ s, text.2 = some s → PlainText s.toList) ↔
      ∀ text ∈ [item.publisher, item.publisherPlace, item.edition, item.language, item.isbn,
        item.doi, item.oclc, item.lccn, item.numberOfPages],
        ∀ s, text = some s → PlainText s.toList := by
  have hyear : (∀ s, some item.yearLabel = some s → PlainText s.toList) = True :=
    eq_true fun s hs => Option.some.inj hs ▸ plainText_yearLabel item
  simp only [bibTexts, List.forall_mem_cons, hyear, true_and, List.not_mem_nil,
    IsEmpty.forall_iff, implies_true, and_true]

theorem good_written_iff (item : CslItem) : (∀ f ∈ written item, f.Good) ↔ BibPlain item := by
  have htexts : (∀ f ∈ (bibTexts item).flatMap fun text => writtenText text.1 text.2, f.Good) ↔
      ∀ text ∈ bibTexts item, ∀ s, text.2 = some s → PlainText s.toList := by
    rw [List.forall_mem_flatMap]
    exact forall₂_congr fun text htext => good_writtenText (isText_of_mem text htext) text.2
  rw [written, List.forall_mem_append, List.forall_mem_append, List.forall_mem_append,
    List.forall_mem_append, htexts, forall_bibTexts, good_writtenNames (by decide),
    good_writtenNames (by decide), good_writtenNames (by decide)]
  constructor
  · intro h
    obtain ⟨⟨⟨⟨hauthor, heditor⟩, htranslator⟩, _⟩, hplain⟩ := h
    exact ⟨List.forall_mem_cons.2 ⟨hauthor, List.forall_mem_cons.2 ⟨heditor,
      List.forall_mem_singleton.2 htranslator⟩⟩, hplain⟩
  · intro h
    refine ⟨⟨⟨⟨h.names _ ?_, h.names _ ?_⟩, h.names _ ?_⟩, good_writtenTitle _⟩, h.texts⟩
    · exact List.mem_cons_self
    · exact List.mem_cons_of_mem _ List.mem_cons_self
    · exact List.mem_cons_of_mem _ (List.mem_cons_of_mem _ List.mem_cons_self)

/-! ## Batches -/

/-- The entries of a batch. -/
def entries (items : List CslItem) (keys : List String) : List Entry :=
  List.zipWith (fun item key => ⟨key.toList, written item⟩) items keys

theorem toList_batch (items : List CslItem) (keys : List String) :
    ("\n".intercalate (List.zipWith toBibtexWithKey items keys)).toList =
      batchChars (entries items keys) := by
  rw [String.toList_intercalate, batchChars, entries, List.map_zipWith, List.map_zipWith]
  have hentry : (fun item key => (toBibtexWithKey item key).toList) =
      fun item (key : String) => Entry.chars ⟨key.toList, written item⟩ :=
    funext fun item => funext fun key => toList_toBibtexWithKey item key
  rw [hentry]
  rfl

theorem expected_entries (items : List CslItem) (keys : List String) :
    (entries items keys).map Entry.expected =
      List.zipWith (fun item key => (key.toList, (bibFields item).map fieldChars)) items keys := by
  rw [entries, List.map_zipWith]
  simp only [Entry.expected, expected_written]

theorem forall_entries {items : List CslItem} {keys : List String}
    (hlength : items.length = keys.length) :
    (∀ e ∈ entries items keys, ∀ f ∈ e.fields, f.Good) ↔ ∀ item ∈ items, BibPlain item := by
  induction items generalizing keys with
  | nil => exact ⟨fun _ => List.forall_mem_nil _, fun _ => List.forall_mem_nil _⟩
  | cons item items ih =>
      cases keys with
      | nil => cases hlength
      | cons key keys =>
          rw [entries, List.zipWith_cons_cons, List.forall_mem_cons, List.forall_mem_cons,
            good_written_iff]
          exact and_congr_right fun _ => ih (Nat.succ.inj hlength)

theorem telling_entries {items : List CslItem} {keys : List String}
    (hkeys : ∀ key ∈ keys, ∀ c ∈ key.toList, isKeyChar c = true) :
    ∀ e ∈ entries items keys, e.Telling := by
  intro e he
  rw [entries, ← List.map_uncurry_zip_eq_zipWith] at he
  obtain ⟨p, hp, rfl⟩ := List.mem_map.1 he
  refine ⟨fun hcomma => ?_, telling_written p.1⟩
  have hkey := hkeys p.2 (List.of_mem_zip hp).2 _ hcomma
  revert hkey
  decide

theorem bibPlain_of_readsBack {overflowChecks : Bool} {fuel : Nat} {items : List CslItem}
    (h : BibReadsBack overflowChecks fuel items) : ∀ item ∈ items, BibPlain item := by
  obtain ⟨keys, text, hkeys, htext, hread⟩ := h
  rw [toBibtexBatch, hkeys] at htext
  cases htext
  rw [readBibtex, toList_batch, ← expected_entries] at hread
  rw [← forall_entries (deconflictedKeys_spec hkeys).2.length_eq]
  exact good_of_readEntries (telling_entries (isKeyChar_of_deconflictedKeys hkeys)) hread

theorem bibReadsBack_of_plain {overflowChecks : Bool} {fuel : Nat} {items : List CslItem}
    {keys : List String} (hkeys : deconflictedKeys overflowChecks fuel items = some keys)
    (h : ∀ item ∈ items, BibPlain item) : BibReadsBack overflowChecks fuel items := by
  rw [← forall_entries (deconflictedKeys_spec hkeys).2.length_eq] at h
  have htelling := @telling_entries items keys (isKeyChar_of_deconflictedKeys hkeys)
  refine ⟨keys, _, hkeys, by rw [toBibtexBatch, hkeys]; rfl, ?_⟩
  rw [readBibtex, toList_batch, ← expected_entries]
  refine readEntries_good htelling h ?_
  rw [← String.length_toList, toList_batch]
  exact Nat.lt_succ_of_le (length_le_batchChars _)

/-- A batch whose keys are found is read back just when the names of each item are told apart
    and its texts are plain. -/
theorem bibtex_iff {overflowChecks : Bool} {fuel : Nat} {items : List CslItem} {keys : List String}
    (hkeys : deconflictedKeys overflowChecks fuel items = some keys) :
    BibReadsBack overflowChecks fuel items ↔ ∀ item ∈ items, BibPlain item :=
  ⟨bibPlain_of_readsBack, bibReadsBack_of_plain hkeys⟩

/-- Two names, and a title with braces of its own. -/
theorem bibtex_two_names : BibReadsBack true 1 [{ CslItem.bare "9" with
    author := [⟨some "Le Guin", some "Ursula", none⟩, ⟨none, none, some "Tom & Ann"⟩]
    title := some "50% \x7boff\x7d" }] := by
  refine (@bibtex_iff true 1 _ ["leguinnd"] (by decide +kernel)).2 ?_
  refine List.forall_mem_singleton.2 ⟨?_, ?_⟩
  · decide +kernel
  · intro text htext s hs
    have hnone : ∀ t ∈ List.replicate 9 (none : Option String), t = none := by decide
    rw [hnone text htext] at hs
    cases hs

/-- A DOI with a brace that is not closed. -/
theorem bibtex_not_read_back :
    ¬ BibReadsBack true 1 [{ CslItem.bare "9" with doi := some "10.1000/a\x7bb" }] := by
  intro h
  have hplain := (bibPlain_of_readsBack h _ List.mem_cons_self).texts (some "10.1000/a\x7bb")
    (by decide) _ rfl
  exact absurd hplain.2 (by decide +kernel)

end Citations
