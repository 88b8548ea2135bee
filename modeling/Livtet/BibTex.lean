import Livtet.CitationKeys
import Livtet.Lib.Delimited
import Livtet.Lib.Pieces

/-! # BibTeX entries

    Names and titles are escaped when an item is rendered, and all other texts are written as
    they are. A reader matches braces, takes the character after a backslash for itself, and
    splits the names. It reads an item back unless a text that is not escaped has a backslash
    or a brace too many in it, or a name looks like two. -/

namespace Citations

open Delimited (run upTo)

/-! ## Rendering -/

def escapeChar (c : Char) : List Char :=
  if List.contains ['\\', '{', '}', '&', '%', '$', '#', '_', '~', '^'] c then ['\\', c] else [c]

def bibtexEscape (value : String) : String := String.ofList (value.toList.flatMap escapeChar)

def renderOptional (field : String) (value : Option String) : String :=
  ((nonEmpty value).map fun v => "  " ++ field ++ " = \x7b" ++ v ++ "\x7d,\n").getD ""

def renderNames (field : String) (names : List CslName) : String :=
  renderOptional field (some (" and ".intercalate
    (((names.filterMap CslName.displayName).map bibtexEscape).filter fun name => decide (name ≠ ""))))

def renderTitle (title : Option String) : String :=
  ((nonEmpty (title.map bibtexEscape)).map fun escaped =>
    "  title = \x7b\x7b" ++ escaped ++ "\x7d\x7d,\n").getD ""

def toBibtexWithKey (item : CslItem) (key : String) : String := String.join
  ["@book\x7b", key, ",\n",
    renderNames "author" item.author,
    renderNames "editor" item.editor,
    renderNames "translator" item.translator,
    renderTitle item.title,
    renderOptional "publisher" item.publisher,
    renderOptional "address" item.publisherPlace,
    renderOptional "year" (some item.yearLabel),
    renderOptional "edition" item.edition,
    renderOptional "language" item.language,
    renderOptional "isbn" item.isbn,
    renderOptional "doi" item.doi,
    renderOptional "oclc" item.oclc,
    renderOptional "lccn" item.lccn,
    renderOptional "pages" item.numberOfPages,
    "\x7d\n"]

/-- The text of a batch whose keys are found, with a blank line between the entries. -/
def toBibtexBatch (overflowChecks : Bool) (fuel : Nat) (items : List CslItem) : Option String :=
  (deconflictedKeys overflowChecks fuel items).map fun keys =>
    "\n".intercalate (List.zipWith toBibtexWithKey items keys)

/-! ## Reading -/

/-- Whether the next character stands for itself, and how many braces are open. -/
structure Reading where
  literal : Bool
  depth : Nat
deriving DecidableEq

/-- Behind a brace that opens a value. -/
def opened : Reading := ⟨false, 0⟩

def nextReading (st : Reading) (c : Char) : Option Reading :=
  if st.literal then some ⟨false, st.depth⟩
  else if c = '\\' then some ⟨true, st.depth⟩
  else if c = '{' then some ⟨false, st.depth + 1⟩
  else if c = '}' then if st.depth = 0 then none else some ⟨false, st.depth - 1⟩
  else some st

/-- A text without the backslashes that are before other characters. -/
def unescapeFrom : Bool → List Char → List Char
  | _, [] => []
  | true, c :: s => c :: unescapeFrom false s
  | false, c :: s => if c = '\\' then unescapeFrom true s else c :: unescapeFrom false s

def unescape (s : List Char) : List Char := unescapeFrom false s

def isBlank (c : Char) : Bool := c == ' ' || c == '\n'

def isNameChar (c : Char) : Bool := !List.contains [' ', '\n', '=', '{', '}', ','] c

/-- What is behind a text that stands next, blanks apart. -/
def expect (p s : List Char) : Option (List Char) :=
  if p.isPrefixOf (s.dropWhile isBlank) then some ((s.dropWhile isBlank).drop p.length) else none

/-- `name = {value},`. -/
def readBibField (s : List Char) : Option ((List Char × List Char) × List Char) :=
  let name := (s.dropWhile isBlank).takeWhile isNameChar
  (expect ['='] ((s.dropWhile isBlank).dropWhile isNameChar)).bind fun behindName =>
    (expect ['{'] behindName).bind fun value =>
      (upTo nextReading opened value).bind fun p =>
        (expect [','] p.2).map fun rest => ((name, p.1), rest)

def nameSeparator : List Char := [' ', 'a', 'n', 'd', ' ']

/-- A title is within braces of its own. -/
def unbrace : List Char → List Char
  | '{' :: s => if s.getLast? = some '}' then s.dropLast else '{' :: s
  | s => s

/-- What a value tells: names, or one text. -/
def contents (name raw : List Char) : List (List Char) :=
  if List.contains (["author", "editor", "translator"].map String.toList) name then
    Pieces.split nameSeparator (unescape raw)
  else if name = ("title").toList then [unescape (unbrace raw)]
  else [unescape raw]

/-- The fields up to the brace that closes the entry. -/
def readBibFields : Nat → List Char → Option (List (List Char × List (List Char)) × List Char)
  | 0, _ => none
  | fuel + 1, s =>
      match expect ['}'] s with
      | some rest => some ([], rest)
      | none =>
          (readBibField s).bind fun p =>
            (readBibFields fuel p.2).map fun q => ((p.1.1, contents p.1.1 p.1.2) :: q.1, q.2)

/-- `@book{key,` and the fields. -/
def readEntry (s : List Char) :
    Option ((List Char × List (List Char × List (List Char))) × List Char) :=
  (expect ['@', 'b', 'o', 'o', 'k', '{'] s).bind fun behindBook =>
    (expect [','] (behindBook.dropWhile fun c => c != ',')).bind fun fields =>
      (readBibFields (fields.length + 1) fields).map fun q =>
        ((behindBook.takeWhile fun c => c != ',', q.1), q.2)

def readEntries : Nat → List Char → Option (List (List Char × List (List Char × List (List Char))))
  | 0, _ => none
  | fuel + 1, s =>
      if (s.dropWhile isBlank).isEmpty then some []
      else (readEntry s).bind fun p => (readEntries fuel p.2).map fun q => p.1 :: q

/-- The keys of a text and their fields. -/
def readBibtex (text : String) : Option (List (List Char × List (List Char × List (List Char)))) :=
  readEntries (text.length + 1) text.toList

/-! ## What a batch carries -/

def bibNames (field : String) (names : List CslName) : List (String × List String) :=
  if (names.filterMap CslName.displayName).isEmpty then []
  else [(field, names.filterMap CslName.displayName)]

def bibText (field : String) (value : Option String) : List (String × List String) :=
  ((nonEmpty value).map fun v => (field, [v])).toList

/-- The names and texts of what is not empty in the item. -/
def bibFields (item : CslItem) : List (String × List String) :=
  bibNames "author" item.author ++
  bibNames "editor" item.editor ++
  bibNames "translator" item.translator ++
  bibText "title" item.title ++
  bibText "publisher" item.publisher ++
  bibText "address" item.publisherPlace ++
  bibText "year" (some item.yearLabel) ++
  bibText "edition" item.edition ++
  bibText "language" item.language ++
  bibText "isbn" item.isbn ++
  bibText "doi" item.doi ++
  bibText "oclc" item.oclc ++
  bibText "lccn" item.lccn ++
  bibText "pages" item.numberOfPages

def fieldChars (field : String × List String) : List Char × List (List Char) :=
  (field.1.toList, field.2.map String.toList)

/-- The batch is rendered, and one entry is read for each item, with its key and all that it
    carries. -/
def BibReadsBack (overflowChecks : Bool) (fuel : Nat) (items : List CslItem) : Prop :=
  ∃ keys text, deconflictedKeys overflowChecks fuel items = some keys ∧
    toBibtexBatch overflowChecks fuel items = some text ∧
    readBibtex text = some (List.zipWith
      (fun item key => (key.toList, (bibFields item).map fieldChars)) items keys)

/-- No backslash, and each brace that is opened is closed, and no other. -/
def PlainText (s : List Char) : Prop := '\\' ∉ s ∧ run nextReading opened s = some opened

/-- The names of each field are told apart when they are joined, and what is not escaped is
    plain. -/
structure BibPlain (item : CslItem) : Prop where
  names : ∀ names ∈ [item.author, item.editor, item.translator],
    Pieces.Apart nameSeparator ((names.filterMap CslName.displayName).map String.toList)
  texts : ∀ text ∈ [item.publisher, item.publisherPlace, item.edition, item.language, item.isbn,
    item.doi, item.oclc, item.lccn, item.numberOfPages], ∀ s, text = some s → PlainText s.toList

/-! ## Escapes -/

theorem run_escape (n : Nat) (s : List Char) :
    run nextReading ⟨false, n⟩ (s.flatMap escapeChar) = some ⟨false, n⟩ := by
  induction s with
  | nil => rfl
  | cons c s ih =>
      rw [List.flatMap_cons, Delimited.run_append]
      have hchar : run nextReading ⟨false, n⟩ (escapeChar c) = some ⟨false, n⟩ := by
        rw [escapeChar]
        split
        · rfl
        · rename_i hplain
          simp only [List.contains_cons, Bool.or_eq_true, beq_iff_eq, not_or] at hplain
          rw [run, nextReading, if_neg Bool.false_ne_true, if_neg hplain.1, if_neg hplain.2.1,
            if_neg hplain.2.2.1]
          rfl
      rw [hchar]
      exact ih

theorem unescape_escape (s : List Char) : unescape (s.flatMap escapeChar) = s := by
  induction s with
  | nil => rfl
  | cons c s ih =>
      rw [List.flatMap_cons, escapeChar]
      split
      · exact congrArg _ ih
      · rename_i hplain
        simp only [List.contains_cons, Bool.or_eq_true, beq_iff_eq, not_or] at hplain
        rw [unescape, List.singleton_append, unescapeFrom, if_neg hplain.1]
        exact congrArg _ ih

theorem length_unescapeFrom_le (literal : Bool) (s : List Char) :
    (unescapeFrom literal s).length ≤ s.length := by
  induction s generalizing literal with
  | nil => exact Nat.le_refl 0
  | cons c s ih =>
      cases literal with
      | true => exact Nat.succ_le_succ (ih false)
      | false =>
          rw [unescapeFrom]
          split
          · exact Nat.le_succ_of_le (ih true)
          · exact Nat.succ_le_succ (ih false)

theorem unescape_eq_self {s : List Char} : unescape s = s ↔ '\\' ∉ s := by
  rw [unescape]
  induction s with
  | nil => exact ⟨fun _ => List.not_mem_nil, fun _ => rfl⟩
  | cons c s ih =>
      rw [unescapeFrom, List.mem_cons, not_or]
      split
      · rename_i hc
        constructor
        · intro h
          have hle := length_unescapeFrom_le true s
          rw [h, List.length_cons] at hle
          omega
        · exact fun h => absurd hc.symm h.1
      · rename_i hc
        rw [List.cons.injEq, ih]
        exact ⟨fun h => ⟨Ne.symm hc, h.2⟩, fun h => ⟨rfl, h.2⟩⟩

/-- A text does not begin with what is read of it and a brace behind that: once a backslash is
    passed over, the text has one more of them all along. -/
theorem unescape_not_begins (literal : Bool) (k : Nat) (hk : literal = true → 0 < k)
    (s : List Char) :
    ¬ unescapeFrom literal s ++ ['}'] <+: List.replicate k '\\' ++ s := by
  induction s generalizing literal k with
  | nil =>
      intro h
      have hmem : '}' ∈ List.replicate k '\\' ++ [] := h.subset (by
        rw [unescapeFrom]
        exact List.mem_singleton.2 rfl)
      rw [List.append_nil] at hmem
      exact absurd (List.eq_of_mem_replicate hmem) (by decide)
  | cons c s ih =>
      have hmove : ∀ k, List.replicate k '\\' ++ '\\' :: s = List.replicate (k + 1) '\\' ++ s := by
        intro k
        rw [List.replicate_succ', List.append_assoc]
        rfl
      cases literal with
      | true =>
          -- the text has a backslash here, so the character that stands for itself is one
          obtain ⟨k, rfl⟩ := Nat.exists_eq_add_one.2 (hk rfl)
          rw [unescapeFrom, List.cons_append, List.replicate_succ, List.cons_append,
            List.cons_prefix_cons]
          rintro ⟨rfl, h⟩
          rw [hmove] at h
          exact ih false (k + 1) (fun h => Bool.noConfusion h) h
      | false =>
          rw [unescapeFrom]
          split
          · rename_i hc
            rw [hc, hmove]
            exact ih true (k + 1) fun _ => Nat.succ_pos k
          · rename_i hc
            rw [List.cons_append]
            cases k with
            | zero =>
                rw [List.replicate_zero, List.nil_append, List.cons_prefix_cons]
                exact fun h => ih false 0 (fun h => Bool.noConfusion h) h.2
            | succ k =>
                rw [List.replicate_succ, List.cons_append, List.cons_prefix_cons]
                exact fun h => hc h.1

/-! ## One field -/

/-- A field as it is written, and what it carries. -/
structure Written where
  name : String
  raw : String
  carried : List String

def Written.chars (f : Written) : List Char :=
  ' ' :: ' ' :: (f.name.toList ++ [' ', '=', ' ', '{'] ++ f.raw.toList ++ ['}', ',', '\n'])

def Written.expected (f : Written) : List Char × List (List Char) :=
  fieldChars (f.name, f.carried)

/-- The value is read to its end, and tells what the field carries. -/
structure Written.Good (f : Written) : Prop where
  closed : run nextReading opened f.raw.toList = some opened
  carries : contents f.name.toList f.raw.toList = f.carried.map String.toList

/-- The field has a name, and nothing but its own value tells what it carries. -/
structure Written.Telling (f : Written) : Prop where
  named : f.name.toList ≠ [] ∧ f.name.toList.all isNameChar = true
  telling : ∀ rest r left, upTo nextReading opened (f.raw.toList ++ '}' :: rest) = some (r, left) →
    contents f.name.toList r = f.carried.map String.toList → r = f.raw.toList

theorem expect_blank {c : Char} (hc : isBlank c = true) (p s : List Char) :
    expect p (c :: s) = expect p s := by
  rw [expect, expect, List.dropWhile_cons_of_pos hc]

theorem expect_here {c : Char} (hc : isBlank c = false) (p s : List Char) :
    expect (c :: p) (c :: (p ++ s)) = some s := by
  rw [expect, List.dropWhile_cons_of_neg (by rw [hc]; exact Bool.false_ne_true), ← List.cons_append,
    if_pos (List.isPrefixOf_iff_prefix.2 (List.prefix_append _ _)), List.drop_left]

theorem expect_other {c d : Char} (hc : isBlank c = false) (hcd : d ≠ c) (p s : List Char) :
    expect (d :: p) (c :: s) = none := by
  rw [expect, List.dropWhile_cons_of_neg (by rw [hc]; exact Bool.false_ne_true), if_neg]
  intro h
  exact hcd (List.cons_prefix_cons.1 (List.isPrefixOf_iff_prefix.1 h)).1

theorem readBibField_blank {c : Char} (hc : isBlank c = true) (s : List Char) :
    readBibField (c :: s) = readBibField s := by
  rw [readBibField, readBibField, List.dropWhile_cons_of_pos hc]

theorem isNameChar_iff {c : Char} : isNameChar c = true ↔
    c ≠ ' ' ∧ c ≠ '\n' ∧ c ≠ '=' ∧ c ≠ '{' ∧ c ≠ '}' ∧ c ≠ ',' := by
  simp only [isNameChar, List.contains_cons, List.contains_nil, Bool.or_false, Bool.not_eq_true',
    Bool.or_eq_false_iff, beq_eq_false_iff_ne, ne_eq]

theorem isBlank_of_isNameChar {c : Char} (h : isNameChar c = true) : isBlank c = false := by
  have hne := isNameChar_iff.1 h
  rw [isBlank, Bool.or_eq_false_iff, beq_eq_false_iff_ne, beq_eq_false_iff_ne]
  exact ⟨hne.1, hne.2.1⟩

/-- The name of a field, and what is made of its value. -/
theorem readBibField_chars {f : Written} (h : f.Telling) (rest : List Char) :
    readBibField (f.chars ++ rest) =
      (upTo nextReading opened (f.raw.toList ++ '}' :: ',' :: '\n' :: rest)).bind fun p =>
        (expect [','] p.2).map fun left => ((f.name.toList, p.1), left) := by
  obtain ⟨hne, hname⟩ := h.named
  have hchars : f.chars ++ rest = ' ' :: ' ' :: (f.name.toList ++
      (' ' :: '=' :: ' ' :: '{' :: (f.raw.toList ++ '}' :: ',' :: '\n' :: rest))) := by
    rw [Written.chars]
    simp only [List.cons_append, List.append_assoc, List.nil_append]
  rw [hchars, readBibField_blank rfl, readBibField_blank rfl]
  generalize hbehind : (' ' :: '=' :: ' ' :: '{' :: (f.raw.toList ++ '}' :: ',' :: '\n' :: rest)) =
    behind
  -- a name begins with no blank, and ends where the blank before the sign is
  have hskip : (f.name.toList ++ behind).dropWhile isBlank = f.name.toList ++ behind := by
    cases hlist : f.name.toList with
    | nil => exact absurd hlist hne
    | cons c cs =>
        rw [hlist] at hname
        have hc := isBlank_of_isNameChar (List.all_eq_true.1 hname c List.mem_cons_self)
        rw [List.cons_append, List.dropWhile_cons_of_neg (by rw [hc]; exact Bool.false_ne_true)]
  have htake : (f.name.toList ++ behind).takeWhile isNameChar = f.name.toList := by
    rw [List.takeWhile_append_of_pos (List.all_eq_true.1 hname), ← hbehind,
      List.takeWhile_cons_of_neg (by decide), List.append_nil]
  have hdrop : (f.name.toList ++ behind).dropWhile isNameChar = behind := by
    rw [List.dropWhile_append_of_pos (List.all_eq_true.1 hname), ← hbehind,
      List.dropWhile_cons_of_neg (by decide)]
  have hequals : expect ['='] behind =
      some (' ' :: '{' :: (f.raw.toList ++ '}' :: ',' :: '\n' :: rest)) := by
    rw [← hbehind, expect_blank rfl]
    exact expect_here rfl [] _
  have hbrace : expect ['{'] (' ' :: '{' :: (f.raw.toList ++ '}' :: ',' :: '\n' :: rest)) =
      some (f.raw.toList ++ '}' :: ',' :: '\n' :: rest) := by
    rw [expect_blank rfl]
    exact expect_here rfl [] _
  rw [readBibField, hskip, htake, hdrop, hequals, Option.bind_some, hbrace, Option.bind_some]

theorem readBibField_good {f : Written} (h : f.Telling) (hgood : f.Good) (rest : List Char) :
    readBibField (f.chars ++ rest) = some ((f.name.toList, f.raw.toList), '\n' :: rest) := by
  have hcomma : expect [','] (',' :: '\n' :: rest) = some ('\n' :: rest) := expect_here rfl [] _
  rw [readBibField_chars h, Delimited.upTo_append hgood.closed rfl, Option.bind_some, hcomma]
  rfl

/-- A field that is read as what it carries is a good one. -/
theorem good_of_readBibField {f : Written} (h : f.Telling) {name r rest left : List Char}
    (hread : readBibField (f.chars ++ rest) = some ((name, r), left))
    (htold : (name, contents name r) = f.expected) : f.Good ∧ left = '\n' :: rest := by
  rw [readBibField_chars h] at hread
  obtain ⟨p, hp, hmap⟩ := Option.bind_eq_some_iff.1 hread
  obtain ⟨left', hleft, heq⟩ := Option.map_eq_some_iff.1 hmap
  cases heq
  have hcontents := (Prod.mk.inj htold).2
  have hraw := h.telling _ p.1 p.2 hp hcontents
  obtain ⟨c, st, htext, hrun, hclose⟩ := Delimited.upTo_eq_some hp
  rw [hraw] at htext hrun hcontents
  obtain ⟨rfl, hbehind⟩ := List.cons.inj (List.append_cancel_left htext)
  refine ⟨⟨?_, hcontents⟩, ?_⟩
  · -- only where nothing is open does a brace close
    obtain ⟨literal, depth⟩ := st
    cases literal with
    | true => cases hclose
    | false =>
        cases depth with
        | zero => exact hrun
        | succ depth => cases hclose
  · rw [← hbehind] at hleft
    have hcomma : expect [','] (',' :: '\n' :: rest) = some ('\n' :: rest) := expect_here rfl [] _
    rw [hcomma] at hleft
    exact (Option.some.inj hleft).symm

/-! ## The fields of an entry -/

theorem readBibFields_blank {c : Char} (hc : isBlank c = true) (fuel : Nat) (s : List Char) :
    readBibFields fuel (c :: s) = readBibFields fuel s := by
  cases fuel with
  | zero => rfl
  | succ fuel => rw [readBibFields, readBibFields, expect_blank hc, readBibField_blank hc]

theorem readBibFields_chars {f : Written} (h : f.Telling) (fuel : Nat) (rest : List Char) :
    readBibFields (fuel + 1) (f.chars ++ rest) =
      (readBibField (f.chars ++ rest)).bind fun p =>
        (readBibFields fuel p.2).map fun q => ((p.1.1, contents p.1.1 p.1.2) :: q.1, q.2) := by
  have hopen : expect ['}'] (f.chars ++ rest) = none := by
    obtain ⟨hne, hname⟩ := h.named
    rw [Written.chars, List.cons_append, List.cons_append, expect_blank rfl, expect_blank rfl]
    cases hlist : f.name.toList with
    | nil => exact absurd hlist hne
    | cons c cs =>
        rw [hlist] at hname
        have hc := List.all_eq_true.1 hname c List.mem_cons_self
        exact expect_other (isBlank_of_isNameChar hc) (isNameChar_iff.1 hc).2.2.2.2.1.symm [] _
  rw [readBibFields, hopen]

theorem readBibFields_good {fs : List Written} (h : ∀ f ∈ fs, f.Telling) (hgood : ∀ f ∈ fs, f.Good)
    {fuel : Nat} (hfuel : fs.length < fuel) (rest : List Char) :
    readBibFields fuel (fs.flatMap Written.chars ++ '}' :: rest) =
      some (fs.map Written.expected, rest) := by
  induction fs generalizing fuel with
  | nil =>
      obtain ⟨fuel, rfl⟩ := Nat.exists_eq_add_one.2 hfuel
      have hclose : expect ['}'] ('}' :: rest) = some rest := expect_here rfl [] rest
      rw [List.flatMap_nil, List.nil_append, readBibFields, hclose]
      rfl
  | cons f fs ih =>
      obtain ⟨fuel, rfl⟩ := Nat.exists_eq_add_one.2 (Nat.zero_lt_of_lt hfuel)
      have hf := hgood f List.mem_cons_self
      rw [List.length_cons] at hfuel
      rw [List.flatMap_cons, List.append_assoc, readBibFields_chars (h f List.mem_cons_self),
        readBibField_good (h f List.mem_cons_self) hf, Option.bind_some, readBibFields_blank rfl,
        ih (fun g hg => h g (List.mem_cons_of_mem f hg))
          (fun g hg => hgood g (List.mem_cons_of_mem f hg)) (by omega),
        hf.carries]
      rfl

/-- Fields that are read as what they carry are good, the first one first. -/
theorem good_of_readBibFields {fs : List Written} (h : ∀ f ∈ fs, f.Telling) {fuel : Nat}
    {rest left : List Char} (hread : readBibFields fuel (fs.flatMap Written.chars ++ '}' :: rest) =
      some (fs.map Written.expected, left)) : (∀ f ∈ fs, f.Good) ∧ left = rest := by
  induction fs generalizing fuel with
  | nil =>
      cases fuel with
      | zero => cases hread
      | succ fuel =>
          have hclose : expect ['}'] ('}' :: rest) = some rest := expect_here rfl [] rest
          rw [List.flatMap_nil, List.nil_append, readBibFields, hclose] at hread
          cases hread
          exact ⟨List.forall_mem_nil _, rfl⟩
  | cons f fs ih =>
      cases fuel with
      | zero => cases hread
      | succ fuel =>
          rw [List.flatMap_cons, List.append_assoc,
            readBibFields_chars (h f List.mem_cons_self)] at hread
          obtain ⟨p, hp, hmap⟩ := Option.bind_eq_some_iff.1 hread
          obtain ⟨q, hq, heq⟩ := Option.map_eq_some_iff.1 hmap
          obtain ⟨hfields, rfl⟩ := Prod.mk.inj heq
          obtain ⟨htold, hrest⟩ := List.cons.inj hfields
          -- the first field is good, and so the others begin where they are written
          obtain ⟨hgood, hbehind⟩ := good_of_readBibField (h f List.mem_cons_self) hp htold
          rw [hbehind, readBibFields_blank rfl] at hq
          have hq' : readBibFields fuel (fs.flatMap Written.chars ++ '}' :: rest) =
              some (fs.map Written.expected, q.2) := by
            rw [hq, ← hrest]
          obtain ⟨hothers, hleft⟩ := ih (fun g hg => h g (List.mem_cons_of_mem f hg)) hq'
          exact ⟨List.forall_mem_cons.2 ⟨hgood, hothers⟩, hleft⟩

/-! ## Entries -/

/-- A key and the fields that are written under it. -/
structure Entry where
  key : List Char
  fields : List Written

def Entry.chars (e : Entry) : List Char :=
  ['@', 'b', 'o', 'o', 'k', '{'] ++ (e.key ++ ',' :: '\n' ::
    (e.fields.flatMap Written.chars ++ ['}', '\n']))

def Entry.expected (e : Entry) : List Char × List (List Char × List (List Char)) :=
  (e.key, e.fields.map Written.expected)

structure Entry.Telling (e : Entry) : Prop where
  key : ',' ∉ e.key
  fields : ∀ f ∈ e.fields, f.Telling

theorem readEntry_blank {c : Char} (hc : isBlank c = true) (s : List Char) :
    readEntry (c :: s) = readEntry s := by
  rw [readEntry, readEntry, expect_blank hc]

theorem readEntry_chars {e : Entry} (h : e.Telling) (rest : List Char) : ∃ fuel,
    e.fields.length < fuel ∧ readEntry (e.chars ++ rest) =
      (readBibFields fuel (e.fields.flatMap Written.chars ++ '}' :: '\n' :: rest)).map fun q =>
        ((e.key, q.1), q.2) := by
  have hkey : ∀ c ∈ e.key, (c != ',') = true := by
    intro c hc
    rw [bne_iff_ne]
    rintro rfl
    exact h.key hc
  generalize hbehind : ',' :: '\n' :: (e.fields.flatMap Written.chars ++ '}' :: '\n' :: rest) =
    behind
  have hchars : e.chars ++ rest = '@' :: (['b', 'o', 'o', 'k', '{'] ++ (e.key ++ behind)) := by
    rw [Entry.chars, ← hbehind]
    simp only [List.cons_append, List.append_assoc, List.nil_append]
  have htake : (e.key ++ behind).takeWhile (fun c => c != ',') = e.key := by
    rw [List.takeWhile_append_of_pos hkey, ← hbehind, List.takeWhile_cons_of_neg (by decide),
      List.append_nil]
  have hdrop : (e.key ++ behind).dropWhile (fun c => c != ',') = behind := by
    rw [List.dropWhile_append_of_pos hkey, ← hbehind, List.dropWhile_cons_of_neg (by decide)]
  have hcomma : expect [','] behind =
      some ('\n' :: (e.fields.flatMap Written.chars ++ '}' :: '\n' :: rest)) := by
    rw [← hbehind]
    exact expect_here rfl [] _
  refine ⟨('\n' :: (e.fields.flatMap Written.chars ++ '}' :: '\n' :: rest)).length + 1, ?_, ?_⟩
  · -- a field takes at least one character, so the text is fuel enough
    have hle : e.fields.length ≤ (e.fields.flatMap Written.chars).length := by
      induction e.fields with
      | nil => exact Nat.le_refl 0
      | cons f fs ih =>
          rw [List.flatMap_cons, List.length_append, List.length_cons, Written.chars,
            List.length_cons]
          omega
    rw [List.length_cons, List.length_append]
    omega
  · rw [hchars, readEntry, expect_here rfl, Option.bind_some, hdrop, hcomma, Option.bind_some, htake,
      readBibFields_blank rfl]

theorem readEntry_good {e : Entry} (h : e.Telling) (hgood : ∀ f ∈ e.fields, f.Good)
    (rest : List Char) : readEntry (e.chars ++ rest) = some (e.expected, '\n' :: rest) := by
  obtain ⟨fuel, hfuel, heq⟩ := readEntry_chars h rest
  rw [heq, readBibFields_good h.fields hgood hfuel]
  rfl

theorem good_of_readEntry {e : Entry} (h : e.Telling) {rest left : List Char}
    (hread : readEntry (e.chars ++ rest) = some (e.expected, left)) :
    (∀ f ∈ e.fields, f.Good) ∧ left = '\n' :: rest := by
  obtain ⟨fuel, _, heq⟩ := readEntry_chars h rest
  rw [heq] at hread
  obtain ⟨q, hq, hmap⟩ := Option.map_eq_some_iff.1 hread
  obtain ⟨hentry, rfl⟩ := Prod.mk.inj hmap
  have hfields : readBibFields fuel (e.fields.flatMap Written.chars ++ '}' :: '\n' :: rest) =
      some (e.fields.map Written.expected, q.2) := by
    rw [hq, ← (Prod.mk.inj hentry).2]
  exact good_of_readBibFields h.fields hfields

end Citations
