import Livtet.StrictTypes
import Mathlib.Data.List.Forall2

/-! # The text of a table

    The text that creates a table is cut at the names of its columns' types. What is between
    them, quoted names, literals, parentheses and plain words, is to stay as it is, and each
    type is to become one that a strict table has.

    The passes know of no quotes. So that is what becomes of a text exactly if nothing that
    they look for is in it but in the types, and no column is of one of three types that
    they do not know how to rename (`only_types_iff`). -/

namespace StrictTypes

open Replacements

/-! ## Texts -/

/-- The types that the builder renders, and those that the replacements are for. -/
inductive ColumnType
  | varchar
  | text
  | integer
  | bigint
  | real
  | doublePrecision
  | dateText
  | timestampText
  | boolean
  | jsonText
  | blob
  | timestampWithTimezoneText
  | timeText
  | char
  | smallint
  | tinyint
  | float
  | double
  | binary
deriving DecidableEq, Repr

def ColumnType.name : ColumnType → List Char
  | varchar => "varchar".toList
  | text => "text".toList
  | integer => "integer".toList
  | bigint => "bigint".toList
  | real => "real".toList
  | doublePrecision => "double precision".toList
  | dateText => "date_text".toList
  | timestampText => "timestamp_text".toList
  | boolean => "boolean".toList
  | jsonText => "json_text".toList
  | blob => "blob".toList
  | timestampWithTimezoneText => "timestamp_with_timezone_text".toList
  | timeText => "time_text".toList
  | char => "char".toList
  | smallint => "smallint".toList
  | tinyint => "tinyint".toList
  | float => "float".toList
  | double => "double".toList
  | binary => "binary".toList

/-- A part of a text that is no type. Plain text has no quotes and no parentheses. -/
inductive Piece
  | name (s : List Char)
  | literal (s : List Char)
  | opening
  | closing
  | plain (s : List Char) (h : s.all fun c => !List.contains ['"', '\'', '(', ')'] c)

/-- A text between quotes, with the quotes in it doubled. -/
def quoted (quote : Char) (s : List Char) : List Char :=
  quote :: ((s.flatMap fun c => if c = quote then [c, c] else [c]) ++ [quote])

def Piece.render : Piece → List Char
  | name s => quoted '"' s
  | literal s => quoted '\'' s
  | opening => ['(']
  | closing => [')']
  | plain s _ => s

def render (pieces : List Piece) : List Char := pieces.flatMap Piece.render

/-- Digits, and blanks around them. -/
abbrev Digits := { s : List Char // s.all isDigitOrBlank = true }

/-- The length of a type. -/
def lengthText : Option Digits → List Char
  | none => []
  | some digits => '(' :: (digits.val ++ [')'])

/-- A type, and what follows up to the next one. -/
structure Column where
  type : ColumnType
  length : Option Digits
  after : List Piece

/-- A character that a name goes on with. -/
def isWord (c : Char) : Bool := c.isAlphanum || c == '_' || c == '$' || isForeign c

/-- A word may begin behind the text. -/
def EndsOpen (s : List Char) : Prop := ∃ c, s.getLast? = some c ∧ isWord c = false

/-- A type may end before the text: no character and no word goes on with it, and no
    parenthesis, which would be its length. -/
structure EndsType (s : List Char) : Prop where
  word : ∀ c, s.head? = some c → isWord c = false
  length : (s.dropWhile isWhitespace).head? ≠ some '('
  precision : ¬ " precision".toList <+: s

/-- The text between types, with names in their places. -/
def spell : List Char → List (List Char × List Char) → List Char
  | w, [] => w
  | w, (name, w') :: rest => w ++ (name ++ spell w' rest)

/-- Every type stands by itself. -/
def Bounded : List Char → List (List Char) → Prop
  | _, [] => True
  | w, w' :: rest => EndsOpen w ∧ EndsType w' ∧ Bounded w' rest

structure CreateTable where
  head : List Piece
  columns : List Column
  bounded : Bounded (render head) (columns.map fun c => render c.after)

def CreateTable.text (t : CreateTable) : List Char :=
  spell (render t.head) (t.columns.map fun c => (c.type.name ++ lengthText c.length, render c.after))

/-! ## What is asked of the passes -/

/-- A type that a strict table may have; SQLite takes both cases. -/
def IsStrict (name : List Char) : Prop := name.map Char.toUpper ∈ strictTypes

/-- The type is renamed, and what follows is the same. -/
def Retyped (c : Column) (p : List Char × List Char) : Prop :=
  IsStrict p.1 ∧ p.2 = render c.after

/-- Nothing but the types is changed, they are all renamed, and a second run changes nothing. -/
structure TouchesOnlyTypes (t : CreateTable) : Prop where
  retyped : ∃ ps, List.Forall₂ Retyped t.columns ps ∧
    normalizeForStrict t.text = spell (render t.head) ps
  idempotent : normalizeForStrict (normalizeForStrict t.text) = normalizeForStrict t.text

/-- Nothing is in the text that a pass would look for. -/
structure Plain (s : List Char) : Prop where
  ascii : ∀ c ∈ s, isForeign c = false
  noLength : NoLength s
  noWord : ∀ e ∈ rewrites, ¬ e.1 <:+: s

/-- A type that no pass renames. -/
def ColumnType.Unknown (type : ColumnType) : Prop :=
  type = .timestampWithTimezoneText ∨ type = .char ∨ type = .binary

/-- What is between the types is plain, and the types are known. -/
structure Expected (t : CreateTable) : Prop where
  plain : Plain (render t.head) ∧ ∀ c ∈ t.columns, Plain (render c.after)
  known : ∀ c ∈ t.columns, ¬ c.type.Unknown

/-! ## Where no word of the table lies across -/

/-- What holds of every cut of a word, checked at every place. -/
def atCuts (check : List Char → List Char → Bool) (word : List Char) : Bool :=
  (List.range word.length).all fun k => k == 0 || check (word.take k) (word.drop k)

theorem of_atCuts {check : List Char → List Char → Bool} {word u v : List Char}
    (h : atCuts check word = true) (hword : word = u ++ v) (hu : u ≠ []) (hv : v ≠ []) :
    check u v = true := by
  have hlt : u.length < word.length := by
    rw [hword, List.length_append]
    exact Nat.lt_add_of_pos_right (List.length_pos_iff.2 hv)
  have hat := List.all_eq_true.1 h u.length (List.mem_range.2 hlt)
  have hne : (u.length == 0) = false :=
    beq_eq_false_iff_ne.2 fun hzero => hu (List.length_eq_zero_iff.1 hzero)
  rwa [hne, Bool.false_or, hword, List.take_left, List.drop_left] at hat

/-- The text begins with a letter that no word goes on with behind a blank. -/
def startsType (s : List Char) : Bool :=
  s.head?.any fun c => c.isAlpha && !List.contains ['p', 'P'] c

/-- What may follow a type. -/
structure Behind (s : List Char) : Prop where
  word : ∀ c, s.head? = some c → isWord c = false ∧ c ≠ '('
  precision : ¬ " precision".toList <+: s

/-- A cut of a word whose first half does not end a type, or whose second half may not follow
    one. -/
def cutSafe (type u v : List Char) : Bool :=
  v.head? != some ' ' || v == " precision".toList || !u.isSuffixOf type

/-- What becomes of a type, if no word lies across its end at the word's turn. -/
def passed : List (List Char × List Char) → List Char → Option (List Char)
  | [], type => some type
  | e :: rest, type =>
      if e.1.contains ' ' && !atCuts (cutSafe type) e.1 then none
      else passed rest (replace e.1 e.2 type)

section Cuts

theorem rewrites_snd_ne_nil : ∀ e ∈ rewrites, e.2 ≠ [] := by decide

/-- No word has a letter behind a character that may end a text, but for a `p`. -/
theorem rewrites_open : ∀ e ∈ rewrites,
    atCuts (fun u v => u.getLast?.all isWord || !startsType v) e.1 = true := by
  decide +kernel

/-- A word ends with a letter, or with the same parenthesis as its replacement. -/
theorem rewrites_last : ∀ e ∈ rewrites,
    e.1.getLast?.all isWord = true ∨ e.1.getLast? = e.2.getLast? := by
  decide +kernel

/-- A word has letters in it, blanks, and parentheses. -/
theorem rewrites_chars :
    ∀ e ∈ rewrites, ∀ c ∈ e.1, (isWord c || List.contains ['(', ' '] c) = true := by
  have hall : rewrites.all (fun e => e.1.all fun c => isWord c || List.contains ['(', ' '] c) =
      true := by
    decide +kernel
  exact fun e he => List.all_eq_true.1 (List.all_eq_true.1 hall e he)

theorem rewrites_head : ∀ e ∈ rewrites, e.1.head?.all isWord = true := by decide +kernel

theorem rewrites_startsType : ∀ e ∈ rewrites, startsType e.2 = true := by decide +kernel

theorem rewrites_precision :
    ∀ e ∈ rewrites, ∀ c ∈ " precision".toList, c ∉ e.2 := by
  have hall : rewrites.all (fun e => " precision".toList.all fun c => !e.2.contains c) = true := by
    decide +kernel
  intro e he c hc hmem
  have hnone := List.all_eq_true.1 (List.all_eq_true.1 hall e he) c hc
  rw [List.contains_iff_mem.2 hmem] at hnone
  cases hnone

theorem EndsOpen.replace {e : List Char × List Char} (he : e ∈ rewrites) {s : List Char}
    (h : EndsOpen s) : EndsOpen (replace e.1 e.2 s) := by
  obtain ⟨c, hlast, hc⟩ := h
  refine ⟨c, getLast?_replace (rewrites_ne_nil e he) (fun hword => ?_) hlast, hc⟩
  rcases rewrites_last e he with hletter | hsame
  · rw [hword] at hletter
    exact absurd hletter (Bool.eq_false_iff.1 hc)
  · rw [← hsame, hword]

theorem startsType_replace {e : List Char × List Char} (he : e ∈ rewrites) {s : List Char}
    (h : startsType s = true) : startsType (replace e.1 e.2 s) = true := by
  cases s with
  | nil => cases h
  | cons c s =>
      by_cases hp : e.1 <+: c :: s
      · obtain ⟨rest, hrest⟩ := hp
        have hstarts := rewrites_startsType e he
        rw [← hrest, replace_word_append (rewrites_ne_nil e he)]
        cases hsnd : e.2 with
        | nil => exact absurd hsnd (rewrites_snd_ne_nil e he)
        | cons d tail => rwa [hsnd] at hstarts
      · rwa [replace_cons hp]

theorem Behind.replace {e : List Char × List Char} (he : e ∈ rewrites) {s : List Char}
    (h : Behind s) : Behind (replace e.1 e.2 s) := by
  refine ⟨?_, fun hprefix => h.precision
    (prefix_of_prefix_replace (rewrites_ne_nil e he) (rewrites_snd_ne_nil e he)
      (rewrites_precision e he) hprefix)⟩
  cases s with
  | nil => exact h.word
  | cons c s =>
      have hhead : e.1.head? ≠ some c := by
        intro heq
        have hletter := rewrites_head e he
        rw [heq] at hletter
        exact absurd hletter (Bool.eq_false_iff.1 (h.word c rfl).1)
      rw [replace_cons_of_head (rewrites_ne_nil e he) hhead]
      exact h.word

/-- Before a type. -/
theorem apart_of_open {e : List Char × List Char} (he : e ∈ rewrites) {a b : List Char}
    (ha : EndsOpen a) (hb : startsType b = true) : Apart e.1 a b := by
  intro u v hword hu hv hsuffix hprefix
  have hcut := of_atCuts (rewrites_open e he) hword hu hv
  obtain ⟨c, hlast, hc⟩ := ha
  obtain ⟨a', rfl⟩ := hsuffix
  obtain ⟨b', rfl⟩ := hprefix
  cases hulast : u.getLast? with
  | none => exact hu (List.getLast?_eq_none_iff.1 hulast)
  | some d =>
      rw [List.getLast?_append, hulast] at hlast
      cases hlast
      cases v with
      | nil => exact hv rfl
      | cons f v =>
          rw [hulast, Option.all_some, hc, Bool.false_or, Bool.not_eq_true'] at hcut
          exact absurd hb (Bool.eq_false_iff.1 hcut)

/-- Behind a type. -/
theorem apart_of_behind {e : List Char × List Char} (he : e ∈ rewrites) {type b : List Char}
    (h : e.1.contains ' ' = true → atCuts (cutSafe type) e.1 = true) (hb : Behind b) :
    Apart e.1 type b := by
  intro u v hword hu hv hsuffix hprefix
  cases v with
  | nil => exact hv rfl
  | cons c v =>
      have hmem : c ∈ e.1 := by
        rw [hword]
        exact List.mem_append_right u List.mem_cons_self
      obtain ⟨b', rfl⟩ := hprefix
      obtain ⟨hc, hne⟩ := hb.word c rfl
      have hchar := rewrites_chars e he c hmem
      rw [hc, Bool.false_or, List.contains_iff_mem, List.mem_cons, List.mem_singleton] at hchar
      rcases hchar with hparen | rfl
      · exact hne hparen
      · have hcut := of_atCuts (h (List.contains_iff_mem.2 hmem)) hword hu hv
        rw [cutSafe, List.isSuffixOf_iff_suffix.2 hsuffix, Bool.not_true, Bool.or_false,
          List.head?_cons, bne_self_eq_false, Bool.false_or] at hcut
        refine hb.precision ?_
        rw [← beq_iff_eq.1 hcut]
        exact List.prefix_append _ _

theorem passed_cons {e : List Char × List Char} {rest : List (List Char × List Char)}
    {type type' : List Char} (h : passed (e :: rest) type = some type') :
    (e.1.contains ' ' = true → atCuts (cutSafe type) e.1 = true) ∧
      passed rest (replace e.1 e.2 type) = some type' := by
  rw [passed] at h
  split at h
  · cases h
  · rename_i hsafe
    refine ⟨fun hblank => ?_, h⟩
    rw [hblank, Bool.true_and, Bool.not_eq_true, Bool.not_eq_false'] at hsafe
    exact hsafe

theorem replaceAll_of_passed {table : List (List Char × List Char)} {type type' : List Char}
    (h : passed table type = some type') : replaceAll table type = type' := by
  induction table generalizing type with
  | nil => exact Option.some.inj h
  | cons e rest ih => exact ih (passed_cons h).2

end Cuts

/-! ## Names of types -/

/-- A name that the passes take as a whole, and what they make of it. -/
structure Spelling (name name' : List Char) : Prop where
  starts : startsType name = true
  uncounted : ∀ c ∈ name, isForeign c = false ∧ c ≠ '('
  passed : passed rewrites name = some name'

def isSpelling (name name' : List Char) : Bool :=
  startsType name && (name.all fun c => !isForeign c && c != '(') &&
    passed rewrites name == some name'

theorem spelling_of_isSpelling {name name' : List Char} (h : isSpelling name name' = true) :
    Spelling name name' := by
  rw [isSpelling, Bool.and_eq_true, Bool.and_eq_true, List.all_eq_true] at h
  refine ⟨h.1.1, fun c hc => ?_, beq_iff_eq.1 h.2⟩
  have hboth := h.1.2 c hc
  rw [Bool.and_eq_true, Bool.not_eq_true'] at hboth
  exact ⟨hboth.1, bne_iff_ne.1 hboth.2⟩

/-- What the replacements make of a type. -/
def ColumnType.renamed (type : ColumnType) : List Char :=
  match type with
  | varchar | dateText | timestampText | timeText | jsonText => "TEXT".toList
  | bigint | smallint | tinyint | boolean => "INTEGER".toList
  | doublePrecision | float | double => "REAL".toList
  | text | integer | real | blob | timestampWithTimezoneText | char | binary => type.name

def ColumnType.all : List ColumnType :=
  [varchar, text, integer, bigint, real, doublePrecision, dateText, timestampText, boolean,
    jsonText, blob, timestampWithTimezoneText, timeText, char, smallint, tinyint, float, double,
    binary]

theorem ColumnType.mem_all (type : ColumnType) : type ∈ all := by cases type <;> decide

theorem spelling_name (type : ColumnType) : Spelling type.name type.renamed :=
  have hall : ∀ type ∈ ColumnType.all, isSpelling type.name type.renamed = true := by
    decide +kernel
  spelling_of_isSpelling (hall type type.mem_all)

/-- A name that is made of a type is left as it is. -/
theorem spelling_renamed (type : ColumnType) : Spelling type.renamed type.renamed := by
  have hstrict : ∀ name ∈ ["TEXT", "INTEGER", "REAL"].map String.toList,
      isSpelling name name = true := by
    decide +kernel
  have hname := spelling_name type
  cases type with
  | text | integer | real | blob | timestampWithTimezoneText | char | binary => exact hname
  | varchar | dateText | timestampText | timeText | jsonText =>
      exact spelling_of_isSpelling (hstrict _ (by decide))
  | bigint | smallint | tinyint | boolean =>
      exact spelling_of_isSpelling (hstrict _ (by decide))
  | doublePrecision | float | double =>
      exact spelling_of_isSpelling (hstrict _ (by decide))

theorem isWord_renamed (type : ColumnType) : ∀ c ∈ type.renamed, isWord c = true :=
  have hall : ∀ type ∈ ColumnType.all, type.renamed.all isWord = true := by decide +kernel
  List.all_eq_true.1 (hall type type.mem_all)

/-- A type becomes one of a strict table, unless it is of the three. -/
theorem isStrict_renamed_iff (type : ColumnType) : IsStrict type.renamed ↔ ¬ type.Unknown := by
  have hall : ∀ type ∈ ColumnType.all, (type.renamed.map Char.toUpper ∈ strictTypes ↔
      ¬ (type = .timestampWithTimezoneText ∨ type = .char ∨ type = .binary)) := by
    decide +kernel
  exact hall type type.mem_all

section StrictNames

variable {name : List Char}

theorem toNat_of_isAlpha {c : Char} (h : c.isAlpha = true) : 65 ≤ c.toNat ∧ c.toNat ≤ 122 := by
  have hor : (c.isUpper || c.isLower) = true := h
  rw [Bool.or_eq_true] at hor
  rcases hor with hupper | hlower
  · have hin : 65 ≤ c.toNat ∧ c.toNat ≤ 90 := of_decide_eq_true hupper
    exact ⟨hin.1, by omega⟩
  · have hand : (decide (97 ≤ c.toNat) && decide (c.toNat ≤ 122)) = true := hlower
    rw [Bool.and_eq_true, decide_eq_true_eq, decide_eq_true_eq] at hand
    exact ⟨by omega, hand.2⟩

theorem toNat_le_of_isAlphanum {c : Char} (h : c.isAlphanum = true) : c.toNat ≤ 122 := by
  rw [Char.isAlphanum, Bool.or_eq_true] at h
  rcases h with halpha | hdigit
  · exact (toNat_of_isAlpha halpha).2
  · rw [Char.isDigit, Bool.and_eq_true, decide_eq_true_eq, decide_eq_true_eq] at hdigit
    have hhigh : c.toNat ≤ 57 := hdigit.2
    omega

theorem isAlphanum_of_toUpper {c : Char} (h : c.toUpper.isAlphanum = true) :
    c.isAlphanum = true := by
  by_cases hlower : c.isLower = true
  · have halpha : (c.isUpper || c.isLower) = true := by rw [hlower, Bool.or_true]
    exact Bool.or_eq_true_iff.2 (.inl halpha)
  · have hsame : c.toUpper = c := by
      refine dif_neg fun hin => hlower ?_
      show (decide ('a'.val ≤ c.val) && decide (c.val ≤ 'z'.val)) = true
      rw [decide_eq_true hin.1, decide_eq_true hin.2]
      rfl
    rwa [hsame] at h

theorem IsStrict.isAlphanum (h : IsStrict name) : ∀ c ∈ name, c.isAlphanum = true := by
  have hall : ∀ t ∈ strictTypes, t.all Char.isAlphanum = true := by decide
  intro c hc
  exact isAlphanum_of_toUpper
    (List.all_eq_true.1 (hall _ h) c.toUpper (List.mem_map_of_mem hc))

theorem uncounted_of_isAlphanum {c : Char} (h : c.isAlphanum = true) :
    isForeign c = false ∧ c ≠ '(' := by
  have hle := toNat_le_of_isAlphanum h
  refine ⟨decide_eq_false (by omega), ?_⟩
  rintro rfl
  exact absurd h (by decide)

theorem IsStrict.weight (h : IsStrict name) : weight name = 0 :=
  weight_eq_zero fun c hc => uncounted_of_isAlphanum (h.isAlphanum c hc)

theorem IsStrict.isWord (h : IsStrict name) : ∀ c ∈ name, isWord c = true := by
  intro c hc
  rw [StrictTypes.isWord, h.isAlphanum c hc]
  rfl

end StrictNames

/-! ## Texts pass by pass -/

/-- What the passes before the replacements make of a text. -/
def shortened (s : List Char) : List Char := dropLengths (bytesAsChars s)

section Passes

variable {ι : Type} {l : List ι} {w : List Char} {name name' after : ι → List Char}

/-- What follows a type begins with no type and no `precision`, also with the next type in it. -/
theorem behind_spell (hw : EndsType w) (hbounded : Bounded w (l.map after))
    (hstarts : ∀ i ∈ l, startsType (name i) = true) :
    Behind (spell w (l.map fun i => (name i, after i))) := by
  -- a length would belong to the type
  have hopening : ∀ c, w.head? = some c → c ≠ '(' := by
    rintro c hc rfl
    cases w with
    | nil => cases hc
    | cons d w =>
        cases hc
        exact hw.length rfl
  cases l with
  | nil => exact ⟨fun c hc => ⟨hw.word c hc, hopening c hc⟩, hw.precision⟩
  | cons i l =>
      obtain ⟨⟨d, hlast, hd⟩, -, -⟩ := hbounded
      refine ⟨fun f hf => ?_, fun hprefix => ?_⟩
      · cases w with
        | nil => cases hlast
        | cons g w =>
            cases hf
            exact ⟨hw.word f rfl, hopening f rfl⟩
      · rcases List.prefix_or_prefix_of_prefix hprefix (List.prefix_append w _) with hin | hin
        · exact hw.precision hin
        · -- what follows the type is the blank alone, so the next type would begin with a `p`
          have htake := List.prefix_iff_eq_take.1 hin
          have hblank : w = [' '] := by
            have hall : ∀ k ∈ List.range 11,
                ((" precision".toList.take k).getLast?.any fun c => !isWord c) = true →
                  " precision".toList.take k = [' '] := by
              decide
            have hk : w.length ∈ List.range 11 :=
              List.mem_range.2 (Nat.lt_succ_of_le hin.length_le)
            have hat := hall w.length hk
            rw [← htake, hlast, Option.any_some, hd] at hat
            exact hat rfl
          rw [hblank] at hprefix
          have hrest : "precision".toList <+:
              name i ++ spell (after i) (l.map fun j => (name j, after j)) :=
            (List.prefix_append_right_inj [' ']).1 hprefix
          have hname := hstarts i List.mem_cons_self
          cases hi : name i with
          | nil =>
              rw [hi] at hname
              cases hname
          | cons g tail =>
              rw [hi] at hrest hname
              have hg : 'p' = g := (List.cons_prefix_cons.1 hrest).1
              rw [← hg] at hname
              cases hname

/-- The replacements are made between the types, and of each of them. -/
theorem replaceAll_spell (hbounded : Bounded w (l.map after))
    (hnames : ∀ i ∈ l, Spelling (name i) (name' i)) :
    replaceAll rewrites (spell w (l.map fun i => (name i, after i))) =
      spell (replaceAll rewrites w) (l.map fun i => (name' i, replaceAll rewrites (after i))) := by
  induction l generalizing w with
  | nil => rfl
  | cons i l ih =>
      obtain ⟨hopen, hends, hrest⟩ := hbounded
      have hname := hnames i List.mem_cons_self
      have htail : ∀ j ∈ l, Spelling (name j) (name' j) := fun j hj =>
        hnames j (List.mem_cons_of_mem i hj)
      have hbehind : Behind (spell (after i) (l.map fun j => (name j, after j))) :=
        behind_spell hends hrest fun j hj => (htail j hj).starts
      have hstarts :
          startsType (name i ++ spell (after i) (l.map fun j => (name j, after j))) = true := by
        have hs := hname.starts
        cases hi : name i with
        | nil =>
            rw [hi] at hs
            cases hs
        | cons d tail => rwa [hi] at hs
      -- before the type the text stays open, and what begins with a type goes on to
      have hcut : replaceAll rewrites (w ++ (name i ++ spell (after i) _)) =
          replaceAll rewrites w ++
            replaceAll rewrites (name i ++ spell (after i) (l.map fun j => (name j, after j))) :=
        replaceAll_append (fun rest s => rest ⊆ rewrites ∧ EndsOpen s)
          (fun s => startsType s = true) rewrites_ne_nil
          (fun e rest s h => ⟨fun f hf => h.1 (List.mem_cons_of_mem e hf),
            h.2.replace (h.1 List.mem_cons_self)⟩)
          (fun e he s h => startsType_replace he h)
          (fun e he rest a b ha hb => apart_of_open he ha.2 hb)
          ⟨List.Subset.refl _, hopen⟩ hstarts
      -- behind it, at each word's turn, the type is what it has become so far
      have htype : replaceAll rewrites (name i ++ spell (after i) _) =
          replaceAll rewrites (name i) ++
            replaceAll rewrites (spell (after i) (l.map fun j => (name j, after j))) :=
        replaceAll_append (fun rest s => passed rest s = some (name' i)) Behind rewrites_ne_nil
          (fun e rest s h => (passed_cons h).2) (fun e he s h => h.replace he)
          (fun e he rest a b ha hb => apart_of_behind he (passed_cons ha).1 hb)
          hname.passed hbehind
      rw [List.map_cons, spell, hcut, htype, replaceAll_of_passed hname.passed, ih hrest htail]
      rfl

/-- A length is dropped with the type it stands behind. -/
theorem dropLengths_lengthText (length : Option Digits) (s : List Char) :
    dropLengths (lengthText length ++ s) = dropLengths s := by
  cases length with
  | none => rfl
  | some digits =>
      rw [lengthText, List.cons_append, List.append_assoc]
      exact dropLengths_length (List.all_eq_true.1 digits.2) s

theorem isDigitOrBlank_of_isAlpha {c : Char} (h : c.isAlpha = true) :
    isDigitOrBlank c = false := by
  rw [isDigitOrBlank, Bool.or_eq_false_iff]
  refine ⟨Bool.eq_false_iff.2 fun hdigit => ?_, Bool.eq_false_iff.2 fun hblank => ?_⟩
  · rw [Char.isDigit, Bool.and_eq_true, decide_eq_true_eq, decide_eq_true_eq] at hdigit
    have hhigh : c.toNat ≤ 57 := hdigit.2
    have hlow := (toNat_of_isAlpha h).1
    omega
  · simp only [isWhitespace, Bool.or_eq_true, decide_eq_true_eq] at hblank
    rcases hblank with (((rfl | rfl) | rfl) | rfl) | rfl <;> exact absurd h (by decide)

/-- A length does not begin before a type and end behind it. -/
theorem dropLengths_type {s : List Char} (hstarts : startsType s = true) (hopening : '(' ∉ s)
    (a b : List Char) :
    dropLengths (a ++ (s ++ b)) = dropLengths a ++ (s ++ dropLengths b) := by
  cases s with
  | nil => cases hstarts
  | cons c s =>
      rw [startsType, List.head?_cons, Option.any_some, Bool.and_eq_true] at hstarts
      have hne : c ≠ ')' := by
        rintro rfl
        exact absurd hstarts.1 (by decide)
      rw [List.cons_append, dropLengths_append_cons (isDigitOrBlank_of_isAlpha hstarts.1) hne,
        ← List.cons_append, dropLengths_append_of_no_opening hopening]

/-- The lengths of the types are dropped, and what stands between the types is shortened. -/
theorem shortened_spell (length : ι → Option Digits)
    (hnames : ∀ i ∈ l, Spelling (name i) (name' i)) :
    shortened (spell w (l.map fun i => (name i ++ lengthText (length i), after i))) =
      spell (shortened w) (l.map fun i => (name i, shortened (after i))) := by
  have hascii : ∀ length, ∀ c ∈ lengthText length, isForeign c = false := by
    intro length c hc
    cases length with
    | none => cases hc
    | some digits =>
        rcases List.mem_cons.1 hc with rfl | hc
        · rfl
        · rcases List.mem_append.1 hc with hc | hc
          · exact (uncounted_of_digitOrBlank (List.all_eq_true.1 digits.2 c hc)).1
          · rw [List.mem_singleton.1 hc]
            rfl
  induction l generalizing w with
  | nil => rfl
  | cons i l ih =>
      have hname := hnames i List.mem_cons_self
      have hforeign : ∀ c ∈ name i ++ lengthText (length i), isForeign c = false := by
        intro c hc
        rcases List.mem_append.1 hc with hc | hc
        · exact (hname.uncounted c hc).1
        · exact hascii _ c hc
      rw [List.map_cons, spell, shortened, bytesAsChars_append, bytesAsChars_append,
        bytesAsChars_of_ascii hforeign, List.append_assoc,
        dropLengths_type hname.starts fun hc => (hname.uncounted _ hc).2 rfl,
        dropLengths_lengthText]
      show shortened w ++ (name i ++ shortened (spell (after i) _)) = _
      rw [ih fun j hj => hnames j (List.mem_cons_of_mem i hj)]
      rfl

/-- A text is not shortened, or there is more of its weight. -/
theorem shortened_cases (s : List Char) :
    ((∀ c ∈ s, isForeign c = false) ∧ NoLength s ∧ shortened s = s) ∨
      weight s < weight (shortened s) := by
  have hbytes := weight_le_bytesAsChars s
  rcases dropLengths_cases (bytesAsChars s) with ⟨hno, hsame⟩ | hmore
  · rw [shortened, hsame]
    by_cases heq : weight (bytesAsChars s) = weight s
    · have hascii := ascii_of_weight_bytesAsChars heq
      rw [bytesAsChars_of_ascii hascii] at hno ⊢
      exact .inl ⟨hascii, hno, rfl⟩
    · exact .inr (by omega)
  · exact .inr (by rw [shortened]; omega)

/-- A text that the passes before the replacements leave as it is. -/
def Kept (s : List Char) : Prop := (∀ c ∈ s, isForeign c = false) ∧ NoLength s

theorem Kept.shortened {s : List Char} (h : Kept s) : shortened s = s := by
  rw [StrictTypes.shortened, bytesAsChars_of_ascii h.1, dropLengths_of_noLength h.2]

theorem Plain.shortened {s : List Char} (h : Plain s) : shortened s = s :=
  Kept.shortened ⟨h.ascii, h.noLength⟩

/-- Where nothing but the types is found, they are renamed and nothing else is done. -/
theorem normalizeForStrict_spell (length : ι → Option Digits) (hbounded : Bounded w (l.map after))
    (hnames : ∀ i ∈ l, Spelling (name i) (name' i))
    (hnames' : ∀ i ∈ l, Spelling (name' i) (name' i)) (hw : Plain w)
    (hafter : ∀ i ∈ l, Plain (after i)) :
    normalizeForStrict (spell w (l.map fun i => (name i ++ lengthText (length i), after i))) =
      spell w (l.map fun i => (name' i, after i)) := by
  have hsame : ∀ (f : List Char → List Char) (n : ι → List Char), (∀ i ∈ l, f (after i) = after i) →
      (l.map fun i => (n i, f (after i))) = l.map fun i => (n i, after i) := fun f n h =>
    List.map_congr_left fun i hi => by rw [h i hi]
  have hshortened : ∀ i ∈ l, shortened (after i) = after i := fun i hi => (hafter i hi).shortened
  have hreplaced : ∀ i ∈ l, replaceAll rewrites (after i) = after i := fun i hi =>
    replaceAll_of_not_infix (hafter i hi).noWord
  -- the last passes find in the result what the first would find: nothing
  have hfixed : shortened (spell w (l.map fun i => (name' i, after i))) =
      spell w (l.map fun i => (name' i, after i)) := by
    have hnone : shortened (spell w (l.map fun i => (name' i ++ lengthText none, after i))) = _ :=
      shortened_spell (fun _ => none) hnames'
    simp only [lengthText, List.append_nil] at hnone
    rw [hnone, hw.shortened, hsame _ _ hshortened]
  have hpasses : replaceAll rewrites (shortened (spell w
      (l.map fun i => (name i ++ lengthText (length i), after i)))) =
        spell w (l.map fun i => (name' i, after i)) := by
    rw [shortened_spell length hnames, hw.shortened, hsame _ _ hshortened,
      replaceAll_spell hbounded hnames, replaceAll_of_not_infix hw.noWord, hsame _ _ hreplaced]
  show stripLengthSpecifiers (bytesAsChars (replaceAll rewrites (shortened _))) = _
  rw [hpasses]
  rcases shortened_cases (spell w (l.map fun i => (name' i, after i))) with ⟨hascii, hno, -⟩ | hmore
  · rw [bytesAsChars_of_ascii hascii, strip_of_noLength hno]
  · rw [hfixed] at hmore
    exact absurd hmore (Int.lt_irrefl _)

end Passes

/-! ## Which texts are only changed in their types -/

section Tables

variable {w : List Char} {cs : List Column} {ps : List (List Char × List Char)}

/-- The texts between the types are not shortened, or there is more weight than there should
    be. -/
theorem weight_spell_cases (h : List.Forall₂ Retyped cs ps) (w : List Char) :
    ((Kept w ∧ ∀ c ∈ cs, Kept (render c.after)) ∧ weight (spell w ps) = weight
        (spell (shortened w) (cs.map fun c => (c.type.name, shortened (render c.after))))) ∨
      weight (spell w ps) < weight
        (spell (shortened w) (cs.map fun c => (c.type.name, shortened (render c.after)))) := by
  induction h generalizing w with
  | nil =>
      rcases shortened_cases w with ⟨hascii, hno, hsame⟩ | hmore
      · refine .inl ⟨⟨⟨hascii, hno⟩, List.forall_mem_nil _⟩, ?_⟩
        rw [List.map_nil, spell, spell, hsame]
      · exact .inr hmore
  | @cons c p cs ps hretyped _ ih =>
      obtain ⟨hstrict, hafter⟩ := hretyped
      have hname : weight c.type.name = 0 := weight_eq_zero (spelling_name c.type).uncounted
      have hrest := ih (render c.after)
      rw [List.map_cons, spell, spell, weight_append, weight_append, weight_append, weight_append,
        hname, hstrict.weight, hafter]
      rcases shortened_cases w with ⟨hascii, hno, hsame⟩ | hmore
      · rw [hsame]
        rcases hrest with ⟨⟨hkept, hall⟩, heq⟩ | hlt
        · exact .inl ⟨⟨⟨hascii, hno⟩, List.forall_mem_cons.2 ⟨hkept, hall⟩⟩, by omega⟩
        · exact .inr (by omega)
      · rcases hrest with ⟨-, heq⟩ | hlt
        · exact .inr (by omega)
        · exact .inr (by omega)

/-- Two words with no word behind them are the same if the texts are. -/
theorem word_cancel {s n x y : List Char} (hs : ∀ c ∈ s, isWord c = true)
    (hn : ∀ c ∈ n, isWord c = true) (hx : ∀ c, x.head? = some c → isWord c = false)
    (hy : ∀ c, y.head? = some c → isWord c = false) (h : s ++ x = n ++ y) : s = n ∧ x = y := by
  induction s generalizing n with
  | nil =>
      cases n with
      | nil => exact ⟨rfl, h⟩
      | cons d n =>
          have hx' := hx d (by rw [← List.nil_append x, h]; rfl)
          rw [hn d List.mem_cons_self] at hx'
          cases hx'
  | cons c s ih =>
      cases n with
      | nil =>
          have hy' := hy c (by rw [← List.nil_append y, ← h]; rfl)
          rw [hs c List.mem_cons_self] at hy'
          cases hy'
      | cons d n =>
          obtain ⟨rfl, hrest⟩ := List.cons.inj h
          obtain ⟨rfl, hxy⟩ := ih (fun c' hc' => hs c' (List.mem_cons_of_mem _ hc'))
            (fun c' hc' => hn c' (List.mem_cons_of_mem _ hc')) hrest
          exact ⟨rfl, hxy⟩

/-- No word goes on behind a type. -/
theorem word_spell (hw : EndsType w) (hbounded : Bounded w (cs.map fun c => render c.after))
    (h : List.Forall₂ Retyped cs ps) : ∀ c, (spell w ps).head? = some c → isWord c = false := by
  cases h with
  | nil => exact hw.word
  | cons _ _ =>
      obtain ⟨⟨d, hlast, -⟩, -, -⟩ := hbounded
      cases w with
      | nil => cases hlast
      | cons g w => exact hw.word

/-- Where the replacements give back all but the types, none of their words is found. -/
theorem noWord_of_spell (h : List.Forall₂ Retyped cs ps)
    (hbounded : Bounded w (cs.map fun c => render c.after))
    (heq : spell (replaceAll rewrites w)
      (cs.map fun c => (c.type.renamed, replaceAll rewrites (render c.after))) = spell w ps) :
    ((∀ e ∈ rewrites, ¬ e.1 <:+: w) ∧ ∀ c ∈ cs, ∀ e ∈ rewrites, ¬ e.1 <:+: render c.after) ∧
      ∀ c ∈ cs, ¬ c.type.Unknown := by
  induction h generalizing w with
  | nil =>
      rcases replaceAll_below rewrites_below w with ⟨hno, -⟩ | hbelow
      · exact ⟨⟨hno, List.forall_mem_nil _⟩, List.forall_mem_nil _⟩
      · exact absurd heq hbelow.ne
  | @cons c p cs ps hretyped hall ih =>
      obtain ⟨hstrict, hafter⟩ := hretyped
      obtain ⟨-, hends, hrest⟩ := hbounded
      rw [List.map_cons, spell, spell, hafter] at heq
      -- a word that is found makes the text differ here, whatever follows
      rcases replaceAll_below rewrites_below w with ⟨hno, hsame⟩ | hbelow
      · rw [hsame] at heq
        have hnames : ∀ d ∈ cs, Spelling d.type.name d.type.renamed := fun d _ =>
          spelling_name d.type
        have hbehind : Behind (spell (replaceAll rewrites (render c.after))
            (cs.map fun d => (d.type.renamed, replaceAll rewrites (render d.after)))) := by
          rw [← replaceAll_spell hrest hnames]
          exact replaceAll_keeps (fun e he s hs => hs.replace he)
            (behind_spell hends hrest fun d hd => (hnames d hd).starts)
        obtain ⟨htype, htail⟩ := word_cancel (isWord_renamed c.type) hstrict.isWord
          (fun d hd => (hbehind.word d hd).1) (word_spell hends hrest hall)
          (List.append_cancel_left heq)
        obtain ⟨⟨hnext, hothers⟩, hknown⟩ := ih hrest htail
        have hc : ¬ c.type.Unknown := (isStrict_renamed_iff c.type).1 (htype ▸ hstrict)
        exact ⟨⟨hno, List.forall_mem_cons.2 ⟨hnext, hothers⟩⟩, List.forall_mem_cons.2 ⟨hc, hknown⟩⟩
      · exact absurd heq (hbelow.append _ _).ne

end Tables

section Main

variable (t : CreateTable)

theorem touchesOnlyTypes_of_expected (h : Expected t) : TouchesOnlyTypes t := by
  have hrenamed : ∀ c ∈ t.columns, Spelling c.type.renamed c.type.renamed := fun c _ =>
    spelling_renamed c.type
  have hfirst : normalizeForStrict t.text =
      spell (render t.head) (t.columns.map fun c => (c.type.renamed, render c.after)) :=
    normalizeForStrict_spell Column.length t.bounded (fun c _ => spelling_name c.type) hrenamed
      h.plain.1 h.plain.2
  have hsecond := normalizeForStrict_spell (fun _ => none) t.bounded hrenamed hrenamed
    h.plain.1 h.plain.2
  simp only [lengthText, List.append_nil] at hsecond
  refine ⟨⟨_, ?_, hfirst⟩, by rw [hfirst, hsecond]⟩
  rw [List.forall₂_map_right_iff, List.forall₂_same]
  exact fun c hc => ⟨(isStrict_renamed_iff c.type).2 (h.known c hc), rfl⟩

theorem expected_of_touchesOnlyTypes (h : TouchesOnlyTypes t) : Expected t := by
  obtain ⟨ps, hretyped, heq⟩ := h.retyped
  have hnames : ∀ c ∈ t.columns, Spelling c.type.name c.type.renamed := fun c _ =>
    spelling_name c.type
  have hshortened : shortened t.text = spell (shortened (render t.head))
      (t.columns.map fun c => (c.type.name, shortened (render c.after))) :=
    shortened_spell Column.length hnames
  have hall : normalizeForStrict t.text =
      stripLengthSpecifiers (bytesAsChars (replaceAll rewrites (shortened t.text))) := rfl
  -- no pass makes less of the weight, and there is no more of it at the end
  have hreplaced := weight_replaceAll (shortened t.text)
  have hbytes := weight_le_bytesAsChars (replaceAll rewrites (shortened t.text))
  have hstrip := strip_cases (bytesAsChars (replaceAll rewrites (shortened t.text)))
  rcases weight_spell_cases hretyped (render t.head) with ⟨⟨hhead, hkept⟩, hweight⟩ | hmore
  · rw [← hshortened, ← heq, hall] at hweight
    have hstripped : stripLengthSpecifiers (bytesAsChars (replaceAll rewrites (shortened t.text))) =
        bytesAsChars (replaceAll rewrites (shortened t.text)) := by
      rcases hstrip with hsame | hlt
      · exact hsame
      · omega
    rw [hstripped] at hweight
    have hascii := ascii_of_weight_bytesAsChars (hweight.trans hreplaced.symm)
    have htext : shortened t.text =
        spell (render t.head) (t.columns.map fun c => (c.type.name, render c.after)) := by
      rw [hshortened, hhead.shortened]
      exact congrArg _ (List.map_congr_left fun c hc => by rw [(hkept c hc).shortened])
    have hreplace : spell (replaceAll rewrites (render t.head))
        (t.columns.map fun c => (c.type.renamed, replaceAll rewrites (render c.after))) =
          spell (render t.head) ps := by
      rw [← heq, hall, hstripped, bytesAsChars_of_ascii hascii, htext,
        replaceAll_spell t.bounded hnames]
    obtain ⟨⟨hno, hnoAfter⟩, hknown⟩ := noWord_of_spell hretyped t.bounded hreplace
    exact ⟨⟨⟨hhead.1, hhead.2, hno⟩, fun c hc => ⟨(hkept c hc).1, (hkept c hc).2, hnoAfter c hc⟩⟩,
      hknown⟩
  · rw [← hshortened, ← heq, hall] at hmore
    rcases hstrip with hsame | hlt
    · rw [hsame] at hmore
      omega
    · omega

/-- Nothing but the types is changed, exactly if nothing else is found. -/
theorem only_types_iff : TouchesOnlyTypes t ↔ Expected t :=
  ⟨expected_of_touchesOnlyTypes t, touchesOnlyTypes_of_expected t⟩

/-- A table with a check against a number in parentheses. -/
def checkedTable : CreateTable where
  head := [.plain "CREATE TABLE ".toList rfl, .name ['t'], .plain [' '] rfl, .opening,
    .plain [' '] rfl, .name ['n'], .plain [' '] rfl]
  columns := [⟨.integer, none, [.plain " CHECK ".toList rfl, .opening, .name ['n'],
    .plain " IN ".toList rfl, .opening, .plain ['1'] rfl, .closing, .closing, .plain [' '] rfl,
    .closing]⟩]
  bounded := by
    refine ⟨⟨' ', rfl, rfl⟩, ⟨fun c hc => ?_, by decide, by decide⟩, trivial⟩
    cases hc
    rfl

/-- The number is taken for a length, and the check has nothing to check against. -/
theorem check_dropped : ¬ TouchesOnlyTypes checkedTable := by
  intro h
  have hplain := (expected_of_touchesOnlyTypes checkedTable h).plain.2 _ List.mem_cons_self
  have hnone := hplain.noLength "1)) )".toList ⟨" CHECK (\"n\" IN ".toList, rfl⟩
  exact absurd hnone (by decide)

end Main

end StrictTypes
