import Livtet.Lib.Replacements
import Livtet.Lib.Utf8Text

/-! # Type names for strict tables

    The text of a table is rewritten so that SQLite takes it as a strict one: lengths in
    parentheses are dropped, type names are replaced word by word, and lengths behind the
    types of strict tables are dropped once more. The passes go over bytes, each as a
    character, and know of no quotes.

    What each pass leaves as it is, and what it changes, is said here of any text. -/

namespace StrictTypes

open Replacements Utf8Text

/-! ## Lengths -/

/-- `u8::is_ascii_whitespace`. -/
def isWhitespace (c : Char) : Bool :=
  c = ' ' || c = '\t' || c = '\n' || c = '\x0c' || c = '\r'

/-- The bytes of a text, each pushed as a character. -/
def bytesAsChars (s : List Char) : List Char := (bytes s).map fun b => Char.ofNat b.toNat

/-- How far behind the closing parenthesis is, with digits and blanks before it. -/
def closing : List Char → Option Nat
  | [] => none
  | c :: rest =>
      if c = ')' then some 1
      else if !c.isDigit && !isWhitespace c then none
      else (closing rest).map (· + 1)

/-- `looks_like_length`, of the text from the opening parenthesis on. -/
def looksLikeLength : List Char → Option Nat
  | [] => none
  | _ :: rest => (closing rest).map (· + 1)

/-- The first loop, once as many characters of a length are passed. -/
def dropLengthsAfter : Nat → List Char → List Char
  | _, [] => []
  | skip + 1, _ :: rest => dropLengthsAfter skip rest
  | 0, c :: rest =>
      if c = '(' then
        match looksLikeLength (c :: rest) with
        | some relEnd => dropLengthsAfter (relEnd - 1) rest
        | none => c :: dropLengthsAfter 0 rest
      else c :: dropLengthsAfter 0 rest

def dropLengths (s : List Char) : List Char := dropLengthsAfter 0 s

/-! ## Type names -/

/-- The replacements, in their order. -/
def rewrites : List (List Char × List Char) :=
  [("json_text", "TEXT"), ("JSON_TEXT", "TEXT"), ("timestamp_text", "TEXT"),
    ("TIMESTAMP_TEXT", "TEXT"), ("date_text", "TEXT"), ("DATE_TEXT", "TEXT"),
    ("time_text", "TEXT"), ("TIME_TEXT", "TEXT"), ("varchar", "TEXT"), ("VARCHAR", "TEXT"),
    ("CHAR(", "TEXT("), ("bigint", "INTEGER"), ("BIGINT", "INTEGER"), ("smallint", "INTEGER"),
    ("SMALLINT", "INTEGER"), ("tinyint", "INTEGER"), ("TINYINT", "INTEGER"),
    ("double precision", "REAL"), ("DOUBLE PRECISION", "REAL"), ("float", "REAL"),
    ("FLOAT", "REAL"), ("double", "REAL"), ("DOUBLE", "REAL"), ("boolean", "INTEGER"),
    ("BOOLEAN", "INTEGER"), ("binary(", "BLOB("), ("BINARY(", "BLOB(")].map
      fun e => (e.1.toList, e.2.toList)

/-- `STRICT_TYPES`. -/
def strictTypes : List (List Char) :=
  ["INT", "INTEGER", "REAL", "TEXT", "BLOB", "ANY"].map String.toList

/-- The type of a strict table that the text begins with, as a word of its own. -/
def matchedType (s : List Char) : Option (List Char) :=
  strictTypes.find? fun t =>
    t.isPrefixOf s && ((s.drop t.length).head?.all fun c => !c.isAlphanum)

/-- The text behind a length, if it begins with one. -/
def afterLength (s : List Char) : List Char :=
  if s.head? = some '(' then
    match looksLikeLength s with
    | some relEnd => s.drop relEnd
    | none => s
  else s

theorem length_afterLength_le (s : List Char) : (afterLength s).length ≤ s.length := by
  rw [afterLength]
  split
  · split
    · rw [List.length_drop]
      omega
    · exact Nat.le_refl _
  · exact Nat.le_refl _

theorem matchedType_spec {s t : List Char} (h : matchedType s = some t) :
    t ∈ strictTypes ∧ t <+: s := by
  refine ⟨List.mem_of_find?_eq_some h, ?_⟩
  have hfound := List.find?_some h
  rw [Bool.and_eq_true] at hfound
  exact List.isPrefixOf_iff_prefix.1 hfound.1

theorem length_pos_of_mem_strictTypes : ∀ t ∈ strictTypes, 0 < t.length := by decide

def stripLengthSpecifiers : List Char → List Char
  | [] => []
  | c :: rest =>
      match _h : matchedType (c :: rest) with
      | some t =>
          let after := (c :: rest).drop t.length
          t ++ after.takeWhile isWhitespace ++
            stripLengthSpecifiers (afterLength (after.dropWhile isWhitespace))
      | none => c :: stripLengthSpecifiers rest
termination_by s => s.length
decreasing_by
  · have hpos := length_pos_of_mem_strictTypes t (matchedType_spec _h).1
    have hle := (List.dropWhile_suffix (l := (c :: rest).drop t.length) isWhitespace).length_le
    have hafter := length_afterLength_le (((c :: rest).drop t.length).dropWhile isWhitespace)
    rw [List.length_drop] at hle
    simp only [List.length_cons] at *
    omega
  · exact Nat.lt_succ_self _

def normalizeForStrict (sql : List Char) : List Char :=
  stripLengthSpecifiers (bytesAsChars (replaceAll rewrites (dropLengths (bytesAsChars sql))))

/-! ## What is counted -/

/-- The character is not one of ASCII. -/
def isForeign (c : Char) : Bool := 128 ≤ c.toNat

/-- Foreign characters less opening parentheses: no pass makes less of it. -/
def weight (s : List Char) : Int := (s.countP isForeign : Int) - (s.countP (· == '(') : Int)

theorem weight_append (a b : List Char) : weight (a ++ b) = weight a + weight b := by
  rw [weight, weight, weight, List.countP_append, List.countP_append]
  omega

theorem weight_cons (c : Char) (s : List Char) : weight (c :: s) = weight [c] + weight s :=
  weight_append [c] s

/-- Texts of characters that are not counted. -/
theorem weight_eq_zero {s : List Char} (h : ∀ c ∈ s, isForeign c = false ∧ c ≠ '(') :
    weight s = 0 := by
  have hforeign : s.countP isForeign = 0 :=
    List.countP_eq_zero.2 fun c hc => Bool.eq_false_iff.1 (h c hc).1
  have hopening : s.countP (· == '(') = 0 :=
    List.countP_eq_zero.2 fun c hc => fun heq => (h c hc).2 (beq_iff_eq.1 heq)
  rw [weight, hforeign, hopening]
  rfl

/-! ## Bytes as characters -/

section BytesAsChars

variable {s : List Char}

theorem bytesAsChars_append (a b : List Char) :
    bytesAsChars (a ++ b) = bytesAsChars a ++ bytesAsChars b := by
  rw [bytesAsChars, bytes_append, List.map_append]
  rfl

theorem bytesAsChars_cons (c : Char) (s : List Char) :
    bytesAsChars (c :: s) = bytesAsChars [c] ++ bytesAsChars s :=
  bytesAsChars_append [c] s

theorem bytesAsChars_singleton {c : Char} (h : isForeign c = false) : bytesAsChars [c] = [c] := by
  have hlt : c.toNat < 128 := Nat.not_le.1 (of_decide_eq_false h)
  have hbyte : (UInt8.ofNat c.toNat).toNat = c.toNat := by
    rw [UInt8.toNat_ofNat']
    omega
  rw [bytesAsChars, bytes_cons, encode_of_lt hlt]
  show [Char.ofNat (UInt8.ofNat c.toNat).toNat] = [c]
  rw [hbyte, Char.ofNat_toNat]

/-- A character of ASCII is its own byte. -/
theorem bytesAsChars_of_ascii (h : ∀ c ∈ s, isForeign c = false) : bytesAsChars s = s := by
  induction s with
  | nil => rfl
  | cons c s ih =>
      rw [bytesAsChars_cons, bytesAsChars_singleton (h c List.mem_cons_self),
        ih fun d hd => h d (List.mem_cons_of_mem c hd)]
      rfl

/-- Another has several bytes, and none of them is of ASCII. -/
theorem weight_bytesAsChars_singleton {c : Char} (h : isForeign c = true) :
    weight [c] < weight (bytesAsChars [c]) := by
  have hfor : ∀ b : UInt8, 0x80 ≤ b → isForeign (Char.ofNat b.toNat) = true := by
    intro b hb
    have hle : 128 ≤ b.toNat := hb
    have hvalid : b.toNat.isValidChar := .inl (Nat.lt_trans b.toNat_lt (by decide))
    rw [isForeign, Char.ofNat, dif_pos hvalid]
    exact decide_eq_true hle
  have hopening : ∀ d : Char, isForeign d = true → weight [d] = 1 := by
    intro d hd
    have hne : (d == '(') = false := beq_eq_false_iff_ne.2 (by rintro rfl; exact absurd hd (by decide))
    rw [weight, List.countP_singleton, List.countP_singleton, hd, hne]
    rfl
  have hall : ∀ bs : List UInt8, (∀ b ∈ bs, 0x80 ≤ b) →
      weight (bs.map fun b => Char.ofNat b.toNat) = bs.length := by
    intro bs hbs
    induction bs with
    | nil => rfl
    | cons b bs ih =>
        rw [List.map_cons, weight_cons, hopening _ (hfor b (hbs b List.mem_cons_self)),
          ih fun x hx => hbs x (List.mem_cons_of_mem b hx), List.length_cons]
        omega
  -- a foreign character has at least two bytes, and each becomes a foreign one
  rcases encode_cases c with ⟨hlt, -⟩ | ⟨-, a, b, tail, henc, ha, htail⟩
  · exact absurd (of_decide_eq_true h) (Nat.not_le.2 hlt)
  · have hbytes : bytesAsChars [c] = (a :: b :: tail).map fun b => Char.ofNat b.toNat := by
      rw [bytesAsChars, bytes_cons, henc, bytes_nil, List.append_nil]
    have hhigh : ∀ x ∈ a :: b :: tail, 0x80 ≤ x := by
      refine List.forall_mem_cons.2 ⟨UInt8.le_trans (by decide) ha, fun x hx => ?_⟩
      have hcont := htail x hx
      rw [isContinuation, Bool.and_eq_true] at hcont
      exact of_decide_eq_true hcont.1
    rw [hbytes, hall _ hhigh, hopening c h, List.length_cons, List.length_cons]
    omega

theorem weight_le_bytesAsChars (s : List Char) : weight s ≤ weight (bytesAsChars s) := by
  induction s with
  | nil => exact Int.le_refl _
  | cons c s ih =>
      rw [bytesAsChars_cons, weight_cons, weight_append]
      cases h : isForeign c with
      | false =>
          rw [bytesAsChars_singleton h]
          omega
      | true =>
          have hlt := weight_bytesAsChars_singleton h
          omega

/-- Only texts of ASCII keep their weight. -/
theorem ascii_of_weight_bytesAsChars (h : weight (bytesAsChars s) = weight s) :
    ∀ c ∈ s, isForeign c = false := by
  induction s with
  | nil => exact List.forall_mem_nil _
  | cons c s ih =>
      have hrest := weight_le_bytesAsChars s
      rw [bytesAsChars_cons, weight_append, weight_cons] at h
      cases hc : isForeign c with
      | false =>
          rw [bytesAsChars_singleton hc] at h
          exact List.forall_mem_cons.2 ⟨hc, ih (by omega)⟩
      | true =>
          have hlt := weight_bytesAsChars_singleton hc
          omega

end BytesAsChars

/-! ## The pass that drops lengths -/

/-- A character that may stand in a length. -/
def isDigitOrBlank (c : Char) : Bool := c.isDigit || isWhitespace c

/-- No length begins anywhere in the text. -/
def NoLength (s : List Char) : Prop :=
  ∀ rest, '(' :: rest <:+ s → looksLikeLength ('(' :: rest) = none

section Lengths

variable {s inner rest : List Char}

theorem NoLength.of_suffix {s' : List Char} (h : NoLength s) (hsuffix : s' <:+ s) :
    NoLength s' :=
  fun rest hrest => h rest (hrest.trans hsuffix)

theorem closing_append (hinner : ∀ c ∈ inner, isDigitOrBlank c = true) (rest : List Char) :
    closing (inner ++ ')' :: rest) = some (inner.length + 1) := by
  induction inner with
  | nil => rfl
  | cons c inner ih =>
      have hc := hinner c List.mem_cons_self
      have hne : c ≠ ')' := by
        rintro rfl
        exact absurd hc (by decide)
      have hok : (!c.isDigit && !isWhitespace c) = false := by
        rw [← Bool.not_or]
        exact congrArg not hc
      rw [List.cons_append, closing, if_neg hne, if_neg (Bool.eq_false_iff.1 hok),
        ih fun d hd => hinner d (List.mem_cons_of_mem c hd)]
      rfl

theorem closing_eq_some {n : Nat} (h : closing s = some n) :
    ∃ inner rest, s = inner ++ ')' :: rest ∧ n = inner.length + 1 ∧
      ∀ c ∈ inner, isDigitOrBlank c = true := by
  induction s generalizing n with
  | nil => cases h
  | cons c s ih =>
      rw [closing] at h
      split at h
      · rename_i hc
        cases h
        exact ⟨[], s, by rw [hc]; rfl, rfl, List.forall_mem_nil _⟩
      · split at h
        · cases h
        · rename_i hok
          obtain ⟨m, hm, rfl⟩ := Option.map_eq_some_iff.1 h
          obtain ⟨inner, rest, rfl, rfl, hinner⟩ := ih hm
          refine ⟨c :: inner, rest, rfl, rfl, List.forall_mem_cons.2 ⟨?_, hinner⟩⟩
          rwa [← Bool.not_or, Bool.not_eq_true, Bool.not_eq_false'] at hok

/-- A character that may not stand in a length ends the search. -/
theorem closing_append_cons {c : Char} (hc : isDigitOrBlank c = false) (hne : c ≠ ')')
    (h : closing s = none) (rest : List Char) : closing (s ++ c :: rest) = none := by
  induction s with
  | nil =>
      have hstop : (!c.isDigit && !isWhitespace c) = true := by
        rw [← Bool.not_or]
        exact congrArg not hc
      rw [List.nil_append, closing, if_neg hne, if_pos hstop]
  | cons d s ih =>
      rw [closing] at h
      rw [List.cons_append, closing]
      split at h
      · cases h
      · rename_i hd
        rw [if_neg hd]
        split at h
        · rename_i hstop
          rw [if_pos hstop]
        · rename_i hok
          rw [if_neg hok, ih (Option.map_eq_none_iff.1 h)]
          rfl

theorem dropLengthsAfter_append (u s : List Char) :
    dropLengthsAfter u.length (u ++ s) = dropLengths s := by
  induction u with
  | nil => rfl
  | cons c u ih => exact ih

theorem dropLengths_length (hinner : ∀ c ∈ inner, isDigitOrBlank c = true) (rest : List Char) :
    dropLengths ('(' :: (inner ++ ')' :: rest)) = dropLengths rest := by
  have hlooks : looksLikeLength ('(' :: (inner ++ ')' :: rest)) = some (inner.length + 2) := by
    rw [looksLikeLength, closing_append hinner]
    rfl
  have hcut : inner ++ ')' :: rest = (inner ++ [')']) ++ rest := by
    rw [List.append_assoc]
    rfl
  have hlength : inner.length + 2 - 1 = (inner ++ [')']).length := by
    rw [List.length_append]
    rfl
  rw [dropLengths, dropLengthsAfter, if_pos rfl, hlooks]
  show dropLengthsAfter (inner.length + 2 - 1) _ = _
  rw [hlength, hcut, dropLengthsAfter_append]

theorem dropLengths_cons {c : Char} (h : c = '(' → looksLikeLength (c :: s) = none) :
    dropLengths (c :: s) = c :: dropLengths s := by
  rw [dropLengths, dropLengthsAfter]
  split
  · rename_i hc
    rw [h hc]
    rfl
  · rfl

/-- A text is passed length by length, and else one character at a time. -/
theorem dropLengths_induction {motive : List Char → Prop} (nil : motive [])
    (length : ∀ inner rest, (∀ c ∈ inner, isDigitOrBlank c = true) → motive rest →
      motive ('(' :: (inner ++ ')' :: rest)))
    (other : ∀ c rest, (c = '(' → looksLikeLength (c :: rest) = none) → motive rest →
      motive (c :: rest)) (s : List Char) : motive s := by
  induction hn : s.length using Nat.strong_induction_on generalizing s with
  | _ n ih =>
      cases s with
      | nil => exact nil
      | cons c s =>
          rw [List.length_cons] at hn
          have hother : (c = '(' → looksLikeLength (c :: s) = none) → motive (c :: s) := fun h =>
            other c s h (ih s.length (by omega) s rfl)
          by_cases hc : c = '('
          · cases hclosing : closing s with
            | none =>
                refine hother fun _ => ?_
                rw [looksLikeLength, hclosing]
                rfl
            | some m =>
                obtain ⟨inner, rest, rfl, -, hinner⟩ := closing_eq_some hclosing
                rw [List.length_append, List.length_cons] at hn
                rw [hc]
                exact length inner rest hinner (ih rest.length (by omega) rest rfl)
          · exact hother fun h => absurd h hc

/-- No length goes on over a character that may not stand in one. -/
theorem dropLengths_append_cons {c : Char} (hc : isDigitOrBlank c = false) (hne : c ≠ ')')
    (a b : List Char) : dropLengths (a ++ c :: b) = dropLengths a ++ dropLengths (c :: b) := by
  induction a using dropLengths_induction with
  | nil => rfl
  | length inner rest hinner ih =>
      -- a length of the first text ends in it, whatever follows
      rw [dropLengths_length hinner, ← ih, List.cons_append, List.append_assoc, List.cons_append,
        dropLengths_length hinner]
  | other d rest hd ih =>
      -- and what is none does not become one: the search stops at the character
      have hover : d = '(' → looksLikeLength (d :: (rest ++ c :: b)) = none := by
        intro h
        have hnone := hd h
        rw [looksLikeLength, Option.map_eq_none_iff] at hnone ⊢
        exact closing_append_cons hc hne hnone b
      rw [List.cons_append, dropLengths_cons hover, dropLengths_cons hd, ih, List.cons_append]

/-- A text without parentheses is passed. -/
theorem dropLengths_append_of_no_opening (h : '(' ∉ s) (rest : List Char) :
    dropLengths (s ++ rest) = s ++ dropLengths rest := by
  induction s with
  | nil => rfl
  | cons c s ih =>
      rw [List.mem_cons, not_or] at h
      rw [List.cons_append, dropLengths_cons fun hc => absurd hc.symm h.1, ih h.2, List.cons_append]

theorem dropLengths_of_noLength (h : NoLength s) : dropLengths s = s := by
  induction s with
  | nil => rfl
  | cons c s ih =>
      rw [dropLengths_cons fun hc => ?_, ih (h.of_suffix (List.suffix_cons c s))]
      rw [hc] at h ⊢
      exact h s List.suffix_rfl

theorem uncounted_of_digitOrBlank {c : Char} (h : isDigitOrBlank c = true) :
    isForeign c = false ∧ c ≠ '(' := by
  rw [isDigitOrBlank, Bool.or_eq_true] at h
  rcases h with hdigit | hblank
  · rw [Char.isDigit, Bool.and_eq_true, decide_eq_true_eq, decide_eq_true_eq] at hdigit
    have hlow : 48 ≤ c.toNat := hdigit.1
    have hhigh : c.toNat ≤ 57 := hdigit.2
    refine ⟨decide_eq_false (by omega), ?_⟩
    rintro rfl
    exact absurd hlow (by decide)
  · simp only [isWhitespace, Bool.or_eq_true, decide_eq_true_eq] at hblank
    rcases hblank with (((rfl | rfl) | rfl) | rfl) | rfl <;> exact ⟨by decide, by decide⟩

theorem weight_length (hinner : ∀ c ∈ inner, isDigitOrBlank c = true) (rest : List Char) :
    weight ('(' :: (inner ++ ')' :: rest)) = weight rest - 1 := by
  have hzero : weight inner = 0 := weight_eq_zero fun c hc => uncounted_of_digitOrBlank (hinner c hc)
  have hopening : weight ['('] = -1 := rfl
  have hclosing : weight [')'] = 0 := rfl
  rw [weight_cons, weight_append, weight_cons ')', hzero, hopening, hclosing]
  omega

/-- The pass drops nothing, or there is more of the text's weight. -/
theorem dropLengths_cases (s : List Char) :
    (NoLength s ∧ dropLengths s = s) ∨ weight s < weight (dropLengths s) := by
  induction s using dropLengths_induction with
  | nil => exact .inl ⟨fun rest h => absurd (List.suffix_nil.1 h) (List.cons_ne_nil _ _), rfl⟩
  | length inner rest hinner ih =>
      rw [dropLengths_length hinner, weight_length hinner]
      rcases ih with ⟨-, hsame⟩ | hmore
      · rw [hsame]
        exact .inr (by omega)
      · exact .inr (by omega)
  | other c rest hc ih =>
      rw [dropLengths_cons hc]
      rcases ih with ⟨hno, hsame⟩ | hmore
      · refine .inl ⟨fun tail htail => ?_, by rw [hsame]⟩
        rcases List.suffix_cons_iff.1 htail with heq | hsuffix
        · obtain ⟨rfl, rfl⟩ := List.cons.inj heq
          exact hc rfl
        · exact hno tail hsuffix
      · rw [weight_cons c rest, weight_cons c (dropLengths rest)]
        exact .inr (by omega)

end Lengths

/-! ## The pass behind the types -/

section Strip

variable {s : List Char}

theorem stripLengthSpecifiers_matched {t after : List Char} (h : matchedType s = some t)
    (hs : s = t ++ after) : stripLengthSpecifiers s =
      t ++ after.takeWhile isWhitespace ++
        stripLengthSpecifiers (afterLength (after.dropWhile isWhitespace)) := by
  cases s with
  | nil =>
      have hpos := length_pos_of_mem_strictTypes t (matchedType_spec h).1
      rw [(List.append_eq_nil_iff.1 hs.symm).1] at hpos
      exact absurd hpos (Nat.lt_irrefl 0)
  | cons c rest =>
      rw [stripLengthSpecifiers]
      split
      · rename_i t' ht'
        rw [h] at ht'
        cases ht'
        rw [hs, List.drop_left]
      · rename_i hnone
        rw [h] at hnone
        cases hnone

theorem stripLengthSpecifiers_cons {c : Char} (h : matchedType (c :: s) = none) :
    stripLengthSpecifiers (c :: s) = c :: stripLengthSpecifiers s := by
  rw [stripLengthSpecifiers]
  split
  · rename_i t ht
    rw [h] at ht
    cases ht
  · rfl

/-- A text is passed type by type, and else one character at a time. -/
theorem strip_induction {motive : List Char → Prop} (nil : motive [])
    (matched : ∀ s t blanks tail, matchedType s = some t → s = t ++ (blanks ++ tail) →
      stripLengthSpecifiers s = t ++ blanks ++ stripLengthSpecifiers (afterLength tail) →
      motive (afterLength tail) → motive s)
    (other : ∀ c rest, matchedType (c :: rest) = none → motive rest → motive (c :: rest))
    (s : List Char) : motive s := by
  induction hn : s.length using Nat.strong_induction_on generalizing s with
  | _ n ih =>
      cases hmatched : matchedType s with
      | none =>
          cases s with
          | nil => exact nil
          | cons c rest =>
              rw [List.length_cons] at hn
              exact other c rest hmatched (ih rest.length (by omega) rest rfl)
      | some t =>
          obtain ⟨hmem, after, hs⟩ := matchedType_spec hmatched
          have hsplit : s = t ++ (after.takeWhile isWhitespace ++ after.dropWhile isWhitespace) := by
            rw [List.takeWhile_append_dropWhile, hs]
          refine matched s t _ _ hmatched hsplit
            (stripLengthSpecifiers_matched hmatched hs.symm) (ih _ ?_ _ rfl)
          have hpos := length_pos_of_mem_strictTypes t hmem
          have hle := length_afterLength_le (after.dropWhile isWhitespace)
          have hlength := congrArg List.length hsplit
          rw [List.length_append, List.length_append] at hlength
          omega

/-- Behind blanks a length is dropped, or nothing. -/
theorem afterLength_cases (s : List Char) :
    afterLength s = s ∨ weight (afterLength s) = weight s + 1 := by
  rw [afterLength]
  split
  · rename_i hhead
    split
    · rename_i relEnd hlooks
      cases s with
      | nil => cases hhead
      | cons c rest =>
          cases hhead
          obtain ⟨n, hn, rfl⟩ := Option.map_eq_some_iff.1 hlooks
          obtain ⟨inner, tail, rfl, rfl, hinner⟩ := closing_eq_some hn
          have hcut : inner ++ ')' :: tail = (inner ++ [')']) ++ tail := by
            rw [List.append_assoc]
            rfl
          have hlength : (inner ++ [')']).length = inner.length + 1 := List.length_append
          refine .inr ?_
          rw [weight_length hinner, List.drop_succ_cons, hcut, ← hlength, List.drop_left]
          omega
    · exact .inl rfl
  · exact .inl rfl

theorem afterLength_of_noLength (h : NoLength s) : afterLength s = s := by
  rw [afterLength]
  split
  · rename_i hhead
    cases s with
    | nil => rfl
    | cons c rest =>
        cases hhead
        rw [h rest List.suffix_rfl]
  · rfl

theorem strip_of_noLength (h : NoLength s) : stripLengthSpecifiers s = s := by
  induction s using strip_induction with
  | nil => rw [stripLengthSpecifiers]
  | matched s t blanks tail _ hs hstrip ih =>
      have htail : NoLength tail := by
        refine h.of_suffix ?_
        rw [hs, ← List.append_assoc]
        exact List.suffix_append (t ++ blanks) tail
      rw [afterLength_of_noLength htail] at hstrip ih
      rw [hstrip, ih htail, hs, List.append_assoc]
  | other c rest hnone ih =>
      rw [stripLengthSpecifiers_cons hnone, ih (h.of_suffix (List.suffix_cons c rest))]

/-- The pass drops nothing, or there is more of the text's weight. -/
theorem strip_cases (s : List Char) :
    stripLengthSpecifiers s = s ∨ weight s < weight (stripLengthSpecifiers s) := by
  induction s using strip_induction with
  | nil => exact .inl (by rw [stripLengthSpecifiers])
  | matched s t blanks tail _ hs hstrip ih =>
      have hafter := afterLength_cases tail
      have hweight : weight s = weight (t ++ blanks) + weight tail := by
        rw [hs, ← List.append_assoc, weight_append]
      rw [hstrip, weight_append, hweight]
      -- a length that is dropped here makes up for nothing that is dropped later
      rcases hafter with hsame | hmore
      · rw [hsame] at ih ⊢
        rcases ih with heq | hlt
        · rw [heq, hs, List.append_assoc]
          exact .inl rfl
        · exact .inr (by omega)
      · rcases ih with heq | hlt
        · rw [heq]
          exact .inr (by omega)
        · exact .inr (by omega)
  | other c rest hnone ih =>
      rw [stripLengthSpecifiers_cons hnone]
      rcases ih with heq | hlt
      · exact .inl (by rw [heq])
      · rw [weight_cons c rest, weight_cons c (stripLengthSpecifiers rest)]
        exact .inr (by omega)

end Strip

/-! ## The replacements -/

/-- The order in which each replacement is smaller where it first differs from its word. -/
def rank (c : Char) : Nat :=
  if c.isLower then 4
  else if c = 'E' ∨ c = 'L' ∨ c = 'R' then 0
  else if c = 'I' then 1
  else if c = 'T' then 2
  else 3

/-- Where two texts first differ, the first has the smaller character. -/
def isBelow : List Char → List Char → Bool
  | c :: x, d :: y => if c = d then isBelow x y else rank c < rank d
  | _, _ => false

theorem below_of_isBelow {x y : List Char} (h : isBelow x y = true) : Below rank x y := by
  induction x generalizing y with
  | nil => cases h
  | cons c x ih =>
      cases y with
      | nil => cases h
      | cons d y =>
          rw [isBelow] at h
          split at h
          · rename_i hcd
            rw [hcd]
            exact (ih h).cons d
          · exact ⟨[], c, d, x, y, rfl, rfl, of_decide_eq_true h⟩

theorem rewrites_below : ∀ e ∈ rewrites, Below rank e.2 e.1 :=
  have hall : ∀ e ∈ rewrites, isBelow e.2 e.1 = true := by decide
  fun e he => below_of_isBelow (hall e he)

theorem rewrites_ne_nil : ∀ e ∈ rewrites, e.1 ≠ [] := fun e he => (rewrites_below e he).ne_nil

theorem weight_rewrites : ∀ e ∈ rewrites, weight e.2 = weight e.1 := by decide

theorem weight_replaceAll (s : List Char) : weight (replaceAll rewrites s) = weight s :=
  replaceAll_keeps (motive := fun x => weight x = weight s)
    (fun e he x hx => (measure_replace weight_append (rewrites_ne_nil e he)
      (weight_rewrites e he) x).trans hx) rfl

end StrictTypes
