import Livtet.Pairing

/-! # ISBNs in canonical form

    `Isbn::parse` accepts ISBN-10 and ISBN-13 text with hyphens, spaces and an
    optional prefix, checks the checksum and answers with the thirteen digits. -/

namespace Isbn

open SyncPairing (isWhitespace trim isWhitespace_of_isAlphanum trim_of_alphanum toLower_cases)

inductive IsbnError
  | empty
  | invalidLength (length : Nat)
  | invalidCharacter (c : Char)
  | invalidChecksum10
  | invalidChecksum13
deriving DecidableEq, Repr

/-- `to_ascii_lowercase` keeps every character's place, so the rest of the text is
    what follows as many characters. -/
def stripIsbnPrefix (s : List Char) : List Char :=
  match ["isbn-13:", "isbn-10:", "isbn:"].find? fun p =>
      p.toList.isPrefixOf (s.map Char.toLower) with
  | some p => s.drop p.length
  | none => s

def clean (s : String) : List Char :=
  (stripIsbnPrefix (trim s).toList).filter fun c => !isWhitespace c && c != '-'

def isIsbnChar (c : Char) : Bool := c.isDigit || c == 'X' || c == 'x'

/-- `c.to_digit(10).unwrap_or(0)`. -/
def digit (c : Char) : Nat := if c.isDigit then c.toNat - '0'.toNat else 0

def isValidIsbn10 (cs : List Char) : Bool :=
  match cs with
  | [_, _, _, _, _, _, _, _, _, last] =>
      let nine := cs.take 9
      let sum := (nine.mapIdx fun i c => digit c * (10 - i)).sum
      let lastValue := if last == 'X' || last == 'x' then 10 else digit last
      nine.all Char.isDigit && (last.isDigit || last == 'X' || last == 'x') &&
        (sum + lastValue) % 11 == 0
  | _ => false

/-- Digits weighted one and three in turn. -/
def isbn13Sum (cs : List Char) : Nat :=
  (cs.mapIdx fun i c => digit c * if i % 2 = 0 then 1 else 3).sum

def isValidIsbn13 (cs : List Char) : Bool :=
  cs.length == 13 && cs.all Char.isDigit && isbn13Sum cs % 10 == 0

def isbn13CheckDigit (twelve : List Char) : Char :=
  Nat.digitChar ((10 - isbn13Sum twelve % 10) % 10)

def upgradeIsbn10To13 (isbn10 : List Char) : List Char :=
  let twelve := "978".toList ++ isbn10.take 9
  twelve ++ [isbn13CheckDigit twelve]

/-- `Isbn::parse`, answering with the canonical text. -/
def parse (s : String) : Except IsbnError String :=
  let cleaned := clean s
  if cleaned.isEmpty then .error .empty
  else match cleaned.find? fun c => !isIsbnChar c with
    | some bad => .error (.invalidCharacter bad)
    | none =>
        match cleaned.length with
        | 10 =>
            if isValidIsbn10 cleaned then .ok (String.ofList (upgradeIsbn10To13 cleaned))
            else .error .invalidChecksum10
        | 13 =>
            if isValidIsbn13 cleaned then .ok (String.ofList cleaned)
            else .error .invalidChecksum13
        | other => .error (.invalidLength other)

/-! ## Canonical texts -/

theorem isAlphanum_of_isDigit {c : Char} (h : c.isDigit = true) : c.isAlphanum = true := by
  rw [Char.isAlphanum, h, Bool.or_true]

theorem ne_of_isDigit {c d : Char} (h : c.isDigit = true) (hd : d.isDigit = false) : c ≠ d := by
  rintro rfl
  rw [h] at hd
  cases hd

theorem toLower_of_isDigit {c : Char} (h : c.isDigit = true) : c.toLower = c := by
  rw [Char.isDigit, Bool.and_eq_true, decide_eq_true_eq, decide_eq_true_eq] at h
  have hhigh : c.val.toNat ≤ 57 := h.2
  refine (toLower_cases c).resolve_right ?_
  rintro ⟨hlow, _⟩
  omega

theorem digit_digitChar {n : Nat} (h : n < 10) : digit (Nat.digitChar n) = n := by
  revert n
  decide

theorem isDigit_digitChar {n : Nat} (h : n < 10) : (Nat.digitChar n).isDigit = true := by
  revert n
  decide

/-- Every prefix starts with the same letter. -/
theorem stripIsbnPrefix_cons {d : Char} {cs : List Char} (hd : d.toLower ≠ 'i') :
    stripIsbnPrefix (d :: cs) = d :: cs := by
  have hfails : ∀ p : List Char, ('i' :: p).isPrefixOf (d.toLower :: cs.map Char.toLower) =
      false := by
    intro p
    rw [List.isPrefixOf, beq_eq_false_iff_ne.2 hd.symm, Bool.false_and]
  have hnone : (["isbn-13:", "isbn-10:", "isbn:"].find? fun p =>
      p.toList.isPrefixOf ((d :: cs).map Char.toLower)) = none := by
    refine List.find?_eq_none.2 fun p hp => ?_
    rw [Bool.not_eq_true, List.map_cons]
    simp only [List.mem_cons, List.not_mem_nil, or_false] at hp
    rcases hp with rfl | rfl | rfl <;> exact hfails _
  rw [stripIsbnPrefix, hnone]

section Digits

variable {ds : List Char}

theorem stripIsbnPrefix_digits (hds : ∀ c ∈ ds, c.isDigit = true) : stripIsbnPrefix ds = ds := by
  cases ds with
  | nil => rfl
  | cons d ds =>
      have hd := hds d List.mem_cons_self
      refine stripIsbnPrefix_cons ?_
      rw [toLower_of_isDigit hd]
      exact ne_of_isDigit hd (by decide)

theorem clean_ofList (hds : ∀ c ∈ ds, c.isDigit = true) : clean (String.ofList ds) = ds := by
  have htrim : trim (String.ofList ds) = String.ofList ds := by
    refine trim_of_alphanum fun c hc => ?_
    rw [String.toList_ofList] at hc
    exact isAlphanum_of_isDigit (hds c hc)
  rw [clean, htrim, String.toList_ofList, stripIsbnPrefix_digits hds]
  refine List.filter_eq_self.2 fun c hc => ?_
  have hne : c ≠ '-' := ne_of_isDigit (hds c hc) (by decide)
  simp [isWhitespace_of_isAlphanum (isAlphanum_of_isDigit (hds c hc)), hne]

theorem isValidIsbn13_iff : isValidIsbn13 ds = true ↔
    ds.length = 13 ∧ (∀ c ∈ ds, c.isDigit = true) ∧ isbn13Sum ds % 10 = 0 := by
  rw [isValidIsbn13, Bool.and_eq_true, Bool.and_eq_true, beq_iff_eq, beq_iff_eq, List.all_eq_true,
    and_assoc]

/-- Thirteen digits with their checksum are read as they are. -/
theorem parse_ofList (hvalid : isValidIsbn13 ds = true) :
    parse (String.ofList ds) = .ok (String.ofList ds) := by
  obtain ⟨hlength, hdigits, _⟩ := isValidIsbn13_iff.1 hvalid
  have hnone : ds.find? (fun c => !isIsbnChar c) = none := by
    refine List.find?_eq_none.2 fun c hc => ?_
    simp [isIsbnChar, hdigits c hc]
  have hne : ds.isEmpty = false := by
    cases ds with
    | nil => cases hlength
    | cons d ds => rfl
  simp only [parse, clean_ofList hdigits, hne, hnone, hlength, hvalid]
  rfl

/-- The thirteenth digit makes up the checksum. -/
theorem isValidIsbn13_append_checkDigit (hlength : ds.length = 12)
    (hds : ∀ c ∈ ds, c.isDigit = true) :
    isValidIsbn13 (ds ++ [isbn13CheckDigit ds]) = true := by
  have hlt : (10 - isbn13Sum ds % 10) % 10 < 10 := Nat.mod_lt _ (by decide)
  have hsum : isbn13Sum (ds ++ [isbn13CheckDigit ds]) =
      isbn13Sum ds + (10 - isbn13Sum ds % 10) % 10 := by
    rw [isbn13Sum, List.mapIdx_append, List.sum_append]
    simp only [hlength, List.mapIdx_cons, List.mapIdx_nil, List.sum_cons, List.sum_nil,
      isbn13CheckDigit, digit_digitChar hlt, if_true, Nat.mul_one, Nat.add_zero]
    rfl
  rw [isValidIsbn13_iff]
  refine ⟨by rw [List.length_append, hlength]; rfl, fun c hc => ?_, by omega⟩
  rcases List.mem_append.1 hc with hc | hc
  · exact hds c hc
  · rw [List.mem_singleton] at hc
    rw [hc]
    exact isDigit_digitChar hlt

theorem isValidIsbn13_upgrade (h : isValidIsbn10 ds = true) :
    isValidIsbn13 (upgradeIsbn10To13 ds) = true := by
  rw [isValidIsbn10.eq_def] at h
  split at h
  · simp only [Bool.and_eq_true, List.all_eq_true] at h
    refine isValidIsbn13_append_checkDigit rfl fun c hc => ?_
    rcases List.mem_append.1 hc with hc | hc
    · have hletter : "978".toList.all Char.isDigit = true := by decide
      exact List.all_eq_true.1 hletter c hc
    · exact h.1.1 c hc
  · cases h

end Digits

/-- What the parser answers with is thirteen digits with their checksum. -/
theorem exists_valid_of_parse {s c : String} (h : parse s = .ok c) :
    ∃ ds, isValidIsbn13 ds = true ∧ c = String.ofList ds := by
  simp only [parse] at h
  split at h
  · cases h
  · split at h
    · cases h
    · split at h
      · split at h
        · rename_i hvalid
          exact ⟨_, isValidIsbn13_upgrade hvalid, (Except.ok.inj h).symm⟩
        · cases h
      · split at h
        · rename_i hvalid
          exact ⟨_, hvalid, (Except.ok.inj h).symm⟩
        · cases h
      · cases h

/-- A canonical text is its own canonical text. -/
theorem parse_parse {s c : String} (h : parse s = .ok c) : parse c = .ok c := by
  obtain ⟨ds, hvalid, rfl⟩ := exists_valid_of_parse h
  exact parse_ofList hvalid

/-! ## Names that are no ISBN -/

/-- A text keeps its first character if that is not blank. -/
theorem trim_cons {c : Char} {cs : List Char} (hc : isWhitespace c = false) :
    ∃ rest, (trim (String.ofList (c :: cs))).toList = c :: rest := by
  have hlast : ∃ front, (cs.reverse ++ [c]).dropWhile isWhitespace = front ++ [c] := by
    rw [List.dropWhile_append]
    split
    · exact ⟨[], by rw [List.dropWhile_cons, hc]; rfl⟩
    · exact ⟨_, rfl⟩
  obtain ⟨front, hfront⟩ := hlast
  refine ⟨front.reverse, ?_⟩
  rw [trim, String.toList_ofList, String.toList_ofList, List.dropWhile_cons, hc]
  simp only [Bool.false_eq_true, if_false]
  rw [List.reverse_cons, hfront, List.reverse_append]
  rfl

/-- A text that starts with a letter no ISBN has, and no prefix, is refused. -/
theorem parse_cons {c : Char} {cs : List Char} (hblank : isWhitespace c = false)
    (hdash : c ≠ '-') (hletter : c.toLower ≠ 'i') (hbad : isIsbnChar c = false) :
    parse (String.ofList (c :: cs)) = .error (.invalidCharacter c) := by
  obtain ⟨rest, hrest⟩ : ∃ rest, (trim (String.ofList (c :: cs))).toList = c :: rest :=
    trim_cons hblank
  have hclean : ∃ cs', clean (String.ofList (c :: cs)) = c :: cs' := by
    rw [clean, hrest, stripIsbnPrefix_cons hletter, List.filter_cons]
    simp [hblank, hdash]
  obtain ⟨cs', hclean⟩ := hclean
  simp only [parse, hclean, List.isEmpty_cons, List.find?_cons, hbad]
  rfl

/-- A URN is refused, whatever it names. -/
theorem parse_urn (s : String) : parse ("urn:isbn:" ++ s) = .error (.invalidCharacter 'u') := by
  have hchars : "urn:isbn:" ++ s = String.ofList ('u' :: ("rn:isbn:" ++ s).toList) := by
    rw [← String.toList_inj, String.toList_ofList, String.toList_append, String.toList_append]
    rfl
  rw [hchars]
  exact parse_cons (by decide) (by decide) (by decide) (by decide)

end Isbn
