import Livtet.Composition

/-! # The names of placeholders

    A name is a reserved word, an offset (a unit, a colon, one sign and a number), or any
    other text without blanks; it is tried as each in this order, after a trim.

    The number is read by a parser that takes a sign of its own, and only three of the
    blanks are looked for. A text is read as the grammar says exactly if it has no second
    sign and no other blank (`parsesGrammar_iff`); what is read is written back as a text
    that is read the same. -/

namespace Placeholder

open SavedSearch SyncPairing

def signToken : DateOffsetSign → Char
  | .plus => '+'
  | .minus => '-'

/-- `Display`. -/
def display : PlaceholderName → String
  | .reserved r => r.asToken
  | .dateOffset unit sign amount =>
      unit.asToken ++ ":" ++ String.singleton (signToken sign) ++ toString amount
  | .user name => name

/-! ## The tokens -/

theorem reserved_fromStr_iff {s : String} {r : ReservedPlaceholder} :
    ReservedPlaceholder.fromStr s = some r ↔ s = r.asToken := by
  constructor
  · intro h
    have hfound : (r.asToken == s) = true :=
      List.find?_some (p := fun r : ReservedPlaceholder => r.asToken == s) h
    exact (beq_iff_eq.1 hfound).symm
  · rintro rfl
    cases r <;> rfl

theorem unit_fromStr_iff {s : String} {unit : DateUnit} :
    DateUnit.fromStr s = some unit ↔ s = unit.asToken := by
  constructor
  · intro h
    have hfound : (unit.asToken == s) = true :=
      List.find?_some (p := fun u : DateUnit => u.asToken == s) h
    exact (beq_iff_eq.1 hfound).symm
  · rintro rfl
    cases unit <;> rfl

theorem fromToken_iff {c : Char} {sign : DateOffsetSign} :
    DateOffsetSign.fromToken c = .ok sign ↔ c = signToken sign := by
  rw [DateOffsetSign.fromToken]
  constructor
  · intro h
    split at h
    next hplus =>
      cases h
      exact hplus
    next =>
      split at h
      next hminus =>
        cases h
        exact hminus
      next => cases h
  · rintro rfl
    cases sign <;> rfl

theorem colon_not_mem_reserved (r : ReservedPlaceholder) : ':' ∉ r.asToken.toList := by
  cases r <;> decide

theorem colon_not_mem_unit (unit : DateUnit) : ':' ∉ unit.asToken.toList := by
  cases unit <;> decide

theorem splitColon_append {before : List Char} (h : ':' ∉ before) (after : List Char) :
    splitColon (before ++ ':' :: after) = some (before, after) := by
  induction before with
  | nil => rfl
  | cons c before ih =>
      obtain ⟨hc, hbefore⟩ := not_or.1 (mt List.mem_cons.2 h)
      rw [List.cons_append, splitColon, if_neg (Ne.symm hc), ih hbefore]
      rfl

theorem eq_of_splitColon {cs before after : List Char}
    (h : splitColon cs = some (before, after)) : cs = before ++ ':' :: after := by
  induction cs generalizing before with
  | nil => cases h
  | cons c rest ih =>
      rw [splitColon] at h
      split at h
      next hc =>
        cases h
        rw [hc]
        rfl
      next =>
        obtain ⟨p, hp, heq⟩ := Option.map_eq_some_iff.1 h
        cases heq
        rw [ih hp]
        rfl

/-- The unit before the colon, and what is after it. -/
def unitOf (cs : List Char) : Option (DateUnit × List Char) :=
  (splitColon cs).bind fun p =>
    (DateUnit.fromStr (String.ofList p.1)).map fun unit => (unit, p.2)

theorem unitOf_iff {cs rest : List Char} {unit : DateUnit} :
    unitOf cs = some (unit, rest) ↔ cs = unit.asToken.toList ++ ':' :: rest := by
  constructor
  · intro h
    obtain ⟨⟨before, after⟩, hsplit, h⟩ := Option.bind_eq_some_iff.1 h
    obtain ⟨unit', hunit, heq⟩ := Option.map_eq_some_iff.1 h
    cases heq
    rw [← unit_fromStr_iff.1 hunit, String.toList_ofList]
    exact eq_of_splitColon hsplit
  · rintro rfl
    rw [unitOf, splitColon_append (colon_not_mem_unit unit), Option.bind_some,
      String.ofList_toList, unit_fromStr_iff.2 rfl]
    rfl

/-! ## The number -/

/-- Digits of a number that fits. -/
def IsNumber (digits : List Char) (n : Nat) : Prop :=
  digits ≠ [] ∧ (∀ c ∈ digits, c.isDigit = true) ∧ Nat.ofDigitChars 10 digits 0 = n ∧
    n < 4294967296

theorem number_iff {digits : List Char} {n bound : Nat} (hbound : bound = 4294967296) :
    (if digits.isEmpty || !digits.all Char.isDigit then none
      else if Nat.ofDigitChars 10 digits 0 < bound then some (Nat.ofDigitChars 10 digits 0)
      else none) = some n ↔ IsNumber digits n := by
  rw [IsNumber]
  constructor
  · intro h
    split at h
    next => cases h
    next hdigits =>
      split at h
      next hlt =>
        rw [Bool.or_eq_true, not_or, List.isEmpty_iff, Bool.not_eq_true', Bool.not_eq_false,
          List.all_eq_true] at hdigits
        cases h
        exact ⟨hdigits.1, hdigits.2, rfl, hbound ▸ hlt⟩
      next => cases h
  · rintro ⟨hne, hdigits, rfl, hlt⟩
    rw [if_neg, if_pos (hbound ▸ hlt)]
    rw [Bool.or_eq_true, not_or, List.isEmpty_iff, Bool.not_eq_true', Bool.not_eq_false,
      List.all_eq_true]
    exact ⟨hne, hdigits⟩

/-- The parser takes a plus sign of its own. -/
theorem parseU32_iff {cs : List Char} {n : Nat} :
    parseU32 cs = some n ↔ IsNumber cs n ∨ ∃ digits, cs = '+' :: digits ∧ IsNumber digits n := by
  unfold parseU32
  dsimp only
  split
  next rest =>
    rw [number_iff (by decide)]
    constructor
    · exact fun h => Or.inr ⟨rest, rfl, h⟩
    · rintro (h | ⟨digits, heq, h⟩)
      · exact absurd (h.2.1 '+' List.mem_cons_self) (by decide)
      · cases heq
        exact h
  next hplus =>
    rw [number_iff (by decide)]
    constructor
    · exact Or.inl
    · rintro (h | ⟨digits, heq, _⟩)
      · exact h
      · exact absurd heq (hplus digits)

/-! ## The trim -/

/-- A text whose ends are not blank is left as it is. -/
theorem trim_of_ends {s : String} (hhead : ∀ c, s.toList.head? = some c → isWhitespace c = false)
    (hlast : ∀ c, s.toList.getLast? = some c → isWhitespace c = false) : trim s = s := by
  have hdrop : ∀ cs : List Char, (∀ c, cs.head? = some c → isWhitespace c = false) →
      cs.dropWhile isWhitespace = cs := by
    intro cs hcs
    cases cs with
    | nil => rfl
    | cons c cs => rw [List.dropWhile_cons, hcs c rfl, if_neg Bool.false_ne_true]
  rw [trim, hdrop _ hhead, hdrop, List.reverse_reverse, String.ofList_toList]
  intro c hc
  rw [List.head?_reverse] at hc
  exact hlast c hc

theorem head_dropWhile {l : List Char} {c : Char}
    (h : (l.dropWhile isWhitespace).head? = some c) : isWhitespace c = false := by
  have := List.head?_dropWhile_not isWhitespace l
  rw [h] at this
  exact this

@[simp] theorem trim_trim (s : String) : trim (trim s) = trim s := by
  have htrim : (trim s).toList =
      ((s.toList.dropWhile isWhitespace).reverse.dropWhile isWhitespace).reverse :=
    String.toList_ofList
  refine trim_of_ends (fun c hc => ?_) fun c hc => ?_
  · have hprefix : (trim s).toList <+: s.toList.dropWhile isWhitespace := by
      rw [htrim, ← List.reverse_suffix, List.reverse_reverse]
      exact List.dropWhile_suffix _
    obtain ⟨rest, hrest⟩ := hprefix
    refine head_dropWhile (l := s.toList) ?_
    rw [← hrest, List.head?_append, hc]
    rfl
  · rw [htrim, List.getLast?_reverse] at hc
    exact head_dropWhile hc

/-! ## Reading a name -/

/-- A unit, a colon, one sign and the digits of a number. -/
def OffsetForm (s : String) (unit : DateUnit) (sign : DateOffsetSign) (n : Nat) : Prop :=
  ∃ digits, s.toList = unit.asToken.toList ++ ':' :: signToken sign :: digits ∧
    IsNumber digits n ∧ 1 ≤ n

/-- The same with a plus sign before the digits. -/
def DoubleSign (s : String) : Prop :=
  ∃ (unit : DateUnit) (sign : DateOffsetSign) (digits : List Char) (n : Nat),
    s.toList = unit.asToken.toList ++ ':' :: signToken sign :: '+' :: digits ∧
      IsNumber digits n ∧ 1 ≤ n

/-- Starts as an offset does. -/
def HasUnit (s : String) : Prop :=
  ∃ (unit : DateUnit) (rest : List Char), s.toList = unit.asToken.toList ++ ':' :: rest

/-- Has none of the blanks that are looked for. -/
def NoKnownBlank (s : String) : Prop := ' ' ∉ s.toList ∧ '\n' ∉ s.toList ∧ '\t' ∉ s.toList

theorem fromStr_reserved_of_colon {s : String} (h : ':' ∈ s.toList) :
    ReservedPlaceholder.fromStr s = none := by
  cases hr : ReservedPlaceholder.fromStr s with
  | none => rfl
  | some r =>
      rw [reserved_fromStr_iff.1 hr] at h
      exact absurd h (colon_not_mem_reserved r)

theorem fromStr_of_empty {s : String} (h : trim s = "") :
    PlaceholderName.fromStr s = .error .empty := by
  unfold PlaceholderName.fromStr
  dsimp only
  rw [if_pos h]

/-- Where the reader goes, by the form of the trimmed text. -/
theorem fromStr_of_reserved {s : String} {r : ReservedPlaceholder} (h : trim s = r.asToken) :
    PlaceholderName.fromStr s = .ok (.reserved r) := by
  have hne : trim s ≠ "" := by
    rw [h]
    cases r <;> decide
  unfold PlaceholderName.fromStr
  dsimp only
  rw [if_neg hne, reserved_fromStr_iff.2 h]

theorem fromStr_of_unit {s : String} {unit : DateUnit} {rest : List Char}
    (h : (trim s).toList = unit.asToken.toList ++ ':' :: rest) :
    PlaceholderName.fromStr s = offsetAmount unit rest := by
  have hne : trim s ≠ "" := by
    intro hempty
    rw [hempty] at h
    exact absurd h.symm (List.append_ne_nil_of_right_ne_nil _ (List.cons_ne_nil _ _))
  have hcolon : ':' ∈ (trim s).toList := by
    rw [h]
    exact List.mem_append_right _ List.mem_cons_self
  have hunit : unitOf (trim s).toList = some (unit, rest) := unitOf_iff.2 h
  rw [unitOf] at hunit
  unfold PlaceholderName.fromStr
  dsimp only
  rw [if_neg hne, fromStr_reserved_of_colon hcolon]
  dsimp only
  rw [hunit]

theorem fromStr_of_rest {s : String} (hne : trim s ≠ "")
    (hreserved : ∀ r : ReservedPlaceholder, trim s ≠ r.asToken) (hunit : ¬ HasUnit (trim s)) : PlaceholderName.fromStr s =
      if (trim s).toList.any fun c => c == ' ' || c == '\n' || c == '\t' then
        .error .whitespaceInName
      else .ok (.user (trim s)) := by
  have hr : ReservedPlaceholder.fromStr (trim s) = none :=
    Option.eq_none_iff_forall_ne_some.2 fun r h => hreserved r (reserved_fromStr_iff.1 h)
  have hu : unitOf (trim s).toList = none :=
    Option.eq_none_iff_forall_ne_some.2 fun p h => hunit ⟨p.1, p.2, unitOf_iff.1 h⟩
  rw [unitOf] at hu
  unfold PlaceholderName.fromStr
  dsimp only
  rw [if_neg hne, hr]
  dsimp only
  rw [hu]

theorem offsetAmount_eq_ok_iff {unit : DateUnit} {cs : List Char} {name : PlaceholderName} :
    offsetAmount unit cs = .ok name ↔ ∃ sign digits n, cs = signToken sign :: digits ∧
      parseU32 digits = some n ∧ 1 ≤ n ∧ name = .dateOffset unit sign n := by
  constructor
  · intro h
    cases cs with
    | nil => cases h
    | cons c rest =>
        obtain ⟨sign, hsign, h⟩ := Outcomes.bind_eq_ok.1 h
        rw [fromToken_iff.1 hsign]
        cases hn : parseU32 rest with
        | none =>
            rw [hn] at h
            cases h
        | some n =>
            rw [hn] at h
            cases n with
            | zero => cases h
            | succ n =>
                cases h
                exact ⟨sign, rest, n + 1, rfl, hn, Nat.succ_pos n, rfl⟩
  · rintro ⟨sign, digits, n, rfl, hn, hpos, rfl⟩
    obtain ⟨m, rfl⟩ := Nat.exists_eq_succ_of_ne_zero (Nat.pos_iff_ne_zero.1 hpos)
    refine Outcomes.bind_eq_ok.2 ⟨sign, fromToken_iff.2 rfl, ?_⟩
    rw [hn]
    rfl

theorem fromStr_dateOffset_iff {s : String} {unit : DateUnit} {sign : DateOffsetSign} {n : Nat} :
    PlaceholderName.fromStr s = .ok (.dateOffset unit sign n) ↔
      ∃ digits, (trim s).toList = unit.asToken.toList ++ ':' :: signToken sign :: digits ∧
        parseU32 digits = some n ∧ 1 ≤ n := by
  constructor
  · intro h
    by_cases hunit : HasUnit (trim s)
    · obtain ⟨unit', rest, hrest⟩ := hunit
      rw [fromStr_of_unit hrest] at h
      obtain ⟨sign', digits, n', hdigits, hn, hpos, heq⟩ := offsetAmount_eq_ok_iff.1 h
      cases heq
      exact ⟨digits, by rw [hrest, hdigits], hn, hpos⟩
    · by_cases hne : trim s = ""
      · rw [fromStr_of_empty hne] at h
        cases h
      · by_cases hreserved : ∃ r : ReservedPlaceholder, trim s = r.asToken
        · obtain ⟨r, hr⟩ := hreserved
          rw [fromStr_of_reserved hr] at h
          cases h
        · rw [fromStr_of_rest hne (not_exists.1 hreserved) hunit] at h
          split at h
          next => cases h
          next => cases h
  · rintro ⟨digits, hdigits, hn, hpos⟩
    rw [fromStr_of_unit hdigits]
    exact offsetAmount_eq_ok_iff.2 ⟨sign, digits, n, rfl, hn, hpos, rfl⟩

theorem fromStr_user_iff {s name : String} :
    PlaceholderName.fromStr s = .ok (.user name) ↔ name = trim s ∧ trim s ≠ "" ∧
      (∀ r : ReservedPlaceholder, trim s ≠ r.asToken) ∧ ¬ HasUnit (trim s) ∧
        NoKnownBlank (trim s) := by
  have hany : ((trim s).toList.any fun c => c == ' ' || c == '\n' || c == '\t') = true ↔
      ¬ NoKnownBlank (trim s) := by
    simp only [List.any_eq_true, Bool.or_eq_true, beq_iff_eq, NoKnownBlank]
    grind
  constructor
  · intro h
    by_cases hne : trim s = ""
    · rw [fromStr_of_empty hne] at h
      cases h
    · by_cases hreserved : ∃ r : ReservedPlaceholder, trim s = r.asToken
      · obtain ⟨r, hr⟩ := hreserved
        rw [fromStr_of_reserved hr] at h
        cases h
      · by_cases hunit : HasUnit (trim s)
        · obtain ⟨unit, rest, hrest⟩ := hunit
          rw [fromStr_of_unit hrest] at h
          obtain ⟨_, _, _, _, _, _, heq⟩ := offsetAmount_eq_ok_iff.1 h
          cases heq
        · rw [fromStr_of_rest hne (not_exists.1 hreserved) hunit] at h
          split at h
          next => cases h
          next hblank =>
            cases h
            exact ⟨rfl, hne, not_exists.1 hreserved, hunit, not_not.1 (mt hany.2 hblank)⟩
  · rintro ⟨rfl, hne, hreserved, hunit, hblank⟩
    rw [fromStr_of_rest hne hreserved hunit, if_neg (mt hany.1 (not_not.2 hblank))]

theorem fromStr_reserved_iff {s : String} {r : ReservedPlaceholder} :
    PlaceholderName.fromStr s = .ok (.reserved r) ↔ trim s = r.asToken := by
  refine ⟨fun h => ?_, fromStr_of_reserved⟩
  by_cases hreserved : ∃ r : ReservedPlaceholder, trim s = r.asToken
  · obtain ⟨r', hr⟩ := hreserved
    rw [fromStr_of_reserved hr] at h
    cases h
    exact hr
  · by_cases hunit : HasUnit (trim s)
    · obtain ⟨unit, rest, hrest⟩ := hunit
      rw [fromStr_of_unit hrest] at h
      obtain ⟨_, _, _, _, _, _, heq⟩ := offsetAmount_eq_ok_iff.1 h
      cases heq
    · by_cases hne : trim s = ""
      · rw [fromStr_of_empty hne] at h
        cases h
      · rw [fromStr_of_rest hne (not_exists.1 hreserved) hunit] at h
        split at h
        next => cases h
        next => cases h

/-! ## Writing it back -/

theorem isNumber_toDigits {n : Nat} (h : n < 4294967296) : IsNumber (Nat.toDigits 10 n) n :=
  ⟨Nat.toDigits_ne_nil, fun _ hc => Nat.isDigit_of_mem_toDigits (by decide) (by decide) hc,
    Nat.ofDigitChars_ten_toDigits, h⟩

theorem toList_display_dateOffset (unit : DateUnit) (sign : DateOffsetSign) (n : Nat) :
    (display (.dateOffset unit sign n)).toList =
      unit.asToken.toList ++ ':' :: signToken sign :: Nat.toDigits 10 n := by
  rw [display, String.toList_append, String.toList_append, String.toList_append,
    Nat.toString_eq_ofList_toDigits, String.toList_singleton,
    String.toList_ofList (l := Nat.toDigits 10 n), List.append_assoc, List.append_assoc]
  rfl

theorem not_isWhitespace_unit (unit : DateUnit) :
    ∀ c ∈ unit.asToken.toList, isWhitespace c = false := by
  have hall : unit.asToken.toList.all (fun c => !isWhitespace c) = true := by
    cases unit <;> decide
  exact fun c hc => (Bool.not_eq_true' _).mp (List.all_eq_true.1 hall c hc)

theorem not_isWhitespace_reserved (r : ReservedPlaceholder) :
    ∀ c ∈ r.asToken.toList, isWhitespace c = false := by
  have hall : r.asToken.toList.all (fun c => !isWhitespace c) = true := by
    cases r <;> decide
  exact fun c hc => (Bool.not_eq_true' _).mp (List.all_eq_true.1 hall c hc)

theorem trim_display_dateOffset (unit : DateUnit) (sign : DateOffsetSign) (n : Nat) :
    trim (display (.dateOffset unit sign n)) = display (.dateOffset unit sign n) := by
  have hblank : ∀ c ∈ (display (.dateOffset unit sign n)).toList, isWhitespace c = false := by
    intro c hc
    rw [toList_display_dateOffset] at hc
    rcases List.mem_append.1 hc with hc | hc
    · exact not_isWhitespace_unit unit c hc
    · rcases List.mem_cons.1 hc with rfl | hc
      · rfl
      rcases List.mem_cons.1 hc with rfl | hc
      · cases sign <;> rfl
      · have hdigit : c.isDigit = true := Nat.isDigit_of_mem_toDigits (by decide) (by decide) hc
        refine isWhitespace_of_isAlphanum ?_
        rw [Char.isAlphanum, hdigit, Bool.or_true]
  exact trim_of_ends (fun c hc => hblank c (List.mem_of_mem_head? hc))
    fun c hc => hblank c (List.mem_of_getLast? hc)

/-- What was read is written as a text that is read the same. -/
theorem fromStr_display {s : String} {name : PlaceholderName}
    (h : PlaceholderName.fromStr s = .ok name) :
    PlaceholderName.fromStr (display name) = .ok name := by
  cases name with
  | reserved r =>
      have hblank := not_isWhitespace_reserved r
      exact fromStr_of_reserved (trim_of_ends (fun c hc => hblank c (List.mem_of_mem_head? hc))
        fun c hc => hblank c (List.mem_of_getLast? hc))
  | user name =>
      obtain ⟨rfl, hrest⟩ := fromStr_user_iff.1 h
      refine fromStr_user_iff.2 ?_
      rw [display, trim_trim]
      exact ⟨rfl, hrest⟩
  | dateOffset unit sign n =>
      obtain ⟨digits, _, hn, hpos⟩ := fromStr_dateOffset_iff.1 h
      have hlt : n < 4294967296 := by
        rcases parseU32_iff.1 hn with hn | ⟨_, _, hn⟩
        · exact hn.2.2.2
        · exact hn.2.2.2
      refine fromStr_dateOffset_iff.2 ⟨Nat.toDigits 10 n, ?_, ?_, hpos⟩
      · rw [trim_display_dateOffset, toList_display_dateOffset]
      · exact parseU32_iff.2 (Or.inl (isNumber_toDigits hlt))

/-- The delimiters are stripped. -/
theorem parsePlaceholder_wrapped (text : String) :
    parsePlaceholder ("$$" ++ text ++ "$$") = PlaceholderName.fromStr text := by
  have hlist : ("$$" ++ text ++ "$$").toList = '$' :: '$' :: (text.toList ++ ['$', '$']) := by
    rw [String.toList_append, String.toList_append]
    rfl
  have htrim : trim ("$$" ++ text ++ "$$") = "$$" ++ text ++ "$$" := by
    refine trim_of_ends (fun c hc => ?_) fun c hc => ?_
    · rw [hlist] at hc
      cases hc
      rfl
    · rw [hlist] at hc
      have hlast : '$' :: '$' :: (text.toList ++ ['$', '$']) =
          ('$' :: '$' :: (text.toList ++ ['$'])) ++ ['$'] := by simp
      rw [hlast, List.getLast?_concat] at hc
      cases hc
      rfl
  have hstrip : stripDelimiters ('$' :: '$' :: (text.toList ++ ['$', '$'])) =
      some text.toList := by
    rw [stripDelimiters]
    simp
  rw [parsePlaceholder, htrim, hlist, hstrip]
  dsimp only
  rw [String.ofList_toList]

/-! ## The grammar -/

/-- The text is read as the grammar says, and written back. -/
structure ParsesGrammar (s : String) : Prop where
  dateOffset : ∀ unit sign n,
    PlaceholderName.fromStr s = .ok (.dateOffset unit sign n) ↔ OffsetForm (trim s) unit sign n
  reserved : ∀ r, PlaceholderName.fromStr s = .ok (.reserved r) ↔ trim s = r.asToken
  user : ∀ name, PlaceholderName.fromStr s = .ok (.user name) →
    (∀ unit sign n, ¬ OffsetForm (trim s) unit sign n) ∧
      (∀ r : ReservedPlaceholder, trim s ≠ r.asToken) ∧
        ∀ c ∈ name.toList, isWhitespace c = false
  roundTrip : ∀ name, PlaceholderName.fromStr s = .ok name →
    PlaceholderName.fromStr (display name) = .ok name ∧
      parsePlaceholder ("$$" ++ display name ++ "$$") = .ok name

/-- A blank, but none of those that are looked for, in a text that does not start as an
    offset. -/
def OddBlank (s : String) : Prop :=
  (∃ c ∈ s.toList, isWhitespace c = true) ∧ NoKnownBlank s ∧ ¬ HasUnit s

/-- **A NAME IS READ AS THE GRAMMAR SAYS** exactly if it has no second sign and no blank that
    is not looked for. -/
theorem parsesGrammar_iff (s : String) :
    ParsesGrammar s ↔ ¬ DoubleSign (trim s) ∧ ¬ OddBlank (trim s) := by
  constructor
  · intro h
    refine ⟨?_, ?_⟩
    · rintro ⟨unit, sign, digits, n, hform, hnumber, hpos⟩
      -- a second sign is taken by the number, so the offset is read all the same
      have hread := fromStr_dateOffset_iff.2
        ⟨'+' :: digits, hform, parseU32_iff.2 (Or.inr ⟨digits, rfl, hnumber⟩), hpos⟩
      obtain ⟨digits', hform', hnumber', _⟩ := (h.dateOffset unit sign n).1 hread
      rw [hform, List.append_cancel_left_eq] at hform'
      cases hform'
      exact absurd (hnumber'.2.1 '+' List.mem_cons_self) (by decide)
    · rintro ⟨⟨c, hc, hblank⟩, hknown, hunit⟩
      have hne : trim s ≠ "" := by
        intro hempty
        rw [hempty] at hc
        exact absurd hc List.not_mem_nil
      -- a name with a blank is none of the reserved ones, so it is read as the user's
      have hreserved : ∀ r : ReservedPlaceholder, trim s ≠ r.asToken := by
        intro r hr
        rw [hr] at hc
        rw [not_isWhitespace_reserved r c hc] at hblank
        cases hblank
      have hread := fromStr_user_iff.2 ⟨rfl, hne, hreserved, hunit, hknown⟩
      rw [(h.user _ hread).2.2 c hc] at hblank
      cases hblank
  · rintro ⟨hsign, hblank⟩
    refine ⟨fun unit sign n => ?_, fun r => fromStr_reserved_iff, fun name hname => ?_,
      fun name hname => ⟨fromStr_display hname, ?_⟩⟩
    · rw [fromStr_dateOffset_iff]
      refine exists_congr fun digits => and_congr_right fun hform => and_congr_left fun hpos => ?_
      rw [parseU32_iff]
      refine or_iff_left ?_
      rintro ⟨digits', hplus, hnumber⟩
      exact hsign ⟨unit, sign, digits', n, hplus ▸ hform, hnumber, hpos⟩
    · obtain ⟨rfl, _, hreserved, hunit, hknown⟩ := fromStr_user_iff.1 hname
      refine ⟨?_, hreserved, fun c hc => ?_⟩
      · rintro unit sign n ⟨digits, hform, _⟩
        exact hunit ⟨unit, _, hform⟩
      · cases hc' : isWhitespace c with
        | false => rfl
        | true => exact absurd ⟨⟨c, hc, hc'⟩, hknown, hunit⟩ hblank
    · rw [parsePlaceholder_wrapped]
      exact fromStr_display hname

/-- A second sign is read away. -/
theorem not_parsesGrammar_second_sign : ¬ ParsesGrammar "day:++5" := by
  intro h
  have hread : PlaceholderName.fromStr "day:++5" = .ok (.dateOffset .day .plus 5) := by decide
  obtain ⟨digits, hform, hnumber, _⟩ := (h.dateOffset .day .plus 5).1 hread
  have hdigits : digits = ['+', '5'] := by
    have htext : (trim "day:++5").toList =
        DateUnit.day.asToken.toList ++ ':' :: signToken .plus :: ['+', '5'] := by decide
    rw [htext, List.append_cancel_left_eq] at hform
    cases hform
    rfl
  rw [hdigits] at hnumber
  exact absurd (hnumber.2.1 '+' List.mem_cons_self) (by decide)

end Placeholder
