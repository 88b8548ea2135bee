import Livtet.Lib.HexText
import Livtet.Lib.SqlRows

/-! # JSON values and the text they cross the wire as

    `Json` is a parsed document. `JsonLib` is what a program relies on from the
    two libraries that handle the text: a parser and a printer of documents, and
    the SQL function that builds an object text from column values. Its laws are
    the documented ones: an object built from column values parses to those
    values (in some order), only an object text holds a brace, an object of
    lower-case names and digits is lower-case.

    `JsonLib.flat` is a codec with these laws. -/

namespace JsonText

open SqlRows HexText

inductive Json
  | null
  | bool (b : Bool)
  | int (n : Int)
  | real (d : Decimal)
  | str (s : String)
  | arr (items : List Json)
  | obj (members : List (String × Json))

namespace Json

/-- The JSON form of a column value; a blob has none. -/
def ofValue : Value → Json
  | .null => .null
  | .int n => .int n
  | .real d => .real d
  | .text s => .str s
  | .blob _ => .null

/-- The value of a member; the last one of a name counts. -/
def get? : Json → String → Option Json
  | .obj members, name => members.reverse.lookup name
  | _, _ => none

def asStr? : Json → Option String
  | .str s => some s
  | _ => none

/-- Insert or replace a member, as a map does. -/
def insert (members : List (String × Json)) (name : String) (value : Json) :
    List (String × Json) :=
  if members.any fun p => p.1 == name then
    members.map fun p => if p.1 == name then (name, value) else p
  else members ++ [(name, value)]

end Json

/-- ASCII lower case, as SQL's `lower` computes it. -/
def lower (s : String) : String :=
  String.ofList (s.toList.map Char.toLower)

/-- Text without an upper-case letter. -/
def IsLower (s : String) : Prop := ∀ c ∈ s.toList, c.toLower = c

theorem lower_of_isLower {s : String} (h : IsLower s) : lower s = s := by
  rw [lower, List.map_congr_left h, List.map_id', String.ofList_toList]

/-- What a program relies on from its JSON libraries. -/
structure JsonLib where
  parse : String → Except String Json
  render : Json → String
  object : List (String × Value) → Option String
  object_eq_none : ∀ fields, object fields = none ↔ ∃ p ∈ fields, ∃ b, p.2 = .blob b
  parse_object : ∀ fields text, (fields.map Prod.fst).Nodup → object fields = some text →
    ∃ members, parse text = .ok (.obj members) ∧
      members.Perm (fields.map fun p => (p.1, Json.ofValue p.2))
  brace_of_object : ∀ text members, parse text = .ok (.obj members) → '{' ∈ text.toList
  lower_object : ∀ fields text, object fields = some text →
    (∀ p ∈ fields, IsLower p.1 ∧ ∃ s, p.2 = .text s ∧ IsLower s) → IsLower text

/-! ## A codec for flat objects -/

namespace Flat

/-- A character inside a string literal. -/
def escapeChar (c : Char) : List Char :=
  if c = '"' then ['\\', '"']
  else if c = '\\' then ['\\', '\\']
  else if c.toNat < 32 then
    ['\\', 'u', '0', '0', digitChar (c.toNat / 16), digitChar (c.toNat % 16)]
  else [c]

def quote (s : String) : List Char :=
  '"' :: s.toList.flatMap escapeChar ++ ['"']

/-- Read a string literal past its opening quote. -/
def readString : List Char → Option (List Char × List Char)
  | [] => none
  | '"' :: rest => some ([], rest)
  | '\\' :: '"' :: rest => (readString rest).map fun p => ('"' :: p.1, p.2)
  | '\\' :: '\\' :: rest => (readString rest).map fun p => ('\\' :: p.1, p.2)
  | '\\' :: 'u' :: a :: b :: c :: d :: rest => do
      let bytes ← decodeChars [a, b, c, d]
      let p ← readString rest
      pure (Char.ofNat (bytes.foldl (fun n x => 256 * n + x.toNat) 0) :: p.1, p.2)
  | c :: rest => if c = '\\' then none else (readString rest).map fun p => (c :: p.1, p.2)

private theorem readString_cons {c : Char} (h1 : c ≠ '"') (h2 : c ≠ '\\') (rest : List Char) :
    readString (c :: rest) = (readString rest).map fun p => (c :: p.1, p.2) := by
  rw [readString.eq_6]
  · rw [if_neg h2]
  · rintro rfl
    exact h1 rfl
  · rintro r rfl
    exact absurd rfl h2
  · rintro r rfl
    exact absurd rfl h2
  · rintro _ _ _ _ _ rfl
    exact absurd rfl h2

/-- A control character is read back from its escape. -/
theorem decode_control : ∀ n, n < 32 →
    decodeChars ['0', '0', digitChar (n / 16), digitChar (n % 16)] =
      some [0, UInt8.ofNat n] := by
  decide

theorem readString_escape (c : Char) (rest : List Char) :
    readString (escapeChar c ++ rest) = (readString rest).map fun p => (c :: p.1, p.2) := by
  unfold escapeChar
  by_cases h1 : c = '"'
  · subst h1
    rfl
  by_cases h2 : c = '\\'
  · subst h2
    rfl
  rw [if_neg h1, if_neg h2]
  by_cases h3 : c.toNat < 32
  · rw [if_pos h3]
    have hbyte : (UInt8.ofNat c.toNat).toNat = c.toNat := by
      rw [UInt8.toNat_ofNat']
      exact Nat.mod_eq_of_lt (by omega)
    simp only [List.cons_append, List.nil_append, readString, decode_control _ h3,
      Option.bind_eq_bind, Option.bind_some, List.foldl_cons, List.foldl_nil, hbyte]
    rw [show 256 * (256 * 0 + UInt8.toNat 0) + c.toNat = c.toNat by simp, Char.ofNat_toNat]
    cases readString rest <;> rfl
  · rw [if_neg h3]
    exact readString_cons h1 h2 rest

theorem readString_quote (cs rest : List Char) :
    readString (cs.flatMap escapeChar ++ '"' :: rest) = some (cs, rest) := by
  induction cs with
  | nil => rfl
  | cons c cs ih =>
      rw [List.flatMap_cons, List.append_assoc, readString_escape, ih]
      rfl

/-! ### Numbers -/

def writeInt (n : Int) : List Char :=
  if n < 0 then '-' :: Nat.toDigits 10 n.natAbs else Nat.toDigits 10 n.natAbs

/-- At least `width` digits. -/
def padded (n width : Nat) : List Char :=
  List.replicate (width - (Nat.toDigits 10 n).length) '0' ++ Nat.toDigits 10 n

/-- The digits of a decimal before its point, and after it. -/
def wholeDigits (d : Decimal) : List Char :=
  let digits := padded d.digits.natAbs (d.scale + 2)
  digits.take (digits.length - (d.scale + 1))

def fractionDigits (d : Decimal) : List Char :=
  let digits := padded d.digits.natAbs (d.scale + 2)
  digits.drop (digits.length - (d.scale + 1))

def writeReal (d : Decimal) : List Char :=
  let unsigned := wholeDigits d ++ '.' :: fractionDigits d
  if d.digits < 0 then '-' :: unsigned else unsigned

def readUnsigned (sign : Int) (cs : List Char) : Option (Json × List Char) :=
  let whole := cs.takeWhile Char.isDigit
  if whole.isEmpty then none
  else match cs.dropWhile Char.isDigit with
    | '.' :: rest =>
        let fraction := rest.takeWhile Char.isDigit
        if fraction.isEmpty then none
        else some (.real ⟨sign * Nat.ofDigitChars 10 (whole ++ fraction) 0, fraction.length - 1⟩,
          rest.dropWhile Char.isDigit)
    | rest => some (.int (sign * Nat.ofDigitChars 10 whole 0), rest)

def readScalar : List Char → Option (Json × List Char)
  | [] => none
  | c :: rest =>
      if c = '"' then (readString rest).map fun p => (.str (String.ofList p.1), p.2)
      else if c = 'n' then
        if rest.take 3 = ['u', 'l', 'l'] then some (.null, rest.drop 3) else none
      else if c = '-' then readUnsigned (-1) rest
      else readUnsigned 1 (c :: rest)

/-- A character that ends a number. -/
def EndsNumber (c : Char) : Prop := c.isDigit = false ∧ c ≠ '.'

section Digits

variable {ds : List Char} {c : Char} {rest : List Char}

theorem takeWhile_digits (h : ∀ d ∈ ds, d.isDigit = true) (hc : c.isDigit = false) :
    (ds ++ c :: rest).takeWhile Char.isDigit = ds := by
  rw [List.takeWhile_append_of_pos h, List.takeWhile_cons_of_neg (by simp [hc]),
    List.append_nil]

theorem dropWhile_digits (h : ∀ d ∈ ds, d.isDigit = true) (hc : c.isDigit = false) :
    (ds ++ c :: rest).dropWhile Char.isDigit = c :: rest := by
  rw [List.dropWhile_append_of_pos h, List.dropWhile_cons_of_neg (by simp [hc])]

theorem readUnsigned_int {sign : Int} (h : ∀ d ∈ ds, d.isDigit = true) (hne : ds ≠ [])
    (hc : EndsNumber c) : readUnsigned sign (ds ++ c :: rest) =
      some (.int (sign * Nat.ofDigitChars 10 ds 0), c :: rest) := by
  unfold readUnsigned
  simp only [takeWhile_digits h hc.1, dropWhile_digits h hc.1, List.isEmpty_iff, if_neg hne]
  split
  · next he =>
      cases List.cons.inj he |>.1
      exact absurd rfl hc.2
  · rfl

theorem readUnsigned_real (sign : Int) {fs : List Char} (h : ∀ d ∈ ds, d.isDigit = true)
    (hne : ds ≠ []) (hf : ∀ d ∈ fs, d.isDigit = true) (hfne : fs ≠ []) (hc : EndsNumber c) :
    readUnsigned sign (ds ++ '.' :: (fs ++ c :: rest)) =
      some (.real ⟨sign * Nat.ofDigitChars 10 (ds ++ fs) 0, fs.length - 1⟩, c :: rest) := by
  unfold readUnsigned
  simp only [takeWhile_digits h (show '.'.isDigit = false by decide),
    dropWhile_digits h (show '.'.isDigit = false by decide), List.isEmpty_iff, if_neg hne,
    takeWhile_digits hf hc.1, dropWhile_digits hf hc.1, if_neg hfne]

end Digits

theorem isDigit_toDigits (n : Nat) : ∀ d ∈ Nat.toDigits 10 n, d.isDigit = true :=
  fun _ hd => Nat.isDigit_of_mem_toDigits (by decide) (by decide) hd

theorem isDigit_padded (n width : Nat) : ∀ d ∈ padded n width, d.isDigit = true := by
  intro d hd
  rcases List.mem_append.1 hd with h | h
  · cases List.eq_of_mem_replicate h
    decide
  · exact isDigit_toDigits n d h

theorem ofDigitChars_padded (n width : Nat) : Nat.ofDigitChars 10 (padded n width) 0 = n := by
  rw [padded, Nat.ofDigitChars_append, Nat.ofDigitChars_replicate_zero, Nat.mul_zero,
    Nat.ofDigitChars_ten_toDigits]

theorem width_le_length_padded (n width : Nat) : width ≤ (padded n width).length := by
  rw [padded, List.length_append, List.length_replicate]
  omega

/-- A number's text starts with a sign or a digit, so it is read as a number. -/
theorem readScalar_unsigned {c : Char} {cs : List Char} (h : c.isDigit = true) :
    readScalar (c :: cs) = readUnsigned 1 (c :: cs) := by
  have hne : ∀ d : Char, d.isDigit = false → c ≠ d := by
    rintro d hd rfl
    rw [h] at hd
    cases hd
  simp only [readScalar, if_neg (hne '"' (by decide)), if_neg (hne 'n' (by decide)),
    if_neg (hne '-' (by decide))]

theorem readScalar_signed (neg : Bool) {ds : List Char} (hne : ds ≠ [])
    (h : ∀ d ∈ ds, d.isDigit = true) (rest : List Char) :
    readScalar ((if neg then '-' :: (ds ++ rest) else ds ++ rest)) =
      readUnsigned (if neg then -1 else 1) (ds ++ rest) := by
  cases neg with
  | true => rfl
  | false =>
      cases ds with
      | nil => exact absurd rfl hne
      | cons d ds => exact readScalar_unsigned (h d List.mem_cons_self)

theorem sign_mul_natAbs (n : Int) :
    (if decide (n < 0) = true then (-1 : Int) else 1) * (n.natAbs : Int) = n := by
  by_cases h : n < 0
  · rw [if_pos (by simpa using h)]
    omega
  · rw [if_neg (by simpa using h)]
    omega

theorem readScalar_writeInt (n : Int) {c : Char} (hc : EndsNumber c) (rest : List Char) :
    readScalar (writeInt n ++ c :: rest) = some (.int n, c :: rest) := by
  have h := readScalar_signed (decide (n < 0)) Nat.toDigits_ne_nil
    (isDigit_toDigits n.natAbs) (c :: rest)
  rw [readUnsigned_int (isDigit_toDigits _) Nat.toDigits_ne_nil hc,
    Nat.ofDigitChars_ten_toDigits, sign_mul_natAbs] at h
  rw [← h, writeInt]
  by_cases hneg : n < 0
  · rw [if_pos hneg, if_pos (decide_eq_true hneg), List.cons_append]
  · rw [if_neg hneg, if_neg (by simpa using hneg)]

theorem isDigit_wholeDigits (d : Decimal) : ∀ x ∈ wholeDigits d, x.isDigit = true :=
  fun x hx => isDigit_padded _ _ x (List.mem_of_mem_take hx)

theorem wholeDigits_ne_nil (d : Decimal) : wholeDigits d ≠ [] := by
  intro he
  have hlen := width_le_length_padded d.digits.natAbs (d.scale + 2)
  have h0 := congrArg List.length he
  rw [wholeDigits, List.length_take, List.length_nil] at h0
  omega

theorem readScalar_writeReal (d : Decimal) {c : Char} (hc : EndsNumber c) (rest : List Char) :
    readScalar (writeReal d ++ c :: rest) = some (.real d, c :: rest) := by
  have hlen := width_le_length_padded d.digits.natAbs (d.scale + 2)
  have hdigits := isDigit_padded d.digits.natAbs (d.scale + 2)
  have hw := isDigit_wholeDigits d
  have hf : ∀ x ∈ fractionDigits d, x.isDigit = true :=
    fun x hx => hdigits x (List.mem_of_mem_drop hx)
  have hflen : (fractionDigits d).length = d.scale + 1 := by
    rw [fractionDigits, List.length_drop]
    omega
  have hwne := wholeDigits_ne_nil d
  have hfne : fractionDigits d ≠ [] := by
    intro he
    rw [he, List.length_nil] at hflen
    omega
  have hjoin : wholeDigits d ++ fractionDigits d = padded d.digits.natAbs (d.scale + 2) :=
    List.take_append_drop _ _
  have hread : readUnsigned (if decide (d.digits < 0) = true then -1 else 1)
      (wholeDigits d ++ '.' :: (fractionDigits d ++ c :: rest)) = _ :=
    readUnsigned_real _ hw hwne hf hfne hc
  rw [hjoin, ofDigitChars_padded, sign_mul_natAbs, hflen, Nat.add_sub_cancel] at hread
  have h := readScalar_signed (decide (d.digits < 0)) hwne hw
    ('.' :: (fractionDigits d ++ c :: rest))
  rw [hread] at h
  rw [← h, writeReal]
  by_cases hneg : d.digits < 0
  · rw [if_pos hneg, if_pos (decide_eq_true hneg), List.cons_append, List.append_assoc,
      List.cons_append]
  · rw [if_neg hneg, if_neg (by simpa using hneg), List.append_assoc, List.cons_append]

/-! ### Objects -/

def writeScalar : Value → List Char
  | .null => ['n', 'u', 'l', 'l']
  | .int n => writeInt n
  | .real d => writeReal d
  | .text s => quote s
  | .blob _ => []

/-- The members of an object, up to the closing brace. -/
def writeMembers : List (String × Value) → List Char
  | [] => ['}']
  | [p] => quote p.1 ++ ':' :: (writeScalar p.2 ++ ['}'])
  | p :: q :: rest => quote p.1 ++ ':' :: (writeScalar p.2 ++ ',' :: writeMembers (q :: rest))

def readMembers : Nat → List Char → Option (List (String × Json) × List Char)
  | fuel + 1, '"' :: cs =>
      match readString cs with
      | some (name, ':' :: cs) =>
          match readScalar cs with
          | some (v, '}' :: cs) => some ([(String.ofList name, v)], cs)
          | some (v, ',' :: cs) =>
              (readMembers fuel cs).map fun p => ((String.ofList name, v) :: p.1, p.2)
          | _ => none
      | _ => none
  | _, _ => none

theorem readScalar_writeScalar {v : Value} (hv : ∀ b, v ≠ .blob b) {c : Char}
    (hc : EndsNumber c) (rest : List Char) :
    readScalar (writeScalar v ++ c :: rest) = some (.ofValue v, c :: rest) := by
  cases v with
  | null => rfl
  | int n => exact readScalar_writeInt n hc rest
  | real d => exact readScalar_writeReal d hc rest
  | text s =>
      simp only [writeScalar, quote, List.cons_append, List.append_assoc, List.nil_append]
      rw [readScalar, if_pos rfl, readString_quote, Option.map_some, String.ofList_toList]
      rfl
  | blob b => exact absurd rfl (hv b)

theorem readMembers_writeMembers : ∀ (fields : List (String × Value)) (fuel : Nat),
    fields ≠ [] → fields.length ≤ fuel → (∀ p ∈ fields, ∀ b, p.2 ≠ .blob b) →
    readMembers fuel (writeMembers fields) =
      some (fields.map fun p => (p.1, Json.ofValue p.2), [])
  | [], _, hne, _, _ => absurd rfl hne
  | p :: rest, 0, _, hfuel, _ => by
      rw [List.length_cons] at hfuel
      omega
  | [p], fuel + 1, _, _, hv => by
      have hp := readScalar_writeScalar (hv p List.mem_cons_self)
        (show EndsNumber '}' from ⟨by decide, by decide⟩) []
      simp only [writeMembers, quote, List.cons_append, List.append_assoc, List.nil_append,
        readMembers, readString_quote, hp, String.ofList_toList, List.map_cons, List.map_nil]
  | p :: q :: rest, fuel + 1, _, hfuel, hv => by
      have hp := readScalar_writeScalar (hv p List.mem_cons_self)
        (show EndsNumber ',' from ⟨by decide, by decide⟩) (writeMembers (q :: rest))
      have ih := readMembers_writeMembers (q :: rest) fuel (List.cons_ne_nil _ _)
        (by simpa using hfuel) fun x hx => hv x (List.mem_cons_of_mem _ hx)
      simp only [writeMembers, quote, List.cons_append, List.append_assoc, List.nil_append,
        readMembers, readString_quote, hp, ih, String.ofList_toList, List.map_cons,
        Option.map_some]

/-- Read a whole text: an object, or a scalar. -/
def parse (text : String) : Except String Json :=
  match text.toList with
  | '{' :: cs =>
      if cs = ['}'] then .ok (.obj [])
      else match readMembers cs.length cs with
        | some (members, []) => .ok (.obj members)
        | _ => .error "invalid object"
  | cs =>
      match readScalar cs with
      | some (v, []) => .ok v
      | _ => .error "invalid value"

def hasBlob (fields : List (String × Value)) : Bool :=
  fields.any fun p => match p.2 with
    | .blob _ => true
    | _ => false

theorem hasBlob_iff (fields : List (String × Value)) :
    hasBlob fields = true ↔ ∃ p ∈ fields, ∃ b, p.2 = .blob b := by
  rw [hasBlob, List.any_eq_true]
  constructor
  · rintro ⟨p, hp, h⟩
    refine ⟨p, hp, ?_⟩
    split at h
    · next b hb => exact ⟨b, hb⟩
    · cases h
  · rintro ⟨p, hp, b, hb⟩
    exact ⟨p, hp, by rw [hb]⟩

def object (fields : List (String × Value)) : Option String :=
  if hasBlob fields then none else some (String.ofList ('{' :: writeMembers fields))

theorem length_le_writeMembers : ∀ fields : List (String × Value),
    fields.length ≤ (writeMembers fields).length
  | [] => by simp
  | [p] => by
      simp only [writeMembers, List.length_append, List.length_cons]
      omega
  | p :: q :: rest => by
      have ih := length_le_writeMembers (q :: rest)
      simp only [writeMembers, List.length_append, List.length_cons] at ih ⊢
      omega

theorem readMembers_ne_brace : ∀ fields : List (String × Value), fields ≠ [] →
    writeMembers fields ≠ ['}']
  | [], h => absurd rfl h
  | [p], _ => by
      rw [writeMembers, quote]
      intro h
      exact absurd (List.cons.inj h).1 (by decide)
  | p :: q :: rest, _ => by
      rw [writeMembers, quote]
      intro h
      exact absurd (List.cons.inj h).1 (by decide)

theorem parse_object (fields : List (String × Value)) (text : String)
    (h : object fields = some text) :
    parse text = .ok (.obj (fields.map fun p => (p.1, Json.ofValue p.2))) := by
  rw [object] at h
  split at h
  · cases h
  next hblob =>
    cases Option.some.inj h
    have hv : ∀ p ∈ fields, ∀ b, p.2 ≠ .blob b :=
      fun p hp b hb => hblob ((hasBlob_iff fields).2 ⟨p, hp, b, hb⟩)
    rw [parse, String.toList_ofList]
    rcases eq_or_ne fields [] with rfl | hne
    · rfl
    · simp only [if_neg (readMembers_ne_brace fields hne),
        readMembers_writeMembers fields _ hne (length_le_writeMembers fields) hv]

theorem readUnsigned_ne_obj {sign : Int} {cs rest : List Char} {members : List (String × Json)} :
    readUnsigned sign cs ≠ some (.obj members, rest) := by
  intro h
  simp only [readUnsigned] at h
  split at h
  · cases h
  split at h
  · split at h
    · cases h
    · cases (Prod.mk.inj (Option.some.inj h)).1
  · cases (Prod.mk.inj (Option.some.inj h)).1

theorem readScalar_ne_obj {cs rest : List Char} {members : List (String × Json)} :
    readScalar cs ≠ some (.obj members, rest) := by
  intro h
  cases cs with
  | nil => cases h
  | cons c cs =>
      rw [readScalar] at h
      split at h
      · cases hr : readString cs with
        | none =>
            rw [hr] at h
            cases h
        | some p =>
            rw [hr] at h
            cases (Prod.mk.inj (Option.some.inj h)).1
      split at h
      · split at h
        · cases (Prod.mk.inj (Option.some.inj h)).1
        · cases h
      split at h
      · exact readUnsigned_ne_obj h
      · exact readUnsigned_ne_obj h

theorem brace_of_parse {text : String} {members : List (String × Json)}
    (h : parse text = .ok (.obj members)) : '{' ∈ text.toList := by
  rw [parse] at h
  split at h
  · next cs hcs =>
      rw [hcs]
      exact List.mem_cons_self
  · next cs _ =>
      exfalso
      split at h
      · next v hv =>
          cases Except.ok.inj h
          exact readScalar_ne_obj hv
      · cases h

/-! ### Lower case -/

/-- Every character of the text is its own lower case. -/
def Lower (cs : List Char) : Prop := ∀ c ∈ cs, c.toLower = c

theorem lower_nil : Lower [] := fun _ h => by cases h

theorem lower_append {xs ys : List Char} (hx : Lower xs) (hy : Lower ys) : Lower (xs ++ ys) := by
  intro c hc
  rcases List.mem_append.1 hc with h | h
  · exact hx c h
  · exact hy c h

theorem lower_cons {c : Char} {cs : List Char} (hc : c.toLower = c) (h : Lower cs) :
    Lower (c :: cs) := by
  intro d hd
  rcases List.mem_cons.1 hd with rfl | hd
  · exact hc
  · exact h d hd

theorem toLower_digitChar : ∀ n, n < 16 → (digitChar n).toLower = digitChar n := by
  decide

theorem lower_escapeChar {c : Char} (hc : c.toLower = c) : Lower (escapeChar c) := by
  unfold escapeChar
  split
  · exact lower_cons (by decide) (lower_cons (by decide) lower_nil)
  split
  · exact lower_cons (by decide) (lower_cons (by decide) lower_nil)
  split
  · next h =>
      intro d hd
      simp only [List.mem_cons, List.not_mem_nil, or_false] at hd
      rcases hd with rfl | rfl | rfl | rfl | rfl | rfl
      · decide
      · decide
      · decide
      · decide
      · exact toLower_digitChar _ (by omega)
      · exact toLower_digitChar _ (by omega)
  · exact lower_cons hc lower_nil

theorem lower_quote {s : String} (hs : IsLower s) : Lower (quote s) := by
  refine lower_append (lower_cons (by decide) ?_) (lower_cons (by decide) lower_nil)
  intro d hd
  obtain ⟨c, hc, hd⟩ := List.mem_flatMap.1 hd
  exact lower_escapeChar (hs c hc) d hd

theorem lower_writeMembers : ∀ fields : List (String × Value),
    (∀ p ∈ fields, IsLower p.1 ∧ ∃ s, p.2 = .text s ∧ IsLower s) → Lower (writeMembers fields)
  | [], _ => lower_cons (by decide) lower_nil
  | [p], h => by
      obtain ⟨hn, s, hs, hl⟩ := h p List.mem_cons_self
      rw [writeMembers, hs]
      exact lower_append (lower_quote hn)
        (lower_cons (by decide)
          (lower_append (lower_quote hl) (lower_cons (by decide) lower_nil)))
  | p :: q :: rest, h => by
      obtain ⟨hn, s, hs, hl⟩ := h p List.mem_cons_self
      have ih := lower_writeMembers (q :: rest) fun x hx => h x (List.mem_cons_of_mem _ hx)
      rw [writeMembers, hs]
      exact lower_append (lower_quote hn)
        (lower_cons (by decide) (lower_append (lower_quote hl) (lower_cons (by decide) ih)))

/-! ### Printing a document -/

mutual

def renderValue : Json → List Char
  | .null => ['n', 'u', 'l', 'l']
  | .bool true => ['t', 'r', 'u', 'e']
  | .bool false => ['f', 'a', 'l', 's', 'e']
  | .int n => writeInt n
  | .real d => writeReal d
  | .str s => quote s
  | .arr items => '[' :: renderItems items ++ [']']
  | .obj members => '{' :: renderMembers members ++ ['}']

def renderItems : List Json → List Char
  | [] => []
  | [x] => renderValue x
  | x :: rest => renderValue x ++ ',' :: renderItems rest

def renderMembers : List (String × Json) → List Char
  | [] => []
  | [(k, x)] => quote k ++ ':' :: renderValue x
  | (k, x) :: rest => quote k ++ ':' :: renderValue x ++ ',' :: renderMembers rest

end

end Flat

/-- The flat codec satisfies the laws a program relies on. -/
def JsonLib.flat : JsonLib where
  parse := Flat.parse
  render j := String.ofList (Flat.renderValue j)
  object := Flat.object
  object_eq_none fields := by
    rw [← Flat.hasBlob_iff, Flat.object]
    split
    · next h => exact iff_of_true rfl h
    · next h => exact iff_of_false (Option.some_ne_none _) h
  parse_object fields text _ h := ⟨_, Flat.parse_object fields text h, List.Perm.refl _⟩
  brace_of_object text members h := Flat.brace_of_parse h
  lower_object fields text h hlow := by
    rw [Flat.object] at h
    split at h
    · cases h
    · cases Option.some.inj h
      intro c hc
      rw [String.toList_ofList] at hc
      exact Flat.lower_cons (by decide) (Flat.lower_writeMembers fields hlow) c hc

end JsonText
