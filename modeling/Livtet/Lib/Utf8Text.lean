import Mathlib.Data.List.Basic

/-! # Text as UTF-8 bytes

    Text is written one character after the other. Bytes that need not be text are read
    with replacement characters: where no character begins, the bytes up to the first
    one that no character has in its place become one such. -/

namespace Utf8Text

/-- The bytes of a text. -/
def bytes (cs : List Char) : List UInt8 := cs.flatMap String.utf8EncodeChar

/-- A byte of a character that is not its first. -/
def isContinuation (b : UInt8) : Bool := 0x80 ≤ b && b < 0xC0

/-- The position before these bytes does not lie within a character. -/
def isCharBoundary : List UInt8 → Bool
  | [] => true
  | b :: _ => !isContinuation b

/-- The character that the bytes begin with. -/
def first? (bs : List UInt8) : Option Char := bs.toByteArray.utf8DecodeChar? 0

/-- The bytes may begin a character of three or four. -/
def begins (a b : UInt8) : Bool :=
  (a == 0xE0 && 0xA0 ≤ b && b < 0xC0) || (0xE1 ≤ a && a ≤ 0xEC && isContinuation b) ||
    (a == 0xED && 0x80 ≤ b && b < 0xA0) || (0xEE ≤ a && a ≤ 0xEF && isContinuation b) ||
    (a == 0xF0 && 0x90 ≤ b && b < 0xC0) || (0xF1 ≤ a && a ≤ 0xF3 && isContinuation b) ||
    (a == 0xF4 && 0x80 ≤ b && b < 0x90)

/-- How many bytes are replaced together where no character begins. -/
def badLength : List UInt8 → Nat
  | a :: b :: rest =>
      if begins a b then
        match rest with
        | c :: _ => if 0xF0 ≤ a && isContinuation c then 3 else 2
        | [] => 2
      else 1
  | _ => 1

/-- The text of the bytes after the next `skip` ones. -/
def lossyFrom : Nat → List UInt8 → List Char
  | _, [] => []
  | skip + 1, _ :: rest => lossyFrom skip rest
  | 0, b :: rest =>
      match first? (b :: rest) with
      | some c => c :: lossyFrom (c.utf8Size - 1) rest
      | none => '\uFFFD' :: lossyFrom (badLength (b :: rest) - 1) rest

/-- `String::from_utf8_lossy`. -/
def fromUtf8Lossy (bs : List UInt8) : List Char := lossyFrom 0 bs

/-! ## Characters -/

section Characters

variable {c : Char} {rest : List UInt8}

@[simp] theorem bytes_nil : bytes [] = [] := rfl

@[simp] theorem bytes_cons (c : Char) (cs : List Char) :
    bytes (c :: cs) = String.utf8EncodeChar c ++ bytes cs := rfl

theorem bytes_append (cs ds : List Char) : bytes (cs ++ ds) = bytes cs ++ bytes ds :=
  List.flatMap_append

/-- A character is one byte below 128, or a first byte from 192 on and continuations. -/
theorem encode_cases (c : Char) :
    (c.toNat < 128 ∧ String.utf8EncodeChar c = [UInt8.ofNat c.toNat]) ∨
      (128 ≤ c.toNat ∧ ∃ a b tail, String.utf8EncodeChar c = a :: b :: tail ∧ 0xC0 ≤ a ∧
        ∀ x ∈ b :: tail, isContinuation x = true) := by
  have hcontinuation : ∀ n, isContinuation (UInt8.ofNat (n % 64 + 128)) = true := by
    intro n
    simp only [isContinuation, Bool.and_eq_true, decide_eq_true_eq, UInt8.le_iff_toNat_le,
      UInt8.lt_iff_toNat_lt, UInt8.toNat_ofNat']
    show 128 ≤ _ ∧ _ < 192
    omega
  have hfirst : ∀ n, 192 ≤ n → n < 256 → 0xC0 ≤ UInt8.ofNat n := by
    intro n hn hlt
    rw [UInt8.le_iff_toNat_le, UInt8.toNat_ofNat']
    show 192 ≤ n % 256
    omega
  unfold String.utf8EncodeChar
  dsimp only
  have hval : c.val.toNat = c.toNat := rfl
  split_ifs
  · exact .inl ⟨by omega, rfl⟩
  · exact .inr ⟨by omega, _, _, _, rfl, hfirst _ (by omega) (by omega),
      List.forall_mem_singleton.2 (hcontinuation _)⟩
  · exact .inr ⟨by omega, _, _, _, rfl, hfirst _ (by omega) (by omega),
      List.forall_mem_cons.2 ⟨hcontinuation _, List.forall_mem_singleton.2 (hcontinuation _)⟩⟩
  · exact .inr ⟨by omega, _, _, _, rfl, hfirst _ (by omega) (by omega),
      List.forall_mem_cons.2 ⟨hcontinuation _,
        List.forall_mem_cons.2 ⟨hcontinuation _, List.forall_mem_singleton.2 (hcontinuation _)⟩⟩⟩

theorem encode_of_lt (h : c.toNat < 128) : String.utf8EncodeChar c = [UInt8.ofNat c.toNat] := by
  rcases encode_cases c with ⟨_, henc⟩ | ⟨hle, _⟩
  · exact henc
  · omega

theorem lt_of_utf8Size (h : c.utf8Size = 1) : c.toNat < 128 := by
  rcases encode_cases c with ⟨hlt, _⟩ | ⟨_, _, _, _, henc, _⟩
  · exact hlt
  · rw [← String.length_utf8EncodeChar, henc] at h
    cases h

theorem encode_of_two_le (h : 2 ≤ c.utf8Size) :
    ∃ a b tail, String.utf8EncodeChar c = a :: b :: tail ∧ 0xC0 ≤ a ∧
      ∀ x ∈ b :: tail, isContinuation x = true := by
  rcases encode_cases c with ⟨_, henc⟩ | ⟨_, hmany⟩
  · rw [← String.length_utf8EncodeChar, henc] at h
    exact absurd h (by simp)
  · exact hmany

theorem not_isContinuation_of_le {a : UInt8} (h : 0xC0 ≤ a) : isContinuation a = false := by
  have hlt : ¬ a < 0xC0 := UInt8.not_lt.2 h
  rw [isContinuation, decide_eq_false hlt, Bool.and_false]

theorem not_isContinuation_of_lt {a : UInt8} (h : a < 0x80) : isContinuation a = false := by
  have hle : ¬ 0x80 ≤ a := UInt8.not_le.2 h
  rw [isContinuation, decide_eq_false hle, Bool.false_and]

theorem isContinuation_of_mem_tail {b : UInt8} (h : b ∈ (String.utf8EncodeChar c).tail) :
    isContinuation b = true := by
  rcases encode_cases c with ⟨_, henc⟩ | ⟨_, _, _, _, henc, _, hall⟩
  · rw [henc] at h
    cases h
  · rw [henc] at h
    exact hall b h

/-- Text begins with no continuation. -/
theorem isCharBoundary_bytes (cs : List Char) : isCharBoundary (bytes cs) = true := by
  cases cs with
  | nil => rfl
  | cons c cs =>
      rw [bytes_cons]
      rcases encode_cases c with ⟨hlt, henc⟩ | ⟨_, _, _, _, henc, hle, _⟩
      · have hbyte : UInt8.ofNat c.toNat < 0x80 := by
          rw [UInt8.lt_iff_toNat_lt, UInt8.toNat_ofNat']
          show c.toNat % 256 < 128
          omega
        rw [henc, List.singleton_append, isCharBoundary, not_isContinuation_of_lt hbyte]
        rfl
      · rw [henc, List.cons_append, isCharBoundary, not_isContinuation_of_le hle]
        rfl

theorem first?_encode_append : first? (String.utf8EncodeChar c ++ rest) = some c := by
  rw [first?, List.toByteArray_append]
  exact ByteArray.utf8DecodeChar?_utf8EncodeChar_append

/-- The bytes that begin with a character are those of it and the others. -/
theorem exists_of_first? {bs : List UInt8} (h : first? bs = some c) :
    ∃ rest, bs = String.utf8EncodeChar c ++ rest := by
  obtain ⟨rest, hrest⟩ := ByteArray.exists_of_utf8DecodeChar?_eq_some h
  refine ⟨rest.data.toList, ?_⟩
  have hdata := congrArg (fun b : ByteArray => b.data.toList) hrest
  simpa using hdata

theorem utf8Size_le_of_first? {bs : List UInt8} (h : first? bs = some c) :
    c.utf8Size ≤ bs.length := by
  obtain ⟨rest, rfl⟩ := exists_of_first? h
  rw [List.length_append, String.length_utf8EncodeChar]
  exact Nat.le_add_right _ _

end Characters

/-! ## Reading -/

theorem lossyFrom_length (bs rest : List UInt8) :
    lossyFrom bs.length (bs ++ rest) = lossyFrom 0 rest := by
  induction bs with
  | nil => rfl
  | cons b bs ih => exact ih

theorem fromUtf8Lossy_encode_append (c : Char) (rest : List UInt8) :
    fromUtf8Lossy (String.utf8EncodeChar c ++ rest) = c :: fromUtf8Lossy rest := by
  obtain ⟨a, tail, henc⟩ := List.exists_cons_of_ne_nil (l := String.utf8EncodeChar c) (by
    rw [← List.length_pos_iff, String.length_utf8EncodeChar]
    exact c.utf8Size_pos)
  have hlength : c.utf8Size - 1 = tail.length := by
    rw [← String.length_utf8EncodeChar, henc]
    rfl
  have hfirst : first? (a :: (tail ++ rest)) = some c := by
    rw [← List.cons_append, ← henc]
    exact first?_encode_append
  rw [henc, List.cons_append, fromUtf8Lossy, lossyFrom, hfirst]
  show c :: lossyFrom (c.utf8Size - 1) (tail ++ rest) = _
  rw [hlength, lossyFrom_length]
  rfl

/-- Text is read as it was written. -/
theorem fromUtf8Lossy_bytes (cs : List Char) : fromUtf8Lossy (bytes cs) = cs := by
  induction cs with
  | nil => rfl
  | cons c cs ih => rw [bytes_cons, fromUtf8Lossy_encode_append, ih]

/-! ## A byte below 128 stands for itself, whatever is before it -/

section Ascii

variable {a : UInt8} {rest : List UInt8}

theorem toNat_ofNat_ascii : ∀ n < 128, (Char.ofNat n).toNat = n := by
  decide

theorem encode_ascii (h : a < 0x80) : String.utf8EncodeChar (Char.ofNat a.toNat) = [a] := by
  have hlt : a.toNat < 128 := UInt8.lt_iff_toNat_lt.1 h
  have hnat := toNat_ofNat_ascii a.toNat hlt
  rw [encode_of_lt (by omega), hnat, UInt8.ofNat_toNat]

/-- It does not end a character that began before. -/
theorem first?_append_ascii (h : a < 0x80) {bs : List UInt8} (hne : bs ≠ []) :
    first? (bs ++ a :: rest) = first? bs := by
  cases hbs : first? bs with
  | some c =>
      obtain ⟨tail, rfl⟩ := exists_of_first? hbs
      rw [List.append_assoc]
      exact first?_encode_append
  | none =>
      by_contra hsome
      obtain ⟨c, hc⟩ := Option.ne_none_iff_exists'.1 hsome
      obtain ⟨tail, htail⟩ := exists_of_first? hc
      rcases List.append_eq_append_iff.1 htail with ⟨more, henc, hmore⟩ | ⟨more, hbs', _⟩
      · cases more with
        | nil =>
            rw [List.append_nil] at henc
            rw [← henc, ← List.append_nil (String.utf8EncodeChar c), first?_encode_append] at hbs
            cases hbs
        | cons x more =>
            obtain ⟨rfl, _⟩ := List.cons.inj hmore
            obtain ⟨b, bs, rfl⟩ := List.exists_cons_of_ne_nil hne
            have hmem : a ∈ (String.utf8EncodeChar c).tail := by
              rw [henc]
              simp
            have hcontinuation := isContinuation_of_mem_tail hmem
            rw [not_isContinuation_of_lt h] at hcontinuation
            cases hcontinuation
      · rw [hbs', first?_encode_append] at hbs
        cases hbs

theorem begins_ascii (h : a < 0x80) (b : UInt8) : begins b a = false := by
  have hle : ∀ n : UInt8, 0x80 ≤ n → decide (n ≤ a) = false := fun n hn =>
    decide_eq_false (UInt8.not_le.2 (UInt8.lt_of_lt_of_le h hn))
  simp only [begins, isContinuation, hle 0xA0 (by decide), hle 0x80 (by decide),
    hle 0x90 (by decide), Bool.and_false, Bool.false_and, Bool.or_false]

theorem badLength_append_ascii (h : a < 0x80) {bs : List UInt8} (hne : bs ≠ []) :
    badLength (bs ++ a :: rest) = badLength bs := by
  match bs, hne with
  | [b], _ =>
      show (if begins b a then _ else 1) = 1
      rw [begins_ascii h]
      rfl
  | [b, c], _ =>
      simp only [List.cons_append, List.nil_append, badLength, not_isContinuation_of_lt h]
      simp
  | b :: c :: d :: tail, _ => rfl

theorem badLength_le {bs : List UInt8} (hne : bs ≠ []) : badLength bs ≤ bs.length := by
  match bs, hne with
  | [b], _ => exact Nat.le_refl 1
  | [b, c], _ =>
      rw [badLength]
      split_ifs <;> simp
  | b :: c :: d :: tail, _ =>
      rw [badLength]
      split_ifs <;> simp

/-- A step of reading goes no further than the bytes at hand, and what it reads and how far
    it goes is told by these. -/
theorem lossyFrom_append_ascii (h : a < 0x80) {bs : List UInt8} {skip : Nat}
    (hskip : skip ≤ bs.length) :
    lossyFrom skip (bs ++ a :: rest) =
      lossyFrom skip bs ++ Char.ofNat a.toNat :: lossyFrom 0 rest := by
  induction bs generalizing skip with
  | nil =>
      cases Nat.le_zero.1 hskip
      have hread := fromUtf8Lossy_encode_append (Char.ofNat a.toNat) rest
      rw [encode_ascii h] at hread
      exact hread
  | cons b bs ih =>
      cases skip with
      | succ skip => exact ih (Nat.le_of_succ_le_succ hskip)
      | zero =>
          have hfirst : first? (b :: bs ++ a :: rest) = first? (b :: bs) :=
            first?_append_ascii h (List.cons_ne_nil b bs)
          have hbad : badLength (b :: bs ++ a :: rest) = badLength (b :: bs) :=
            badLength_append_ascii h (List.cons_ne_nil b bs)
          have hstep : ∀ {n : Nat}, n ≤ (b :: bs).length → lossyFrom (n - 1) (bs ++ a :: rest) =
              lossyFrom (n - 1) bs ++ Char.ofNat a.toNat :: lossyFrom 0 rest :=
            fun hn => ih (Nat.sub_le_of_le_add hn)
          rw [List.cons_append] at hfirst hbad ⊢
          rw [lossyFrom, lossyFrom, hfirst, hbad]
          cases hc : first? (b :: bs) with
          | some c => exact congrArg (c :: ·) (hstep (utf8Size_le_of_first? hc))
          | none => exact congrArg ('\uFFFD' :: ·) (hstep (badLength_le (List.cons_ne_nil b bs)))

/-- Reading stops and begins anew at such a byte. -/
theorem fromUtf8Lossy_append_ascii (h : a < 0x80) (bs rest : List UInt8) :
    fromUtf8Lossy (bs ++ a :: rest) =
      fromUtf8Lossy bs ++ Char.ofNat a.toNat :: fromUtf8Lossy rest :=
  lossyFrom_append_ascii h (Nat.zero_le _)

end Ascii

end Utf8Text
