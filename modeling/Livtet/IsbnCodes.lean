import Livtet.Isbn
import Livtet.Lib.Blanks
import Livtet.Lib.CheckSums

/-! # What a check digit protects

    An ISBN is accepted in any spelling: an optional prefix, then the characters of the
    code with blanks and hyphens between them. Its two check sums are weighted sums, of
    moduli 11 and 10, and no weight has a factor in common with its modulus: one wrong
    digit is always noticed. -/

namespace Isbn

open SyncPairing (isWhitespace trim toLower_cases isWhitespace_of_isAlphanum isAlphanum_iff)
open CheckSums
open Blanks (exists_trim exists_trimEnd trim_between)

/-! ## Spellings -/

/-- Left out when the text is cleaned. -/
def isFiller (c : Char) : Bool := isWhitespace c || c == '-'

/-- Blanks and hyphens are inserted. -/
inductive Spaced : List Char → List Char → Prop
  | nil : Spaced [] []
  | keep (c : Char) {cs cs' : List Char} : Spaced cs cs' → Spaced (c :: cs) (c :: cs')
  | insert {c : Char} {cs cs' : List Char} : isFiller c = true → Spaced cs cs' →
      Spaced cs (c :: cs')

/-- Blanks, then one of the prefixes in capitals or small letters. -/
def IsPrefix (head : List Char) : Prop := ∃ lead p, head = lead ++ p ∧
  (∀ c ∈ lead, isWhitespace c = true) ∧
  p.map Char.toLower ∈ ["isbn-13:", "isbn-10:", "isbn:"].map String.toList

/-- The text before the code: the prefix, or nothing if there is none. -/
def OptionalPrefix (head body : List Char) : Prop :=
  IsPrefix head ∨ head = [] ∧ ∀ p rest, p ++ rest = body → ¬ IsPrefix p

theorem kept_of_spaced {cs cs' : List Char} (h : Spaced cs cs') :
    (cs'.filter fun c => !isFiller c) = cs.filter fun c => !isFiller c := by
  induction h with
  | nil => rfl
  | keep c h ih => rw [List.filter_cons, List.filter_cons, ih]
  | insert hc h ih => rw [List.filter_cons, hc, Bool.not_true, if_neg Bool.false_ne_true, ih]

theorem clean_eq (s : String) :
    clean s = (stripIsbnPrefix (trim s).toList).filter fun c => !isFiller c := by
  rw [clean]
  refine List.filter_congr fun c _ => ?_
  rw [isFiller, Bool.not_or]
  rfl

theorem toList_trim (s : String) : (trim s).toList = Blanks.trim isWhitespace s.toList :=
  String.toList_ofList

/-- The text says the same without the blanks around it. -/
theorem filter_trim (cs : List Char) : ((Blanks.trim isWhitespace cs).filter fun c => !isFiller c) =
    cs.filter fun c => !isFiller c := by
  have hblank : ∀ {ws : List Char}, (∀ c ∈ ws, isWhitespace c = true) →
      (ws.filter fun c => !isFiller c) = [] := by
    intro ws hws
    refine List.filter_eq_nil_iff.2 fun c hc => ?_
    rw [isFiller, hws c hc, Bool.true_or]
    exact Bool.false_ne_true
  obtain ⟨lead, trail, hsplit, hlead, htrail⟩ := exists_trim isWhitespace cs
  conv_rhs => rw [hsplit]
  rw [List.filter_append, List.filter_append, hblank hlead, hblank htrail, List.nil_append,
    List.append_nil]

/-- Whether a prefix is taken off is told by the text's small letters. -/
theorem stripIsbnPrefix_cases (cs : List Char) :
    (∃ p rest, cs = p ++ rest ∧ p.map Char.toLower ∈
      ["isbn-13:", "isbn-10:", "isbn:"].map String.toList ∧ stripIsbnPrefix cs = rest) ∨
    stripIsbnPrefix cs = cs := by
  rw [stripIsbnPrefix.eq_def]
  split
  · rename_i p hp
    left
    have hmem : p ∈ ["isbn-13:", "isbn-10:", "isbn:"] := List.mem_of_find?_eq_some hp
    have hlower : p.toList <+: cs.map Char.toLower :=
      List.isPrefixOf_iff_prefix.1 (List.find?_some hp :)
    refine ⟨cs.take p.length, cs.drop p.length, (List.take_append_drop _ _).symm, ?_, rfl⟩
    have htake : (cs.take p.length).map Char.toLower = p.toList := by
      rw [List.map_take, ← String.length_toList]
      exact (List.prefix_iff_eq_take.1 hlower).symm
    rw [htake]
    exact List.mem_map_of_mem hmem
  · right
    rfl

/-- The prefixes are told apart by what they start with. -/
theorem stripIsbnPrefix_append {p rest : List Char}
    (hp : p.map Char.toLower ∈ ["isbn-13:", "isbn-10:", "isbn:"].map String.toList) :
    stripIsbnPrefix (p ++ rest) = rest := by
  have hlength : p.length = (p.map Char.toLower).length := (List.length_map _).symm
  rw [stripIsbnPrefix, List.map_append]
  generalize p.map Char.toLower = q at hp hlength
  simp only [List.map_cons, List.map_nil, List.mem_cons, List.not_mem_nil, or_false] at hp
  have hdrop : ∀ n, p.length = n → (p ++ rest).drop n = rest := by
    intro n hn
    rw [← hn]
    exact List.drop_left
  rcases hp with rfl | rfl | rfl
  · exact hdrop 8 hlength
  · exact hdrop 8 hlength
  · exact hdrop 5 hlength

/-- A blank is no letter. -/
theorem isWhitespace_of_toLower {c : Char} (h : isWhitespace c.toLower = false) :
    isWhitespace c = false := by
  rcases toLower_cases c with hsame | ⟨hlow, hhigh, _⟩
  · rwa [hsame] at h
  · exact isWhitespace_of_isAlphanum (isAlphanum_iff.2 (Or.inl ⟨hlow, hhigh⟩))

section Prefixed

variable {p head body : List Char}

theorem trim_prefixed {lead : List Char} (hlead : ∀ c ∈ lead, isWhitespace c = true)
    (hp : p.map Char.toLower ∈ ["isbn-13:", "isbn-10:", "isbn:"].map String.toList) :
    ∃ front trail, body = front ++ trail ∧ (∀ c ∈ trail, isWhitespace c = true) ∧
      Blanks.trim isWhitespace (lead ++ p ++ body) = p ++ front := by
  have hends : (∀ c ∈ (p.map Char.toLower).head?, isWhitespace c = false) ∧
      (∀ c ∈ (p.map Char.toLower).getLast?, isWhitespace c = false) ∧
      p.map Char.toLower ≠ [] := by
    -- no prefix begins or ends with a blank, in whatever case it is written
    have hall : (["isbn-13:", "isbn-10:", "isbn:"].map String.toList).all (fun q =>
        q.head?.all (fun c => !isWhitespace c) && q.getLast?.all (fun c => !isWhitespace c) &&
          !q.isEmpty) = true := by decide +kernel
    have hthis := List.all_eq_true.1 hall _ hp
    simp only [Bool.and_eq_true, Option.all_eq_true, Bool.not_eq_true',
      List.isEmpty_eq_false_iff] at hthis
    exact ⟨hthis.1.1, hthis.1.2, hthis.2⟩
  obtain ⟨hhead, hlast, hne⟩ := hends
  obtain ⟨front, trail, rfl, htrail, hfront⟩ := exists_trimEnd isWhitespace body
  refine ⟨front, trail, rfl, htrail, ?_⟩
  have hassoc : lead ++ p ++ (front ++ trail) = lead ++ ((p ++ front) ++ trail) := by
    simp only [List.append_assoc]
  have hhead' : ∀ c ∈ p.head?, isWhitespace c = false := by
    intro c hc
    refine isWhitespace_of_toLower (hhead _ ?_)
    rw [List.head?_map, hc]
    rfl
  have hlast' : ∀ c ∈ p.getLast?, isWhitespace c = false := by
    intro c hc
    refine isWhitespace_of_toLower (hlast _ ?_)
    rw [List.getLast?_map, hc]
    rfl
  rw [hassoc]
  refine trim_between hlead htrail ?_ ?_
  · cases p with
    | nil => exact absurd rfl hne
    | cons c p => exact hhead'
  · intro c hc
    rw [List.getLast?_append] at hc
    cases hlastFront : front.getLast? with
    | none =>
        rw [hlastFront] at hc
        exact hlast' c hc
    | some d =>
        rw [hlastFront] at hc
        exact hfront c (hlastFront.trans hc)

theorem filter_append_blank {front trail : List Char}
    (htrail : ∀ c ∈ trail, isWhitespace c = true) :
    ((front ++ trail).filter fun c => !isFiller c) = front.filter fun c => !isFiller c := by
  have hnone : (trail.filter fun c => !isFiller c) = [] := by
    refine List.filter_eq_nil_iff.2 fun c hc => ?_
    rw [isFiller, htrail c hc, Bool.true_or]
    exact Bool.false_ne_true
  rw [List.filter_append, hnone, List.append_nil]

theorem clean_prefixed (h : IsPrefix head) :
    clean (String.ofList (head ++ body)) = body.filter fun c => !isFiller c := by
  obtain ⟨lead, p, rfl, hlead, hp⟩ := h
  obtain ⟨front, trail, rfl, htrail, htrim⟩ := @trim_prefixed p body lead hlead hp
  rw [clean_eq, toList_trim, String.toList_ofList, htrim, stripIsbnPrefix_append hp,
    filter_append_blank htrail]

theorem clean_unprefixed (h : ∀ p rest, p ++ rest = body → ¬ IsPrefix p) :
    clean (String.ofList body) = body.filter fun c => !isFiller c := by
  rw [clean_eq, toList_trim, String.toList_ofList]
  rcases stripIsbnPrefix_cases (Blanks.trim isWhitespace body) with
    ⟨p, rest, hsplit, hp, _⟩ | hsame
  · obtain ⟨lead, trail, hbody, hlead, _⟩ := exists_trim isWhitespace body
    refine absurd ⟨lead, p, rfl, hlead, hp⟩ (h (lead ++ p) (rest ++ trail) ?_)
    conv_rhs => rw [hbody, hsplit]
    simp only [List.append_assoc]
  · rw [hsame, filter_trim]

/-- Only the cleaned text is looked at. -/
theorem parse_congr {s t : String} (h : clean s = clean t) : parse s = parse t := by
  simp only [parse, h]

theorem isIsbnChar_of_parse {s c : String} (h : parse s = .ok c) :
    ∀ d ∈ clean s, isIsbnChar d = true := by
  intro d hd
  simp only [parse] at h
  split at h
  · cases h
  · split at h
    · cases h
    · rename_i hnone
      simpa using List.find?_eq_none.1 hnone d hd

/-- No letter of a prefix is in a code. -/
theorem not_isPrefix_of_code (h : ∀ c ∈ body, isFiller c = true ∨ isIsbnChar c = true)
    {rest : List Char} (hsplit : p ++ rest = body) : ¬ IsPrefix p := by
  rintro ⟨lead, q, rfl, _, hq⟩
  have hletter : 's' ∈ q.map Char.toLower := by
    generalize q.map Char.toLower = q' at hq
    revert q'
    decide
  obtain ⟨c, hc, hlower⟩ := List.mem_map.1 hletter
  have hmem : c ∈ body := by
    rw [← hsplit]
    exact List.mem_append_left _ (List.mem_append_right _ hc)
  have hcases : c = 's' ∨ c = 'S' := by
    rcases toLower_cases c with hsame | ⟨_, _, hshift⟩
    · exact Or.inl (hsame.symm.trans hlower)
    · right
      rw [hlower] at hshift
      have hval : c.val.toNat = 83 := by
        have hs : ('s').val.toNat = 115 := rfl
        omega
      exact Char.ext (UInt32.toNat_inj.1 hval)
  rcases hcases with rfl | rfl
  · exact absurd (h 's' hmem) (by decide)
  · exact absurd (h 'S' hmem) (by decide)

end Prefixed

/-- Blanks and hyphens after the optional prefix do not change what is read. -/
theorem parse_spaced {head body body' : List Char} {c : String}
    (h : parse (String.ofList (head ++ body)) = .ok c) (hhead : OptionalPrefix head body)
    (hspaced : Spaced body body') : parse (String.ofList (head ++ body')) = .ok c := by
  rw [← h]
  refine parse_congr ?_
  rcases hhead with hprefix | ⟨rfl, hnone⟩
  · rw [clean_prefixed hprefix, clean_prefixed hprefix, kept_of_spaced hspaced]
  · have hcode := isIsbnChar_of_parse h
    rw [List.nil_append, clean_unprefixed hnone, ← kept_of_spaced hspaced] at hcode
    have hnone' : ∀ p rest, p ++ rest = body' → ¬ IsPrefix p := by
      intro p rest hsplit
      refine not_isPrefix_of_code (fun c hc => ?_) hsplit
      cases hfiller : isFiller c with
      | true => exact Or.inl rfl
      | false => exact Or.inr (hcode c (List.mem_filter.2 ⟨hc, by rw [hfiller]; rfl⟩))
    rw [List.nil_append, List.nil_append, clean_unprefixed hnone, clean_unprefixed hnone',
      kept_of_spaced hspaced]

/-! ## The check sums -/

/-- What a character of a code counts for. -/
def value (c : Char) : Nat := if c == 'X' || c == 'x' then 10 else digit c

def isbn10Weight (i : Nat) : Nat := 10 - i

def isbn13Weight (i : Nat) : Nat := if i % 2 = 0 then 1 else 3

theorem isDigit_iff {c : Char} : c.isDigit = true ↔ 48 ≤ c.toNat ∧ c.toNat ≤ 57 := by
  rw [Char.isDigit, Bool.and_eq_true, decide_eq_true_eq, decide_eq_true_eq]
  rfl

theorem digit_of_isDigit {c : Char} (h : c.isDigit = true) : digit c = c.toNat - 48 := by
  rw [digit, if_pos h]
  rfl

theorem value_of_isDigit {c : Char} (h : c.isDigit = true) : value c = digit c := by
  rw [value, if_neg]
  rw [Bool.or_eq_true, beq_iff_eq, beq_iff_eq, not_or]
  exact ⟨ne_of_isDigit h (by decide), ne_of_isDigit h (by decide)⟩

theorem value_le {c : Char} (h : isIsbnChar c = true) : value c ≤ 10 := by
  rw [value]
  split
  · exact Nat.le_refl 10
  · rename_i hx
    rw [isIsbnChar, Bool.or_assoc, Bool.or_eq_true] at h
    have hdigit := h.resolve_right hx
    have hrange := isDigit_iff.1 hdigit
    rw [digit_of_isDigit hdigit]
    omega

/-- A digit is told by its value. -/
theorem eq_of_digit {c d : Char} (hc : c.isDigit = true) (hd : d.isDigit = true)
    (h : digit c = digit d) : c = d := by
  have hrange := isDigit_iff.1 hc
  have hrange' := isDigit_iff.1 hd
  rw [digit_of_isDigit hc, digit_of_isDigit hd] at h
  exact Char.ext (UInt32.toNat_inj.1 (show c.toNat = d.toNat by omega))

theorem isbn13Sum_eq (cs : List Char) : isbn13Sum cs = weighted isbn13Weight (cs.map digit) :=
  weighted_map digit isbn13Weight cs

/-- Nine digits, then a digit or an X: the weighted sum is divisible by 11. -/
theorem isValidIsbn10_iff {cs : List Char} : isValidIsbn10 cs = true ↔ ∃ nine last,
    cs = nine ++ [last] ∧ nine.length = 9 ∧ (∀ c ∈ nine, c.isDigit = true) ∧
      isIsbnChar last = true ∧ weighted isbn10Weight (cs.map value) % 11 = 0 := by
  have hsum : ∀ (nine : List Char) (last : Char), nine.length = 9 →
      (∀ c ∈ nine, c.isDigit = true) → weighted isbn10Weight ((nine ++ [last]).map value) =
        (nine.mapIdx fun i c => digit c * (10 - i)).sum + value last := by
    intro nine last hlength hdigits
    have hvalues : nine.map value = nine.map digit :=
      List.map_congr_left fun c hc => value_of_isDigit (hdigits c hc)
    rw [List.map_append, weighted_append, List.length_map, hlength, hvalues]
    show weighted isbn10Weight (nine.map digit) + value last * 1 = _
    rw [Nat.mul_one, ← weighted_map digit isbn10Weight]
    rfl
  constructor
  · intro h
    rw [isValidIsbn10.eq_def] at h
    split at h
    · rename_i a b c d e f g i j last
      rw [Bool.and_eq_true, Bool.and_eq_true, beq_iff_eq, List.all_eq_true] at h
      have hdigits : ∀ x ∈ [a, b, c, d, e, f, g, i, j], x.isDigit = true := h.1.1
      refine ⟨[a, b, c, d, e, f, g, i, j], last, rfl, rfl, hdigits, h.1.2, ?_⟩
      have hweighted : weighted isbn10Weight ([a, b, c, d, e, f, g, i, j, last].map value) = _ :=
        hsum [a, b, c, d, e, f, g, i, j] last rfl hdigits
      rw [hweighted]
      exact h.2
    · cases h
  · rintro ⟨nine, last, rfl, hlength, hdigits, hlast, hzero⟩
    rw [hsum nine last hlength hdigits] at hzero
    rcases nine with _ | ⟨a, _ | ⟨b, _ | ⟨c, _ | ⟨d, _ | ⟨e, _ | ⟨f, _ | ⟨g, _ | ⟨i, _ | ⟨j, _ |
      ⟨k, rest⟩⟩⟩⟩⟩⟩⟩⟩⟩⟩
    case cons.cons.cons.cons.cons.cons.cons.cons.cons.nil =>
      have hvalid : isValidIsbn10 ([a, b, c, d, e, f, g, i, j] ++ [last]) =
          (List.all [a, b, c, d, e, f, g, i, j] Char.isDigit && isIsbnChar last &&
            ((List.mapIdx (fun i c => digit c * (10 - i)) [a, b, c, d, e, f, g, i, j]).sum +
              value last) % 11 == 0) := rfl
      rw [hvalid, Bool.and_eq_true, Bool.and_eq_true, List.all_eq_true, beq_iff_eq]
      exact ⟨⟨hdigits, hlast⟩, hzero⟩
    all_goals
      simp only [List.length_cons, List.length_nil] at hlength
      omega

/-- Thirteen digits: the weighted sum is divisible by 10. -/
theorem isValidIsbn13_iff_weighted {cs : List Char} : isValidIsbn13 cs = true ↔
    cs.length = 13 ∧ (∀ c ∈ cs, c.isDigit = true) ∧
      weighted isbn13Weight (cs.map digit) % 10 = 0 := by
  rw [isValidIsbn13_iff, isbn13Sum_eq]

theorem isIsbnChar_of_isDigit {c : Char} (h : c.isDigit = true) : isIsbnChar c = true := by
  rw [isIsbnChar, h]
  rfl

theorem isIsbnChar_of_valid10 {cs : List Char} (h : isValidIsbn10 cs = true) :
    cs.length = 10 ∧ ∀ c ∈ cs, isIsbnChar c = true := by
  obtain ⟨nine, last, rfl, hlength, hdigits, hlast, _⟩ := isValidIsbn10_iff.1 h
  refine ⟨by rw [List.length_append, hlength]; rfl, fun c hc => ?_⟩
  rcases List.mem_append.1 hc with hc | hc
  · exact isIsbnChar_of_isDigit (hdigits c hc)
  · rw [List.mem_singleton.1 hc]
    exact hlast

/-! ## What is accepted -/

section Codes

variable {cs : List Char}

theorem not_isFiller {c : Char} (h : isIsbnChar c = true) : isFiller c = false := by
  have halnum : c.isAlphanum = true := by
    rw [isIsbnChar, Bool.or_eq_true, Bool.or_eq_true, beq_iff_eq, beq_iff_eq] at h
    rcases h with (hdigit | rfl) | rfl
    · exact isAlphanum_of_isDigit hdigit
    · rfl
    · rfl
  rw [isFiller, isWhitespace_of_isAlphanum halnum, Bool.false_or, beq_eq_false_iff_ne]
  rintro rfl
  cases halnum

theorem clean_code (h : ∀ c ∈ cs, isIsbnChar c = true) : clean (String.ofList cs) = cs := by
  rw [clean_unprefixed fun p rest hsplit =>
    not_isPrefix_of_code (fun c hc => Or.inr (h c hc)) hsplit]
  refine List.filter_eq_self.2 fun c hc => ?_
  rw [not_isFiller (h c hc)]
  rfl

theorem parse_of_valid10 {s : String} (h : isValidIsbn10 (clean s) = true) :
    parse s = .ok (String.ofList (upgradeIsbn10To13 (clean s))) := by
  obtain ⟨hlength, hchars⟩ := isIsbnChar_of_valid10 h
  have hne : (clean s).isEmpty = false := by
    rw [List.isEmpty_eq_false_iff]
    exact List.ne_nil_of_length_pos (by omega)
  have hnone : (clean s).find? (fun c => !isIsbnChar c) = none := by
    refine List.find?_eq_none.2 fun c hc => ?_
    rw [hchars c hc]
    exact Bool.false_ne_true
  simp only [parse, hne, hnone, hlength, h]
  rfl

/-- What is accepted has one of the two check sums. -/
theorem valid_of_parse {s c : String} (h : parse s = .ok c) :
    isValidIsbn10 (clean s) = true ∨ isValidIsbn13 (clean s) = true := by
  simp only [parse] at h
  split at h
  · cases h
  · split at h
    · cases h
    · split at h
      · split at h
        · rename_i hvalid
          exact Or.inl hvalid
        · cases h
      · split at h
        · rename_i hvalid
          exact Or.inr hvalid
        · cases h
      · cases h

/-- No other digit in one place of a valid ISBN-10 gives a valid one. -/
theorem not_valid10_set {i : Nat} {d : Char} (hi : i < cs.length) (hd : isIsbnChar d = true)
    (hne : value d ≠ value cs[i]) (h : isValidIsbn10 cs = true) :
    isValidIsbn10 (cs.set i d) = false := by
  have hchars := isIsbnChar_of_valid10 h
  obtain ⟨_, _, _, _, _, _, hsum⟩ := isValidIsbn10_iff.1 h
  rw [Bool.eq_false_iff]
  intro hset
  obtain ⟨_, _, _, _, _, _, hsum'⟩ := isValidIsbn10_iff.1 hset
  have hi' : i < (cs.map value).length := by rwa [List.length_map]
  -- the weights of an ISBN-10 go from 10 to 1, and 11 is a prime
  have hcoprime : ∀ i < 10, Nat.Coprime 11 (isbn10Weight i) := by decide
  rw [List.map_set] at hsum'
  refine weighted_set_mod isbn10Weight hi' (hcoprime i (hchars.1 ▸ hi)) ?_
    (Nat.lt_succ_of_le (value_le hd)) ?_ hsum hsum'
  · rw [List.getElem_map]
    exact Nat.lt_succ_of_le (value_le (hchars.2 _ (List.getElem_mem hi)))
  · rwa [List.getElem_map]

theorem not_valid13_set {i : Nat} {d : Char} (hi : i < cs.length)
    (hne : value d ≠ value cs[i]) (h : isValidIsbn13 cs = true) :
    isValidIsbn13 (cs.set i d) = false := by
  obtain ⟨_, hdigits, hsum⟩ := isValidIsbn13_iff_weighted.1 h
  rw [Bool.eq_false_iff]
  intro hset
  obtain ⟨_, hdigits', hsum'⟩ := isValidIsbn13_iff_weighted.1 hset
  have hold := hdigits _ (List.getElem_mem hi)
  have hnew : d.isDigit = true := hdigits' d (List.mem_set hi d)
  have hi' : i < (cs.map digit).length := by rwa [List.length_map]
  have hlt : ∀ c : Char, c.isDigit = true → digit c < 10 := by
    intro c hc
    have hrange := isDigit_iff.1 hc
    rw [digit_of_isDigit hc]
    omega
  have hcoprime : Nat.Coprime 10 (isbn13Weight i) := by
    rw [isbn13Weight]
    split <;> decide
  rw [List.map_set] at hsum'
  refine weighted_set_mod isbn13Weight hi' hcoprime ?_ (hlt d hnew) ?_ hsum hsum'
  · rw [List.getElem_map]
    exact hlt _ hold
  · rw [List.getElem_map, ← value_of_isDigit hnew, ← value_of_isDigit hold]
    exact hne

/-- One wrong digit is noticed. -/
theorem error_of_set {c : String} {i : Nat} {d : Char} (hcs : ∀ x ∈ cs, isIsbnChar x = true)
    (h : parse (String.ofList cs) = .ok c) (hi : i < cs.length) (hd : isIsbnChar d = true)
    (hne : value d ≠ value cs[i]) : ∃ e, parse (String.ofList (cs.set i d)) = .error e := by
  have hset : ∀ x ∈ cs.set i d, isIsbnChar x = true := by
    intro x hx
    rcases List.mem_or_eq_of_mem_set hx with hx | rfl
    · exact hcs x hx
    · exact hd
  have hvalid := valid_of_parse h
  rw [clean_code hcs] at hvalid
  cases hparse : parse (String.ofList (cs.set i d)) with
  | error e => exact ⟨e, rfl⟩
  | ok c' =>
      exfalso
      have hvalid' := valid_of_parse hparse
      rw [clean_code hset] at hvalid'
      -- an ISBN-10 does not become an ISBN-13, as the length stays
      have hlength : (cs.set i d).length = cs.length := List.length_set
      rcases hvalid with h10 | h13
      · rcases hvalid' with h10' | h13'
        · rw [not_valid10_set hi hd hne h10] at h10'
          cases h10'
        · have := (isIsbnChar_of_valid10 h10).1
          have := (isValidIsbn13_iff.1 h13').1
          omega
      · rcases hvalid' with h10' | h13'
        · have := (isIsbnChar_of_valid10 h10').1
          have := (isValidIsbn13_iff.1 h13).1
          omega
        · rw [not_valid13_set hi hne h13] at h13'
          cases h13'

/-- Twelve digits have one check digit. -/
theorem checkDigit_unique {twelve : List Char} {a b : Char} (hlength : twelve.length = 12)
    (ha : isValidIsbn13 (twelve ++ [a]) = true) (hb : isValidIsbn13 (twelve ++ [b]) = true) :
    a = b := by
  have hdigit : ∀ x, isValidIsbn13 (twelve ++ [x]) = true → x.isDigit = true := fun x hx =>
    (isValidIsbn13_iff.1 hx).2.1 x (List.mem_append_right _ List.mem_cons_self)
  by_contra hne
  have hi : 12 < (twelve ++ [a]).length := by
    rw [List.length_append, hlength]
    exact Nat.lt_succ_self 12
  have hat : (twelve ++ [a])[12] = a := by
    rw [List.getElem_append_right (by omega)]
    simp only [hlength, Nat.sub_self, List.getElem_cons_zero]
  have hset : (twelve ++ [a]).set 12 b = twelve ++ [b] := by
    rw [List.set_append_right _ _ (by omega), hlength]
    rfl
  have hvalues : value b ≠ value (twelve ++ [a])[12] := by
    rw [hat, value_of_isDigit (hdigit a ha), value_of_isDigit (hdigit b hb)]
    exact fun h => hne (eq_of_digit (hdigit b hb) (hdigit a ha) h).symm
  have hfalse := not_valid13_set hi hvalues ha
  rw [hset, hb] at hfalse
  cases hfalse

end Codes

/-- Thirteen digits, the last of which makes up the check sum. -/
structure Canonical (c : String) : Prop where
  length : c.toList.length = 13
  digits : ∀ d ∈ c.toList, d.isDigit = true
  sum : weighted isbn13Weight (c.toList.map digit) % 10 = 0

theorem canonical_of_parse {s c : String} (h : parse s = .ok c) : Canonical c := by
  obtain ⟨ds, hvalid, rfl⟩ := exists_valid_of_parse h
  obtain ⟨hlength, hdigits, hsum⟩ := isValidIsbn13_iff_weighted.1 hvalid
  rw [← String.toList_ofList (l := ds)] at hlength hdigits hsum
  exact ⟨hlength, hdigits, hsum⟩

/-- An ISBN-10 is read as the ISBN-13 that starts with 978 and goes on with its nine digits. -/
theorem parse_isbn10 {cs : List Char} (h : isValidIsbn10 cs = true) {k : Char}
    (hk : isValidIsbn13 ("978".toList ++ cs.take 9 ++ [k]) = true) :
    parse (String.ofList cs) = parse (String.ofList ("978".toList ++ cs.take 9 ++ [k])) := by
  obtain ⟨hlength, hchars⟩ := isIsbnChar_of_valid10 h
  have htwelve : ("978".toList ++ cs.take 9).length = 12 := by
    rw [List.length_append, List.length_take, hlength]
    rfl
  have hsame := checkDigit_unique htwelve hk (isValidIsbn13_upgrade h)
  have hclean := clean_code hchars
  rw [parse_of_valid10 (by rw [hclean]; exact h), hclean, parse_ofList hk, hsame]
  rfl

/-- **ONE CANONICAL FORM.** What is accepted is answered with in canonical form, which is its
    own, in whatever spelling it comes; an ISBN-10 is its ISBN-13; and a code with one wrong
    digit is not accepted. -/
theorem parse_canonical :
    (∀ s c, parse s = .ok c → Canonical c ∧ parse c = .ok c ∧
      ∀ head body body', s = String.ofList (head ++ body) → OptionalPrefix head body →
        Spaced body body' → parse (String.ofList (head ++ body')) = .ok c) ∧
    (∀ cs, isValidIsbn10 cs = true →
      (∃ k, isValidIsbn13 ("978".toList ++ cs.take 9 ++ [k]) = true) ∧
        ∀ k, isValidIsbn13 ("978".toList ++ cs.take 9 ++ [k]) = true →
          parse (String.ofList cs) = parse (String.ofList ("978".toList ++ cs.take 9 ++ [k]))) ∧
    ∀ cs c, (cs.length = 10 ∨ cs.length = 13) → (∀ x ∈ cs, isIsbnChar x = true) →
      parse (String.ofList cs) = .ok c → ∀ i d, (hi : i < cs.length) → isIsbnChar d = true →
        value d ≠ value cs[i] → ∃ e, parse (String.ofList (cs.set i d)) = .error e := by
  refine ⟨fun s c h => ⟨canonical_of_parse h, parse_parse h, ?_⟩,
    fun cs h => ⟨⟨_, isValidIsbn13_upgrade h⟩, fun k hk => parse_isbn10 h hk⟩,
    fun cs c _ hcs h i d hi hd hne => error_of_set hcs h hi hd hne⟩
  rintro head body body' rfl hhead hspaced
  exact parse_spaced h hhead hspaced

/-- A spelling with hyphens, and a code with a wrong last digit. -/
theorem parse_canonical_examples :
    Canonical "9780306406157" ∧ ∃ e, parse (String.ofList ("0306406152".toList.set 9 '0')) =
      .error e :=
  ⟨(parse_canonical.1 "ISBN-10: 0-306-40615-2" "9780306406157" (by decide +kernel)).1,
    parse_canonical.2.2 "0306406152".toList "9780306406157" (Or.inl rfl)
      (List.all_eq_true.1 (by decide)) (by decide +kernel) 9 '0' (by decide) rfl (by decide)⟩

end Isbn
