/-! # Citation items

    A citation is rendered from one CSL item: BibTeX, RIS and the citation keys all read
    the fields that are kept here. -/

namespace Citations

structure CslName where
  family : Option String
  given : Option String
  literal : Option String
deriving DecidableEq, Repr

/-- A text that is there and not empty. -/
def nonEmpty (part : Option String) : Option String := part.filter fun s => decide (s ≠ "")

def CslName.displayName (name : CslName) : Option String :=
  match nonEmpty name.family, nonEmpty name.given with
  | some family, some given => some (family ++ ", " ++ given)
  | some family, none => some family
  | none, some given => some given
  | none, none => nonEmpty name.literal

structure CslDate where
  dateParts : List (List Int32)
deriving DecidableEq, Repr

def CslDate.firstYear (date : CslDate) : Option Int32 :=
  date.dateParts.head?.bind fun parts => parts.head?

structure CslItem where
  id : String
  title : Option String
  author : List CslName
  editor : List CslName
  translator : List CslName
  publisher : Option String
  publisherPlace : Option String
  issued : Option CslDate
  edition : Option String
  language : Option String
  isbn : Option String
  doi : Option String
  oclc : Option String
  lccn : Option String
  numberOfPages : Option String
deriving DecidableEq, Repr

def CslItem.issuedYear (item : CslItem) : Option Int32 := item.issued.bind CslDate.firstYear

/-- An `i32` in decimal digits. -/
def showInt (n : Int32) : String := toString n.toInt

def CslItem.yearLabel (item : CslItem) : String := (item.issuedYear.map showInt).getD "n.d."

/-- An item of which nothing but its identifier is known. -/
def CslItem.bare (id : String) : CslItem where
  id := id
  title := none
  author := []
  editor := []
  translator := []
  publisher := none
  publisherPlace := none
  issued := none
  edition := none
  language := none
  isbn := none
  doi := none
  oclc := none
  lccn := none
  numberOfPages := none

/-! ## Texts that are shown -/

theorem nonEmpty_eq_some {part : Option String} {s : String} :
    nonEmpty part = some s ↔ part = some s ∧ s ≠ "" := by
  rw [nonEmpty, Option.filter_eq_some_iff, decide_eq_true_eq]

/-- A name that is shown shows something. -/
theorem displayName_ne_empty {name : CslName} {s : String} (h : name.displayName = some s) :
    s ≠ "" := by
  rw [CslName.displayName] at h
  split at h
  · cases h
    intro hempty
    have hlength := congrArg String.length hempty
    rw [String.length_append, String.length_append] at hlength
    have hcomma : (", ").length = 2 := rfl
    have hnone : ("").length = 0 := rfl
    omega
  · rename_i hfamily _
    cases h
    exact (nonEmpty_eq_some.1 hfamily).2
  · rename_i hgiven
    cases h
    exact (nonEmpty_eq_some.1 hgiven).2
  · exact (nonEmpty_eq_some.1 h).2

/-! ## Numbers that are shown -/

theorem toList_showInt (n : Int32) : (showInt n).toList =
    (if n.toInt < 0 then ['-'] else []) ++ Nat.toDigits 10 n.toInt.natAbs := by
  rw [showInt]
  cases n.toInt with
  | ofNat m => exact Nat.toList_repr
  | negSucc m =>
      show ("-" ++ Nat.repr (m + 1)).toList = _
      rw [String.toList_append, Nat.toList_repr, if_pos (Int.negSucc_lt_zero m)]
      rfl

theorem mem_showInt {n : Int32} {c : Char} (h : c ∈ (showInt n).toList) :
    c = '-' ∨ c.isDigit = true := by
  rw [toList_showInt, List.mem_append] at h
  rcases h with h | h
  · split at h
    · exact Or.inl (List.mem_singleton.1 h)
    · cases h
  · exact Or.inr (Nat.isDigit_of_mem_toDigits (by decide) (by decide) h)

theorem showInt_injective {m n : Int32} (h : showInt m = showInt n) : m = n := by
  have hlists := congrArg String.toList h
  rw [toList_showInt, toList_showInt] at hlists
  have hminus : ∀ k, (Nat.toDigits 10 k).head? ≠ some '-' := by
    intro k hhead
    have hdigit := Nat.isDigit_of_mem_toDigits (by decide) (by decide) (List.mem_of_head? hhead)
    exact absurd hdigit (by decide)
  have habs : ∀ {a b : Nat}, Nat.toDigits 10 a = Nat.toDigits 10 b → a = b := by
    intro a b hab
    rw [← @Nat.ofDigitChars_ten_toDigits a, hab, Nat.ofDigitChars_ten_toDigits]
  rw [← Int32.toInt_inj]
  split at hlists
  · split at hlists
    · have hdigits := habs (List.append_cancel_left hlists)
      omega
    · exact absurd (congrArg List.head? hlists).symm (hminus _)
  · split at hlists
    · exact absurd (congrArg List.head? hlists) (hminus _)
    · have hdigits := habs hlists
      omega

theorem mem_yearLabel {item : CslItem} {c : Char} (h : c ∈ item.yearLabel.toList) :
    c ∈ ['-', 'n', '.', 'd'] ∨ c.isDigit = true := by
  rw [CslItem.yearLabel] at h
  cases hyear : item.issuedYear with
  | none =>
      rw [hyear] at h
      have hlabel : c ∈ ['n', '.', 'd', '.'] := h
      simp only [List.mem_cons, List.not_mem_nil, or_false] at hlabel ⊢
      grind
  | some year =>
      rw [hyear] at h
      rcases mem_showInt h with rfl | hdigit
      · exact Or.inl List.mem_cons_self
      · exact Or.inr hdigit

/-- A year is always written as something. -/
theorem yearLabel_ne_empty (item : CslItem) : item.yearLabel ≠ "" := by
  rw [CslItem.yearLabel]
  cases item.issuedYear with
  | none => decide
  | some year =>
      intro hempty
      have hlist := congrArg String.toList hempty
      rw [Option.map_some, Option.getD_some, toList_showInt] at hlist
      exact Nat.toDigits_ne_nil (List.append_eq_nil_iff.1 hlist).2

end Citations
