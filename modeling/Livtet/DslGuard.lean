import Livtet.SavedSearch

/-! # The guard before the query parser

    The parser of the engine descends into groups by recursion, so a raw query is checked
    for its length and for the nesting of its brackets first. The guard counts bytes: all
    three kinds of brackets, in quotes or escaped or not, and any closer takes back any
    opener. What the parser sees are the round brackets outside quotes that no backslash
    stands before.

    The two agree on a text of round brackets alone. A closer that closes no group takes
    back an opener that did open one, and after it the guard counts one level less than
    there is. -/

namespace SavedSearch

/-! ## What the parser sees -/

/-- Inside which quotes the text is, and whether a backslash came just before. -/
structure Mode where
  quote : Option Char := none
  escaped : Bool := false
deriving DecidableEq, Repr

def Mode.plain (m : Mode) : Bool := !m.escaped && m.quote.isNone

section Groups

variable (isQuote : Char → Bool)

def Mode.next (m : Mode) (c : Char) : Mode :=
  if m.escaped then { m with escaped := false }
  else if c = '\x5c' then { m with escaped := true }
  else match m.quote with
    | some q => if c = q then { m with quote := none } else m
    | none => if isQuote c then { m with quote := some c } else m

structure Nesting where
  mode : Mode := {}
  depth : Nat := 0
  deepest : Nat := 0
deriving DecidableEq, Repr

/-- A round bracket in plain text opens or closes a group. -/
def Nesting.step (s : Nesting) (c : Char) : Nesting :=
  if s.mode.plain && c == '(' then
    { mode := s.mode.next isQuote c, depth := s.depth + 1, deepest := max s.deepest (s.depth + 1) }
  else if s.mode.plain && c == ')' then
    { s with mode := s.mode.next isQuote c, depth := s.depth - 1 }
  else { s with mode := s.mode.next isQuote c }

def nesting (cs : List Char) : Nesting := cs.foldl (Nesting.step isQuote) {}

/-- The deepest nesting of groups in a text. -/
def groupDepth (text : String) : Nat := (nesting isQuote text.toList).deepest

end Groups

/-! ## What the guard counts -/

def isOpener (c : Char) : Bool := c == '(' || c == '[' || c == '\x7b'

def isCloser (c : Char) : Bool := c == ')' || c == ']' || c == '\x7d'

def guardStep (s : Nat × Nat) (c : Char) : Nat × Nat :=
  if isOpener c then (s.1 + 1, max s.2 (s.1 + 1))
  else if isCloser c then (s.1 - 1, s.2)
  else s

theorem dslDepth_eq (text : String) : dslDepth text = text.toList.foldl guardStep (0, 0) := rfl

/-- The raw query is handed to the parser. -/
def PassesGuard (queryDsl : String) : Prop :=
  queryDsl.utf8ByteSize ≤ maxDslLen ∧ (dslDepth queryDsl).2 ≤ maxDslDepth

/-- The groups that are open and the brackets that the guard counts, and what it gets
    wrong on the way: closers it takes that close no group, openers it counts that open
    none, and closers of a group that find its count at zero. -/
structure Tally where
  mode : Mode := {}
  groups : Nat := 0
  counted : Nat := 0
  stray : Nat := 0
  idle : Nat := 0
  lost : Nat := 0
deriving DecidableEq, Repr

section Tally

variable (isQuote : Char → Bool)

def Tally.step (t : Tally) (c : Char) : Tally :=
  let next := { t with mode := t.mode.next isQuote c }
  if isOpener c then
    if t.mode.plain && c == '(' then
      { next with groups := t.groups + 1, counted := t.counted + 1 }
    else { next with counted := t.counted + 1, idle := t.idle + 1 }
  else if isCloser c then
    if t.mode.plain && c == ')' && 0 < t.groups then
      if 0 < t.counted then { next with groups := t.groups - 1, counted := t.counted - 1 }
      else { next with groups := t.groups - 1, lost := t.lost + 1 }
    else if 0 < t.counted then { next with counted := t.counted - 1, stray := t.stray + 1 }
    else next
  else next

def tally (cs : List Char) : Tally := cs.foldl (Tally.step isQuote) {}

variable {isQuote}

theorem tally_append_one (cs : List Char) (c : Char) :
    tally isQuote (cs ++ [c]) = (tally isQuote cs).step isQuote c := by
  rw [tally, List.foldl_append]
  rfl

theorem nesting_append_one (cs : List Char) (c : Char) :
    nesting isQuote (cs ++ [c]) = (nesting isQuote cs).step isQuote c := by
  rw [nesting, List.foldl_append]
  rfl

/-- The groups that are open are those that the guard counts, put right. -/
theorem groups_eq (cs : List Char) :
    (tally isQuote cs).groups + (tally isQuote cs).idle + (tally isQuote cs).lost =
      (tally isQuote cs).counted + (tally isQuote cs).stray := by
  induction cs using List.reverseRecOn with
  | nil => rfl
  | append_singleton cs c ih =>
      rw [tally_append_one]
      generalize tally isQuote cs = t at ih
      rw [Tally.step]
      split
      · split <;> (simp only; omega)
      · split
        · split
          · next hcloses =>
              have hpos : 0 < t.groups := by simp_all
              split <;> (simp only; omega)
          · split <;> (simp only; omega)
        · simp only
          omega

theorem Tally.step_mode (t : Tally) (c : Char) :
    (t.step isQuote c).mode = t.mode.next isQuote c := by
  rw [Tally.step]
  split
  · split <;> rfl
  · split
    · split <;> split <;> rfl
    · rfl

theorem Tally.step_groups (t : Tally) (c : Char) :
    (t.step isQuote c).groups =
      if t.mode.plain && c == '(' then t.groups + 1
      else if t.mode.plain && c == ')' then t.groups - 1 else t.groups := by
  rw [Tally.step]
  split
  · next hopener =>
      -- an opener is no closer, so a `)` is met only in the second case
      have hclose : (c == ')') = false := by
        rw [beq_eq_false_iff_ne]
        rintro rfl
        exact absurd hopener (by decide)
      rw [hclose, Bool.and_false]
      split <;> rfl
  · next hopener =>
      have hopen : (c == '(') = false := by
        rw [beq_eq_false_iff_ne]
        rintro rfl
        exact hopener (by decide)
      rw [hopen, Bool.and_false, if_neg Bool.false_ne_true]
      by_cases hclose : (t.mode.plain && c == ')') = true
      · have hcloser : isCloser c = true := by
          rw [beq_iff_eq.1 (Bool.and_eq_true_iff.1 hclose).2]
          rfl
        rw [if_pos hcloser, if_pos hclose, hclose, Bool.true_and]
        by_cases hgroups : 0 < t.groups
        · rw [if_pos (decide_eq_true hgroups)]
          split <;> rfl
        · rw [if_neg (by simpa using hgroups)]
          have hzero : t.groups = t.groups - 1 := by omega
          split <;> exact hzero
      · rw [if_neg hclose]
        split
        · split
          · next hcloses => exact absurd (Bool.and_eq_true_iff.1 hcloses).1 hclose
          · split <;> rfl
        · rfl

theorem Tally.step_counted (t : Tally) (c : Char) (most : Nat) :
    (t.step isQuote c).counted = (guardStep (t.counted, most) c).1 := by
  unfold Tally.step guardStep
  split
  · split <;> rfl
  · split
    · -- a count of zero stays at zero
      split <;> split
      · rfl
      · simp only
        omega
      · rfl
      · simp only
        omega
    · rfl

theorem Nesting.step_mode (s : Nesting) (c : Char) :
    (s.step isQuote c).mode = s.mode.next isQuote c := by
  rw [Nesting.step]
  split
  · rfl
  · split <;> rfl

theorem Nesting.step_depth (s : Nesting) (c : Char) :
    (s.step isQuote c).depth =
      if s.mode.plain && c == '(' then s.depth + 1
      else if s.mode.plain && c == ')' then s.depth - 1 else s.depth := by
  rw [Nesting.step]
  split
  · rfl
  · split <;> rfl

theorem tally_nesting (cs : List Char) :
    (tally isQuote cs).mode = (nesting isQuote cs).mode ∧
      (tally isQuote cs).groups = (nesting isQuote cs).depth := by
  induction cs using List.reverseRecOn with
  | nil => exact ⟨rfl, rfl⟩
  | append_singleton cs c ih =>
      obtain ⟨hmode, hgroups⟩ := ih
      rw [tally_append_one, nesting_append_one, Tally.step_mode, Nesting.step_mode,
        Tally.step_groups, Nesting.step_depth, hmode, hgroups]
      exact ⟨rfl, rfl⟩

theorem depth_le_deepest (cs : List Char) :
    (nesting isQuote cs).depth ≤ (nesting isQuote cs).deepest := by
  induction cs using List.reverseRecOn with
  | nil => exact le_refl _
  | append_singleton cs c ih =>
      rw [nesting_append_one, Nesting.step]
      split
      · exact le_max_right _ _
      · split
        · exact le_trans (Nat.sub_le _ _) ih
        · exact ih

theorem Nesting.step_deepest_le_iff {s : Nesting} (hs : s.depth ≤ s.deepest) {c : Char}
    {limit : Nat} : (s.step isQuote c).deepest ≤ limit ↔
      (s.step isQuote c).depth ≤ limit ∧ s.deepest ≤ limit := by
  rw [Nesting.step]
  split
  · simp only
    omega
  · split
    · simp only
      omega
    · simp only
      omega

/-- The deepest nesting is the greatest of those after each part of the text. -/
theorem deepest_le_iff (cs : List Char) {limit : Nat} :
    (nesting isQuote cs).deepest ≤ limit ↔
      ∀ p, p <+: cs → (nesting isQuote p).depth ≤ limit := by
  induction cs using List.reverseRecOn with
  | nil =>
      refine iff_of_true (Nat.zero_le _) fun p hp => ?_
      rw [List.prefix_nil.1 hp]
      exact Nat.zero_le _
  | append_singleton cs c ih =>
      have hstep : (nesting isQuote (cs ++ [c])).deepest ≤ limit ↔
          (nesting isQuote (cs ++ [c])).depth ≤ limit ∧ (nesting isQuote cs).deepest ≤ limit := by
        rw [nesting_append_one]
        exact Nesting.step_deepest_le_iff (depth_le_deepest cs)
      rw [hstep, ih]
      simp only [List.prefix_concat_iff]
      constructor
      · rintro ⟨hall, hparts⟩ p (rfl | hp)
        · exact hall
        · exact hparts p hp
      · intro h
        exact ⟨h _ (Or.inl rfl), fun p hp => h p (Or.inr hp)⟩

/-- Every text that passes the guard nests its groups no deeper than the limit. -/
def GuardBounds (isQuote : Char → Bool) (queryDsl : String) : Prop :=
  PassesGuard queryDsl → groupDepth isQuote queryDsl ≤ maxDslDepth

/-- Neither a quote nor a backslash, and no bracket but the round ones. -/
def isRound (isQuote : Char → Bool) (c : Char) : Bool :=
  !isQuote c && c != '\x5c' && (c == '(' || !isOpener c) && (c == ')' || !isCloser c)

/-- On a text of round brackets alone, the guard counts the groups. -/
theorem nesting_round {cs : List Char} (h : ∀ c ∈ cs, isRound isQuote c = true) :
    nesting isQuote cs = { depth := (cs.foldl guardStep (0, 0)).1
                           deepest := (cs.foldl guardStep (0, 0)).2 } := by
  induction cs using List.reverseRecOn with
  | nil => rfl
  | append_singleton cs c ih =>
      obtain ⟨hcs, hc⟩ := List.forall_mem_append.1 h
      have hc := hc c (List.mem_singleton.2 rfl)
      rw [nesting_append_one, List.foldl_append, ih hcs]
      generalize cs.foldl guardStep (0, 0) = g
      simp only [isRound, Bool.and_eq_true, Bool.not_eq_true', Bool.or_eq_true, beq_iff_eq,
        bne_iff_ne] at hc
      obtain ⟨⟨⟨hquote, hescape⟩, hopener⟩, hcloser⟩ := hc
      have hmode : Mode.next isQuote {} c = {} := by
        simp [Mode.next, hquote, hescape]
      show Nesting.step isQuote _ c = { depth := (guardStep g c).1, deepest := (guardStep g c).2 }
      unfold Nesting.step guardStep
      rw [hmode]
      by_cases hopen : c = '('
      · subst hopen
        rfl
      · by_cases hclose : c = ')'
        · subst hclose
          rfl
        · rw [hopener.resolve_left hopen, hcloser.resolve_left hclose]
          simp [hopen, hclose]

/-- So the guard bounds the nesting of such a text. -/
theorem guardBounds_round {queryDsl : String}
    (h : ∀ c ∈ queryDsl.toList, isRound isQuote c = true) : GuardBounds isQuote queryDsl := by
  intro hpasses
  rw [groupDepth, nesting_round h]
  exact hpasses.2

/-- The quotes of a phrase, double or single. -/
def phraseQuote (c : Char) : Bool := c == '\x22' || c == '\x27'

end Tally

end SavedSearch
