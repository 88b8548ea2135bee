import Livtet.Lib.Outcomes

/-! # Words with escapes

    A text is cut into words at its spaces. The escape character makes the next one
    stand for itself, whatever it is. Some characters stand in no word otherwise, some
    start none, and some words mean something else than themselves.

    A writer that escapes a fixed set of characters wherever they stand can be read back
    word by word exactly if its set leaves nothing out: no word has, starts with or is
    something the set does not cover. -/

namespace EscapedWords

variable {α : Type}

/-- The longest stretches of a list without a separator. -/
def runs (isSpace : α → Bool) (l : List α) : List (List α) :=
  (l.splitOnP isSpace).filter fun run => !run.isEmpty

@[simp] theorem runs_nil (isSpace : α → Bool) : runs isSpace [] = [] := rfl

theorem runs_map {β : Type} {isSpace : β → Bool} {isSpace' : α → Bool} {f : α → β}
    (h : ∀ a, isSpace (f a) = isSpace' a) (l : List α) :
    runs isSpace (l.map f) = (runs isSpace' l).map (List.map f) := by
  have hsplit : (l.map f).splitOnP isSpace = (l.splitOnP isSpace').map (List.map f) := by
    induction l with
    | nil => rfl
    | cons a rest ih =>
        rw [List.map_cons, List.splitOnP_cons_eq_if_modifyHead, List.splitOnP_cons_eq_if_modifyHead,
          h, ih]
        cases hrest : rest.splitOnP isSpace' with
        | nil => exact absurd hrest (List.splitOnP_ne_nil _ _)
        | cons first others =>
            cases isSpace' a with
            | true => rfl
            | false => rfl
  rw [runs, runs, hsplit, List.filter_map]
  congr 1
  refine List.filter_congr fun run _ => ?_
  simp

theorem isInfix_of_mem_runs {isSpace : α → Bool} {l run : List α} (h : run ∈ runs isSpace l) :
    run <:+: l := by
  have hsplit : ∀ l : List α, ∃ first others, l.splitOnP isSpace = first :: others ∧
      first <+: l ∧ ∀ piece ∈ others, piece <:+: l := by
    intro l
    induction l with
    | nil => exact ⟨[], [], rfl, List.prefix_rfl, fun _ h => absurd h List.not_mem_nil⟩
    | cons a rest ih =>
        obtain ⟨first, others, hsplit, hfirst, hothers⟩ := ih
        have hrest : ∀ piece ∈ others, piece <:+: a :: rest :=
          fun piece hpiece => List.infix_cons (hothers piece hpiece)
        rw [List.splitOnP_cons_eq_if_modifyHead, hsplit]
        cases isSpace a with
        | true =>
            refine ⟨[], first :: others, rfl, List.nil_prefix, ?_⟩
            intro piece hpiece
            cases hpiece with
            | head => exact List.infix_cons hfirst.isInfix
            | tail _ hpiece => exact hrest piece hpiece
        | false => exact ⟨a :: first, others, rfl, List.cons_prefix_cons.2 ⟨rfl, hfirst⟩, hrest⟩
  obtain ⟨first, others, heq, hfirst, hothers⟩ := hsplit l
  have hmem := List.mem_of_mem_filter h
  rw [heq] at hmem
  cases hmem with
  | head => exact hfirst.isInfix
  | tail _ hmem => exact hothers run hmem

/-- A character of a text, and whether it was escaped. -/
abbrev Mark (α : Type) := Bool × α

structure Rule (α : Type) where
  escape : α
  isSpace : α → Bool
  /-- Stands in no word unescaped. -/
  isSpecial : α → Bool
  /-- Starts no word unescaped. -/
  opens : α → Bool
  /-- Means something else, if nothing in it is escaped. -/
  isKeyword : List α → Bool

variable (rule : Rule α)

/-- The characters of a text; an escape at the end escapes nothing. -/
def Rule.marks [DecidableEq α] : List α → Option (List (Mark α))
  | [] => some []
  | [c] => if c = rule.escape then none else some [(false, c)]
  | c :: d :: rest =>
      if c = rule.escape then (Rule.marks rest).map ((true, d) :: ·)
      else (Rule.marks (d :: rest)).map ((false, c) :: ·)

/-- Nothing stands unescaped in a word that may not. -/
def Rule.isWord (word : List (Mark α)) : Bool :=
  (word.all fun m => m.1 || !rule.isSpecial m.2) &&
    (word.head?.all fun m => m.1 || !rule.opens m.2) &&
    !((word.all fun m => !m.1) && rule.isKeyword (word.map Prod.snd))

/-- The words of a text, if there is nothing else in it. -/
def Rule.readWords [DecidableEq α] (text : List α) : Option (List (List α)) := do
  let marks ← rule.marks text
  (runs (fun m : Mark α => !m.1 && rule.isSpace m.2) marks).mapM fun word =>
    if rule.isWord word then some (word.map Prod.snd) else none

/-- A word stands somewhere in a text. -/
def Rule.StandsIn [DecidableEq α] (word text : List α) : Prop :=
  ∃ marks, rule.marks text = some marks ∧
    ∃ m, m <:+: marks ∧ rule.isWord m = true ∧ m.map Prod.snd = word

/-- The text with every character of a set escaped. -/
def Rule.escapeText (isSyntax : α → Bool) (text : List α) : List α :=
  text.flatMap fun c => if isSyntax c then [rule.escape, c] else [c]

/-- The set covers what a word has, starts with or is. -/
def Rule.Covers (isSyntax : α → Bool) (word : List α) : Prop :=
  (∀ c ∈ word, rule.isSpecial c = true → isSyntax c = true) ∧
    (∀ c, word.head? = some c → rule.opens c = true → isSyntax c = true) ∧
    (rule.isKeyword word = true → ∃ c ∈ word, isSyntax c = true)

variable {rule} {isSyntax : α → Bool}

/-- What is escaped is marked as escaped, and nothing else. -/
theorem marks_escapeText [DecidableEq α] (hescape : isSyntax rule.escape = true) (text : List α) :
    rule.marks (rule.escapeText isSyntax text) = some (text.map fun c => (isSyntax c, c)) := by
  induction text with
  | nil => rfl
  | cons c rest ih =>
      have hcons : rule.escapeText isSyntax (c :: rest) =
          (if isSyntax c then [rule.escape, c] else [c]) ++ rule.escapeText isSyntax rest := rfl
      rw [hcons]
      cases hc : isSyntax c with
      | true =>
          rw [if_pos rfl, List.cons_append, List.cons_append, List.nil_append, Rule.marks,
            if_pos rfl, ih, List.map_cons, hc]
          rfl
      | false =>
          have hne : c ≠ rule.escape := by
            rintro rfl
            rw [hescape] at hc
            cases hc
          rw [if_neg Bool.false_ne_true, List.cons_append, List.nil_append, List.map_cons, hc]
          cases htail : rule.escapeText isSyntax rest with
          | nil =>
              rw [htail] at ih
              rw [Rule.marks, if_neg hne, ← Option.some.inj ih]
          | cons d tail =>
              rw [htail] at ih
              rw [Rule.marks, if_neg hne, ih]
              rfl

/-- A word that is written with the set's escapes is one exactly if the set covers it. -/
theorem isWord_iff (word : List α) :
    rule.isWord (word.map fun c => (isSyntax c, c)) = true ↔ rule.Covers isSyntax word := by
  have hspecial : ((word.map fun c => (isSyntax c, c)).all fun m => m.1 || !rule.isSpecial m.2) =
      true ↔ ∀ c ∈ word, rule.isSpecial c = true → isSyntax c = true := by
    rw [List.all_map, List.all_eq_true]
    refine forall₂_congr fun c _ => ?_
    simp [imp_iff_or_not]
  have hopens : ((word.map fun c => (isSyntax c, c)).head?.all fun m => m.1 || !rule.opens m.2) =
      true ↔ ∀ c, word.head? = some c → rule.opens c = true → isSyntax c = true := by
    rw [List.head?_map]
    cases word.head? with
    | none => simp
    | some c =>
        rw [Option.map_some, Option.all_some, Bool.or_eq_true, Bool.not_eq_true']
        constructor
        · intro hor c' hc hopen
          rw [← Option.some.inj hc] at hopen ⊢
          rcases hor with hsyntax | hnot
          · exact hsyntax
          · exact absurd hopen (Bool.eq_false_iff.1 hnot)
        · intro h
          cases hopen : rule.opens c with
          | false => exact Or.inr rfl
          | true => exact Or.inl (h c rfl hopen)
  have hkeyword : (!(((word.map fun c => (isSyntax c, c)).all fun m => !m.1) &&
      rule.isKeyword ((word.map fun c => (isSyntax c, c)).map Prod.snd))) = true ↔
      (rule.isKeyword word = true → ∃ c ∈ word, isSyntax c = true) := by
    have hsnd : (word.map fun c => (isSyntax c, c)).map Prod.snd = word := by
      rw [List.map_map]
      exact List.map_id word
    rw [hsnd, List.all_map]
    cases rule.isKeyword word with
    | false => simp
    | true => simp [Function.comp_def]
  rw [Rule.isWord, Bool.and_eq_true, Bool.and_eq_true, hspecial, hopens, hkeyword, and_assoc]
  rfl

/-- A word of a text that was written with the set's escapes is one the set covers. -/
theorem covers_of_standsIn [DecidableEq α] (hescape : isSyntax rule.escape = true)
    {text word : List α} (h : rule.StandsIn word (rule.escapeText isSyntax text)) :
    rule.Covers isSyntax word := by
  obtain ⟨marks, hmarks, m, hinfix, hword, rfl⟩ := h
  rw [marks_escapeText hescape, Option.some.injEq] at hmarks
  have hmark : ∀ x ∈ m, (isSyntax x.2, x.2) = x := by
    intro x hx
    have hx' := hinfix.subset hx
    rw [← hmarks, List.mem_map] at hx'
    obtain ⟨c, _, rfl⟩ := hx'
    rfl
  have hm : ((m.map Prod.snd).map fun c => (isSyntax c, c)) = m := by
    rw [List.map_map]
    exact (List.map_congr_left hmark).trans (List.map_id m)
  rw [← isWord_iff, hm]
  exact hword

/-- A text whose words the set covers is read back word by word. -/
theorem readWords_escapeText [DecidableEq α] (hescape : isSyntax rule.escape = true)
    (hspace : ∀ c, rule.isSpace c = true → isSyntax c = false) {text : List α}
    (hcovers : ∀ word ∈ runs rule.isSpace text, rule.Covers isSyntax word) :
    rule.readWords (rule.escapeText isSyntax text) = some (runs rule.isSpace text) := by
  have hbare : ∀ c, (!isSyntax c && rule.isSpace c) = rule.isSpace c := by
    intro c
    cases hc : rule.isSpace c with
    | false => exact Bool.and_false _
    | true => rw [hspace c hc]; rfl
  rw [Rule.readWords, marks_escapeText hescape, Option.bind_eq_bind, Option.bind_some,
    runs_map (f := fun c => (isSyntax c, c)) hbare, List.mapM_map, Outcomes.mapM_eq_some_iff,
    List.forall₂_same]
  intro word hword
  have hsnd : (word.map fun c => (isSyntax c, c)).map Prod.snd = word := by
    rw [List.map_map]
    exact List.map_id word
  rw [Function.comp_apply, if_pos ((isWord_iff word).2 (hcovers word hword)), hsnd]

/-- The words a text is read as stand in it. -/
theorem standsIn_of_readWords [DecidableEq α] {text : List α} {words : List (List α)}
    (h : rule.readWords text = some words) : ∀ word ∈ words, rule.StandsIn word text := by
  intro word hword
  rw [Rule.readWords, Option.bind_eq_bind, Option.bind_eq_some_iff] at h
  obtain ⟨marks, hmarks, h⟩ := h
  obtain ⟨m, hm, heq⟩ :=
    Outcomes.exists_left_of_forall₂ (Outcomes.mapM_eq_some_iff.1 h) word hword
  cases hw : rule.isWord m with
  | false =>
      rw [hw] at heq
      cases heq
  | true =>
      rw [hw, if_pos rfl, Option.some.injEq] at heq
      exact ⟨marks, hmarks, m, isInfix_of_mem_runs hm, hw, heq⟩

end EscapedWords
