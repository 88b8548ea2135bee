import Mathlib.Data.List.TakeWhile

/-! # Blanks around and between words

    A text is trimmed at both ends, and it is cut into its words at its blanks. What a
    blank is, is left open. -/

namespace Blanks

variable {α : Type}

def trim (blank : α → Bool) (s : List α) : List α :=
  ((s.dropWhile blank).reverse.dropWhile blank).reverse

/-- The words between the blanks, none of them empty. -/
def words (blank : α → Bool) (s : List α) : List (List α) :=
  (s.splitOnP blank).filter fun w => !w.isEmpty

/-! ## Trimming -/

section Trim

variable {blank : α → Bool}

theorem dropWhile_eq_self {s : List α} (h : ∀ c ∈ s.head?, blank c = false) :
    s.dropWhile blank = s := by
  cases s with
  | nil => rfl
  | cons c s =>
      rw [List.dropWhile_cons, if_neg]
      rw [h c rfl]
      exact Bool.false_ne_true

theorem not_blank_of_head {s : List α} {c : α} (hc : c ∈ (s.dropWhile blank).head?) :
    blank c = false := by
  have hhead := List.head?_dropWhile_not blank s
  rw [hc] at hhead
  exact hhead

/-- What is left without the blanks at the end. -/
theorem exists_trimEnd (blank : α → Bool) (s : List α) : ∃ front trail, s = front ++ trail ∧
    (∀ c ∈ trail, blank c = true) ∧ ∀ c ∈ front.getLast?, blank c = false := by
  refine ⟨(s.reverse.dropWhile blank).reverse, (s.reverse.takeWhile blank).reverse, ?_, ?_, ?_⟩
  · rw [← List.reverse_append, List.takeWhile_append_dropWhile, List.reverse_reverse]
  · exact fun c hc => List.mem_takeWhile_imp (List.mem_reverse.1 hc)
  · intro c hc
    rw [List.getLast?_reverse] at hc
    exact not_blank_of_head hc

/-- A text is what is left of it between its blanks. -/
theorem exists_trim (blank : α → Bool) (s : List α) : ∃ lead trail,
    s = lead ++ (trim blank s ++ trail) ∧ (∀ c ∈ lead, blank c = true) ∧
      ∀ c ∈ trail, blank c = true := by
  refine ⟨s.takeWhile blank, ((s.dropWhile blank).reverse.takeWhile blank).reverse, ?_,
    fun _ => List.mem_takeWhile_imp, fun c hc => List.mem_takeWhile_imp (List.mem_reverse.1 hc)⟩
  rw [trim, ← List.reverse_append, List.takeWhile_append_dropWhile, List.reverse_reverse,
    List.takeWhile_append_dropWhile]

/-- A text with no blank at either end is left as it is. -/
theorem trim_eq_self {s : List α} (hhead : ∀ c ∈ s.head?, blank c = false)
    (hlast : ∀ c ∈ s.getLast?, blank c = false) : trim blank s = s := by
  rw [trim, dropWhile_eq_self hhead, dropWhile_eq_self, List.reverse_reverse]
  rwa [List.head?_reverse]

/-- Blanks around such a text are taken off. -/
theorem trim_between {lead s trail : List α} (hlead : ∀ c ∈ lead, blank c = true)
    (htrail : ∀ c ∈ trail, blank c = true) (hhead : ∀ c ∈ s.head?, blank c = false)
    (hlast : ∀ c ∈ s.getLast?, blank c = false) :
    trim blank (lead ++ (s ++ trail)) = s := by
  rw [trim, List.dropWhile_append_of_pos hlead]
  cases s with
  | nil =>
      have hnone : trail.dropWhile blank = [] := List.dropWhile_eq_nil_iff.2 htrail
      rw [List.nil_append, hnone]
      rfl
  | cons c s =>
      rw [dropWhile_eq_self (s := c :: s ++ trail) hhead, List.reverse_append,
        List.dropWhile_append_of_pos fun d hd => htrail d (List.mem_reverse.1 hd),
        dropWhile_eq_self, List.reverse_reverse]
      rwa [List.head?_reverse]

/-- A trimmed text has no blank at either end. -/
theorem not_blank_of_trim {s : List α} :
    (∀ c ∈ (trim blank s).head?, blank c = false) ∧
      ∀ c ∈ (trim blank s).getLast?, blank c = false := by
  have hlast : ∀ c ∈ (trim blank s).getLast?, blank c = false := by
    intro c hc
    rw [trim, List.getLast?_reverse] at hc
    exact not_blank_of_head hc
  refine ⟨fun c hc => ?_, hlast⟩
  have hsplit : s.dropWhile blank =
      trim blank s ++ ((s.dropWhile blank).reverse.takeWhile blank).reverse := by
    rw [trim, ← List.reverse_append, List.takeWhile_append_dropWhile, List.reverse_reverse]
  refine not_blank_of_head (s := s) ?_
  rw [hsplit, List.head?_append, hc]
  rfl

/-- Blanks around a text are not seen. -/
theorem trim_append {lead trail : List α} (s : List α) (hlead : ∀ c ∈ lead, blank c = true)
    (htrail : ∀ c ∈ trail, blank c = true) :
    trim blank (lead ++ (s ++ trail)) = trim blank s := by
  obtain ⟨lead', trail', hs, hlead', htrail'⟩ := exists_trim blank s
  have hassoc : lead ++ (s ++ trail) =
      (lead ++ lead') ++ (trim blank s ++ (trail' ++ trail)) := by
    conv => lhs; rw [hs]
    simp only [List.append_assoc]
  rw [hassoc]
  refine trim_between ?_ ?_ not_blank_of_trim.1 not_blank_of_trim.2
  · exact fun c hc => (List.mem_append.1 hc).elim (hlead c) (hlead' c)
  · exact fun c hc => (List.mem_append.1 hc).elim (htrail' c) (htrail c)

theorem trim_trim (s : List α) : trim blank (trim blank s) = trim blank s :=
  trim_eq_self not_blank_of_trim.1 not_blank_of_trim.2

end Trim

/-! ## Words -/

section Words

variable {blank : α → Bool}

theorem words_nil : words blank [] = [] := rfl

/-- A blank ends a word. -/
theorem words_append_cons {c : α} (hc : blank c = true) (s t : List α) :
    words blank (s ++ c :: t) = words blank s ++ words blank t := by
  rw [words, List.splitOnP_append_cons s t hc, List.filter_append]
  rfl

theorem words_blanks {s : List α} (h : ∀ c ∈ s, blank c = true) : words blank s = [] := by
  induction s with
  | nil => rfl
  | cons c s ih =>
      rw [← List.nil_append (c :: s), words_append_cons (h c List.mem_cons_self), words_nil,
        List.nil_append]
      exact ih fun d hd => h d (List.mem_cons_of_mem c hd)

theorem words_word {w : List α} (hne : w ≠ []) (hw : ∀ c ∈ w, blank c = false) :
    words blank w = [w] := by
  rw [words, List.splitOnP_eq_singleton hw, List.filter_cons, if_pos, List.filter_nil]
  rw [Bool.not_eq_true', List.isEmpty_eq_false_iff]
  exact hne

theorem words_append_blanks {trail : List α} (s : List α) (h : ∀ c ∈ trail, blank c = true) :
    words blank (s ++ trail) = words blank s := by
  cases trail with
  | nil => rw [List.append_nil]
  | cons c trail =>
      rw [words_append_cons (h c List.mem_cons_self),
        words_blanks fun d hd => h d (List.mem_cons_of_mem c hd), List.append_nil]

theorem words_blanks_append {lead : List α} (h : ∀ c ∈ lead, blank c = true) (s : List α) :
    words blank (lead ++ s) = words blank s := by
  induction lead with
  | nil => rfl
  | cons c lead ih =>
      rw [List.cons_append, ← List.nil_append (c :: (lead ++ s)),
        words_append_cons (h c List.mem_cons_self), words_nil, List.nil_append]
      exact ih fun d hd => h d (List.mem_cons_of_mem c hd)

theorem words_trim (s : List α) : words blank (trim blank s) = words blank s := by
  obtain ⟨lead, trail, hs, hlead, htrail⟩ := exists_trim blank s
  conv => rhs; rw [hs]
  rw [words_blanks_append hlead, words_append_blanks _ htrail]

/-- The words are what is not blank. -/
theorem flatten_words (s : List α) : (words blank s).flatten = s.filter fun c => !blank c := by
  have hnonempty : ∀ ws : List (List α), (ws.filter fun w => !w.isEmpty).flatten = ws.flatten := by
    intro ws
    induction ws with
    | nil => rfl
    | cons w ws ih =>
        cases w with
        | nil => exact ih
        | cons c w =>
            have hkeep : (!(c :: w).isEmpty) = true := rfl
            rw [List.filter_cons, if_pos hkeep, List.flatten_cons, List.flatten_cons, ih]
  rw [words, hnonempty]
  induction s with
  | nil => rfl
  | cons c s ih =>
      rw [List.splitOnP_cons_eq_if_modifyHead, List.filter_cons]
      cases hc : blank c with
      | true => exact ih
      | false =>
          obtain ⟨w, ws, hsplit⟩ := List.exists_cons_of_ne_nil (List.splitOnP_ne_nil blank s)
          rw [hsplit, List.flatten_cons] at ih
          rw [hsplit]
          exact congrArg (c :: ·) ih

/-- A word is not empty and has no blank. -/
structure IsWord (blank : α → Bool) (w : List α) : Prop where
  ne_nil : w ≠ []
  solid : ∀ c ∈ w, blank c = false

theorem isWord_of_mem {s w : List α} (h : w ∈ words blank s) : IsWord blank w := by
  have hmem := (List.mem_filter.1 h).2
  rw [Bool.not_eq_true', List.isEmpty_eq_false_iff] at hmem
  refine ⟨hmem, fun c hc => ?_⟩
  have hflat : c ∈ (words blank s).flatten := List.mem_flatten.2 ⟨w, h, hc⟩
  rw [flatten_words, List.mem_filter, Bool.not_eq_true'] at hflat
  exact hflat.2

theorem words_eq_nil_iff {s : List α} : words blank s = [] ↔ trim blank s = [] := by
  constructor
  · intro h
    have hblank : ∀ c ∈ s, blank c = true := by
      have hflat := @flatten_words α blank s
      rw [h] at hflat
      intro c hc
      have hnot := List.filter_eq_nil_iff.1 hflat.symm c hc
      rwa [Bool.not_eq_true', Bool.not_eq_false] at hnot
    have htrim : trim blank ([] ++ ([] ++ s)) = trim blank [] :=
      trim_append [] (List.forall_mem_nil _) hblank
    exact htrim
  · intro h
    rw [← words_trim, h, words_nil]

/-- Words that are joined are told apart again. -/
theorem words_join {sep : α} (hsep : blank sep = true) {ws : List (List α)}
    (hws : ∀ w ∈ ws, IsWord blank w) : words blank ([sep].intercalate ws) = ws := by
  induction ws with
  | nil => rfl
  | cons w ws ih =>
      have hw := hws w List.mem_cons_self
      have hrest := ih fun v hv => hws v (List.mem_cons_of_mem w hv)
      cases ws with
      | nil => rw [List.intercalate_singleton, words_word hw.ne_nil hw.solid]
      | cons v ws =>
          rw [List.intercalate_cons_cons, List.append_assoc, List.singleton_append,
            words_append_cons hsep, hrest, words_word hw.ne_nil hw.solid]
          rfl

end Words

end Blanks
