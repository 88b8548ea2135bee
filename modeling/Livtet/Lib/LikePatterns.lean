import Mathlib.Data.List.Infix

/-! # Patterns with wildcards

    A pattern is matched against a whole text: a run stands for any characters, one for a
    single character, and a character for itself as far as the comparison tells.

    A text is put between two runs to search for it. Whatever contains the text matches the
    pattern, for a wildcard matches itself. What matches contains the text exactly if the
    text has no wildcard (`matches_between_iff`), and only then for all texts
    (`between_literal_iff`). -/

namespace LikePatterns

variable {α β : Type}

inductive Part (α : Type)
  | run
  | one
  | char (c : α)
deriving DecidableEq

/-- Whether a text matches, from its start to its end. -/
def matchesWith [DecidableEq β] (fold : α → β) : List (Part α) → List α → Bool
  | [], s => s.isEmpty
  | .run :: p, s => s.tails.any fun t => matchesWith fold p t
  | .one :: _, [] => false
  | .one :: p, _ :: s => matchesWith fold p s
  | .char _ :: _, [] => false
  | .char c :: p, d :: s => decide (fold c = fold d) && matchesWith fold p s

/-- The text is somewhere in the other, as far as the comparison tells. -/
def Contains (fold : α → β) (n s : List α) : Prop := n.map fold <:+: s.map fold

variable [DecidableEq β] {fold : α → β}

theorem matches_run_iff {p : List (Part α)} {s : List α} :
    matchesWith fold (.run :: p) s = true ↔ ∃ t, t <:+ s ∧ matchesWith fold p t = true := by
  rw [matchesWith, List.any_eq_true]
  exact exists_congr fun t => and_congr_left' (List.mem_tails t s)

/-- A run at the end takes all that is left. -/
theorem matches_last_run (s : List α) : matchesWith fold [.run] s = true :=
  matches_run_iff.2 ⟨[], List.nil_suffix, rfl⟩

theorem matches_chars_run_iff {n s : List α} :
    matchesWith fold (n.map .char ++ [.run]) s = true ↔ n.map fold <+: s.map fold := by
  induction n generalizing s with
  | nil => exact iff_of_true (matches_last_run s) List.nil_prefix
  | cons c n ih =>
      cases s with
      | nil => exact iff_of_false Bool.false_ne_true (by simp)
      | cons d s =>
          show (decide (fold c = fold d) && matchesWith fold (n.map .char ++ [.run]) s) = true ↔ _
          rw [Bool.and_eq_true, decide_eq_true_iff, ih, List.map_cons, List.map_cons,
            List.cons_prefix_cons]

omit [DecidableEq β] in
/-- The folded text starts at a suffix exactly if it is contained. -/
theorem contains_iff {n s : List α} :
    Contains fold n s ↔ ∃ t, t <:+ s ∧ n.map fold <+: t.map fold := by
  constructor
  · rintro ⟨before, after, h⟩
    refine ⟨s.drop before.length, List.drop_suffix _ _, after, ?_⟩
    rw [List.map_drop, ← h, List.append_assoc, List.drop_left]
  · rintro ⟨t, ⟨before, rfl⟩, hprefix⟩
    rw [Contains, List.map_append]
    exact hprefix.isInfix.trans (List.suffix_append _ _).isInfix

/-! ## Texts as patterns -/

/-- What stands for a run and for one character. -/
structure Wildcards (α : Type) where
  run : α
  one : α
  apart : run ≠ one

variable [DecidableEq α] (w : Wildcards α)

/-- A character of a text, read as part of a pattern. -/
def part (c : α) : Part α :=
  if c = w.run then .run else if c = w.one then .one else .char c

def pattern (n : List α) : List (Part α) := n.map (part w)

/-- The text has a wildcard. -/
def HasWildcard (n : List α) : Prop := w.run ∈ n ∨ w.one ∈ n

instance (n : List α) : Decidable (HasWildcard w n) := inferInstanceAs (Decidable (_ ∨ _))

/-- The pattern that searches for a text. -/
def between (n : List α) : List (Part α) := .run :: (pattern w n ++ [.run])

variable {w}

theorem pattern_of_literal {n : List α} (h : ¬ HasWildcard w n) : pattern w n = n.map .char := by
  refine List.map_congr_left fun c hc => ?_
  have hrun : c ≠ w.run := by
    rintro rfl
    exact h (Or.inl hc)
  have hone : c ≠ w.one := by
    rintro rfl
    exact h (Or.inr hc)
  rw [part, if_neg hrun, if_neg hone]

/-- Without a wildcard, the search finds what contains the text. -/
theorem matches_between_iff {n s : List α} (h : ¬ HasWildcard w n) :
    matchesWith fold (between w n) s = true ↔ Contains fold n s := by
  rw [between, matches_run_iff, contains_iff, pattern_of_literal h]
  exact exists_congr fun t => and_congr_right fun _ => matches_chars_run_iff

/-- A text matches itself as a pattern, whatever comes after it. -/
theorem matches_pattern_of_prefix {n t : List α} (h : n.map fold <+: t.map fold) :
    matchesWith fold (pattern w n ++ [.run]) t = true := by
  induction n generalizing t with
  | nil => exact matches_last_run t
  | cons c n ih =>
      cases t with
      | nil => simp at h
      | cons d t =>
          rw [List.map_cons, List.map_cons, List.cons_prefix_cons] at h
          have hrest := ih h.2
          show matchesWith fold (part w c :: (pattern w n ++ [.run])) (d :: t) = true
          unfold part
          split
          · exact matches_run_iff.2 ⟨t, List.suffix_cons d t, hrest⟩
          split
          · exact hrest
          · rw [matchesWith, decide_eq_true h.1, Bool.true_and]
            exact hrest

/-- The search finds all that contains the text. -/
theorem matches_of_contains {n s : List α} (h : Contains fold n s) :
    matchesWith fold (between w n) s = true := by
  obtain ⟨t, hsuffix, hprefix⟩ := contains_iff.1 h
  exact matches_run_iff.2 ⟨t, hsuffix, matches_pattern_of_prefix hprefix⟩

/-! ## Texts with wildcards -/

variable (w) in
/-- A text that matches: nothing for a run, the filler for one character. -/
def filled (filler : α) (n : List α) : List α :=
  n.flatMap fun c => if c = w.run then [] else if c = w.one then [filler] else [c]

theorem matches_filled (filler : α) (n t : List α) :
    matchesWith fold (pattern w n ++ [.run]) (filled w filler n ++ t) = true := by
  induction n with
  | nil => exact matches_last_run t
  | cons c n ih =>
      show matchesWith fold (part w c :: (pattern w n ++ [.run])) _ = true
      rw [filled, List.flatMap_cons, List.append_assoc]
      unfold part
      split
      · exact matches_run_iff.2 ⟨_, List.suffix_rfl, ih⟩
      split
      · exact ih
      · rw [List.singleton_append, matchesWith, decide_eq_true rfl, Bool.true_and]
        exact ih

/-- The filler is neither wildcard, and no comparison takes it or anything else for one. -/
structure Filler (fold : α → β) (w : Wildcards α) (filler : α) : Prop where
  run : ∀ c, fold c = fold w.run → c = w.run
  one : ∀ c, fold c = fold w.one → c = w.one
  notRun : filler ≠ w.run
  notOne : filler ≠ w.one

theorem not_hasWildcard_filled {filler : α} (hrun : filler ≠ w.run) (hone : filler ≠ w.one)
    (n : List α) : ¬ HasWildcard w (filler :: filled w filler n) := by
  have hmem : ∀ c ∈ filler :: filled w filler n, c ≠ w.run ∧ c ≠ w.one := by
    intro c hc
    rcases List.mem_cons.1 hc with rfl | hc
    · exact ⟨hrun, hone⟩
    obtain ⟨d, _, hd⟩ := List.mem_flatMap.1 hc
    split at hd
    · cases hd
    split at hd
    · rw [List.mem_singleton.1 hd]
      exact ⟨hrun, hone⟩
    · rename_i hdrun hdone
      rw [List.mem_singleton.1 hd]
      exact ⟨hdrun, hdone⟩
  rintro (h | h)
  · exact (hmem _ h).1 rfl
  · exact (hmem _ h).2 rfl

omit [DecidableEq β] in
/-- A text with a wildcard is found where it is not. -/
theorem not_contains_filled {filler : α} (h : Filler fold w filler) {n : List α}
    (hn : HasWildcard w n) : ¬ Contains fold n (filler :: filled w filler n) := by
  intro hcontains
  have hnone := not_hasWildcard_filled h.notRun h.notOne n
  have hfold : ∀ c ∈ n, ∃ d ∈ filler :: filled w filler n, fold d = fold c :=
    fun c hc => List.mem_map.1 (hcontains.subset (List.mem_map_of_mem hc))
  rcases hn with hn | hn
  · obtain ⟨d, hd, hsame⟩ := hfold _ hn
    exact hnone (Or.inl (h.run d hsame ▸ hd))
  · obtain ⟨d, hd, hsame⟩ := hfold _ hn
    exact hnone (Or.inr (h.one d hsame ▸ hd))

theorem matches_between_filled (filler : α) (n : List α) :
    matchesWith fold (between w n) (filler :: filled w filler n) = true := by
  refine matches_run_iff.2 ⟨_, List.suffix_cons filler _, ?_⟩
  have h := @matches_filled α β _ fold _ w filler n []
  rwa [List.append_nil] at h

/-- **THE SEARCH IS LITERAL**, whatever it looks in, exactly if the text has no wildcard. -/
theorem between_literal_iff {filler : α} (h : Filler fold w filler) {n : List α} :
    (∀ s, matchesWith fold (between w n) s = true → Contains fold n s) ↔ ¬ HasWildcard w n := by
  constructor
  · intro hliteral hn
    exact not_contains_filled h hn (hliteral _ (matches_between_filled filler n))
  · intro hn s hs
    exact (matches_between_iff hn).1 hs

end LikePatterns
