import Mathlib.Data.List.Infix

/-! # Texts in pieces

    A text is split at a separator, from the left for all pieces, and from the right for the
    last one. -/

namespace Pieces

variable {α : Type} [DecidableEq α]

/-- The first piece gets one more character. -/
def push (c : α) : List (List α) → List (List α)
  | [] => [[c]]
  | piece :: rest => (c :: piece) :: rest

/-- The pieces, once as many characters of a separator are passed. -/
def splitAfter (sep : List α) : Nat → List α → List (List α)
  | _, [] => [[]]
  | skip + 1, _ :: s => splitAfter sep skip s
  | 0, c :: s =>
      if sep.isPrefixOf (c :: s) then [] :: splitAfter sep (sep.length - 1) s
      else push c (splitAfter sep 0 s)

/-- The pieces between the separators. -/
def split (sep s : List α) : List (List α) := splitAfter sep 0 s

/-- What follows the separator that is found from the right. -/
def afterLast (sep : List α) : List α → Option (List α)
  | [] => none
  | c :: s =>
      (afterLast sep s).or
        (if sep.isPrefixOf (c :: s) then some ((c :: s).drop sep.length) else none)

/-- The last piece. -/
def last (sep s : List α) : List α := (afterLast sep s).getD s

/-- What is before and after the first of a character. -/
def splitOnce (c : α) : List α → Option (List α × List α)
  | [] => none
  | d :: s => if d = c then some ([], s) else (splitOnce c s).map fun p => (d :: p.1, p.2)

variable {sep x : List α}

omit [DecidableEq α] in
/-- A separator does not begin in a part of it that the text goes on after. -/
theorem not_prefix_append {u : List α} (hlength : u.length < sep.length)
    (hx : ∀ c ∈ sep, c ∉ x) : ¬ sep <+: u ++ x := by
  intro h
  have hu : u <+: sep := List.prefix_of_prefix_length_le (List.prefix_append u x) h hlength.le
  obtain ⟨v, rfl⟩ := hu
  rw [List.prefix_append_right_inj] at h
  rw [List.length_append] at hlength
  obtain ⟨c, hc⟩ := List.exists_mem_of_length_pos (l := v) (by omega)
  exact hx c (List.mem_append_right _ hc) (h.subset hc)

theorem afterLast_cons {c : α} {s : List α} (h : ¬ sep <+: c :: s) :
    afterLast sep (c :: s) = afterLast sep s := by
  rw [afterLast, if_neg fun hp => h (List.isPrefixOf_iff_prefix.1 hp), Option.or_none]

theorem afterLast_of_notMem (hsep : 0 < sep.length) (hx : ∀ c ∈ sep, c ∉ x) :
    afterLast sep x = none := by
  induction x with
  | nil => rfl
  | cons c s ih =>
      have hs : ∀ d ∈ sep, d ∉ s := fun d hd hmem => hx d hd (List.mem_cons_of_mem c hmem)
      rw [afterLast_cons (not_prefix_append (u := []) hsep hx)]
      exact ih hs

/-- Nor is it found from the right in such a part. -/
theorem afterLast_append_of_lt (hx : ∀ c ∈ sep, c ∉ x) {u : List α}
    (hlength : u.length < sep.length) : afterLast sep (u ++ x) = none := by
  induction u with
  | nil => exact afterLast_of_notMem hlength hx
  | cons c u ih =>
      have hprefix := not_prefix_append hlength hx
      rw [List.cons_append] at hprefix ⊢
      rw [afterLast_cons hprefix]
      exact ih ((Nat.lt_succ_self _).trans hlength)

theorem afterLast_sep_append (hsep : 0 < sep.length) (hx : ∀ c ∈ sep, c ∉ x) :
    afterLast sep (sep ++ x) = some x := by
  cases sep with
  | nil => cases hsep
  | cons c u =>
      have hrest : afterLast (c :: u) (u ++ x) = none :=
        afterLast_append_of_lt hx (Nat.lt_succ_self _)
      rw [List.cons_append, afterLast, hrest, ← List.cons_append,
        if_pos (List.isPrefixOf_iff_prefix.2 (List.prefix_append _ _)), List.drop_left]
      rfl

/-- The last piece is what comes after a separator and has nothing of one in it. -/
theorem last_append (hsep : 0 < sep.length) (hx : ∀ c ∈ sep, c ∉ x) (a : List α) :
    last sep (a ++ (sep ++ x)) = x := by
  have hafter : afterLast sep (a ++ (sep ++ x)) = some x := by
    induction a with
    | nil => exact afterLast_sep_append hsep hx
    | cons c a ih =>
        rw [List.cons_append, afterLast, ih]
        rfl
  rw [last, hafter]
  rfl

/-! ## Pieces that are joined -/

/-- Followed by a separator, the piece ends where the first one begins. -/
def Clear (sep piece : List α) : Prop := ¬ sep <:+: piece ++ sep.dropLast

/-- Pieces that are told apart when they are joined. -/
def Apart (sep : List α) : List (List α) → Prop
  | [] => True
  | [piece] => ¬ sep <:+: piece
  | piece :: next :: rest => Clear sep piece ∧ Apart sep (next :: rest)

instance decidableClear (sep piece : List α) : Decidable (Clear sep piece) :=
  inferInstanceAs (Decidable (¬ sep <:+: piece ++ sep.dropLast))

instance decidableApart (sep : List α) : (pieces : List (List α)) → Decidable (Apart sep pieces)
  | [] => isTrue trivial
  | [piece] => inferInstanceAs (Decidable (¬ sep <:+: piece))
  | piece :: next :: rest =>
      have := decidableApart sep (next :: rest)
      inferInstanceAs (Decidable (Clear sep piece ∧ Apart sep (next :: rest)))

theorem splitAfter_append (u s : List α) : splitAfter sep u.length (u ++ s) = split sep s := by
  induction u with
  | nil => rfl
  | cons c u ih => exact ih

theorem split_sep_append (hsep : sep ≠ []) (s : List α) : split sep (sep ++ s) = [] :: split sep s := by
  cases sep with
  | nil => exact absurd rfl hsep
  | cons c u =>
      rw [split, List.cons_append, splitAfter, ← List.cons_append,
        if_pos (List.isPrefixOf_iff_prefix.2 (List.prefix_append _ _))]
      exact congrArg _ (splitAfter_append u s)

theorem split_cons {c : α} {s : List α} (h : ¬ sep <+: c :: s) :
    split sep (c :: s) = push c (split sep s) := by
  rw [split, splitAfter, if_neg fun hp => h (List.isPrefixOf_iff_prefix.1 hp)]
  rfl

omit [DecidableEq α] in
/-- A separator that begins in a piece does not need what comes after the next one. -/
theorem prefix_piece_iff (hsep : sep ≠ []) (c : α) (piece s : List α) :
    sep <+: c :: (piece ++ (sep ++ s)) ↔ sep <+: c :: (piece ++ sep.dropLast) := by
  have hlast : c :: (piece ++ (sep ++ s)) =
      c :: (piece ++ sep.dropLast) ++ ([sep.getLast hsep] ++ s) := by
    rw [List.cons_append, List.append_assoc, ← List.append_assoc sep.dropLast,
      List.dropLast_append_getLast]
  rw [hlast]
  constructor
  · intro h
    refine List.prefix_of_prefix_length_le h (List.prefix_append _ _) ?_
    rw [List.length_cons, List.length_append, List.length_dropLast]
    omega
  · exact fun h => h.trans (List.prefix_append _ _)

omit [DecidableEq α] in
theorem clear_cons {c : α} {piece : List α} : Clear sep (c :: piece) ↔
    ¬ sep <+: c :: (piece ++ sep.dropLast) ∧ Clear sep piece := by
  rw [Clear, List.cons_append, List.infix_cons_iff, not_or]
  rfl

omit [DecidableEq α] in
theorem push_eq_cons {c : α} {pieces rest : List (List α)} {piece : List α} :
    push c pieces = (c :: piece) :: rest ↔ pieces = piece :: rest ∨
      pieces = [] ∧ piece = [] ∧ rest = [] := by
  cases pieces with
  | nil =>
      rw [push, List.cons.injEq, List.cons.injEq]
      grind
  | cons p ps =>
      rw [push, List.cons.injEq, List.cons.injEq, List.cons.injEq]
      grind

theorem split_ne_nil (s : List α) : split sep s ≠ [] := by
  have hpush : ∀ (c : α) (pieces : List (List α)), push c pieces ≠ [] := by
    intro c pieces
    cases pieces with
    | nil => exact List.cons_ne_nil _ _
    | cons p ps => exact List.cons_ne_nil _ _
  have hafter : ∀ (s : List α) (skip : Nat), splitAfter sep skip s ≠ [] := by
    intro s
    induction s with
    | nil =>
        intro skip
        rw [splitAfter]
        exact List.cons_ne_nil _ _
    | cons c s ih =>
        intro skip
        cases skip with
        | succ skip => exact ih skip
        | zero =>
            rw [splitAfter]
            split
            · exact List.cons_ne_nil _ _
            · exact hpush c _
  exact hafter s 0

/-- The first piece is the one that is joined with the rest, just when it is clear. -/
theorem split_piece_iff (hsep : sep ≠ []) {piece s : List α} {rest : List (List α)} :
    split sep (piece ++ (sep ++ s)) = piece :: rest ↔ Clear sep piece ∧ split sep s = rest := by
  induction piece with
  | nil =>
      have hclear : Clear sep [] := by
        intro h
        have hlength := h.length_le
        rw [List.nil_append, List.length_dropLast] at hlength
        have hpos := List.length_pos_of_ne_nil hsep
        omega
      rw [List.nil_append, split_sep_append hsep, List.cons.injEq]
      exact ⟨fun h => ⟨hclear, h.2⟩, fun h => ⟨rfl, h.2⟩⟩
  | cons c piece ih =>
      rw [clear_cons, List.cons_append]
      by_cases hfirst : sep <+: c :: (piece ++ sep.dropLast)
      · constructor
        · intro h
          rw [split, splitAfter, if_pos (List.isPrefixOf_iff_prefix.2
            ((prefix_piece_iff hsep c piece s).2 hfirst))] at h
          cases h
        · exact fun h => absurd hfirst h.1.1
      · have hnot : ¬ sep <+: c :: (piece ++ (sep ++ s)) :=
          fun h => hfirst ((prefix_piece_iff hsep c piece s).1 h)
        rw [split_cons hnot, push_eq_cons, ih]
        constructor
        · rintro (h | h)
          · exact ⟨⟨hfirst, h.1⟩, h.2⟩
          · exact absurd h.1 (split_ne_nil _)
        · exact fun h => Or.inl ⟨h.1.2, h.2⟩

theorem split_one_iff (hsep : sep ≠ []) {s : List α} : split sep s = [s] ↔ ¬ sep <:+: s := by
  induction s with
  | nil =>
      refine ⟨fun _ h => hsep (List.infix_nil.1 h), fun _ => rfl⟩
  | cons c s ih =>
      rw [List.infix_cons_iff, not_or]
      by_cases hfirst : sep <+: c :: s
      · constructor
        · intro h
          rw [split, splitAfter, if_pos (List.isPrefixOf_iff_prefix.2 hfirst)] at h
          cases h
        · exact fun h => absurd hfirst h.1
      · rw [split_cons hfirst, push_eq_cons, ih]
        constructor
        · rintro (h | h)
          · exact ⟨hfirst, h⟩
          · exact absurd h.1 (split_ne_nil s)
        · exact fun h => Or.inl h.2

/-- Pieces that are joined are told apart again just when each is clear of the separator. -/
theorem split_join_iff (hsep : sep ≠ []) {pieces : List (List α)} (hpieces : pieces ≠ []) :
    split sep (sep.intercalate pieces) = pieces ↔ Apart sep pieces := by
  induction pieces with
  | nil => exact absurd rfl hpieces
  | cons piece pieces ih =>
      cases pieces with
      | nil =>
          rw [List.intercalate_singleton, Apart]
          exact split_one_iff hsep
      | cons next rest =>
          rw [List.intercalate_cons_cons, List.append_assoc, split_piece_iff hsep, Apart,
            ih (List.cons_ne_nil next rest)]

/-! ## At the first of a character -/

theorem splitOnce_append {c : α} {a : List α} (ha : c ∉ a) (b : List α) :
    splitOnce c (a ++ c :: b) = some (a, b) := by
  induction a with
  | nil => exact if_pos rfl
  | cons d a ih =>
      rw [List.mem_cons, not_or] at ha
      rw [List.cons_append, splitOnce, if_neg (Ne.symm ha.1), ih ha.2]
      rfl

theorem splitOnce_of_notMem {c : α} {s : List α} (hs : c ∉ s) : splitOnce c s = none := by
  induction s with
  | nil => rfl
  | cons d s ih =>
      rw [List.mem_cons, not_or] at hs
      rw [splitOnce, if_neg (Ne.symm hs.1), ih hs.2]
      rfl

theorem splitOnce_eq_some {c : α} {s a b : List α} (h : splitOnce c s = some (a, b)) :
    s = a ++ c :: b ∧ c ∉ a := by
  induction s generalizing a with
  | nil => cases h
  | cons d s ih =>
      rw [splitOnce] at h
      split at h
      · rename_i hd
        cases h
        exact ⟨by rw [hd]; rfl, List.not_mem_nil⟩
      · rename_i hd
        obtain ⟨p, hp, heq⟩ := Option.map_eq_some_iff.1 h
        cases heq
        obtain ⟨hs, hmem⟩ := ih hp
        refine ⟨by rw [hs]; rfl, ?_⟩
        rw [List.mem_cons, not_or]
        exact ⟨Ne.symm hd, hmem⟩

theorem splitOnce_eq_none {c : α} {s : List α} (h : splitOnce c s = none) : c ∉ s := by
  intro hc
  obtain ⟨a, b, rfl, ha⟩ := List.eq_append_cons_of_mem hc
  rw [splitOnce_append ha] at h
  cases h

end Pieces
