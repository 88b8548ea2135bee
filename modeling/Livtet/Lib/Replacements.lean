import Mathlib.Data.List.Infix

/-! # Replaced texts

    Every place of a word in a text is replaced by another word, from the left, and each
    place is looked for behind the one before. Several words are replaced one after the
    other, in the order of a table.

    Two texts are replaced on their own if no word lies across the cut. If each word gets
    smaller where it first differs from what replaces it, so does a text that has one: then
    the text is left as it is only if no word occurs in it. -/

namespace Replacements

variable {α : Type} [DecidableEq α]

/-- The text is replaced, once as many of its characters are passed. -/
def replaceAfter (word by' : List α) : Nat → List α → List α
  | _, [] => []
  | skip + 1, _ :: s => replaceAfter word by' skip s
  | 0, c :: s =>
      if word.isPrefixOf (c :: s) then by' ++ replaceAfter word by' (word.length - 1) s
      else c :: replaceAfter word by' 0 s

/-- Every place of a word is replaced. -/
def replace (word by' s : List α) : List α := replaceAfter word by' 0 s

/-- The words of a table are replaced, one after the other. -/
def replaceAll (table : List (List α × List α)) (s : List α) : List α :=
  table.foldl (fun s e => replace e.1 e.2 s) s

section Steps

variable {word by' s : List α}

@[simp] theorem replace_nil (word by' : List α) : replace word by' [] = [] := rfl

theorem replaceAfter_append (u s : List α) :
    replaceAfter word by' u.length (u ++ s) = replace word by' s := by
  induction u with
  | nil => rfl
  | cons c u ih => exact ih

theorem replace_word_append (hword : word ≠ []) (s : List α) :
    replace word by' (word ++ s) = by' ++ replace word by' s := by
  cases word with
  | nil => exact absurd rfl hword
  | cons c w =>
      have hprefix : (c :: w).isPrefixOf (c :: (w ++ s)) = true :=
        List.isPrefixOf_iff_prefix.2 (List.prefix_append (c :: w) s)
      show replaceAfter (c :: w) by' 0 (c :: (w ++ s)) = _
      rw [replaceAfter, if_pos hprefix]
      exact congrArg (by' ++ ·) (replaceAfter_append w s)

theorem replace_cons {c : α} (h : ¬ word <+: c :: s) :
    replace word by' (c :: s) = c :: replace word by' s := by
  rw [replace, replaceAfter, if_neg fun hp => h (List.isPrefixOf_iff_prefix.1 hp)]
  rfl

omit [DecidableEq α] in
/-- A text is passed word by word where the word begins, and else one character at a time. -/
theorem replace_induction {motive : List α → Prop} (hword : word ≠ []) (nil : motive [])
    (hit : ∀ s, motive s → motive (word ++ s))
    (miss : ∀ c s, ¬ word <+: c :: s → motive s → motive (c :: s)) (s : List α) : motive s := by
  classical
  induction hn : s.length using Nat.strong_induction_on generalizing s with
  | _ n ih =>
      cases s with
      | nil => exact nil
      | cons c s =>
          by_cases hp : word <+: c :: s
          · obtain ⟨rest, hrest⟩ := hp
            have hlt : rest.length < n := by
              have hlength := congrArg List.length hrest
              have hpos := List.length_pos_iff.2 hword
              rw [List.length_append] at hlength
              omega
            rw [← hrest]
            exact hit rest (ih rest.length hlt rest rfl)
          · refine miss c s hp (ih s.length ?_ s rfl)
            rw [← hn]
            exact Nat.lt_succ_self _

/-- A text that the word does not occur in is left as it is. -/
theorem replace_of_not_infix (h : ¬ word <:+: s) : replace word by' s = s := by
  induction s with
  | nil => rfl
  | cons c s ih =>
      rw [List.infix_cons_iff, not_or] at h
      rw [replace_cons h.1, ih h.2]

/-- The first character stays if the word does not begin with it. -/
theorem replace_cons_of_head {c : α} (hword : word ≠ []) (h : word.head? ≠ some c) (s : List α) :
    replace word by' (c :: s) = c :: replace word by' s := by
  refine replace_cons fun hp => ?_
  cases word with
  | nil => exact hword rfl
  | cons d w => exact h (congrArg some (List.cons_prefix_cons.1 hp).1)

/-- What a replaced text begins with, and no replacement has a character of, was there. -/
theorem prefix_of_prefix_replace {q : List α} (hword : word ≠ []) (hby : by' ≠ [])
    (hq : ∀ c ∈ q, c ∉ by') (h : q <+: replace word by' s) : q <+: s := by
  induction s using replace_induction hword generalizing q with
  | nil => exact h
  | hit s _ =>
      rw [replace_word_append hword] at h
      cases q with
      | nil => exact List.nil_prefix
      | cons c q =>
          cases by' with
          | nil => exact absurd rfl hby
          | cons d rest =>
              have hc := (List.cons_prefix_cons.1 h).1
              exact absurd (hc ▸ List.mem_cons_self) (hq c List.mem_cons_self)
  | miss d s hp ih =>
      rw [replace_cons hp] at h
      cases q with
      | nil => exact List.nil_prefix
      | cons c q =>
          obtain ⟨rfl, hrest⟩ := List.cons_prefix_cons.1 h
          exact List.cons_prefix_cons.2
            ⟨rfl, ih (fun c' hc' => hq c' (List.mem_cons_of_mem c hc')) hrest⟩

/-- The last character stays if it is not the word's last, or is the replacement's last too. -/
theorem getLast?_replace {c : α} (hword : word ≠ [])
    (hc : word.getLast? = some c → by'.getLast? = some c) (h : s.getLast? = some c) :
    (replace word by' s).getLast? = some c := by
  induction s using replace_induction hword with
  | nil => exact h
  | hit s ih =>
      rw [replace_word_append hword]
      cases hs : s.getLast? with
      | none =>
          rw [List.getLast?_eq_none_iff.1 hs, List.append_nil] at h
          rw [List.getLast?_eq_none_iff.1 hs, replace_nil, List.append_nil]
          exact hc h
      | some d =>
          rw [List.getLast?_append, hs] at h
          rw [List.getLast?_append, ih (hs.trans h)]
          rfl
  | miss d s hp ih =>
      rw [replace_cons hp]
      cases s with
      | nil => exact h
      | cons e s =>
          rw [List.getLast?_cons_cons] at h
          rw [List.getLast?_cons, ih h]
          rfl

end Steps

/-! ## Cuts -/

/-- No place of the word lies across the cut between two texts. -/
def Apart (word a b : List α) : Prop :=
  ∀ u v, word = u ++ v → u ≠ [] → v ≠ [] → u <:+ a → ¬ v <+: b

section Cuts

variable {word by' a b : List α}

omit [DecidableEq α] in
theorem Apart.of_suffix {a' : List α} (h : Apart word a b) (hsuffix : a' <:+ a) :
    Apart word a' b :=
  fun u v hword hu hv hua => h u v hword hu hv (hua.trans hsuffix)

/-- Two texts without a place across the cut are replaced on their own. -/
theorem replace_append (hword : word ≠ []) (h : Apart word a b) :
    replace word by' (a ++ b) = replace word by' a ++ replace word by' b := by
  induction a using replace_induction hword with
  | nil => rfl
  | hit a ih =>
      rw [List.append_assoc, replace_word_append hword, replace_word_append hword,
        ih (h.of_suffix (List.suffix_append word a)), List.append_assoc]
  | miss c a hp ih =>
      have hacross : ¬ word <+: c :: (a ++ b) := by
        rw [← List.cons_append]
        intro hprefix
        rcases List.prefix_or_prefix_of_prefix hprefix (List.prefix_append (c :: a) b) with
          hin | ⟨v, hsplit⟩
        · exact hp hin
        · rw [← hsplit, List.prefix_append_right_inj] at hprefix
          refine h (c :: a) v hsplit.symm (List.cons_ne_nil c a) ?_ List.suffix_rfl hprefix
          rintro rfl
          rw [List.append_nil] at hsplit
          exact hp (hsplit ▸ List.prefix_rfl)
      rw [List.cons_append, replace_cons hacross, replace_cons hp,
        ih (h.of_suffix (List.suffix_cons c a)), List.cons_append]

/-- What is counted of texts is kept, if a word counts as much as its replacement. -/
theorem measure_replace {M : Type} [Add M] {measure : List α → M}
    (happend : ∀ a b, measure (a ++ b) = measure a + measure b) (hword : word ≠ [])
    (hsame : measure by' = measure word) (s : List α) :
    measure (replace word by' s) = measure s := by
  induction s using replace_induction hword with
  | nil => rfl
  | hit s ih => rw [replace_word_append hword, happend, happend, ih, hsame]
  | miss c s hp ih =>
      rw [replace_cons hp, ← List.singleton_append, ← List.singleton_append (x := c) (l := s),
        happend, happend, ih]

end Cuts

/-! ## Smaller texts -/

/-- The first text has a smaller character where the two first differ. -/
def Below (rank : α → Nat) (x y : List α) : Prop :=
  ∃ u c d x' y', x = u ++ c :: x' ∧ y = u ++ d :: y' ∧ rank c < rank d

section Smaller

variable {rank : α → Nat} {word by' s x y z : List α}

omit [DecidableEq α] in
theorem Below.ne_nil (h : Below rank x y) : y ≠ [] := by
  obtain ⟨u, c, d, x', y', -, rfl, -⟩ := h
  exact List.append_ne_nil_of_right_ne_nil u (List.cons_ne_nil d y')

omit [DecidableEq α] in
/-- Whatever follows, and whatever both begin with. -/
theorem Below.append (h : Below rank x y) (s t : List α) : Below rank (x ++ s) (y ++ t) := by
  obtain ⟨u, c, d, x', y', rfl, rfl, hlt⟩ := h
  exact ⟨u, c, d, x' ++ s, y' ++ t, by simp only [List.append_assoc, List.cons_append],
    by simp only [List.append_assoc, List.cons_append], hlt⟩

omit [DecidableEq α] in
theorem Below.cons (h : Below rank x y) (c : α) : Below rank (c :: x) (c :: y) := by
  obtain ⟨u, a, b, x', y', rfl, rfl, hlt⟩ := h
  exact ⟨c :: u, a, b, x', y', rfl, rfl, hlt⟩

omit [DecidableEq α] in
theorem Below.ne (h : Below rank x y) : x ≠ y := by
  obtain ⟨u, c, d, x', y', rfl, rfl, hlt⟩ := h
  intro heq
  have hcd : c = d := (List.cons.inj (List.append_cancel_left heq)).1
  rw [hcd] at hlt
  exact Nat.lt_irrefl _ hlt

omit [DecidableEq α] in
theorem Below.trans (hxy : Below rank x y) (hyz : Below rank y z) : Below rank x z := by
  obtain ⟨u, c, d, x', y', rfl, rfl, hlt⟩ := hxy
  obtain ⟨v, e, f, y'', z', hy', rfl, hlt'⟩ := hyz
  -- the smaller of the two places is where the outer texts first differ
  induction u generalizing v with
  | nil =>
      cases v with
      | nil =>
          have hde : d = e := (List.cons.inj hy').1
          rw [← hde] at hlt'
          exact ⟨[], c, f, x', z', rfl, rfl, Nat.lt_trans hlt hlt'⟩
      | cons g v =>
          have hdg : d = g := (List.cons.inj hy').1
          rw [hdg] at hlt
          exact ⟨[], c, g, x', v ++ f :: z', rfl, rfl, hlt⟩
  | cons g u ih =>
      cases v with
      | nil =>
          have hge : g = e := (List.cons.inj hy').1
          rw [← hge] at hlt'
          exact ⟨[], g, f, u ++ c :: x', z', rfl, rfl, hlt'⟩
      | cons g' v =>
          obtain ⟨rfl, hrest⟩ := List.cons.inj hy'
          exact (ih v hrest).cons g

/-- A text that the word occurs in gets smaller. -/
theorem replace_below (h : Below rank by' word) (s : List α) :
    (¬ word <:+: s ∧ replace word by' s = s) ∨ Below rank (replace word by' s) s := by
  have hword := h.ne_nil
  induction s using replace_induction hword with
  | nil => exact .inl ⟨fun hin => hword (List.infix_nil.1 hin), rfl⟩
  | hit s _ =>
      rw [replace_word_append hword]
      exact .inr (h.append _ _)
  | miss c s hp ih =>
      rw [replace_cons hp]
      rcases ih with ⟨hin, hsame⟩ | hbelow
      · rw [hsame, List.infix_cons_iff]
        exact .inl ⟨not_or.2 ⟨hp, hin⟩, rfl⟩
      · exact .inr (hbelow.cons c)

end Smaller

/-! ## Tables -/

section Tables

variable {table : List (List α × List α)} {rank : α → Nat}

theorem replaceAll_cons (e : List α × List α) (table : List (List α × List α)) (s : List α) :
    replaceAll (e :: table) s = replaceAll table (replace e.1 e.2 s) := rfl

theorem replaceAll_of_not_infix {s : List α} (h : ∀ e ∈ table, ¬ e.1 <:+: s) :
    replaceAll table s = s := by
  induction table with
  | nil => rfl
  | cons e table ih =>
      rw [replaceAll_cons, replace_of_not_infix (h e List.mem_cons_self)]
      exact ih fun e' he' => h e' (List.mem_cons_of_mem e he')

/-- What each entry of the table keeps, the table keeps. -/
theorem replaceAll_keeps {motive : List α → Prop} {s : List α}
    (hstep : ∀ e ∈ table, ∀ s, motive s → motive (replace e.1 e.2 s)) (hs : motive s) :
    motive (replaceAll table s) := by
  induction table generalizing s with
  | nil => exact hs
  | cons e table ih =>
      exact ih (fun e' he' => hstep e' (List.mem_cons_of_mem e he')) (hstep e List.mem_cons_self s hs)

/-- Two texts are replaced on their own if what they are, at every entry, leaves no place
    across the cut. What the first is may depend on the entries that are left. -/
theorem replaceAll_append (left : List (List α × List α) → List α → Prop)
    (right : List α → Prop) {a b : List α} (hword : ∀ e ∈ table, e.1 ≠ [])
    (hleft : ∀ e rest s, left (e :: rest) s → left rest (replace e.1 e.2 s))
    (hright : ∀ e ∈ table, ∀ s, right s → right (replace e.1 e.2 s))
    (hapart : ∀ e ∈ table, ∀ rest a b, left (e :: rest) a → right b → Apart e.1 a b)
    (ha : left table a) (hb : right b) :
    replaceAll table (a ++ b) = replaceAll table a ++ replaceAll table b := by
  induction table generalizing a b with
  | nil => rfl
  | cons e table ih =>
      have hmem : e ∈ e :: table := List.mem_cons_self
      have hin : ∀ {e'}, e' ∈ table → e' ∈ e :: table := List.mem_cons_of_mem e
      rw [replaceAll_cons, replace_append (hword e hmem) (hapart e hmem table a b ha hb)]
      exact ih (fun e' he' => hword e' (hin he')) (fun e' he' => hright e' (hin he'))
        (fun e' he' => hapart e' (hin he')) (hleft e table a ha) (hright e hmem b hb)

/-- A text that a word of the table occurs in gets smaller. -/
theorem replaceAll_below (h : ∀ e ∈ table, Below rank e.2 e.1) (s : List α) :
    ((∀ e ∈ table, ¬ e.1 <:+: s) ∧ replaceAll table s = s) ∨ Below rank (replaceAll table s) s := by
  induction table generalizing s with
  | nil => exact .inl ⟨List.forall_mem_nil _, rfl⟩
  | cons e table ih =>
      rw [replaceAll_cons]
      have hrest := ih (fun e' he' => h e' (List.mem_cons_of_mem e he')) (replace e.1 e.2 s)
      rcases replace_below (h e List.mem_cons_self) s with ⟨hin, hsame⟩ | hbelow
      · rw [hsame] at hrest ⊢
        rcases hrest with ⟨hall, hfixed⟩ | hbelow
        · exact .inl ⟨List.forall_mem_cons.2 ⟨hin, hall⟩, hfixed⟩
        · exact .inr hbelow
      · rcases hrest with ⟨-, hfixed⟩ | hbelow'
        · rw [hfixed]
          exact .inr hbelow
        · exact .inr (hbelow'.trans hbelow)

end Tables

end Replacements
