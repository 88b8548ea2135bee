import Mathlib.Data.List.Induction
import Mathlib.Data.List.Nodup
import Mathlib.Data.List.Pairwise
import Mathlib.Data.List.Perm.Subperm
import Mathlib.Order.MinMax

/-! # What is seen first

    `eraseDups` keeps each element of a list where it is seen first. What has been seen of
    the start of a list is the start of what is seen of it (`eraseDups_take_prefix`), so a
    bound on how many are kept lets through what is seen while there are no more. -/

namespace FirstSeen

variable {α β : Type} [BEq α] [LawfulBEq α] [BEq β] [LawfulBEq β]

theorem nodup_eraseDups : ∀ l : List α, l.eraseDups.Nodup
  | [] => List.nodup_nil
  | a :: rest => by
      rw [List.eraseDups_cons, List.nodup_cons, List.mem_eraseDups, List.mem_filter]
      exact ⟨fun h => by simp at h, nodup_eraseDups (rest.filter fun b => !b == a)⟩
termination_by l => l.length
decreasing_by exact Nat.lt_succ_of_le (List.length_filter_le _ _)

theorem eraseDups_of_nodup {l : List α} (h : l.Nodup) : l.eraseDups = l := by
  induction l with
  | nil => rfl
  | cons a rest ih =>
      obtain ⟨hnot, hrest⟩ := List.nodup_cons.1 h
      have hkeep : (rest.filter fun b => !b == a) = rest := by
        refine List.filter_eq_self.2 fun b hb => ?_
        have hne : b ≠ a := fun heq => hnot (heq ▸ hb)
        rw [beq_eq_false_iff_ne.2 hne]
        rfl
      rw [List.eraseDups_cons, hkeep, ih hrest]

omit [LawfulBEq α] in
theorem eraseDups_sublist : ∀ l : List α, l.eraseDups.Sublist l
  | [] => List.Sublist.slnil
  | a :: rest => by
      rw [List.eraseDups_cons]
      have hrest := eraseDups_sublist (rest.filter fun b => !b == a)
      exact (hrest.trans List.filter_sublist).cons_cons a
termination_by l => l.length
decreasing_by exact Nat.lt_succ_of_le (List.length_filter_le _ _)

/-- There are as many as in the list exactly if nothing is seen twice. -/
theorem length_eraseDups_eq_iff {l : List α} : l.eraseDups.length = l.length ↔ l.Nodup := by
  constructor
  · intro h
    rw [← (eraseDups_sublist l).eq_of_length h]
    exact nodup_eraseDups l
  · intro h
    rw [eraseDups_of_nodup h]

/-- One more element is seen unless it was. -/
theorem eraseDups_append_one (l : List α) (a : α) :
    (l ++ [a]).eraseDups = if a ∈ l then l.eraseDups else l.eraseDups ++ [a] := by
  rw [List.eraseDups_append]
  by_cases h : a ∈ l
  · rw [if_pos h, List.removeAll, List.filter_cons_of_neg (by simpa using h), List.filter_nil,
      List.eraseDups_nil, List.append_nil]
  · rw [if_neg h, List.removeAll, List.filter_cons_of_pos (by simpa using h), List.filter_nil]
    rfl

theorem eraseDups_prefix_append (l l' : List α) : l.eraseDups <+: (l ++ l').eraseDups := by
  rw [List.eraseDups_append]
  exact List.prefix_append _ _

theorem eraseDups_take_prefix (l : List α) (n : Nat) : (l.take n).eraseDups <+: l.eraseDups := by
  conv_rhs => rw [← List.take_append_drop n l]
  exact eraseDups_prefix_append _ _

/-- What is seen of a map is what is seen of the map of what is seen. -/
theorem eraseDups_map_eraseDups (f : α → β) (l : List α) :
    (l.eraseDups.map f).eraseDups = (l.map f).eraseDups := by
  induction l using List.reverseRecOn with
  | nil => rfl
  | append_singleton l a ih =>
      rw [eraseDups_append_one, List.map_append, List.map_singleton, eraseDups_append_one]
      split
      next h => rw [ih, if_pos (List.mem_map_of_mem h)]
      next h =>
        rw [List.map_append, List.map_singleton, eraseDups_append_one, ih]
        refine if_congr ?_ rfl rfl
        simp only [List.mem_map, List.mem_eraseDups]

/-- The first ones that are seen are the first ones exactly if these are all different. -/
theorem take_eraseDups_eq_iff {l : List α} {n : Nat} :
    l.eraseDups.take n = l.take n ↔ (l.take n).Nodup := by
  constructor
  · intro h
    rw [← h]
    exact (nodup_eraseDups l).sublist (List.take_sublist _ _)
  · intro h
    have hprefix := eraseDups_take_prefix l n
    rw [eraseDups_of_nodup h] at hprefix
    obtain ⟨rest, hrest⟩ := hprefix
    rw [← hrest]
    by_cases hn : n ≤ l.length
    · exact List.take_left' (List.length_take_of_le hn)
    · have hlength := (eraseDups_sublist l).length_le
      rw [← hrest, List.length_append] at hlength
      rw [List.take_of_length_le (Nat.le_of_not_le hn)] at hlength ⊢
      have hnil : rest = [] := List.eq_nil_of_length_eq_zero (by omega)
      rw [hnil, List.append_nil, List.take_of_length_le (Nat.le_of_not_le hn)]

/-- What is seen while there are no more than the bound is kept. -/
theorem mem_take_eraseDups {l : List α} {k n : Nat} (h : (l.take k).eraseDups.length ≤ n)
    {a : α} (ha : a ∈ l.take k) : a ∈ l.eraseDups.take n := by
  obtain ⟨rest, hrest⟩ := eraseDups_take_prefix l k
  rw [← hrest, List.take_append]
  refine List.mem_append_left _ ?_
  rw [List.take_of_length_le h]
  exact List.mem_eraseDups.2 ha

/-- Of two elements of which one is seen first, that one is kept if the other is. -/
theorem mem_take_eraseDups_of_before {l l' : List α} {a b : α} {n : Nat}
    (hb : b ∉ l) (h : b ∈ (l ++ a :: l').eraseDups.take n) :
    a ∈ (l ++ a :: l').eraseDups.take n := by
  by_cases hab : a = b
  · rw [hab] at h ⊢
    exact h
  have hsplit : l ++ a :: l' = (l ++ [a]) ++ l' := by simp
  obtain ⟨rest, hrest⟩ := eraseDups_prefix_append (l ++ [a]) l'
  rw [hsplit, ← hrest, List.take_append] at h ⊢
  refine List.mem_append_left _ ?_
  rcases List.mem_append.1 h with h | h
  · have hmem := List.mem_eraseDups.1 (List.mem_of_mem_take h)
    rcases List.mem_append.1 hmem with hmem | hmem
    · exact absurd hmem hb
    · exact absurd (List.mem_singleton.1 hmem).symm hab
  · -- the other comes after all that was seen up to this one
    have hpos : 0 < n - (l ++ [a]).eraseDups.length := by
      refine Nat.pos_of_ne_zero fun hzero => ?_
      rw [hzero, List.take_zero] at h
      exact absurd h List.not_mem_nil
    rw [List.take_of_length_le (by omega)]
    exact List.mem_eraseDups.2 (List.mem_append_right _ (List.mem_singleton_self a))

/-! ## Reading what is seen -/

/-- What is read of what is seen, seen once, is what is seen of all that is read. -/
theorem eraseDups_filterMap_eraseDups (f : α → Option β) (l : List α) :
    (l.eraseDups.filterMap f).eraseDups = (l.filterMap f).eraseDups := by
  induction l using List.reverseRecOn with
  | nil => rfl
  | append_singleton l a ih =>
      rw [eraseDups_append_one, List.filterMap_append]
      cases ha : f a with
      | none =>
          rw [List.filterMap_cons_none ha, List.filterMap_nil, List.append_nil]
          split
          next => exact ih
          next =>
            rw [List.filterMap_append, List.filterMap_cons_none ha, List.filterMap_nil,
              List.append_nil, ih]
      | some b =>
          rw [List.filterMap_cons_some ha, List.filterMap_nil, eraseDups_append_one]
          split
          next h => rw [ih, if_pos (List.mem_filterMap.2 ⟨a, h, ha⟩)]
          next h =>
            rw [List.filterMap_append, List.filterMap_cons_some ha, List.filterMap_nil,
              eraseDups_append_one, ih]
            refine if_congr ?_ rfl rfl
            simp only [List.mem_filterMap, List.mem_eraseDups]

omit [BEq β] [LawfulBEq β] in
/-- What is read of what is seen is different exactly if nothing is written in two ways. -/
theorem nodup_filterMap_eraseDups_iff {f : α → Option β} {l : List α} :
    (l.eraseDups.filterMap f).Nodup ↔
      ∀ a ∈ l, ∀ b ∈ l, ∀ c, f a = some c → f b = some c → a = b := by
  rw [List.Nodup, List.pairwise_filterMap]
  constructor
  · intro h a ha b hb c hac hbc
    by_contra hab
    have hsymm : Std.Symm fun a a' => ∀ b, f a = some b → ∀ b', f a' = some b' → b ≠ b' :=
      ⟨fun x y hxy b hb b' hb' heq => hxy b' hb' b hb heq.symm⟩
    exact h.forall (List.mem_eraseDups.2 ha) (List.mem_eraseDups.2 hb) hab c hac c hbc rfl
  · intro h
    refine (nodup_eraseDups l).pairwise_of_forall_ne fun a ha b hb hab c hac c' hbc heq => ?_
    rw [← heq] at hbc
    exact hab (h a (List.mem_eraseDups.1 ha) b (List.mem_eraseDups.1 hb) c hac hbc)

/-- **WHAT IS READ OF THE FIRST ONES, SEEN ONCE,** is the start of all that is seen exactly if
    nothing is written in two ways, and nothing is seen later or the first ones are all
    different. -/
theorem seen_of_take_eq_iff {γ : Type} {text : γ → Option α} {f : α → Option β} {l : List γ}
    {n : Nat} :
    ((l.take n).filterMap text).eraseDups.filterMap f =
        (l.filterMap fun x => (text x).bind f).eraseDups.take n ↔
      (∀ a ∈ (l.take n).filterMap text, ∀ b ∈ (l.take n).filterMap text, ∀ c,
        f a = some c → f b = some c → a = b) ∧
      ((∀ c ∈ l.filterMap fun x => (text x).bind f,
          c ∈ (l.take n).filterMap fun x => (text x).bind f) ∨
        (((l.take n).filterMap fun x => (text x).bind f).length = n ∧
          ((l.take n).filterMap fun x => (text x).bind f).Nodup)) := by
  have hread : ((l.take n).filterMap text).filterMap f =
      (l.take n).filterMap fun x => (text x).bind f := List.filterMap_filterMap
  have hseen := eraseDups_filterMap_eraseDups f ((l.take n).filterMap text)
  rw [hread] at hseen
  rw [← nodup_filterMap_eraseDups_iff]
  have hprefix : ((l.take n).filterMap fun x => (text x).bind f).eraseDups <+:
      (l.filterMap fun x => (text x).bind f).eraseDups := by
    conv_rhs => rw [← List.take_append_drop n l, List.filterMap_append]
    exact eraseDups_prefix_append _ _
  have hbound : ((l.take n).filterMap fun x => (text x).bind f).length ≤ n :=
    (List.length_filterMap_le _ _).trans (List.length_take_le _ _)
  -- from here on only the lengths and the prefix matter
  generalize (l.take n).filterMap (fun x => (text x).bind f) = first at hseen hprefix hbound ⊢
  generalize l.filterMap (fun x => (text x).bind f) = all at hprefix ⊢
  generalize ((l.take n).filterMap text).eraseDups.filterMap f = out at hseen ⊢
  have hshort := (eraseDups_sublist first).length_le
  have hfew := hprefix.length_le
  have hlength : first.eraseDups.length = min n all.eraseDups.length ↔
      (∀ c ∈ all, c ∈ first) ∨ (first.length = n ∧ first.Nodup) := by
    rw [← length_eraseDups_eq_iff (l := first)]
    have hall : (∀ c ∈ all, c ∈ first) ↔ first.eraseDups.length = all.eraseDups.length := by
      constructor
      · intro h
        have hsubset : all.eraseDups ⊆ first.eraseDups := fun c hc =>
          List.mem_eraseDups.2 (h c (List.mem_eraseDups.1 hc))
        have := ((nodup_eraseDups all).subperm hsubset).length_le
        omega
      · intro h c hc
        rw [← List.mem_eraseDups, hprefix.eq_of_length h]
        exact List.mem_eraseDups.2 hc
    rw [hall]
    omega
  rw [← hlength]
  constructor
  · intro h
    have hnodup : out.Nodup := h ▸ (nodup_eraseDups all).sublist (List.take_sublist _ _)
    rw [eraseDups_of_nodup hnodup] at hseen
    exact ⟨hnodup, by rw [← hseen, h, List.length_take]⟩
  · rintro ⟨hnodup, h⟩
    rw [eraseDups_of_nodup hnodup] at hseen
    rw [hseen, List.prefix_iff_eq_take.1 hprefix, h, List.take_eq_take_iff]
    omega

/-! ## Groups -/

omit [BEq α] [LawfulBEq α] [BEq β] [LawfulBEq β] in
/-- Two ways to look up, both of which find something: what they find tells them apart. -/
theorem filterMap_eq_filterMap_iff {f g : α → Option β} {l : List α}
    (hf : ∀ a ∈ l, f a ≠ none) (hg : ∀ a ∈ l, g a ≠ none) :
    l.filterMap f = l.filterMap g ↔ ∀ a ∈ l, f a = g a := by
  refine ⟨?_, List.filterMap_congr⟩
  induction l with
  | nil => exact fun _ a ha => absurd ha List.not_mem_nil
  | cons a rest ih =>
      obtain ⟨x, hx⟩ := Option.ne_none_iff_exists'.1 (hf a List.mem_cons_self)
      obtain ⟨y, hy⟩ := Option.ne_none_iff_exists'.1 (hg a List.mem_cons_self)
      rw [List.filterMap_cons_some hx, List.filterMap_cons_some hy, List.cons.injEq,
        List.forall_mem_cons, hx, hy, Option.some.injEq]
      rintro ⟨hxy, hrest⟩
      exact ⟨hxy, ih (fun b hb => hf b (List.mem_cons_of_mem _ hb))
        (fun b hb => hg b (List.mem_cons_of_mem _ hb)) hrest⟩

omit [BEq α] [LawfulBEq α] [BEq β] [LawfulBEq β] in
/-- What a part of a list gives is all that the list gives exactly if the others give nothing. -/
theorem append_filterMap_eq_iff {f : α → Option β} {p : α → Bool} {l : List α} {m : List β} :
    m ++ l.filterMap f = (l.filter p).filterMap f ↔
      m = [] ∧ ∀ a ∈ l, p a = false → f a = none := by
  constructor
  · intro h
    have hsub : ∀ l : List α, ((l.filter p).filterMap f).length ≤ (l.filterMap f).length :=
      fun l => (List.filter_sublist.filterMap f).length_le
    have hlength := congrArg List.length h
    rw [List.length_append] at hlength
    have hle := hsub l
    refine ⟨List.eq_nil_of_length_eq_zero (by omega), fun a ha hpa => ?_⟩
    by_contra hsome
    obtain ⟨y, hy⟩ := Option.ne_none_iff_exists'.1 hsome
    obtain ⟨l₁, l₂, rfl⟩ := List.append_of_mem ha
    rw [List.filterMap_append, List.filterMap_cons_some hy, List.filter_append,
      List.filter_cons_of_neg (by rw [hpa]; exact Bool.false_ne_true), List.filterMap_append,
      List.length_append, List.length_append, List.length_cons] at hlength
    have h₁ := hsub l₁
    have h₂ := hsub l₂
    omega
  · rintro ⟨rfl, h⟩
    rw [List.nil_append, List.filterMap_filter]
    refine List.filterMap_congr fun a ha => ?_
    cases hpa : p a with
    | true => rw [if_pos rfl]
    | false => rw [if_neg Bool.false_ne_true, h a ha hpa]

/-- A bound is below the largest of a list exactly if it is below one of it. -/
theorem le_foldl_max_iff {γ : Type} [LinearOrder γ] {bound first : γ} {rest : List γ} :
    bound ≤ rest.foldl max first ↔ ∃ c ∈ first :: rest, bound ≤ c := by
  induction rest generalizing first with
  | nil => simp
  | cons c rest ih =>
      rw [List.foldl_cons, ih]
      simp only [List.mem_cons, exists_eq_or_imp, le_max_iff, or_assoc]

omit [BEq α] [LawfulBEq α] in
/-- The largest of a part of a list is the largest of the list exactly if the others are not
    above the part. -/
theorem foldl_max_filter_eq_iff {γ : Type} [LinearOrder γ] {f : α → γ} {p : α → Bool} {a : α}
    {l : List α} :
    (l.map f).foldl max (f a) = ((l.filter p).map f).foldl max (f a) ↔
      ∀ b ∈ l, p b = false → ∃ c ∈ a :: l.filter p, f b ≤ f c := by
  have hmax : ∀ (l : List α) (bound : γ),
      bound ≤ (l.map f).foldl max (f a) ↔ ∃ c ∈ a :: l, bound ≤ f c := by
    intro l bound
    rw [le_foldl_max_iff, ← List.map_cons]
    simp only [List.mem_map, exists_exists_and_eq_and]
  constructor
  · intro h b hb _
    rw [← hmax, ← h, hmax]
    exact ⟨b, List.mem_cons_of_mem _ hb, le_refl _⟩
  · intro h
    refine le_antisymm ((hmax _ _).2 ?_) ((hmax _ _).2 ?_)
    · obtain ⟨c, hc, hle⟩ := (hmax l _).1 (le_refl _)
      rcases List.mem_cons.1 hc with rfl | hc
      · exact ⟨c, List.mem_cons_self, hle⟩
      cases hpc : p c with
      | true => exact ⟨c, List.mem_cons_of_mem _ (List.mem_filter.2 ⟨hc, hpc⟩), hle⟩
      | false =>
          obtain ⟨z, hz, hcz⟩ := h c hc hpc
          exact ⟨z, hz, hle.trans hcz⟩
    · obtain ⟨c, hc, hle⟩ := (hmax (l.filter p) _).1 (le_refl _)
      exact ⟨c, List.cons_subset_cons _ (List.filter_subset_self _) hc, hle⟩

end FirstSeen
