import Livtet.Lib.Runs
import Mathlib.Data.List.Sort
import Mathlib.Data.Set.Function

/-! # Histories of a keyed store, replayed in another order

    A store is a set of rows, each under a key. An event puts a row under its key
    or drops what is there, and a history is a list of events. What a history does
    to one key it does through the events of that key alone, so two histories with
    the same events per key, in the same order, end alike: a stable sort by a rank
    that the key decides changes nothing.

    A copy that replays the sorted history and also loses rows on its own keeps up
    as long as the rows it loses are ones the whole history only drops: `Ahead`. -/

namespace Histories

open Runs

variable {ι α κ : Type*}

/-! ## Replaying in another order -/

section Sorted

variable (rank : ι → ℕ) {l : List ι} {i : ι}

/-- The history, sorted by rank; events of one rank keep their order. -/
def sorted (l : List ι) : List ι := l.insertionSort fun a b => rank a ≤ rank b

theorem pairwise_sorted (l : List ι) : (sorted rank l).Pairwise fun a b => rank a ≤ rank b := by
  have : Std.Total fun a b : ι => rank a ≤ rank b := ⟨fun a b => le_total (rank a) (rank b)⟩
  have : IsTrans ι fun a b : ι => rank a ≤ rank b := ⟨fun _ _ _ => le_trans⟩
  exact List.pairwise_insertionSort _ l

variable {rank}

theorem mem_sorted : i ∈ sorted rank l ↔ i ∈ l := List.mem_insertionSort _

/-- The sort keeps the events of a class of one rank as they are. -/
theorem filter_sorted {p : ι → Bool} (hp : ∀ i j, p i = true → p j = true → rank i = rank j)
    (l : List ι) : (sorted rank l).filter p = l.filter p := by
  have hpair : (l.filter p).Pairwise fun a b => rank a ≤ rank b := by
    refine List.pairwise_of_forall_mem_list fun a ha b hb => ?_
    exact le_of_eq (hp a b (List.of_mem_filter ha) (List.of_mem_filter hb))
  have hsub : (l.filter p).Sublist ((sorted rank l).filter p) := by
    have := (List.sublist_insertionSort hpair List.filter_sublist).filter p
    simp only [List.filter_filter, Bool.and_self] at this
    exact this
  refine (hsub.eq_of_length ?_).symm
  exact ((List.perm_insertionSort _ l).filter p).length_eq.symm

/-- Where an event stands in the sorted history, it stands in the history itself after
    the same events of its class. -/
theorem split_of_sorted {p : ι → Bool} (hp : ∀ i j, p i = true → p j = true → rank i = rank j)
    {done rest : List ι} (h : sorted rank l = done ++ i :: rest) (hi : p i = true) :
    ∃ before after, l = before ++ i :: after ∧ before.filter p = done.filter p := by
  have hfilter := filter_sorted hp l
  rw [h, List.filter_append, List.filter_cons_of_pos hi] at hfilter
  obtain ⟨before, tail, rfl, hbefore, htail⟩ := List.filter_eq_append_iff.1 hfilter.symm
  obtain ⟨skipped, after, rfl, hskipped, _, _⟩ := List.filter_eq_cons_iff.1 htail
  refine ⟨before ++ skipped, after, (List.append_assoc ..).symm, ?_⟩
  rw [List.filter_append, hbefore, List.filter_eq_nil_iff.2 hskipped, List.append_nil]

/-- When an event's turn comes, every event of a lower rank is done. -/
theorem filter_done {p : ι → Bool} (hp : ∀ i j, p i = true → p j = true → rank i = rank j)
    {done rest : List ι} (h : sorted rank l = done ++ i :: rest)
    (hlow : ∀ j, p j = true → rank j < rank i) : done.filter p = l.filter p := by
  have hpair := pairwise_sorted rank l
  rw [h] at hpair
  have hge := (List.pairwise_cons.1 (List.pairwise_append.1 hpair).2.1).1
  have hrest : (i :: rest).filter p = [] := by
    refine List.filter_eq_nil_iff.2 fun j hj hpj => ?_
    have hlt := hlow j hpj
    rcases List.mem_cons.1 hj with rfl | hj
    · exact lt_irrefl _ hlt
    · exact absurd (hge j hj) (not_le.2 hlt)
  rw [← filter_sorted hp l, h, List.filter_append, hrest, List.append_nil]

end Sorted

/-! ## Events on rows -/

/-- How events of type `ι` act on rows of type `α`. -/
structure Feed (ι α κ : Type*) where
  row : ι → α
  drops : ι → Bool
  key : α → κ

namespace Feed

variable (f : Feed ι α κ)

/-- One event: the row of its key goes, and the event's own row comes unless it drops. -/
def step (S : Set α) (i : ι) : Set α :=
  {x | (x ∈ S ∧ f.key x ≠ f.key (f.row i)) ∨ (f.drops i = false ∧ x = f.row i)}

/-- The key is dropped by the history and never put. -/
def Doomed (l : List ι) (c : κ) : Prop :=
  (∃ i ∈ l, f.key (f.row i) = c) ∧ ∀ i ∈ l, f.key (f.row i) = c → f.drops i = true

variable {f} {S S' : Set α} {l : List ι} {i : ι} {x : α}

theorem mem_step : x ∈ f.step S i ↔
    (x ∈ S ∧ f.key x ≠ f.key (f.row i)) ∨ (f.drops i = false ∧ x = f.row i) := Iff.rfl

/-- An event leaves the rows of other keys alone. -/
theorem mem_step_of_ne (h : f.key x ≠ f.key (f.row i)) : x ∈ f.step S i ↔ x ∈ S := by
  rw [mem_step]
  constructor
  · rintro (⟨hx, _⟩ | ⟨_, rfl⟩)
    · exact hx
    · exact absurd rfl h
  · exact fun hx => Or.inl ⟨hx, h⟩

/-! ## What decides a key -/

/-- Only the events of a row's key decide whether the row is there. By induction on the
    history, for any two stores that agree on the row. -/
theorem mem_exec_filter (p : ι → Bool) (hp : ∀ i, f.key (f.row i) = f.key x → p i = true) :
    ∀ (l : List ι) {S S' : Set α}, (x ∈ S ↔ x ∈ S') →
      (x ∈ exec f.step S l ↔ x ∈ exec f.step S' (l.filter p)) := by
  intro l
  induction l with
  | nil =>
      intro S S' h
      exact h
  | cons i rest ih =>
      intro S S' h
      rw [exec_cons]
      by_cases hi : p i = true
      · rw [List.filter_cons_of_pos hi, exec_cons]
        refine ih ?_
        rw [mem_step, mem_step, h]
      · rw [List.filter_cons_of_neg hi]
        refine ih ?_
        rw [mem_step_of_ne fun hkey => hi (hp i hkey.symm)]
        exact h

/-- Histories with the same events per class end with the same rows of the class. -/
theorem mem_exec_congr {l l' : List ι} (p : ι → Bool)
    (hp : ∀ i, f.key (f.row i) = f.key x → p i = true) (h : l.filter p = l'.filter p) :
    x ∈ exec f.step S l ↔ x ∈ exec f.step S l' := by
  rw [mem_exec_filter p hp l Iff.rfl, mem_exec_filter p hp l' Iff.rfl, h]

/-- A row that is there was there before, or an event put it. -/
theorem mem_exec_cases : ∀ (l : List ι) {S : Set α}, x ∈ exec f.step S l →
    x ∈ S ∨ ∃ i ∈ l, f.drops i = false ∧ f.row i = x := by
  intro l
  induction l with
  | nil =>
      intro S h
      exact Or.inl h
  | cons i rest ih =>
      intro S h
      rcases ih h with hstep | ⟨j, hj, hput⟩
      · rcases mem_step.1 hstep with ⟨hx, _⟩ | ⟨hput, rfl⟩
        · exact Or.inl hx
        · exact Or.inr ⟨i, List.mem_cons_self, hput, rfl⟩
      · exact Or.inr ⟨j, List.mem_cons_of_mem _ hj, hput⟩

/-- A row whose key no event names stays. -/
theorem mem_exec_of_untouched : ∀ (l : List ι) {S : Set α}, x ∈ S →
    (∀ i ∈ l, f.key (f.row i) ≠ f.key x) → x ∈ exec f.step S l := by
  intro l
  induction l with
  | nil =>
      intro S hx _
      exact hx
  | cons i rest ih =>
      intro S hx h
      refine ih ?_ fun j hj => h j (List.mem_cons_of_mem _ hj)
      exact (mem_step_of_ne (h i List.mem_cons_self).symm).2 hx

/-- A history that only drops leaves the rows it does not name. -/
theorem mem_exec_drops : ∀ (l : List ι) {S : Set α}, (∀ i ∈ l, f.drops i = true) →
    (x ∈ exec f.step S l ↔ x ∈ S ∧ ∀ i ∈ l, f.key (f.row i) ≠ f.key x) := by
  intro l
  induction l with
  | nil =>
      intro S _
      simp
  | cons i rest ih =>
      intro S h
      have hput : ¬ f.drops i = false := by
        rw [h i List.mem_cons_self]
        exact fun hfalse => by cases hfalse
      rw [exec_cons, ih fun j hj => h j (List.mem_cons_of_mem _ hj), mem_step,
        or_iff_left fun hx => hput hx.1, List.forall_mem_cons, and_assoc, ne_comm]

/-- A key that is taken and never dropped stays taken. -/
theorem exists_key_exec {c : κ} : ∀ (l : List ι) {S : Set α}, (∃ x ∈ S, f.key x = c) →
    (∀ i ∈ l, f.key (f.row i) = c → f.drops i = false) → ∃ x ∈ exec f.step S l, f.key x = c := by
  intro l
  induction l with
  | nil =>
      intro S hx _
      exact hx
  | cons i rest ih =>
      intro S hx h
      refine ih ?_ fun j hj => h j (List.mem_cons_of_mem _ hj)
      obtain ⟨x, hx, rfl⟩ := hx
      by_cases hkey : f.key (f.row i) = f.key x
      · exact ⟨f.row i, Or.inr ⟨h i List.mem_cons_self hkey, rfl⟩, hkey⟩
      · exact ⟨x, (mem_step_of_ne fun hne => hkey hne.symm).2 hx, rfl⟩

/-- A key that is never put is free once it is free. -/
theorem not_mem_exec_of_free : ∀ (l : List ι) {S : Set α}, x ∉ S →
    (∀ i ∈ l, f.key (f.row i) = f.key x → f.drops i = true) → x ∉ exec f.step S l := by
  intro l S hx h hmem
  rcases mem_exec_cases l hmem with hin | ⟨i, hi, hput, rfl⟩
  · exact hx hin
  · rw [h i hi rfl] at hput
    cases hput

/-- At the end nothing is left of a doomed key. -/
theorem not_mem_exec_of_doomed (h : f.Doomed l (f.key x)) : x ∉ exec f.step S l := by
  obtain ⟨⟨i, hi, hkey⟩, hdrops⟩ := h
  obtain ⟨before, after, rfl⟩ := List.append_of_mem hi
  rw [exec_append, exec_cons]
  refine not_mem_exec_of_free after ?_ fun j hj =>
    hdrops j (List.mem_append_right _ (List.mem_cons_of_mem _ hj))
  rintro (⟨_, hne⟩ | ⟨hput, _⟩)
  · exact hne hkey.symm
  · rw [hdrops i hi hkey] at hput
    cases hput

/-- Where every drop names the row it finds, a doomed row is named by an event. -/
theorem exists_row_of_doomed {guard : Set α → ι → Prop}
    (hown : ∀ S i, guard S i → f.drops i = true → ∀ x ∈ S, f.key x = f.key (f.row i) → x = f.row i) :
    ∀ (l : List ι) {S : Set α}, Admitted f.step guard S l → x ∈ S → f.Doomed l (f.key x) →
      ∃ i ∈ l, f.row i = x := by
  intro l
  induction l with
  | nil =>
      rintro S _ _ ⟨⟨i, hi, _⟩, _⟩
      cases hi
  | cons i rest ih =>
      intro S hadmitted hx hdoomed
      by_cases hkey : f.key (f.row i) = f.key x
      · have hdrops := hdoomed.2 i List.mem_cons_self hkey
        exact ⟨i, List.mem_cons_self, (hown S i hadmitted.1 hdrops x hx hkey.symm).symm⟩
      · have hrest : f.Doomed rest (f.key x) := by
          obtain ⟨⟨j, hj, hjkey⟩, hdrops⟩ := hdoomed
          refine ⟨⟨j, ?_, hjkey⟩, fun j' hj' => hdrops j' (List.mem_cons_of_mem _ hj')⟩
          rcases List.mem_cons.1 hj with rfl | hj
          · exact absurd hjkey hkey
          · exact hj
        obtain ⟨j, hj, hrow⟩ := ih hadmitted.2 ((mem_step_of_ne fun h => hkey h.symm).2 hx) hrest
        exact ⟨j, List.mem_cons_of_mem _ hj, hrow⟩

/-- One row per key, at every point of a history. -/
theorem injOn_exec (h : Set.InjOn f.key S) (l : List ι) :
    Set.InjOn f.key (exec f.step S l) := by
  induction l generalizing S with
  | nil => exact h
  | cons i rest ih =>
      refine ih ?_
      rintro x (⟨hx, hxi⟩ | ⟨_, rfl⟩) y (⟨hy, hyi⟩ | ⟨_, rfl⟩) hkey
      · exact h hx hy hkey
      · exact absurd hkey hxi
      · exact absurd hkey.symm hyi
      · rfl

/-! ## A copy that runs ahead -/

/-- The copy `T` has the rows of `S`, except rows of doomed keys that it lost. -/
structure Ahead (f : Feed ι α κ) (l : List ι) (T S : Set α) : Prop where
  sub : T ⊆ S
  kept : ∀ x ∈ S, x ∈ T ∨ f.Doomed l (f.key x)

variable {T T' : Set α}

theorem Ahead.refl (l : List ι) (S : Set α) : Ahead f l S S := ⟨subset_rfl, fun _ hx => Or.inl hx⟩

/-- Outside the doomed keys the copy is exact. -/
theorem Ahead.mem_iff (h : Ahead f l T S) (hx : ¬ f.Doomed l (f.key x)) : x ∈ T ↔ x ∈ S :=
  ⟨fun hT => h.sub hT, fun hS => (h.kept x hS).resolve_right hx⟩

/-- A copy that does what the event says is as far ahead as before. -/
theorem Ahead.step (h : Ahead f l T S) (i : ι) : Ahead f l (f.step T i) (f.step S i) where
  sub := by
    rintro x (⟨hx, hne⟩ | hput)
    · exact Or.inl ⟨h.sub hx, hne⟩
    · exact Or.inr hput
  kept := by
    rintro x (⟨hx, hne⟩ | hput)
    · exact (h.kept x hx).imp (fun hT => Or.inl ⟨hT, hne⟩) id
    · exact Or.inl (Or.inr hput)

/-- The copy may lose more rows of doomed keys. -/
theorem Ahead.lose (h : Ahead f l T S) (hsub : T' ⊆ T)
    (hkept : ∀ x ∈ T, x ∈ T' ∨ f.Doomed l (f.key x)) : Ahead f l T' S where
  sub := hsub.trans h.sub
  kept x hx := (h.kept x hx).elim (hkept x) Or.inr

/-- At the end of the history the copy is exact. -/
theorem Ahead.eq_exec (h : Ahead f l T (exec f.step S l)) : T = exec f.step S l := by
  refine h.sub.antisymm fun x hx => ?_
  exact (h.kept x hx).resolve_right fun hdoomed => not_mem_exec_of_doomed hdoomed hx

end Feed

end Histories
