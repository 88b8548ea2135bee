import Mathlib.Data.List.Basic

/-! # Unwinding — what can be seen of a machine, and what reaches its store

    A machine answers each action and moves to its next state. Part of the state is in
    view. Some steps are open: what they answer and what they do to the view depends on
    the view alone. The others are hidden: they leave the view as it is. Such a machine
    keeps what is hidden to itself, over every run: the answers to the open steps are
    those of the run without the hidden ones, whatever was out of view at the start.

    The other direction is about a part of the state that few steps write: after a run
    it is what the writes of the run, in their order, make of it. A fact that only some
    steps bring about holds since the start, or since one of them. And what steps take in
    and give back is accounted for, over every run, where each step accounts for it. -/

namespace Unwinding

variable {σ ι ο ν δ ω : Type*}

section Runs

variable (step : σ → ι → ο × σ)

/-- The state a run ends in. -/
def final (s : σ) (run : List ι) : σ := run.foldl (fun s a => (step s a).2) s

@[simp] theorem final_nil (s : σ) : final step s [] = s := rfl

@[simp] theorem final_cons (s : σ) (a : ι) (rest : List ι) :
    final step s (a :: rest) = final step (step s a).2 rest := rfl

theorem final_append (s : σ) (xs ys : List ι) :
    final step s (xs ++ ys) = final step (final step s xs) ys := by
  simp [final, List.foldl_append]

end Runs

/-! ## What is in view -/

section View

variable (step : σ → ι → ο × σ) (visible : σ → ι → Bool)

/-- The answers to the open steps of a run. -/
def observations : σ → List ι → List ο
  | _, [] => []
  | s, a :: rest =>
      if visible s a then (step s a).1 :: observations (step s a).2 rest
      else observations (step s a).2 rest

/-- A run without its hidden steps. -/
def purge : σ → List ι → List ι
  | _, [] => []
  | s, a :: rest =>
      if visible s a then a :: purge (step s a).2 rest else purge (step s a).2 rest

/-- The conditions on single steps. -/
structure Unwinds (view : σ → ν) : Prop where
  visible_eq : ∀ s t a, view s = view t → visible s a = visible t a
  hidden : ∀ s a, visible s a = false → view (step s a).2 = view s
  answer_eq : ∀ s t a, view s = view t → visible s a = true → (step s a).1 = (step t a).1
  view_eq : ∀ s t a, view s = view t → visible s a = true → view (step s a).2 = view (step t a).2

variable {step visible}

/-- **THE UNWINDING RULE.** -/
theorem Unwinds.observations_purge {view : σ → ν} (h : Unwinds step visible view) :
    ∀ (run : List ι) {s t : σ}, view s = view t →
      observations step visible s run = observations step visible t (purge step visible s run) ∧
      view (final step s run) = view (final step t (purge step visible s run)) := by
  intro run
  induction run with
  | nil => exact fun hview => ⟨rfl, hview⟩
  | cons a rest ih =>
      intro s t hview
      cases hvisible : visible s a with
      | false =>
          have hnext := ih ((h.hidden s a hvisible).trans hview)
          simpa only [observations, purge, hvisible, Bool.false_eq_true, if_false, final_cons]
            using hnext
      | true =>
          have hother : visible t a = true := (h.visible_eq s t a hview).symm.trans hvisible
          obtain ⟨hobs, hend⟩ := ih (h.view_eq s t a hview hvisible)
          simp only [observations, purge, hvisible, hother, if_true, final_cons]
          exact ⟨by rw [h.answer_eq s t a hview hvisible, hobs], hend⟩

end View

/-! ## What reaches the store -/

section Store

variable (step : σ → ι → ο × σ) (effect : σ → ι → Option ω)

/-- The writes of a run, in their order. -/
def effects : σ → List ι → List ω
  | _, [] => []
  | s, a :: rest => (effect s a).toList ++ effects (step s a).2 rest

variable {step effect}

/-- A store that changes by the writes of the steps is what the writes of the run make
    of it. -/
theorem store_eq_foldl {store : σ → δ} {apply : δ → ω → δ}
    (h : ∀ s a, store (step s a).2 = (effect s a).elim (store s) (apply (store s))) :
    ∀ (run : List ι) (s : σ),
      store (final step s run) = (effects step effect s run).foldl apply (store s) := by
  intro run
  induction run with
  | nil => exact fun _ => rfl
  | cons a rest ih =>
      intro s
      rw [final_cons, ih, h, effects, List.foldl_append]
      cases effect s a with
      | none => rfl
      | some w => rfl

/-- A write of the run is the write of one of its steps. -/
theorem mem_effects {w : ω} : ∀ (run : List ι) {s : σ},
    w ∈ effects step effect s run ↔
      ∃ pre a post, run = pre ++ a :: post ∧ effect (final step s pre) a = some w := by
  intro run
  induction run with
  | nil =>
      intro s
      refine ⟨fun h => (by cases h), ?_⟩
      rintro ⟨pre, a, post, hrun, _⟩
      exact absurd hrun (by simp)
  | cons a rest ih =>
      intro s
      rw [effects, List.mem_append, Option.mem_toList, ih]
      constructor
      · rintro (hfirst | ⟨pre, b, post, rfl, hlater⟩)
        · exact ⟨[], a, rest, rfl, hfirst⟩
        · exact ⟨a :: pre, b, post, rfl, hlater⟩
      · rintro ⟨pre, b, post, hrun, hw⟩
        cases pre with
        | nil =>
            obtain ⟨rfl, rfl⟩ := List.cons.inj hrun
            exact Or.inl hw
        | cons c pre =>
            obtain ⟨rfl, rfl⟩ := List.cons.inj hrun
            exact Or.inr ⟨pre, b, post, rfl, hw⟩

/-- One write of the run, with those before it and those after it. -/
theorem effects_eq_append_cons {w : ω} {before after : List ω} :
    ∀ (run : List ι) {s : σ}, effects step effect s run = before ++ w :: after →
      ∃ pre a post, run = pre ++ a :: post ∧ effects step effect s pre = before ∧
        effect (final step s pre) a = some w ∧
        effects step effect (step (final step s pre) a).2 post = after := by
  intro run
  induction run generalizing before with
  | nil => exact fun h => by simp [effects] at h
  | cons a rest ih =>
      intro s h
      rw [effects] at h
      cases heffect : effect s a with
      | none =>
          rw [heffect, Option.toList_none, List.nil_append] at h
          obtain ⟨pre, b, post, rfl, hpre, hb, hpost⟩ := ih h
          exact ⟨a :: pre, b, post, rfl, by rw [effects, heffect, hpre]; rfl, hb, hpost⟩
      | some v =>
          rw [heffect] at h
          cases before with
          | nil =>
              obtain ⟨rfl, hrest⟩ := List.cons.inj h
              exact ⟨[], a, rest, rfl, rfl, heffect, hrest⟩
          | cons b before =>
              obtain ⟨rfl, hrest⟩ := List.cons.inj h
              obtain ⟨pre, c, post, rfl, hpre, hc, hpost⟩ := ih hrest
              exact ⟨a :: pre, c, post, rfl, by rw [effects, heffect, hpre]; rfl, hc, hpost⟩

/-- What two kinds of writes have to do with each other at each step, they have to do with
    each other one after the other. -/
theorem forall₂_effects {ψ : Type*} {other : σ → ι → Option ψ} {rel : ω → ψ → Prop}
    (h : ∀ s a, Option.Rel rel (effect s a) (other s a)) :
    ∀ (run : List ι) (s : σ),
      List.Forall₂ rel (effects step effect s run) (effects step other s run) := by
  intro run
  induction run with
  | nil => exact fun _ => List.Forall₂.nil
  | cons a rest ih =>
      intro s
      have hrel := h s a
      rw [effects, effects]
      cases heffect : effect s a <;> cases hother : other s a <;> rw [heffect, hother] at hrel
      · exact ih _
      · cases hrel
      · cases hrel
      · cases hrel with
        | some hw => exact List.Forall₂.cons hw (ih _)

end Store

/-! ## Since when a fact holds -/

section Since

variable {step : σ → ι → ο × σ} {brings : σ → ι → Prop} {ends : ι → Prop}

/-- A fact that holds at the end of a run was brought by one of its steps, or holds from
    the start; no step since then was one to end it. -/
theorem since (holds : σ → Prop)
    (h : ∀ s a, holds (step s a).2 → brings s a ∨ holds s ∧ ¬ ends a) :
    ∀ (run : List ι) {s : σ}, holds (final step s run) →
      (holds s ∧ ∀ a ∈ run, ¬ ends a) ∨
      ∃ pre a post, run = pre ++ a :: post ∧ brings (final step s pre) a ∧ ∀ b ∈ post, ¬ ends b := by
  intro run
  induction run with
  | nil => exact fun hend => Or.inl ⟨hend, fun _ ha => (by cases ha)⟩
  | cons a rest ih =>
      intro s hend
      rcases ih hend with ⟨hnext, hkept⟩ | ⟨pre, b, post, rfl, hbrings, hkept⟩
      · rcases h s a hnext with hbrings | ⟨hs, ha⟩
        · exact Or.inr ⟨[], a, rest, rfl, hbrings, hkept⟩
        · exact Or.inl ⟨hs, List.forall_mem_cons.2 ⟨ha, hkept⟩⟩
      · exact Or.inr ⟨a :: pre, b, post, rfl, hbrings, hkept⟩

end Since

/-! ## What is taken in and given back -/

section Accounts

variable {step : σ → ι → ο × σ} {takes gives : σ → ι → Option ω} {holds : σ → List ω}

/-- A machine that keeps each thing it takes in until it gives it back has given back,
    and keeps, what it had and what it took in. -/
theorem perm_effects
    (h : ∀ s a, ((gives s a).toList ++ holds (step s a).2).Perm (holds s ++ (takes s a).toList)) :
    ∀ (run : List ι) (s : σ),
      (effects step gives s run ++ holds (final step s run)).Perm
        (holds s ++ effects step takes s run) := by
  intro run
  induction run with
  | nil => exact fun s => by simp [effects]
  | cons a rest ih =>
      intro s
      show ((gives s a).toList ++ effects step gives (step s a).2 rest ++
        holds (final step (step s a).2 rest)).Perm
          (holds s ++ ((takes s a).toList ++ effects step takes (step s a).2 rest))
      rw [List.append_assoc, ← List.append_assoc (holds s)]
      refine ((ih (step s a).2).append_left _).trans ?_
      rw [← List.append_assoc]
      exact (h s a).append_right _

end Accounts

end Unwinding
