import Mathlib.Data.List.Basic

/-! # Runs of a step function — the invariant rule

    A system is a state type, an action type and a total step function (an
    action that is refused leaves the state as it is). A run is a list of
    actions. A guard says which actions meet a condition in which states;
    `Admitted` asks it of every step of a run, in the state the step is
    taken from. The one rule every safety argument needs: what the admitted
    steps preserve, the admitted runs preserve. -/

namespace Runs

variable {σ ι : Type*}

/-- The state a run ends in. -/
def exec (step : σ → ι → σ) (s : σ) (run : List ι) : σ :=
  run.foldl step s

/-- Every step of the run meets the guard, in the state it is taken from. -/
def Admitted (step : σ → ι → σ) (guard : σ → ι → Prop) : σ → List ι → Prop
  | _, [] => True
  | s, a :: rest => guard s a ∧ Admitted step guard (step s a) rest

@[simp] theorem exec_nil (step : σ → ι → σ) (s : σ) : exec step s [] = s := rfl

@[simp] theorem exec_cons (step : σ → ι → σ) (s : σ) (a : ι) (rest : List ι) :
    exec step s (a :: rest) = exec step (step s a) rest := rfl

theorem exec_append (step : σ → ι → σ) (s : σ) (xs ys : List ι) :
    exec step s (xs ++ ys) = exec step (exec step s xs) ys := by
  simp [exec, List.foldl_append]

/-- Two systems that take the same actions, side by side. -/
theorem exec_prod {τ : Type*} (step : σ → ι → σ) (step' : τ → ι → τ) (run : List ι) :
    ∀ (s : σ) (t : τ), exec (fun p a => (step p.1 a, step' p.2 a)) (s, t) run =
      (exec step s run, exec step' t run) := by
  induction run with
  | nil => exact fun _ _ => rfl
  | cons a rest ih => exact fun s t => ih (step s a) (step' t a)

/-- A prefix of an admitted run is admitted. -/
theorem Admitted.of_append {step : σ → ι → σ} {guard : σ → ι → Prop} :
    ∀ {s : σ} (xs ys : List ι), Admitted step guard s (xs ++ ys) →
      Admitted step guard s xs := by
  intro s xs
  induction xs generalizing s with
  | nil =>
      intro ys _
      exact trivial
  | cons a rest ih =>
      intro ys h
      exact ⟨h.1, ih ys h.2⟩

/-- What follows a prefix is admitted from where the prefix ends. -/
theorem Admitted.drop {step : σ → ι → σ} {guard : σ → ι → Prop} :
    ∀ {s : σ} (xs ys : List ι), Admitted step guard s (xs ++ ys) →
      Admitted step guard (exec step s xs) ys := by
  intro s xs
  induction xs generalizing s with
  | nil =>
      intro ys h
      exact h
  | cons a rest ih =>
      intro ys h
      exact ih ys h.2

/-- Two admitted runs, one after the other. -/
theorem Admitted.append {step : σ → ι → σ} {guard : σ → ι → Prop} :
    ∀ {s : σ} (xs : List ι) {ys : List ι}, Admitted step guard s xs →
      Admitted step guard (exec step s xs) ys → Admitted step guard s (xs ++ ys) := by
  intro s xs
  induction xs generalizing s with
  | nil =>
      intro ys _ h
      exact h
  | cons a rest ih =>
      intro ys hxs hys
      exact ⟨hxs.1, ih hxs.2 hys⟩

/-- A run that meets two guards meets both at each step. -/
theorem Admitted.and {step : σ → ι → σ} {guard guard' : σ → ι → Prop} :
    ∀ {s : σ} {run : List ι}, Admitted step guard s run → Admitted step guard' s run →
      Admitted step (fun s a => guard s a ∧ guard' s a) s run := by
  intro s run
  induction run generalizing s with
  | nil => exact fun _ _ => trivial
  | cons a rest ih => exact fun h h' => ⟨⟨h.1, h'.1⟩, ih h.2 h'.2⟩

/-- **THE INVARIANT RULE.** -/
theorem invariant {step : σ → ι → σ} {guard : σ → ι → Prop} {inv : σ → Prop}
    (hstep : ∀ s a, inv s → guard s a → inv (step s a)) :
    ∀ {s : σ} (run : List ι), inv s → Admitted step guard s run →
      inv (exec step s run) := by
  intro s run
  induction run generalizing s with
  | nil =>
      intro hs _
      exact hs
  | cons a rest ih =>
      intro hs h
      exact ih (hstep s a hs h.1) h.2

/-- What every step preserves, every run preserves. -/
theorem preserved {step : σ → ι → σ} {inv : σ → Prop} (hstep : ∀ s a, inv s → inv (step s a)) :
    ∀ {s : σ} (run : List ι), inv s → inv (exec step s run) := by
  intro s run
  induction run generalizing s with
  | nil => exact id
  | cons a rest ih => exact fun hs => ih (hstep s a hs)

/-- Where a step keeps the property exactly if it meets the guard, a run keeps it
    throughout exactly if it is admitted. -/
theorem always_iff_admitted {step : σ → ι → σ} {guard : σ → ι → Prop} {inv : σ → Prop}
    (hstep : ∀ s a, inv s → (inv (step s a) ↔ guard s a)) :
    ∀ {s : σ} (run : List ι), inv s →
      ((∀ pre, pre <+: run → inv (exec step s pre)) ↔ Admitted step guard s run) := by
  intro s run
  induction run generalizing s with
  | nil =>
      intro hs
      refine ⟨fun _ => trivial, fun _ pre hpre => ?_⟩
      cases List.prefix_nil.1 hpre
      exact hs
  | cons a rest ih =>
      intro hs
      constructor
      · intro h
        have hnext : inv (step s a) := h [a] ⟨rest, rfl⟩
        refine ⟨(hstep s a hs).1 hnext, (ih hnext).1 fun pre hpre => ?_⟩
        exact h (a :: pre) (List.cons_prefix_cons.2 ⟨rfl, hpre⟩)
      · rintro ⟨hguard, hrest⟩ pre hpre
        have hnext := (hstep s a hs).2 hguard
        cases pre with
        | nil => exact hs
        | cons b pre =>
            obtain ⟨rfl, htail⟩ := List.cons_prefix_cons.1 hpre
            exact (ih hnext).2 hrest pre htail

/-- What can be seen of the states of a run is right throughout exactly if the run is
    admitted, where a step from a good state is seen to be right exactly if it meets the
    guard, and leads to a good state if it does. -/
theorem observed_iff_admitted {step : σ → ι → σ} {guard : σ → ι → Prop} {inv seen : σ → Prop}
    (hseen : ∀ s, inv s → seen s) (hguard : ∀ s a, inv s → seen (step s a) → guard s a)
    (hstep : ∀ s a, inv s → guard s a → inv (step s a)) :
    ∀ {s : σ} (run : List ι), inv s →
      ((∀ pre, pre <+: run → seen (exec step s pre)) ↔ Admitted step guard s run) := by
  intro s run
  induction run generalizing s with
  | nil =>
      intro hs
      refine ⟨fun _ => trivial, fun _ pre hpre => ?_⟩
      cases List.prefix_nil.1 hpre
      exact hseen s hs
  | cons a rest ih =>
      intro hs
      constructor
      · intro h
        have hmeets := hguard s a hs (h [a] ⟨rest, rfl⟩)
        refine ⟨hmeets, (ih (hstep s a hs hmeets)).1 fun pre hpre => ?_⟩
        exact h (a :: pre) (List.cons_prefix_cons.2 ⟨rfl, hpre⟩)
      · rintro ⟨hmeets, hrest⟩ pre hpre
        cases pre with
        | nil => exact hseen s hs
        | cons b pre =>
            obtain ⟨rfl, htail⟩ := List.cons_prefix_cons.1 hpre
            exact (ih (hstep s _ hs hmeets)).2 hrest pre htail

/-- Two systems in step: a guard of one asks as much as the corresponding guard of the other. -/
theorem Admitted.simulate {τ : Type*} {step : σ → ι → σ} {step' : τ → ι → τ}
    {guard : σ → ι → Prop} {guard' : τ → ι → Prop} {rel : σ → τ → Prop}
    (hguard : ∀ s t a, rel s t → (guard s a ↔ guard' t a))
    (hstep : ∀ s t a, rel s t → rel (step s a) (step' t a)) :
    ∀ {s : σ} {t : τ} (run : List ι), rel s t →
      (Admitted step guard s run ↔ Admitted step' guard' t run) := by
  intro s t run
  induction run generalizing s t with
  | nil => exact fun _ => Iff.rfl
  | cons a rest ih => exact fun h => and_congr (hguard s t a h) (ih (hstep s t a h))

/-- A system that is refined: as long as its steps are admitted, the two stay related. -/
theorem exec_related {τ : Type*} {step : σ → ι → σ} {step' : τ → ι → τ} {guard : σ → ι → Prop}
    {rel : σ → τ → Prop} (hstep : ∀ s t a, rel s t → guard s a → rel (step s a) (step' t a)) :
    ∀ {s : σ} {t : τ} (run : List ι), rel s t → Admitted step guard s run →
      rel (exec step s run) (exec step' t run) := by
  intro s t run
  induction run generalizing s t with
  | nil => exact fun h _ => h
  | cons a rest ih => exact fun h hrun => ih (hstep s t a h hrun.1) hrun.2

/-- A guard that asks for more, in the states that a run can be in. -/
theorem Admitted.imp {step : σ → ι → σ} {guard guard' : σ → ι → Prop} {inv : σ → Prop}
    (hinv : ∀ s a, inv s → guard s a → inv (step s a))
    (h : ∀ s a, inv s → guard s a → guard' s a) :
    ∀ {s : σ} (run : List ι), inv s → Admitted step guard s run → Admitted step guard' s run := by
  intro s run
  induction run generalizing s with
  | nil => exact fun _ _ => trivial
  | cons a rest ih =>
      exact fun hs hrun => ⟨h s a hs hrun.1, ih (hinv s a hs hrun.1) hrun.2⟩

/-- The same guard in other words. -/
theorem Admitted.congr {step : σ → ι → σ} {guard guard' : σ → ι → Prop}
    (h : ∀ s a, guard s a ↔ guard' s a) :
    ∀ {s : σ} (run : List ι), Admitted step guard s run ↔ Admitted step guard' s run := by
  intro s run
  induction run generalizing s with
  | nil => exact Iff.rfl
  | cons a rest ih => exact and_congr (h s a) ih

/-- Of a run whose steps are all allowed, a guard on the allowed ones asks as much. -/
theorem Admitted.imp_iff {step : σ → ι → σ} {allowed guard : σ → ι → Prop} :
    ∀ {s : σ} {run : List ι}, Admitted step allowed s run →
      (Admitted step (fun s a => allowed s a → guard s a) s run ↔ Admitted step guard s run) := by
  intro s run
  induction run generalizing s with
  | nil => exact fun _ => Iff.rfl
  | cons a rest ih => exact fun h => and_congr (imp_iff_right h.1) (ih h.2)

/-- A preorder holds between any two states of a run, in their order, exactly if every
    step respects it. -/
theorem monotone_iff_admitted {step : σ → ι → σ} {rel : σ → σ → Prop} (hrefl : ∀ s, rel s s)
    (htrans : ∀ s t u, rel s t → rel t u → rel s u) :
    ∀ {s : σ} (run : List ι),
      (∀ pre mid, pre <+: mid → mid <+: run → rel (exec step s pre) (exec step s mid)) ↔
        Admitted step (fun s a => rel s (step s a)) s run := by
  intro s run
  induction run generalizing s with
  | nil =>
      refine ⟨fun _ => trivial, fun _ pre mid hpre hmid => ?_⟩
      cases List.prefix_nil.1 hmid
      cases List.prefix_nil.1 hpre
      exact hrefl s
  | cons a rest ih =>
      constructor
      · intro h
        refine ⟨h [] [a] List.nil_prefix ⟨rest, rfl⟩, ih.1 fun pre mid hpre hmid => ?_⟩
        exact h (a :: pre) (a :: mid) (List.cons_prefix_cons.2 ⟨rfl, hpre⟩)
          (List.cons_prefix_cons.2 ⟨rfl, hmid⟩)
      · rintro ⟨hfirst, hrest⟩ pre mid hpre hmid
        have hlater := ih.2 hrest
        cases mid with
        | nil =>
            cases List.prefix_nil.1 hpre
            exact hrefl s
        | cons b mid =>
            obtain ⟨rfl, hmid'⟩ := List.cons_prefix_cons.1 hmid
            cases pre with
            | nil => exact htrans _ _ _ hfirst (hlater [] mid List.nil_prefix hmid')
            | cons c pre =>
                obtain ⟨rfl, hpre'⟩ := List.cons_prefix_cons.1 hpre
                exact hlater pre mid hpre' hmid'

end Runs
