import Mathlib.Data.List.Forall2

/-! # Computations that may fail

    Inversion for sequencing in `Except`, what a map that stops at the first error
    does, and the invariant rule for a fold that stops at the first error. -/

namespace Outcomes

variable {ε α β σ : Type}

theorem bind_eq_ok {x : Except ε α} {f : α → Except ε β} {b : β} :
    (x >>= f) = .ok b ↔ ∃ a, x = .ok a ∧ f a = .ok b := by
  cases x with
  | error e =>
      constructor
      · intro h
        cases h
      · rintro ⟨a, ha, _⟩
        cases ha
  | ok a =>
      constructor
      · intro h
        exact ⟨a, rfl, h⟩
      · rintro ⟨a', ha, h⟩
        cases Except.ok.inj ha
        exact h

@[simp] theorem ok_bind (a : α) (f : α → Except ε β) : (Except.ok a >>= f) = f a := rfl

theorem bind_eq_of_ok {x : Except ε α} {f : α → Except ε β} {a : α} (h : x = .ok a) :
    (x >>= f) = f a := by
  rw [h, ok_bind]

@[simp] theorem error_bind (e : ε) (f : α → Except ε β) :
    ((Except.error e : Except ε α) >>= f) = .error e := rfl

theorem map_eq_ok {f : α → β} {x : Except ε α} {b : β} :
    x.map f = .ok b ↔ ∃ a, x = .ok a ∧ f a = b := by
  cases x with
  | error e =>
      constructor
      · intro h
        cases h
      · rintro ⟨a, ha, _⟩
        cases ha
  | ok a =>
      constructor
      · intro h
        exact ⟨a, rfl, Except.ok.inj h⟩
      · rintro ⟨a', ha, rfl⟩
        cases Except.ok.inj ha
        rfl

theorem mapError_eq_ok {δ : Type} {f : ε → δ} {x : Except ε α} {a : α} :
    x.mapError f = .ok a ↔ x = .ok a := by
  cases x with
  | error e => exact iff_of_false (by rintro ⟨⟩) (by rintro ⟨⟩)
  | ok b =>
      constructor
      · intro h
        exact congrArg _ (Except.ok.inj h)
      · intro h
        cases Except.ok.inj h
        rfl

/-- A computation that only dresses up another's result succeeds when that one does. -/
theorem exists_bind_pure_iff {x : Except ε α} {g : α → β} :
    (∃ b, (x >>= fun a => pure (g a)) = .ok b) ↔ ∃ a, x = .ok a := by
  constructor
  · rintro ⟨b, h⟩
    obtain ⟨a, ha, _⟩ := bind_eq_ok.1 h
    exact ⟨a, ha⟩
  · rintro ⟨a, ha⟩
    exact ⟨g a, bind_eq_ok.2 ⟨a, ha, rfl⟩⟩

theorem exists_ok_map_iff {f : α → β} {x : Except ε α} :
    (∃ b, f <$> x = .ok b) ↔ ∃ a, x = .ok a := by
  constructor
  · rintro ⟨b, hb⟩
    obtain ⟨a, ha, _⟩ := map_eq_ok.1 hb
    exact ⟨a, ha⟩
  · rintro ⟨a, ha⟩
    exact ⟨f a, map_eq_ok.2 ⟨a, ha, rfl⟩⟩

/-- A step that returns, whatever it returns, lets the rest go on alike. -/
theorem exists_ok_bind_iff {x : Except ε α} {f : α → Except ε β} {p : Prop}
    (h : ∀ a, x = .ok a → ((∃ b, f a = .ok b) ↔ p)) :
    (∃ b, (x >>= f) = .ok b) ↔ (∃ a, x = .ok a) ∧ p := by
  constructor
  · rintro ⟨b, hb⟩
    obtain ⟨a, ha, hb⟩ := bind_eq_ok.1 hb
    exact ⟨⟨a, ha⟩, (h a ha).1 ⟨b, hb⟩⟩
  · rintro ⟨⟨a, ha⟩, hp⟩
    obtain ⟨b, hb⟩ := (h a ha).2 hp
    exact ⟨b, bind_eq_ok.2 ⟨a, ha, hb⟩⟩

/-- A step after which nothing can fail. -/
theorem exists_ok_last_iff {x : Except ε α} {f : α → Except ε β}
    (h : ∀ a, x = .ok a → ∃ b, f a = .ok b) : (∃ b, (x >>= f) = .ok b) ↔ ∃ a, x = .ok a :=
  (exists_ok_bind_iff fun a ha => iff_of_true (h a ha) trivial).trans (and_iff_left trivial)

/-- A map succeeds with the list of its calls' results. -/
theorem mapM_eq_ok_iff {f : α → Except ε β} {xs : List α} {ys : List β} :
    xs.mapM f = .ok ys ↔ List.Forall₂ (fun x y => f x = .ok y) xs ys := by
  induction xs generalizing ys with
  | nil =>
      rw [List.mapM_nil, List.forall₂_nil_left_iff]
      exact ⟨fun h => (Except.ok.inj h).symm, fun h => by rw [h]; rfl⟩
  | cons x rest ih =>
      rw [List.mapM_cons, bind_eq_ok, List.forall₂_cons_left_iff]
      refine exists_congr fun y => ?_
      constructor
      · rintro ⟨hy, h⟩
        obtain ⟨ys', hys, h⟩ := bind_eq_ok.1 h
        exact ⟨ys', hy, ih.1 hys, (Except.ok.inj h).symm⟩
      · rintro ⟨ys', hy, hys, rfl⟩
        exact ⟨hy, bind_eq_ok.2 ⟨ys', ih.2 hys, rfl⟩⟩

/-- A map whose calls all succeed collects their results. -/
theorem mapM_eq_ok {f : α → Except ε β} {g : α → β} {xs : List α}
    (h : ∀ x ∈ xs, f x = .ok (g x)) : xs.mapM f = .ok (xs.map g) := by
  rw [mapM_eq_ok_iff, List.forall₂_map_right_iff, List.forall₂_same]
  exact h

theorem mapM_eq_some_iff {f : α → Option β} {xs : List α} {ys : List β} :
    xs.mapM f = some ys ↔ List.Forall₂ (fun x y => f x = some y) xs ys := by
  induction xs generalizing ys with
  | nil =>
      rw [List.mapM_nil, List.forall₂_nil_left_iff]
      exact ⟨fun h => (Option.some.inj h).symm, fun h => by rw [h]; rfl⟩
  | cons x rest ih =>
      rw [List.mapM_cons, Option.bind_eq_bind, Option.bind_eq_some_iff,
        List.forall₂_cons_left_iff]
      refine exists_congr fun y => ?_
      constructor
      · rintro ⟨hy, h⟩
        obtain ⟨ys', hys, h⟩ := Option.bind_eq_some_iff.1 h
        exact ⟨ys', hy, ih.1 hys, (Option.some.inj h).symm⟩
      · rintro ⟨ys', hy, hys, rfl⟩
        exact ⟨hy, Option.bind_eq_some_iff.2 ⟨ys', ih.2 hys, rfl⟩⟩

/-- The error of a map is that of one of its calls. -/
theorem error_of_mapM {f : α → Except ε β} {xs : List α} {e : ε} (h : xs.mapM f = .error e) :
    ∃ x ∈ xs, f x = .error e := by
  induction xs with
  | nil => cases h
  | cons x rest ih =>
      rw [List.mapM_cons] at h
      cases hx : f x with
      | error e' =>
          rw [hx] at h
          cases Except.error.inj h
          exact ⟨x, List.mem_cons_self, hx⟩
      | ok y =>
          rw [hx, ok_bind] at h
          cases hrest : rest.mapM f with
          | error e' =>
              rw [hrest] at h
              cases Except.error.inj h
              obtain ⟨z, hz, herror⟩ := ih hrest
              exact ⟨z, List.mem_cons_of_mem _ hz, herror⟩
          | ok ys =>
              rw [hrest] at h
              cases h

theorem mapM_eq_none_iff {f : α → Option β} {xs : List α} :
    xs.mapM f = none ↔ ∃ x ∈ xs, f x = none := by
  induction xs with
  | nil => simp
  | cons x rest ih =>
      rw [List.mapM_cons]
      cases hx : f x with
      | none => simp [hx]
      | some y =>
          cases hrest : rest.mapM f with
          | none =>
              obtain ⟨z, hz, hnone⟩ := ih.1 hrest
              exact iff_of_true rfl ⟨z, List.mem_cons_of_mem _ hz, hnone⟩
          | some ys =>
              refine iff_of_false (by rintro ⟨⟩) ?_
              rintro ⟨z, hz, hnone⟩
              rcases List.mem_cons.1 hz with rfl | hz
              · rw [hx] at hnone
                cases hnone
              · cases hrest.symm.trans (ih.2 ⟨z, hz, hnone⟩)

/-- In lists that are related element by element, each element on one side has its partner. -/
theorem exists_right_of_forall₂ {R : α → β → Prop} {xs : List α} {ys : List β}
    (h : List.Forall₂ R xs ys) : ∀ x ∈ xs, ∃ y ∈ ys, R x y := by
  induction h with
  | nil => exact fun _ hx => by cases hx
  | @cons x y xs ys hxy _ ih =>
      refine List.forall_mem_cons.2 ⟨⟨y, List.mem_cons_self, hxy⟩, fun z hz => ?_⟩
      obtain ⟨w, hw, hzw⟩ := ih z hz
      exact ⟨w, List.mem_cons_of_mem _ hw, hzw⟩

theorem exists_left_of_forall₂ {R : α → β → Prop} {xs : List α} {ys : List β}
    (h : List.Forall₂ R xs ys) : ∀ y ∈ ys, ∃ x ∈ xs, R x y :=
  exists_right_of_forall₂ (List.Forall₂.flip (show List.Forall₂ (flip (flip R)) xs ys from h))

/-- Every call of a map that succeeds has succeeded. -/
theorem ok_of_mapM_eq_ok {f : α → Except ε β} {xs : List α} {ys : List β}
    (h : xs.mapM f = .ok ys) : ∀ x ∈ xs, ∃ y, f x = .ok y := by
  intro x hx
  obtain ⟨y, _, hy⟩ := exists_right_of_forall₂ (mapM_eq_ok_iff.1 h) x hx
  exact ⟨y, hy⟩

theorem forM_eq_ok_iff {f : α → Except ε Unit} {xs : List α} :
    xs.forM f = .ok () ↔ ∀ x ∈ xs, f x = .ok () := by
  induction xs with
  | nil => exact iff_of_true rfl fun x hx => absurd hx List.not_mem_nil
  | cons x rest ih =>
      rw [List.forM_eq_forM, List.forM_cons, bind_eq_ok, List.forall_mem_cons, ← ih]
      exact ⟨fun h => h.choose_spec, fun h => ⟨(), h⟩⟩

/-- The error of a loop is that of one of its calls. -/
theorem error_of_forM {f : α → Except ε Unit} {xs : List α} {e : ε} (h : xs.forM f = .error e) :
    ∃ x ∈ xs, f x = .error e := by
  induction xs with
  | nil => cases h
  | cons x rest ih =>
      rw [List.forM_eq_forM, List.forM_cons] at h
      cases hx : f x with
      | error e' =>
          rw [hx] at h
          cases Except.error.inj h
          exact ⟨x, List.mem_cons_self, hx⟩
      | ok u =>
          rw [hx] at h
          obtain ⟨y, hy, herror⟩ := ih h
          exact ⟨y, List.mem_cons_of_mem _ hy, herror⟩

theorem foldlM_cons_eq_ok {f : σ → α → Except ε σ} {s s' : σ} {a : α} {rest : List α} :
    (a :: rest).foldlM f s = .ok s' ↔ ∃ t, f s a = .ok t ∧ rest.foldlM f t = .ok s' := by
  rw [List.foldlM_cons, bind_eq_ok]

/-- The error of a fold is that of one of its steps. -/
theorem error_of_foldlM {f : σ → α → Except ε σ} {xs : List α} {s : σ} {e : ε}
    (h : xs.foldlM f s = .error e) : ∃ t, ∃ x ∈ xs, f t x = .error e := by
  induction xs generalizing s with
  | nil => cases h
  | cons x rest ih =>
      rw [List.foldlM_cons] at h
      cases hx : f s x with
      | error e' =>
          rw [hx] at h
          cases Except.error.inj h
          exact ⟨s, x, List.mem_cons_self, hx⟩
      | ok t =>
          rw [hx] at h
          obtain ⟨u, y, hy, herror⟩ := ih h
          exact ⟨u, y, List.mem_cons_of_mem _ hy, herror⟩

/-- What every successful step preserves, a successful fold preserves. -/
theorem foldlM_invariant {f : σ → α → Except ε σ} (inv : σ → Prop) :
    ∀ {xs : List α} {s s' : σ},
      (∀ t a t', a ∈ xs → f t a = .ok t' → inv t → inv t') →
      xs.foldlM f s = .ok s' → inv s → inv s' := by
  intro xs
  induction xs with
  | nil =>
      intro s s' _ h hs
      cases Except.ok.inj h
      exact hs
  | cons a rest ih =>
      intro s s' hstep h hs
      obtain ⟨t, ht, hrest⟩ := foldlM_cons_eq_ok.1 h
      refine ih (fun u b u' hb => hstep u b u' (List.mem_cons_of_mem _ hb)) hrest ?_
      exact hstep s a t List.mem_cons_self ht hs

end Outcomes
