/-! # Delimited texts

    A text is read up to the character that closes it. Which one that is depends on what was
    read before: a state follows the characters, and the first that it cannot follow closes. -/

namespace Delimited

variable {σ α : Type} {next : σ → α → Option σ}

/-- The state behind a text, if no character of it closes. -/
def run (next : σ → α → Option σ) : σ → List α → Option σ
  | st, [] => some st
  | st, c :: s => (next st c).bind fun st' => run next st' s

/-- What is before the character that closes, and what is behind it. -/
def upTo (next : σ → α → Option σ) : σ → List α → Option (List α × List α)
  | _, [] => none
  | st, c :: s =>
      match next st c with
      | none => some ([], s)
      | some st' => (upTo next st' s).map fun p => (c :: p.1, p.2)

theorem run_append (st : σ) (a b : List α) :
    run next st (a ++ b) = (run next st a).bind fun st' => run next st' b := by
  induction a generalizing st with
  | nil => rfl
  | cons c a ih =>
      rw [List.cons_append, run, run]
      cases next st c with
      | none => rfl
      | some st' => exact ih st'

theorem upTo_append {st st' : σ} {v : List α} {c : α} (hrun : run next st v = some st')
    (hclose : next st' c = none) (rest : List α) :
    upTo next st (v ++ c :: rest) = some (v, rest) := by
  induction v generalizing st with
  | nil =>
      cases hrun
      rw [List.nil_append, upTo, hclose]
  | cons d v ih =>
      obtain ⟨mid, hmid, hrest⟩ := Option.bind_eq_some_iff.1 hrun
      rw [List.cons_append, upTo, hmid]
      show (upTo next mid (v ++ c :: rest)).map _ = _
      rw [ih hrest]
      rfl

theorem upTo_eq_some {st : σ} {s v rest : List α} (h : upTo next st s = some (v, rest)) :
    ∃ c st', s = v ++ c :: rest ∧ run next st v = some st' ∧ next st' c = none := by
  induction s generalizing st v with
  | nil => cases h
  | cons d s ih =>
      rw [upTo] at h
      split at h
      · rename_i hclose
        cases h
        exact ⟨d, st, rfl, rfl, hclose⟩
      · rename_i mid hmid
        obtain ⟨p, hp, heq⟩ := Option.map_eq_some_iff.1 h
        cases heq
        obtain ⟨c, st', hs, hrun, hclose⟩ := ih hp
        exact ⟨c, st', by rw [hs]; rfl, by rw [run, hmid]; exact hrun, hclose⟩

end Delimited
