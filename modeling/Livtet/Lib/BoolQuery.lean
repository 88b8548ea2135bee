import Mathlib.Data.List.Basic

/-! # Boolean query trees — clauses with occurrences

    A query tree has leaves and clauses. Each child of a clause carries an
    occurrence: it must match, must not match, or should match. A document
    matches a clause when every `must` child matches, no `mustNot` child does,
    and, where nothing must match, some `should` child does. So a clause that
    only excludes matches nothing: there is nothing to exclude from. -/

namespace BoolQuery

inductive Occur
  | should
  | must
  | mustNot
deriving DecidableEq, Repr

/-- A query over leaves `L`. A child without an occurrence takes the default one; the
    factor of a boost does not decide a match and is left out. -/
inductive Query (L : Type*)
  | clause (children : List (Option Occur × Query L))
  | boost (inner : Query L)
  | leaf (l : L)

variable {L : Type*}

/-- A child does not rule the document out. -/
def allows : Occur × Bool → Bool
  | (.should, _) => true
  | (.must, matched) => matched
  | (.mustNot, matched) => !matched

/-- A child lets the document in. -/
def admits : Occur × Bool → Bool
  | (.should, matched) => matched
  | (.must, _) => true
  | (.mustNot, _) => false

/-- The verdict of a clause on the outcomes of its children. -/
def verdict (outcomes : List (Occur × Bool)) : Bool := outcomes.all allows && outcomes.any admits

section Matching

variable (default : Occur) (holds : L → Bool)

mutual

/-- Whether a document matches a query, given the leaves it satisfies. -/
def isMatch : Query L → Bool
  | .clause children => verdict (outcomes children)
  | .boost inner => isMatch inner
  | .leaf l => holds l

def outcomes : List (Option Occur × Query L) → List (Occur × Bool)
  | [] => []
  | (occur, child) :: rest => (occur.getD default, isMatch child) :: outcomes rest

end

/-- The children of a conjunction, a disjunction or an exclusion. -/
def withOccur (occur : Occur) (children : List (Query L)) : Query L :=
  .clause (children.map fun c => (some occur, c))

theorem outcomes_withOccur (occur : Occur) (children : List (Query L)) :
    outcomes default holds (children.map fun c => (some occur, c)) =
      children.map fun c => (occur, isMatch default holds c) := by
  induction children with
  | nil => rw [List.map_nil, outcomes, List.map_nil]
  | cons c rest ih => rw [List.map_cons, outcomes, ih, List.map_cons, Option.getD_some]

/-- A conjunction with a child matches what all its children match. -/
theorem isMatch_must {children : List (Query L)} (hne : children ≠ []) :
    isMatch default holds (withOccur .must children) =
      children.all (isMatch default holds) := by
  rw [withOccur, isMatch, outcomes_withOccur]
  cases children with
  | nil => exact absurd rfl hne
  | cons c rest => simp [verdict, allows, admits, Function.comp_def]

/-- A disjunction matches what some child matches. -/
theorem isMatch_should (children : List (Query L)) :
    isMatch default holds (withOccur .should children) =
      children.any (isMatch default holds) := by
  rw [withOccur, isMatch, outcomes_withOccur]
  simp [verdict, allows, admits, Function.comp_def]

/-- An exclusion alone matches nothing. -/
theorem isMatch_mustNot (children : List (Query L)) :
    isMatch default holds (withOccur .mustNot children) = false := by
  rw [withOccur, isMatch, outcomes_withOccur]
  simp [verdict, allows, admits, Function.comp_def]

end Matching

end BoolQuery
