import Mathlib.Data.List.Basic

/-! # A document index and its writer

    An index holds documents that can be found and deleted by term. Its writer
    queues operations, and a commit publishes them in the order they were queued:
    a deletion takes every earlier document that holds the term, committed or
    queued. `holds t d` says that document `d` holds term `t`. -/

namespace DocIndex

variable {T D : Type*}

inductive Op (T D : Type*)
  | deleteTerm (term : T)
  | deleteAll
  | add (doc : D)

structure Writer (T D : Type*) where
  committed : List D
  pending : List (Op T D)

namespace Writer

def empty : Writer T D := ⟨[], []⟩

def deleteTerm (term : T) (w : Writer T D) : Writer T D :=
  { w with pending := w.pending ++ [.deleteTerm term] }

def deleteAllDocuments (w : Writer T D) : Writer T D :=
  { w with pending := w.pending ++ [.deleteAll] }

def addDocument (doc : D) (w : Writer T D) : Writer T D :=
  { w with pending := w.pending ++ [.add doc] }

def addDocuments (docs : List D) (w : Writer T D) : Writer T D :=
  docs.foldl (fun w d => w.addDocument d) w

variable (holds : T → D → Bool)

def applyOp (docs : List D) : Op T D → List D
  | .deleteTerm term => docs.filter fun d => !holds term d
  | .deleteAll => []
  | .add doc => docs ++ [doc]

def commit (w : Writer T D) : Writer T D where
  committed := w.pending.foldl (applyOp holds) w.committed
  pending := []

/-! ## What a commit publishes -/

variable {holds}

@[simp] theorem pending_commit (w : Writer T D) : (w.commit holds).pending = [] := rfl

theorem committed_commit_of_pending_nil {w : Writer T D} (h : w.pending = []) :
    (w.commit holds).committed = w.committed := by
  rw [commit, h]
  rfl

theorem committed_deleteTerm (term : T) (w : Writer T D) :
    ((w.deleteTerm term).commit holds).committed =
      (w.commit holds).committed.filter fun d => !holds term d := by
  simp only [commit, deleteTerm, List.foldl_append, List.foldl_cons, List.foldl_nil, applyOp]

theorem committed_deleteAllDocuments (w : Writer T D) :
    ((w.deleteAllDocuments).commit holds).committed = [] := by
  simp only [commit, deleteAllDocuments, List.foldl_append, List.foldl_cons, List.foldl_nil, applyOp]

theorem committed_addDocument (doc : D) (w : Writer T D) :
    ((w.addDocument doc).commit holds).committed = (w.commit holds).committed ++ [doc] := by
  simp only [commit, addDocument, List.foldl_append, List.foldl_cons, List.foldl_nil, applyOp]

theorem committed_addDocuments (docs : List D) :
    ∀ w : Writer T D, ((w.addDocuments docs).commit holds).committed =
      (w.commit holds).committed ++ docs := by
  induction docs with
  | nil =>
      intro w
      exact (List.append_nil _).symm
  | cons d rest ih =>
      intro w
      have hrest := ih (w.addDocument d)
      rw [committed_addDocument] at hrest
      rw [addDocuments, List.foldl_cons]
      exact hrest.trans (List.append_assoc _ [d] rest)

end Writer

end DocIndex
