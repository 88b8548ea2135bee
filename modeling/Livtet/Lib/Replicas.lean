import Mathlib.Data.Int.Order.Basic
import Mathlib.Data.List.Basic

/-! # Replicas that copy each other's logs — when they hold the same contents

    A replica has contents, a partial map from entities to values, and a log of
    versioned entries, each of which sets an entity or (with no body) removes it.
    Its contents REFLECT the log when every entity holds what the newest entry of it
    says. An entry is COVERED by a log that has one of its entity at least as new.
    Two replicas that started alike, reflect their logs and cover each other's hold
    the same contents.

    What a reader of a log keeps is a cursor and the pages it has fetched. A cursor
    is SAFE while every entry up to it is covered, a page while every entry up to its
    end is covered or on the page. Entries that come back to the side they were
    copied from are covered there, so they may be logged below a cursor. -/

namespace Replicas

variable {E V : Type*}

/-- An entry of a log. -/
structure Entry (E V : Type*) where
  entity : E
  version : Int
  body : Option V

/-- Every entity holds what the newest entry of it says; the rest is as it was. -/
def Reflects (base content : E → Option V) (log : List (Entry E V)) : Prop :=
  ∀ e, ((∀ x ∈ log, x.entity ≠ e) ∧ content e = base e) ∨
    ∃ x ∈ log, x.entity = e ∧ content e = x.body ∧
      ∀ y ∈ log, y.entity = e → y.version ≤ x.version ∧ (y.version = x.version → y.body = x.body)

/-- The log has an entry of this entity that is newer, or says the same. -/
def Covered (log : List (Entry E V)) (x : Entry E V) : Prop :=
  ∃ y ∈ log, y.entity = x.entity ∧ x.version ≤ y.version ∧
    (y.version = x.version → y.body = x.body)

/-- No entry of the log is newer than `x`, or says otherwise at its version. -/
def Newest (log : List (Entry E V)) (x : Entry E V) : Prop :=
  ∀ y ∈ log, y.entity = x.entity → y.version ≤ x.version ∧ (y.version = x.version → y.body = x.body)

variable {base content : E → Option V} {log source target : List (Entry E V)} {x : Entry E V}

theorem reflects_nil (base : E → Option V) : Reflects base base [] := by
  intro e
  refine Or.inl ⟨?_, rfl⟩
  intro x hx
  cases hx

/-- Logging the newest entry of an entity and writing what it says. -/
theorem Reflects.append {content' : E → Option V} (h : Reflects base content log)
    (hnew : Newest log x) (hset : content' x.entity = x.body)
    (hrest : ∀ e, e ≠ x.entity → content' e = content e) :
    Reflects base content' (log ++ [x]) := by
  intro e
  by_cases he : e = x.entity
  · subst he
    refine Or.inr ⟨x, List.mem_append_right _ List.mem_cons_self, rfl, hset, ?_⟩
    intro y hy hentity
    rcases List.mem_append.1 hy with hy | hy
    · exact hnew y hy hentity
    · cases List.mem_singleton.1 hy
      exact ⟨le_refl _, fun _ => rfl⟩
  · rcases h e with ⟨hnone, hbase⟩ | ⟨y, hy, hentity, hcontent, hmax⟩
    · refine Or.inl ⟨?_, (hrest e he).trans hbase⟩
      intro y hy
      rcases List.mem_append.1 hy with hy | hy
      · exact hnone y hy
      · cases List.mem_singleton.1 hy
        exact Ne.symm he
    · refine Or.inr ⟨y, List.mem_append_left _ hy, hentity, (hrest e he).trans hcontent, ?_⟩
      intro z hz hz'
      rcases List.mem_append.1 hz with hz | hz
      · exact hmax z hz hz'
      · cases List.mem_singleton.1 hz
        exact absurd hz'.symm he

theorem Covered.of_mem (h : x ∈ log) : Covered log x :=
  ⟨x, h, rfl, le_refl _, fun _ => rfl⟩

theorem Covered.mono {log' : List (Entry E V)} (hsub : ∀ y ∈ log, y ∈ log') (h : Covered log x) :
    Covered log' x := by
  obtain ⟨y, hy, hrest⟩ := h
  exact ⟨y, hsub y hy, hrest⟩

/-- **CONVERGENCE.** Logs that cover each other name the same newest entries. -/
theorem converge {content' : E → Option V} {log' : List (Entry E V)}
    (h : Reflects base content log) (h' : Reflects base content' log')
    (hcover : ∀ x ∈ log, Covered log' x) (hcover' : ∀ x ∈ log', Covered log x) :
    content = content' := by
  funext e
  rcases h e with ⟨hnone, hbase⟩ | ⟨x, hx, rfl, hcontent, hmax⟩
  · rcases h' e with ⟨_, hbase'⟩ | ⟨x', hx', hentity', _⟩
    · exact hbase.trans hbase'.symm
    · obtain ⟨y, hy, hentity, _⟩ := hcover' x' hx'
      exact absurd (hentity.trans hentity') (hnone y hy)
  · obtain ⟨y', hy', hentity, hle, hbody⟩ := hcover x hx
    rcases h' x.entity with ⟨hnone', _⟩ | ⟨x', hx', hentity', hcontent', hmax'⟩
    · exact absurd hentity (hnone' y' hy')
    · -- the two newest entries have one version, and the covering entry has it too
      obtain ⟨y, hy, hyentity, hle', _⟩ := hcover' x' hx'
      have hle'' := (hmax y hy (hyentity.trans hentity')).1
      obtain ⟨hyx, hyx'⟩ := hmax' y' hy' hentity
      rw [hcontent, hcontent', ← hbody (by omega), hyx' (by omega)]

/-! ## Reading a log -/

/-- Every entry up to the cursor is covered by the reader. -/
def Safe (source target : List (Entry E V)) (cursor : Int) : Prop :=
  ∀ x ∈ source, x.version ≤ cursor → Covered target x

/-- Every entry up to the end of a page is covered by the reader or on the page, and
    the page holds nothing else. -/
structure Fits (source target page : List (Entry E V)) (last : Int) : Prop where
  listed : ∀ x ∈ page, x ∈ source
  covers : ∀ x ∈ source, x.version ≤ last → Covered target x ∨ x ∈ page

variable {page : List (Entry E V)} {cursor last : Int}

/-- A page of everything between the cursor and its end. -/
theorem Safe.fetch (h : Safe source target cursor) (hlisted : ∀ x ∈ page, x ∈ source)
    (hall : ∀ x ∈ source, cursor < x.version → x.version ≤ last → x ∈ page) :
    Fits source target page last where
  listed := hlisted
  covers x hx hle := by
    by_cases hcursor : x.version ≤ cursor
    · exact Or.inl (h x hx hcursor)
    · exact Or.inr (hall x hx (not_le.1 hcursor) hle)

/-- Applying a page makes its end a safe cursor. -/
theorem Fits.deliver {target' : List (Entry E V)} (h : Fits source target page last)
    (hsub : ∀ y ∈ target, y ∈ target') (hpage : ∀ y ∈ page, y ∈ target') :
    Safe source target' last := by
  intro x hx hle
  rcases h.covers x hx hle with hcovered | hmem
  · exact hcovered.mono hsub
  · exact Covered.of_mem (hpage x hmem)

section Growth

variable {source' target' : List (Entry E V)}

theorem Safe.grow (h : Safe source target cursor) (hsub : ∀ y ∈ target, y ∈ target')
    (hnew : ∀ x ∈ source', x ∈ source ∨ cursor < x.version ∨ Covered target' x) :
    Safe source' target' cursor := by
  intro x hx hle
  rcases hnew x hx with hold | habove | hcovered
  · exact (h x hold hle).mono hsub
  · exact absurd hle (not_le.2 habove)
  · exact hcovered

theorem Fits.grow (h : Fits source target page last) (hsource : ∀ x ∈ source, x ∈ source')
    (hsub : ∀ y ∈ target, y ∈ target')
    (hnew : ∀ x ∈ source', x ∈ source ∨ last < x.version ∨ Covered target' x) :
    Fits source' target' page last where
  listed x hx := hsource x (h.listed x hx)
  covers x hx hle := by
    rcases hnew x hx with hold | habove | hcovered
    · rcases h.covers x hold hle with hcovered | hmem
      · exact Or.inl (hcovered.mono hsub)
      · exact Or.inr hmem
    · exact absurd hle (not_le.2 habove)
    · exact Or.inl hcovered

end Growth

end Replicas
