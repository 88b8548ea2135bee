import Mathlib.Data.List.Sort
import Livtet.Filters
import Livtet.Lib.TimedCache

/-! # The label cache

    Labels are kept for a while under a key that is made of the bytes of all ids, sorted.
    Sorting them makes the order of the ids irrelevant, but it also makes ids irrelevant:
    two lists have one key exactly if the bytes of the one are those of the other in some
    order (`key_eq_iff`), and the bytes of an id may be those of another.

    A call is answered as an uncached lookup would be exactly if the labels that are kept
    under its key were read for ids with the same labels (`transparent_iff`). That is so
    where calls with one key are calls with the same ids (`transparent_of_sameIds`). -/

namespace LabelCache

open SyncPairing Maps Reindex Library Filters TimedCache

/-- The ids of a call. -/
structure Ids where
  formatIds : List DbId
  languageIds : List DbId

def Ids.key (ids : Ids) : List UInt8 × List UInt8 :=
  (hashIds ids.formatIds, hashIds ids.languageIds)

/-- An uncached lookup. -/
def Ids.labels (db : Db) (ids : Ids) : Labels := readLabels db ids.formatIds ids.languageIds

/-- A call with the time it looks its ids up, and the time it enters their labels. -/
abbrev Call := Request Ids

/-- `resolve`, which looks at the clock twice. -/
def resolveAt (db : Db) (resolver : LabelResolver) (call : Call) : Labels × LabelResolver :=
  match resolver.cached call.lookedUp call.what.formatIds call.what.languageIds with
  | some labels => (labels, resolver)
  | none =>
      let labels := call.what.labels db
      (labels, { resolver with
        cache := resolver.cache.insert call.what.key (labels, call.entered) })

/-- At one time it is the call of the filters. -/
theorem resolveAt_same (db : Db) (resolver : LabelResolver) (now : Nat) (ids : Ids) :
    resolveAt db resolver ⟨ids, now, now⟩ =
      resolver.resolve now db ids.formatIds ids.languageIds := rfl

def withTtl (ttl : Nat) : LabelResolver := { LabelResolver.new with ttl }

/-! ## Transparent -/

/-- The same labels, in whatever order and number. -/
structure SameLabels (a b : Labels) : Prop where
  formats : ∀ label, label ∈ a.formats ↔ label ∈ b.formats
  languages : ∀ label, label ∈ a.languages ↔ label ∈ b.languages

theorem SameLabels.refl (a : Labels) : SameLabels a a := ⟨fun _ => Iff.rfl, fun _ => Iff.rfl⟩

section Calls

variable (db : Db) (ttl : Nat)

/-- Each call returns the labels of an uncached lookup of its own ids. -/
def Transparent (calls : List Call) : Prop :=
  Runs.Admitted (fun resolver call => (resolveAt db resolver call).2)
    (fun resolver call => SameLabels (resolveAt db resolver call).1 (call.what.labels db))
    (withTtl ttl) calls

/-- The labels that are kept for the call, while they are young, were read for ids that have
    the same labels. -/
def KeptAlike (stored : Stored Ids) (call : Call) : Prop :=
  ∀ earlier ∈ answeredFor ttl Ids.key stored call,
    SameLabels (earlier.what.labels db) (call.what.labels db)

variable {db ttl}

/-- The resolver is a cache of labels. -/
theorem transparent_iff_faithful (calls : List Call) :
    Transparent db ttl calls ↔ Faithful ttl Ids.key (Ids.labels db) SameLabels calls := by
  have hcached : ∀ (resolver : LabelResolver) (m : Map _ _) (call : Call),
      resolver.cache = m ∧ resolver.ttl = ttl →
        resolver.cached call.lookedUp call.what.formatIds call.what.languageIds =
          cached ttl m call.lookedUp call.what.key := by
    rintro resolver m call ⟨rfl, rfl⟩
    have hkey : (hashIds call.what.formatIds, hashIds call.what.languageIds) = call.what.key := rfl
    rw [LabelResolver.cached, cached, hkey]
    cases resolver.cache.lookup call.what.key with
    | none => rfl
    | some entry => simp only [isYoung, decide_eq_true_eq]
  have hguard : ∀ (resolver : LabelResolver) (m : Map _ _) (call : Call),
      resolver.cache = m ∧ resolver.ttl = ttl →
        (SameLabels (resolveAt db resolver call).1 (call.what.labels db) ↔
          SameLabels (request ttl Ids.key (Ids.labels db) m call).1 (call.what.labels db)) := by
    intro resolver m call h
    rw [resolveAt, request, hcached resolver m call h]
    cases cached ttl m call.lookedUp call.what.key with
    | none => exact Iff.rfl
    | some labels => exact Iff.rfl
  have hstep : ∀ (resolver : LabelResolver) (m : Map _ _) (call : Call),
      resolver.cache = m ∧ resolver.ttl = ttl →
        (resolveAt db resolver call).2.cache = TimedCache.step ttl Ids.key (Ids.labels db) m call ∧
          (resolveAt db resolver call).2.ttl = ttl := by
    intro resolver m call h
    rw [resolveAt, TimedCache.step, request, hcached resolver m call h]
    cases cached ttl m call.lookedUp call.what.key with
    | none => exact ⟨congrArg (AList.insert _ _) h.1, h.2⟩
    | some labels => exact h
  exact Runs.Admitted.simulate hguard hstep calls ⟨rfl, rfl⟩

/-- **THE LABEL CACHE IS TRANSPARENT** exactly if the labels that are kept under the key of a
    call were read for ids with the same labels. -/
theorem transparent_iff (db : Db) (ttl : Nat) (calls : List Call) :
    Transparent db ttl calls ↔ Runs.Admitted (store ttl Ids.key) (KeptAlike db ttl) [] calls :=
  (transparent_iff_faithful calls).trans (faithful_iff SameLabels.refl calls)

end Calls

/-! ## Keys -/

def bytesOf (ids : List DbId) : List UInt8 := ids.flatMap fun id => id.val

theorem pairwise_hashIds (ids : List DbId) : (hashIds ids).Pairwise fun a b => a ≤ b := by
  refine (List.pairwise_mergeSort ?_ ?_ (bytesOf ids)).imp of_decide_eq_true
  · intro a b c hab hbc
    exact decide_eq_true (UInt8.le_trans (of_decide_eq_true hab) (of_decide_eq_true hbc))
  · intro a b
    rw [Bool.or_eq_true]
    exact (UInt8.le_total a b).imp decide_eq_true decide_eq_true

/-- The same bytes, in some order. -/
theorem hashIds_eq_iff {ids ids' : List DbId} :
    hashIds ids = hashIds ids' ↔ (bytesOf ids).Perm (bytesOf ids') := by
  have hsorted : ∀ ids, (hashIds ids).Perm (bytesOf ids) := fun ids => List.mergeSort_perm ..
  constructor
  · intro h
    exact (hsorted ids).symm.trans ((List.Perm.of_eq h).trans (hsorted ids'))
  · intro h
    exact (((hsorted ids).trans h).trans (hsorted ids').symm).eq_of_pairwise
      (fun a b _ _ hab hba => UInt8.le_antisymm hab hba) (pairwise_hashIds ids)
      (pairwise_hashIds ids')

theorem key_eq_iff {ids ids' : Ids} : ids.key = ids'.key ↔
    (bytesOf ids.formatIds).Perm (bytesOf ids'.formatIds) ∧
      (bytesOf ids.languageIds).Perm (bytesOf ids'.languageIds) := by
  rw [Ids.key, Ids.key, Prod.mk.injEq, hashIds_eq_iff, hashIds_eq_iff]

/-- The names of ids are those of the same ids in another order. -/
theorem namesOf_congr {rows : List NamedRow} {ids ids' : List DbId}
    (h : ∀ id, id ∈ ids ↔ id ∈ ids') : namesOf rows ids = namesOf rows ids' := by
  have hempty : ids.isEmpty = ids'.isEmpty := by
    rw [Bool.eq_iff_iff, List.isEmpty_iff, List.isEmpty_iff, List.eq_nil_iff_forall_not_mem,
      List.eq_nil_iff_forall_not_mem]
    simp only [h]
  have hcontains : ∀ id, ids.contains id = ids'.contains id := by
    intro id
    rw [Bool.eq_iff_iff, List.contains_iff_mem, List.contains_iff_mem, h]
  simp only [namesOf, hempty, hcontains]

/-- The ids of two calls are the same. -/
structure SameIds (ids ids' : Ids) : Prop where
  formats : ∀ id, id ∈ ids.formatIds ↔ id ∈ ids'.formatIds
  languages : ∀ id, id ∈ ids.languageIds ↔ id ∈ ids'.languageIds

theorem SameIds.labels_eq {ids ids' : Ids} (h : SameIds ids ids') (db : Db) :
    ids.labels db = ids'.labels db := by
  rw [Ids.labels, Ids.labels, readLabels, readLabels, namesOf_congr h.formats,
    namesOf_congr h.languages]

/-- Where calls with one key are calls with the same ids, the cache is transparent. -/
theorem transparent_of_sameIds {db : Db} {ttl : Nat} {calls : List Call}
    (h : ∀ call ∈ calls, ∀ call' ∈ calls, call.what.key = call'.what.key →
      SameIds call.what call'.what) : Transparent db ttl calls := by
  refine (transparent_iff_faithful calls).2 (faithful_of_key SameLabels.refl ?_)
  intro call hcall call' hcall' hkey
  rw [(h call hcall call' hcall' hkey).labels_eq db]
  exact SameLabels.refl _

/-! ## Two ids with the same bytes -/

def firstId : DbId := ⟨1 :: 2 :: List.replicate 14 0, rfl⟩

def secondId : DbId := ⟨2 :: 1 :: List.replicate 14 0, rfl⟩

def twoFormats : Tables :=
  { oneEditionDb.tables with formats := [⟨firstId, "EPUB"⟩, ⟨secondId, "PDF"⟩] }

def twoFormatsDb : Db := ⟨twoFormats, by decide⟩

def firstOnly : Ids := ⟨[firstId], []⟩

def secondOnly : Ids := ⟨[secondId], []⟩

theorem key_firstOnly : firstOnly.key = secondOnly.key :=
  key_eq_iff.2 ⟨List.Perm.swap 2 1 _, .refl _⟩

/-- The second format, asked for a second after the first, has the first one's name. -/
theorem not_transparent_twoFormats :
    ¬ Transparent twoFormatsDb (60 * 10 ^ 9) [⟨firstOnly, 0, 0⟩, ⟨secondOnly, 10 ^ 9, 10 ^ 9⟩] := by
  rw [transparent_iff_faithful, faithful_iff SameLabels.refl]
  intro h
  have hanswered : answeredFor (60 * 10 ^ 9) Ids.key [⟨firstOnly, 0, 0⟩]
      ⟨secondOnly, 10 ^ 9, 10 ^ 9⟩ = some ⟨firstOnly, 0, 0⟩ := by
    have hnewest : newest Ids.key [⟨firstOnly, 0, 0⟩] secondOnly.key = some ⟨firstOnly, 0, 0⟩ :=
      List.find?_cons_of_pos (decide_eq_true key_firstOnly)
    rw [answeredFor, hnewest]
    rfl
  have hsame := h.2.1 _ hanswered
  have hlabel := (hsame.formats "EPUB").1 (by decide)
  revert hlabel
  decide

end LabelCache
