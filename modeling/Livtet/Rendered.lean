import Mathlib.Data.List.Dedup
import Livtet.Composition

/-! # What a composition renders to

    A render that succeeds folds its children, lowered and substituted, into one query:
    a conjunction over the children, each wrapped in a disjunction of its own. The
    wrapping changes nothing, so the query asks for all the children.

    The depth that is bounded is that of the lowered tree. A filter counts one level
    there, and two where it is lowered to a clause: an id whose name is known, a field
    that has to be absent. So the bound is met later than the combinators alone say. -/

namespace SavedSearch

open BoolQuery Maps SyncStore SyncPairing Outcomes

/-! ## The steps of a render -/

section Steps

variable {DbErr : Type} {bindings : CompositionBindings} {clock : Clock} {env : Env}
  {grammar : Grammar} {lookup : ResourceLookup DbErr} {order : KeyVisit} {searches : SavedSearches}

/-- The children, lowered and substituted. -/
def Rendered (bindings : CompositionBindings) (clock : Clock) (env : Env) (grammar : Grammar)
    (lookup : ResourceLookup DbErr) (order : KeyVisit) (searches : SavedSearches)
    (asts : List UserInputAst) : Prop :=
  ∃ renderings, lowerAll env grammar lookup order searches = .ok renderings ∧
    renderings.mapM (substitutePlaceholders DbErr bindings clock) = some asts

theorem lowerAll_eq_ok_iff {renderings : List UserInputAst} :
    lowerAll env grammar lookup order searches = .ok renderings ↔
      searches.options.maxDepth ≠ 0 ∧
      checkReferences lookup order searches.references = .ok () ∧
      ∃ names, resolveNames lookup order searches.references = .ok names ∧
        (lowerChildren env grammar names searches : Except (CompositionError DbErr) _) =
          .ok renderings := by
  unfold lowerAll
  split
  · next hzero => exact iff_of_false (by rintro ⟨⟩) fun h => h.1 hzero
  · next hzero =>
      rw [bind_eq_ok]
      simp only [bind_eq_ok]
      constructor
      · rintro ⟨_, hcheck, hrest⟩
        exact ⟨hzero, hcheck, hrest⟩
      · rintro ⟨_, hcheck, hrest⟩
        exact ⟨(), hcheck, hrest⟩

/-- A child is lowered, and holds no raw query where none is allowed. -/
theorem lowerChildren_eq_ok_iff {names : NameMap} {renderings : List UserInputAst} :
    (lowerChildren env grammar names searches : Except (CompositionError DbErr) _) =
        .ok renderings ↔
      List.Forall₂ (fun child ast => intoAstWithNames env names grammar child.definition = .ok ast ∧
        (!searches.options.allowUserDefined && containsUserDefined child.definition) = false)
        searches.children renderings := by
  rw [lowerChildren, mapM_eq_ok_iff]
  constructor
  · intro h
    refine h.imp fun child ast hchild => ?_
    cases hast : intoAstWithNames env names grammar child.definition with
    | error e => simp [hast] at hchild
    | ok ast' =>
        cases hraw : !searches.options.allowUserDefined && containsUserDefined child.definition with
        | true => simp [hast, hraw] at hchild
        | false =>
            simp only [hast, hraw, Bool.false_eq_true, if_false] at hchild
            exact ⟨congrArg Except.ok (Except.ok.inj hchild), rfl⟩
  · intro h
    refine h.imp fun child ast hchild => ?_
    rw [hchild.1]
    simp only [hchild.2]
    rfl

/-- A composition with a child renders to a list with an element. -/
theorem rendered_ne_nil {asts : List UserInputAst} (hne : searches.children ≠ [])
    (h : Rendered bindings clock env grammar lookup order searches asts) : asts ≠ [] := by
  obtain ⟨renderings, hlower, hsub⟩ := h
  obtain ⟨_, _, names, _, hchildren⟩ := lowerAll_eq_ok_iff.1 hlower
  have hlengths : asts.length = searches.children.length := by
    rw [(lowerChildren_eq_ok_iff.1 hchildren).length_eq, (mapM_eq_some_iff.1 hsub).length_eq]
  intro hnil
  rw [hnil, List.length_nil] at hlengths
  exact hne (List.length_eq_zero_iff.1 hlengths.symm)

theorem rendered_unique {asts asts' : List UserInputAst}
    (h : Rendered bindings clock env grammar lookup order searches asts)
    (h' : Rendered bindings clock env grammar lookup order searches asts') : asts = asts' := by
  obtain ⟨renderings, hlower, hsub⟩ := h
  obtain ⟨renderings', hlower', hsub'⟩ := h'
  cases Except.ok.inj (hlower.symm.trans hlower')
  exact Option.some.inj (hsub.symm.trans hsub')

theorem render_of_error {e : CompositionError DbErr}
    (h : lowerAll env grammar lookup order searches = .error e) :
    render bindings clock env grammar lookup order searches = some (.error e) := by
  rw [render, h]

/-- A child too deep, or the conjunction of the children. -/
theorem render_of_rendered {asts : List UserInputAst}
    (h : Rendered bindings clock env grammar lookup order searches asts) :
    render bindings clock env grammar lookup order searches =
      some (match asts.find? fun ast => searches.options.maxDepth < nestingDepth ast with
        | some ast => .error (.recursionLimitExceeded (nestingDepth ast))
        | none => .ok (andClause (asts.map fun ast => orClause [ast]))) := by
  obtain ⟨renderings, hlower, hsub⟩ := h
  rw [render, hlower]
  exact congrArg (Option.map _) hsub

theorem render_eq_ok_iff {ast : UserInputAst} :
    render bindings clock env grammar lookup order searches = some (.ok ast) ↔
      ∃ asts, Rendered bindings clock env grammar lookup order searches asts ∧
        (∀ a ∈ asts, nestingDepth a ≤ searches.options.maxDepth) ∧
        ast = andClause (asts.map fun a => orClause [a]) := by
  constructor
  · intro h
    cases hlower : lowerAll env grammar lookup order searches with
    | error e =>
        rw [render_of_error hlower] at h
        cases Option.some.inj h
    | ok renderings =>
        cases hsub : renderings.mapM (substitutePlaceholders DbErr bindings clock) with
        | none =>
            rw [render, hlower] at h
            simp only [hsub, Option.map_none] at h
            cases h
        | some asts =>
            have hrendered : Rendered bindings clock env grammar lookup order searches asts :=
              ⟨renderings, hlower, hsub⟩
            rw [render_of_rendered hrendered] at h
            have h := Option.some.inj h
            split at h
            · cases h
            · next hnone =>
                refine ⟨asts, hrendered, fun a ha => ?_, (Except.ok.inj h).symm⟩
                have hdepth := List.find?_eq_none.1 hnone a ha
                simpa using hdepth
  · rintro ⟨asts, hrendered, hdepth, rfl⟩
    have hnone : (asts.find? fun a => searches.options.maxDepth < nestingDepth a) = none := by
      rw [List.find?_eq_none]
      intro a ha
      simpa using hdepth a ha
    rw [render_of_rendered hrendered, hnone]

end Steps

/-! ## The references of a composition -/

section References

variable {DbErr : Type} {lookup : ResourceLookup DbErr} {order : KeyVisit}
  {refs : List (ResourceKind × DbId)}

theorem mem_axes {kind : ResourceKind} : kind ∈ axes order refs ↔ ∃ id, (kind, id) ∈ refs := by
  rw [axes, (order.perm _).mem_iff, List.mem_dedup, List.mem_map]
  constructor
  · rintro ⟨⟨kind, id⟩, hmem, rfl⟩
    exact ⟨id, hmem⟩
  · rintro ⟨id, hmem⟩
    exact ⟨(kind, id), hmem, rfl⟩

theorem mem_idsOf {kind : ResourceKind} {id : DbId} : id ∈ idsOf refs kind ↔ (kind, id) ∈ refs := by
  rw [idsOf, List.mem_map]
  constructor
  · rintro ⟨⟨kind', id⟩, hmem, rfl⟩
    obtain ⟨hmem, hkind⟩ := List.mem_filter.1 hmem
    rw [← beq_iff_eq.1 hkind]
    exact hmem
  · intro hmem
    exact ⟨(kind, id), List.mem_filter.2 ⟨hmem, beq_self_eq_true kind⟩, rfl⟩

/-- The lookup answers, and the row is not there. -/
def ResourceLookup.isMissing (lookup : ResourceLookup DbErr) (r : ResourceKind × DbId) : Bool :=
  match lookup.isPresent r.1 r.2 with
  | .ok found => !found
  | .error _ => false

/-- One axis: the ids that are missing, unless the lookup fails. -/
theorem stale_eq_ok_iff {kind : ResourceKind} {ids : List DbId}
    {before stale : List (ResourceKind × DbId)} :
    (ids.foldlM (fun stale id =>
      match lookup.isPresent kind id with
      | .ok true => .ok stale
      | .ok false => .ok (stale ++ [(kind, id)])
      | .error e => .error (.db e)) before : Except (CompositionError DbErr) _) = .ok stale ↔
    (∀ id ∈ ids, ∃ found, lookup.isPresent kind id = .ok found) ∧
      stale = before ++ (ids.map fun id => (kind, id)).filter lookup.isMissing := by
  induction ids generalizing before with
  | nil =>
      rw [List.foldlM_nil]
      constructor
      · intro h
        cases Except.ok.inj h
        simp
      · rintro ⟨_, rfl⟩
        simp
        rfl
  | cons id rest ih =>
      rw [foldlM_cons_eq_ok, List.forall_mem_cons, List.map_cons, List.filter_cons]
      cases hid : lookup.isPresent kind id with
      | error e => simp
      | ok found =>
          have hmissing : lookup.isMissing (kind, id) = !found := by
            rw [ResourceLookup.isMissing, hid]
          rw [hmissing]
          cases found with
          | true => simp [ih]
          | false => simp [ih]

/-- The check passes exactly if the lookup finds every row that is referred to. -/
theorem checkReferences_eq_ok_iff :
    checkReferences lookup order refs = .ok () ↔
      ∀ r ∈ refs, lookup.isPresent r.1 r.2 = .ok true := by
  rw [checkReferences, forM_eq_ok_iff]
  constructor
  · rintro h ⟨kind, id⟩ hmem
    obtain ⟨stale, hstale, hempty⟩ := bind_eq_ok.1 (h kind (mem_axes.2 ⟨id, hmem⟩))
    obtain ⟨hanswers, hstale⟩ := stale_eq_ok_iff.1 hstale
    obtain ⟨found, hfound⟩ := hanswers id (mem_idsOf.2 hmem)
    cases found with
    | true => exact hfound
    | false =>
        -- the id would be listed, and the list is empty
        have hlisted : (kind, id) ∈ stale := by
          rw [hstale, List.nil_append, List.mem_filter]
          refine ⟨List.mem_map_of_mem (mem_idsOf.2 hmem), ?_⟩
          rw [ResourceLookup.isMissing, hfound]
          rfl
        split at hempty
        · next hnil =>
            rw [List.isEmpty_iff.1 hnil] at hlisted
            cases hlisted
        · cases hempty
  · intro h kind hkind
    refine bind_eq_ok.2 ⟨[], stale_eq_ok_iff.2 ⟨fun id hid => ⟨true, h _ (mem_idsOf.1 hid)⟩, ?_⟩, rfl⟩
    symm
    rw [List.nil_append, List.filter_eq_nil_iff, List.forall_mem_map]
    intro id hid
    rw [ResourceLookup.isMissing, h _ (mem_idsOf.1 hid)]
    simp

end References

/-! ## All the children, or any of them -/

section Any

variable {holds : UserInputLeaf → Bool}

/-- A document matches the query exactly if it matches one of the children. -/
def MatchesAny (holds : UserInputLeaf → Bool) (ast : UserInputAst) (asts : List UserInputAst) :
    Prop :=
  documentMatches holds ast = true ↔ ∃ a ∈ asts, documentMatches holds a = true

/-- The folded query matches what all the children match. -/
theorem documentMatches_fold {asts : List UserInputAst} (hne : asts ≠ []) :
    documentMatches holds (andClause (asts.map fun a => orClause [a])) = true ↔
      ∀ a ∈ asts, documentMatches holds a = true := by
  have hnil : (asts.map fun a => orClause [a]) ≠ [] := by
    rw [Ne, List.map_eq_nil_iff]
    exact hne
  have hone : ∀ a, isMatch .must holds (orClause [a]) = documentMatches holds a := by
    intro a
    rw [orClause, isMatch_should, List.any_cons, List.any_nil, Bool.or_false, documentMatches]
  rw [documentMatches, andClause, isMatch_must _ _ hnil, List.all_eq_true, List.forall_mem_map]
  exact forall₂_congr fun a _ => by rw [hone]

/-- **A COMPOSITION MATCHES ANY OF ITS CHILDREN** for a document exactly if the children
    agree on it: all of them match it, or none does. -/
theorem matchesAny_iff {DbErr : Type} (bindings : CompositionBindings) (clock : Clock) (env : Env)
    (grammar : Grammar) (lookup : ResourceLookup DbErr) (order : KeyVisit)
    (searches : SavedSearches) (ast : UserInputAst) (asts : List UserInputAst)
    (holds : UserInputLeaf → Bool) (hne : searches.children ≠ [])
    (h : render bindings clock env grammar lookup order searches = some (.ok ast))
    (hasts : Rendered bindings clock env grammar lookup order searches asts) :
    MatchesAny holds ast asts ↔
      ∀ a ∈ asts, ∀ b ∈ asts, documentMatches holds a = documentMatches holds b := by
  obtain ⟨asts', hasts', _, rfl⟩ := render_eq_ok_iff.1 h
  cases rendered_unique hasts hasts'
  have hsome := rendered_ne_nil hne hasts
  rw [MatchesAny, documentMatches_fold hsome]
  constructor
  · intro hany a ha b hb
    rw [Bool.eq_iff_iff]
    exact ⟨fun htrue => hany.2 ⟨a, ha, htrue⟩ b hb, fun htrue => hany.2 ⟨b, hb, htrue⟩ a ha⟩
  · intro hagree
    constructor
    · intro hall
      obtain ⟨a, ha⟩ := List.exists_mem_of_ne_nil asts hsome
      exact ⟨a, ha, hall a ha⟩
    · rintro ⟨a, ha, htrue⟩ b hb
      rw [hagree b hb a ha]
      exact htrue

/-- The composition that asks for a cover and for notes. -/
def coverNotes : SavedSearches :=
  { children := [⟨⟨List.replicate 16 0, length_sixteen 0⟩, .availability (.hasCover true)⟩,
      ⟨⟨List.replicate 16 1, length_sixteen 1⟩, .availability (.hasNotes true)⟩] }

theorem rendered_coverNotes :
    Rendered ∅ (fun _ => none) Env.reference oneWord emptyLookup plainVisit coverNotes
      [fieldExists "cover", fieldExists "notes"] := ⟨_, rfl, rfl⟩

/-- A document with both matches the composition and each child. -/
theorem matchesAny_both :
    ∃ ast, render ∅ (fun _ => none) Env.reference oneWord emptyLookup plainVisit coverNotes =
        some (.ok ast) ∧
      MatchesAny (fun _ => true) ast [fieldExists "cover", fieldExists "notes"] := by
  refine ⟨_, rfl, (matchesAny_iff _ _ _ _ _ _ _ _ _ _ (List.cons_ne_nil _ _) rfl
    rendered_coverNotes).2 ?_⟩
  intro a ha b hb
  simp only [List.mem_cons, List.not_mem_nil, or_false] at ha hb
  rcases ha with rfl | rfl <;> rcases hb with rfl | rfl <;> rfl

/-- A document with a cover alone matches a child, and is not found. -/
theorem not_matchesAny_cover :
    Rendered ∅ (fun _ => none) Env.reference oneWord emptyLookup plainVisit coverNotes
      [fieldExists "cover", fieldExists "notes"] ∧
    ∃ ast, render ∅ (fun _ => none) Env.reference oneWord emptyLookup plainVisit coverNotes =
        some (.ok ast) ∧
      ¬ MatchesAny (fun l => l == .fieldExists "cover") ast
        [fieldExists "cover", fieldExists "notes"] := by
  refine ⟨rendered_coverNotes, _, rfl, fun hany => ?_⟩
  have hmatch := hany.2 ⟨_, List.mem_cons_self, by decide⟩
  exact absurd hmatch (by decide)

end Any

/-! ## How deep a tree is -/

mutual

/-- The nesting of the combinators; a filter counts nothing. -/
def combinators : SavedSearchKind → Nat
  | .and of => 1 + combinatorsDeepest of
  | .or of => 1 + combinatorsDeepest of
  | .not of => 1 + combinators of
  | _ => 0

def combinatorsDeepest : List SavedSearchKind → Nat
  | [] => 0
  | c :: rest => max (combinators c) (combinatorsDeepest rest)

end

/-- An id whose name is known becomes a disjunction. -/
def CategorizationSearch.loweredDepth (names : NameMap) (c : CategorizationSearch) : Nat :=
  if c.referencedIds.any fun r => (names.lookup r).isSome then 2 else 1

mutual

/-- The nesting of the lowered tree: a filter is a leaf, or a clause of leaves. -/
def loweredDepth (names : NameMap) : SavedSearchKind → Nat
  | .and of => 1 + loweredDeepest names of
  | .or of => 1 + loweredDeepest names of
  | .not of => 1 + loweredDepth names of
  | .categorization c => c.loweredDepth names
  | .identifier (.hasKind _ false) => 2
  | .availability a => if a.wants.2 then 1 else 2
  | _ => 1

def loweredDeepest (names : NameMap) : List SavedSearchKind → Nat
  | [] => 0
  | c :: rest => max (loweredDepth names c) (loweredDeepest names rest)

end

section Depth

variable {DbErr : Type} {bindings : CompositionBindings} {clock : Clock} {env : Env}
  {names : NameMap} {grammar : Grammar}

mutual

theorem combinators_le_loweredDepth (k : SavedSearchKind) : combinators k ≤ loweredDepth names k := by
  cases k with
  | and of =>
      rw [combinators, loweredDepth]
      exact Nat.add_le_add_left (combinatorsDeepest_le of) 1
  | or of =>
      rw [combinators, loweredDepth]
      exact Nat.add_le_add_left (combinatorsDeepest_le of) 1
  | not of =>
      rw [combinators, loweredDepth]
      exact Nat.add_le_add_left (combinators_le_loweredDepth of) 1
  | _ => exact Nat.zero_le _

theorem combinatorsDeepest_le (ks : List SavedSearchKind) :
    combinatorsDeepest ks ≤ loweredDeepest names ks := by
  cases ks with
  | nil => exact le_refl _
  | cons k rest =>
      rw [combinatorsDeepest, loweredDeepest]
      exact max_le_max (combinators_le_loweredDepth k) (combinatorsDeepest_le rest)

end

/-- The depth of the deepest of the queries. -/
def deepestOf (asts : List UserInputAst) : Nat := (asts.map nestingDepth).foldr max 0

theorem nestingDepth_leaf (l : UserInputLeaf) : nestingDepth (.leaf l) = 1 := by
  rw [nestingDepth]

theorem nestingDepth_withOccur (occur : Occur) (asts : List UserInputAst) :
    nestingDepth (withOccur occur asts) = 1 + deepestOf asts := by
  rw [withOccur, nestingDepth]
  congr 1
  induction asts with
  | nil => rw [List.map_nil, deepest]; rfl
  | cons ast rest ih =>
      rw [List.map_cons, deepest, ih]
      rfl

theorem nestingDepth_arm (field : String) (value : Bool) :
    nestingDepth (arm field value) = if value then 1 else 2 := by
  cases value with
  | true => exact nestingDepth_leaf _
  | false =>
      show nestingDepth (withOccur .mustNot [fieldExists field]) = 2
      rw [nestingDepth_withOccur]
      show 1 + max (nestingDepth (fieldExists field)) 0 = 2
      rw [fieldExists, nestingDepth_leaf]
      rfl

theorem nestingDepth_hybrid (kind : ResourceKind) (id : DbId) (idField textField : String) :
    nestingDepth (hybrid env names kind id idField textField) =
      if (names.lookup (kind, id)).isSome then 2 else 1 := by
  rw [hybrid]
  cases names.lookup (kind, id) with
  | none => exact nestingDepth_leaf _
  | some name =>
      show nestingDepth (withOccur .should _) = 2
      rw [nestingDepth_withOccur]
      simp only [deepestOf, List.map_cons, List.map_nil, fieldTermExact, fieldTermUndelimited,
        fieldTerm, nestingDepth_leaf]
      rfl

theorem nestingDepth_categorization (c : CategorizationSearch) :
    nestingDepth (c.intoAstWithNames env names) = c.loweredDepth names := by
  cases c with
  | inCollection id => exact nestingDepth_leaf _
  | _ id =>
      rw [CategorizationSearch.intoAstWithNames, nestingDepth_hybrid,
        CategorizationSearch.loweredDepth]
      simp only [CategorizationSearch.referencedIds, List.any_cons, List.any_nil, Bool.or_false]

/-- A combinator over lowered children: the marker, or a clause one level deeper. -/
theorem nestingDepth_combinator {occur : Occur} {asts : List UserInputAst} {ast : UserInputAst}
    (h : (if asts.isEmpty then pure (fieldExists "_all") else pure (withOccur occur asts) :
      Except InvalidDslError UserInputAst) = .ok ast) : nestingDepth ast = 1 + deepestOf asts := by
  cases asts with
  | nil =>
      cases Except.ok.inj h
      exact nestingDepth_leaf _
  | cons first rest =>
      cases Except.ok.inj h
      exact nestingDepth_withOccur _ _

mutual

/-- The lowered tree has the depth that its filters and names give it. -/
theorem nestingDepth_lowered (k : SavedSearchKind) (hk : Topical k) (ast : UserInputAst)
    (h : intoAstWithNames env names grammar k = .ok ast) :
    nestingDepth ast = loweredDepth names k := by
  cases k with
  | and of =>
      rw [intoAstWithNames] at h
      obtain ⟨asts, hasts, h⟩ := bind_eq_ok.1 h
      rw [nestingDepth_combinator h, deepestOf_lowered of hk asts hasts, loweredDepth]
  | or of =>
      rw [intoAstWithNames] at h
      obtain ⟨asts, hasts, h⟩ := bind_eq_ok.1 h
      rw [nestingDepth_combinator h, deepestOf_lowered of hk asts hasts, loweredDepth]
  | not of =>
      rw [intoAstWithNames] at h
      obtain ⟨inner, hinner, h⟩ := bind_eq_ok.1 h
      cases Except.ok.inj h
      rw [mustNotClause, nestingDepth_withOccur, loweredDepth,
        ← nestingDepth_lowered of hk inner hinner]
      show 1 + max (nestingDepth inner) 0 = _
      rw [Nat.max_zero]
  | categorization c =>
      cases Except.ok.inj h
      exact nestingDepth_categorization c
  | limit l =>
      cases Except.ok.inj h
      cases l <;> exact nestingDepth_leaf _
  | format f =>
      cases Except.ok.inj h
      cases f <;> exact nestingDepth_leaf _
  | identifier i =>
      cases Except.ok.inj h
      cases i with
      | byKind kind needle => exact nestingDepth_leaf _
      | hasKind kind value =>
          rw [IdentifierSearch.intoAst, nestingDepth_arm]
          cases value <;> rfl
  | availability a =>
      cases Except.ok.inj h
      cases a <;> exact nestingDepth_arm _ _
  | ordering o =>
      cases Except.ok.inj h
      exact nestingDepth_leaf _
  | text t =>
      cases Except.ok.inj h
      cases t <;> exact nestingDepth_leaf _
  | userDefined queryDsl => exact hk.elim

theorem deepestOf_lowered (ks : List SavedSearchKind) (hks : TopicalEach ks)
    (asts : List UserInputAst) (h : intoAsts env names grammar ks = .ok asts) :
    deepestOf asts = loweredDeepest names ks := by
  cases ks with
  | nil =>
      rw [intoAsts] at h
      cases Except.ok.inj h
      rw [loweredDeepest]
      rfl
  | cons k rest =>
      rw [intoAsts] at h
      obtain ⟨first, hfirst, h⟩ := bind_eq_ok.1 h
      obtain ⟨others, hothers, h⟩ := bind_eq_ok.1 h
      cases Except.ok.inj h
      rw [loweredDeepest, ← nestingDepth_lowered k hks.1 first hfirst,
        ← deepestOf_lowered rest hks.2 others hothers]
      rfl

end

mutual

/-- Substituting placeholders keeps the depth: a literal stays a leaf. -/
theorem nestingDepth_substitute (ast ast' : UserInputAst)
    (h : substitutePlaceholders DbErr bindings clock ast = some ast') :
    nestingDepth ast' = nestingDepth ast := by
  cases ast with
  | clause children =>
      rw [substitutePlaceholders] at h
      obtain ⟨children', hchildren, rfl⟩ := Option.map_eq_some_iff.1 h
      rw [nestingDepth, nestingDepth, deepest_substitute children children' hchildren]
  | boost inner =>
      rw [substitutePlaceholders] at h
      obtain ⟨inner', hinner, rfl⟩ := Option.map_eq_some_iff.1 h
      rw [nestingDepth, nestingDepth, nestingDepth_substitute inner inner' hinner]
  | leaf l =>
      have hleaf : ∃ l', ast' = .leaf l' := by
        cases l with
        | literal l =>
            rw [substitutePlaceholders] at h
            obtain ⟨s, _, rfl⟩ := Option.map_eq_some_iff.1 h
            cases s with
            | unchanged => exact ⟨_, rfl⟩
            | replaced phrase => exact ⟨_, rfl⟩
            | marker => exact ⟨_, rfl⟩
        | _ => exact ⟨_, (Option.some.inj h).symm⟩
      obtain ⟨l', rfl⟩ := hleaf
      rw [nestingDepth_leaf, nestingDepth_leaf]

theorem deepest_substitute (children children' : List (Option Occur × UserInputAst))
    (h : substituteChildren DbErr bindings clock children = some children') :
    deepest children' = deepest children := by
  cases children with
  | nil =>
      rw [substituteChildren] at h
      cases Option.some.inj h
      rfl
  | cons child rest =>
      rw [substituteChildren] at h
      obtain ⟨first, hfirst, h⟩ := Option.bind_eq_some_iff.1 h
      obtain ⟨others, hothers, h⟩ := Option.bind_eq_some_iff.1 h
      cases Option.some.inj h
      rw [deepest, deepest, nestingDepth_substitute _ first hfirst,
        deepest_substitute rest others hothers]

end

end Depth

/-! ## The limit on the depth -/

section Limit

variable {DbErr : Type} {bindings : CompositionBindings} {clock : Clock} {env : Env}
  {grammar : Grammar} {lookup : ResourceLookup DbErr} {order : KeyVisit} {searches : SavedSearches}

/-- A date that a placeholder of the child stands for leaves the calendar. -/
def LeavesCalendar (DbErr : Type) (bindings : CompositionBindings) (clock : Clock) (env : Env)
    (grammar : Grammar) (names : NameMap) (k : SavedSearchKind) : Prop :=
  ∃ ast, intoAstWithNames env names grammar k = .ok ast ∧
    substitutePlaceholders DbErr bindings clock ast = none

/-- The lookup names the referenced rows, and no date leaves the calendar. -/
def Answered (bindings : CompositionBindings) (clock : Clock) (env : Env) (grammar : Grammar)
    (lookup : ResourceLookup DbErr) (order : KeyVisit) (searches : SavedSearches)
    (names : NameMap) : Prop :=
  resolveNames lookup order searches.references = .ok names ∧
    ∀ c ∈ searches.children, ¬ LeavesCalendar DbErr bindings clock env grammar names c.definition

/-- Some child has combinators nested deeper than the limit. -/
def NestedTooDeep (searches : SavedSearches) : Prop :=
  ∃ c ∈ searches.children, searches.options.maxDepth < combinators c.definition

/-- The render is refused for its depth exactly if the combinators are nested too deep. -/
def LimitCountsCombinators (bindings : CompositionBindings) (clock : Clock) (env : Env)
    (grammar : Grammar) (lookup : ResourceLookup DbErr) (order : KeyVisit)
    (searches : SavedSearches) : Prop :=
  (∃ depth, render bindings clock env grammar lookup order searches =
    some (.error (.recursionLimitExceeded depth))) ↔ NestedTooDeep searches

/-- When it does: a composition nested too deep gets as far as the check of its depth, and
    any other is within the limit after lowering too. -/
structure LimitSeen (bindings : CompositionBindings) (clock : Clock) (env : Env)
    (grammar : Grammar) (lookup : ResourceLookup DbErr) (order : KeyVisit)
    (searches : SavedSearches) : Prop where
  reached : NestedTooDeep searches → searches.options.maxDepth = 0 ∨
    ∃ names, Answered bindings clock env grammar lookup order searches names
  within : ¬ NestedTooDeep searches → searches.options.maxDepth ≠ 0 ∧
    ∀ names, Answered bindings clock env grammar lookup order searches names →
      ∀ c ∈ searches.children, loweredDepth names c.definition ≤ searches.options.maxDepth

mutual

theorem containsUserDefined_topical (k : SavedSearchKind) (hk : Topical k) :
    containsUserDefined k = false := by
  cases k with
  | and of => exact containsUserDefinedEach_topical of hk
  | or of => exact containsUserDefinedEach_topical of hk
  | not of => exact containsUserDefined_topical of hk
  | userDefined queryDsl => exact hk.elim
  | _ => rfl

theorem containsUserDefinedEach_topical (ks : List SavedSearchKind) (hks : TopicalEach ks) :
    containsUserDefinedEach ks = false := by
  cases ks with
  | nil => rfl
  | cons k rest =>
      rw [containsUserDefinedEach, containsUserDefined_topical k hks.1,
        containsUserDefinedEach_topical rest hks.2]
      rfl

end

/-- Children without a raw query are lowered, whatever the names. -/
theorem lowerChildren_topical (htopical : ∀ c ∈ searches.children, Topical c.definition)
    (names : NameMap) :
    ∃ renderings, (lowerChildren env grammar names searches :
      Except (CompositionError DbErr) _) = .ok renderings := by
  have hlowered : ∀ c : Saved, Topical c.definition →
      ∃ ast, intoAstWithNames env names grammar c.definition = .ok ast ∧
        (!searches.options.allowUserDefined && containsUserDefined c.definition) = false := by
    intro c hc
    obtain ⟨ast, hast, _⟩ : ∃ ast, intoAstWithNames env names grammar c.definition = .ok ast ∧
        documentMatches (fun _ => true) ast = _ := lowered c.definition hc
    exact ⟨ast, hast, by rw [containsUserDefined_topical _ hc, Bool.and_false]⟩
  simp only [lowerChildren_eq_ok_iff]
  generalize searches.children = children at htopical
  induction children with
  | nil => exact ⟨[], List.Forall₂.nil⟩
  | cons c rest ih =>
      obtain ⟨hc, hrest⟩ := List.forall_mem_cons.1 htopical
      obtain ⟨ast, hast⟩ := hlowered c hc
      obtain ⟨asts, hasts⟩ := ih hrest
      exact ⟨ast :: asts, List.Forall₂.cons hast hasts⟩

/-- A lookup of names that fails, fails the render with its error. -/
theorem db_of_resolveNames {refs : List (ResourceKind × DbId)} {e : CompositionError DbErr}
    (h : resolveNames lookup order refs = .error e) : ∃ d, e = .db d := by
  obtain ⟨names, kind, _, herror⟩ := error_of_foldlM h
  cases hnames : lookup.names kind (idsOf refs kind) with
  | error d =>
      rw [hnames] at herror
      exact ⟨d, (Except.error.inj herror).symm⟩
  | ok resolved =>
      rw [hnames] at herror
      cases herror

/-- The lowered children are substituted, unless a date leaves the calendar. -/
theorem substituted_iff {names : NameMap} {renderings : List UserInputAst}
    (h : (lowerChildren env grammar names searches : Except (CompositionError DbErr) _) =
      .ok renderings) :
    (∃ asts, renderings.mapM (substitutePlaceholders DbErr bindings clock) = some asts) ↔
      ∀ c ∈ searches.children,
        ¬ LeavesCalendar DbErr bindings clock env grammar names c.definition := by
  have hchildren := lowerChildren_eq_ok_iff.1 h
  rw [← Option.isSome_iff_exists, ← Option.ne_none_iff_isSome, Ne, mapM_eq_none_iff]
  constructor
  · rintro hnone c hc ⟨ast, hast, hstop⟩
    obtain ⟨ast', hmem, hast', _⟩ := exists_right_of_forall₂ hchildren c hc
    cases Except.ok.inj (hast.symm.trans hast')
    exact hnone ⟨ast, hmem, hstop⟩
  · rintro hcalendar ⟨ast, hmem, hstop⟩
    obtain ⟨c, hc, hast, _⟩ := exists_left_of_forall₂ hchildren ast hmem
    exact hcalendar c hc ⟨ast, hast, hstop⟩

/-- Some query is too deep exactly if some child is after lowering. -/
theorem tooDeep_iff (htopical : ∀ c ∈ searches.children, Topical c.definition) {names : NameMap}
    {renderings asts : List UserInputAst} {limit : Nat}
    (h : (lowerChildren env grammar names searches : Except (CompositionError DbErr) _) =
      .ok renderings)
    (hsub : renderings.mapM (substitutePlaceholders DbErr bindings clock) = some asts) :
    (∃ a ∈ asts, limit < nestingDepth a) ↔
      ∃ c ∈ searches.children, limit < loweredDepth names c.definition := by
  have hchildren := lowerChildren_eq_ok_iff.1 h
  have hsubs := mapM_eq_some_iff.1 hsub
  constructor
  · rintro ⟨a, ha, hdeep⟩
    obtain ⟨ast, hmem, hast⟩ := exists_left_of_forall₂ hsubs a ha
    obtain ⟨c, hc, hlower, _⟩ := exists_left_of_forall₂ hchildren ast hmem
    refine ⟨c, hc, ?_⟩
    rw [← nestingDepth_lowered _ (htopical c hc) _ hlower, ← nestingDepth_substitute _ _ hast]
    exact hdeep
  · rintro ⟨c, hc, hdeep⟩
    obtain ⟨ast, hmem, hlower, _⟩ := exists_right_of_forall₂ hchildren c hc
    obtain ⟨a, ha, hast⟩ := exists_right_of_forall₂ hsubs ast hmem
    refine ⟨a, ha, ?_⟩
    rw [nestingDepth_substitute _ _ hast, nestingDepth_lowered _ (htopical c hc) _ hlower]
    exact hdeep

/-- A substituted composition is refused for its depth when one of its queries is too deep. -/
theorem refused_of_rendered {asts : List UserInputAst}
    (h : Rendered bindings clock env grammar lookup order searches asts) :
    (∃ depth, render bindings clock env grammar lookup order searches =
        some (.error (.recursionLimitExceeded depth))) ↔
      ∃ a ∈ asts, searches.options.maxDepth < nestingDepth a := by
  rw [render_of_rendered h]
  cases hfind : asts.find? fun a => searches.options.maxDepth < nestingDepth a with
  | none =>
      refine iff_of_false (fun h => by cases h.choose_spec) ?_
      rintro ⟨a, ha, hdeep⟩
      exact List.find?_eq_none.1 hfind a ha (decide_eq_true hdeep)
  | some a =>
      refine iff_of_true ⟨_, rfl⟩ ⟨a, List.mem_of_find?_eq_some hfind, ?_⟩
      simpa using List.find?_some hfind

/-- A composition of present rows is refused for its depth: at once when no depth is
    allowed, else when it is lowered and substituted and a child is too deep then. -/
theorem refused_iff (htopical : ∀ c ∈ searches.children, Topical c.definition)
    (hpresent : ∀ r ∈ searches.references, lookup.isPresent r.1 r.2 = .ok true) :
    (∃ depth, render bindings clock env grammar lookup order searches =
        some (.error (.recursionLimitExceeded depth))) ↔
      searches.options.maxDepth = 0 ∨
      ∃ names, Answered bindings clock env grammar lookup order searches names ∧
        ∃ c ∈ searches.children, searches.options.maxDepth < loweredDepth names c.definition := by
  by_cases hzero : searches.options.maxDepth = 0
  · refine iff_of_true ⟨0, render_of_error ?_⟩ (Or.inl hzero)
    rw [lowerAll, if_pos hzero]
  have hcheck : checkReferences lookup order searches.references = .ok () :=
    checkReferences_eq_ok_iff.2 hpresent
  rw [or_iff_right hzero]
  cases hnames : resolveNames lookup order searches.references with
  | error e =>
      -- a failed read comes back before the depth is looked at
      obtain ⟨d, rfl⟩ := db_of_resolveNames hnames
      have hlower : lowerAll env grammar lookup order searches = .error (.db d) := by
        rw [lowerAll, if_neg hzero, hcheck, ok_bind, hnames, error_bind]
      rw [render_of_error hlower]
      refine iff_of_false (fun h => by cases h.choose_spec) ?_
      rintro ⟨names, hanswered, _⟩
      cases hnames.symm.trans hanswered.1
  | ok names =>
      obtain ⟨renderings, hlower⟩ : ∃ renderings, (lowerChildren env grammar names searches :
        Except (CompositionError DbErr) _) = .ok renderings := lowerChildren_topical htopical names
      have hall := lowerAll_eq_ok_iff.2 ⟨hzero, hcheck, names, hnames, hlower⟩
      have hunique : ∀ names', Answered bindings clock env grammar lookup order searches names' →
          names' = names := fun names' hanswered =>
        Except.ok.inj (hanswered.1.symm.trans hnames)
      cases hsub : renderings.mapM (substitutePlaceholders DbErr bindings clock) with
      | none =>
          -- the program stops in a substitution, which is no error of the call
          have hstops : render bindings clock env grammar lookup order searches = none := by
            rw [render, hall]
            simp only [hsub, Option.map_none]
          rw [hstops]
          refine iff_of_false (fun h => by cases h.choose_spec) ?_
          rintro ⟨names', hanswered, _⟩
          cases hunique names' hanswered
          obtain ⟨asts, hasts⟩ := (substituted_iff hlower).2 hanswered.2
          cases hsub.symm.trans hasts
      | some asts =>
          have hrendered : Rendered bindings clock env grammar lookup order searches asts :=
            ⟨renderings, hall, hsub⟩
          rw [refused_of_rendered hrendered, tooDeep_iff htopical hlower hsub]
          constructor
          · intro hdeep
            exact ⟨names, ⟨hnames, (substituted_iff hlower).1 ⟨asts, hsub⟩⟩, hdeep⟩
          · rintro ⟨names', hanswered, hdeep⟩
            cases hunique names' hanswered
            exact hdeep

/-- **THE LIMIT COUNTS COMBINATORS** exactly if a composition nested too deep gets as far
    as the check, and one that is not is within the limit after lowering too. -/
theorem limitCountsCombinators_iff (bindings : CompositionBindings) (clock : Clock) (env : Env)
    (grammar : Grammar) (lookup : ResourceLookup DbErr) (order : KeyVisit)
    (searches : SavedSearches) (htopical : ∀ c ∈ searches.children, Topical c.definition)
    (hpresent : ∀ r ∈ searches.references, lookup.isPresent r.1 r.2 = .ok true) :
    LimitCountsCombinators bindings clock env grammar lookup order searches ↔
      LimitSeen bindings clock env grammar lookup order searches := by
  rw [LimitCountsCombinators, refused_iff htopical hpresent]
  constructor
  · intro hcounts
    constructor
    · intro hdeep
      rcases hcounts.2 hdeep with hzero | ⟨names, hanswered, _⟩
      · exact Or.inl hzero
      · exact Or.inr ⟨names, hanswered⟩
    · intro hwithin
      refine ⟨fun hzero => hwithin (hcounts.1 (Or.inl hzero)), fun names hanswered c hc => ?_⟩
      by_contra hdeep
      exact hwithin (hcounts.1 (Or.inr ⟨names, hanswered, c, hc, not_le.1 hdeep⟩))
  · intro hseen
    constructor
    · intro hrefused
      by_contra hwithin
      obtain ⟨hpos, hdepths⟩ := hseen.within hwithin
      rcases hrefused with hzero | ⟨names, hanswered, c, hc, hdeep⟩
      · exact hpos hzero
      · exact absurd (hdepths names hanswered c hc) (not_le.2 hdeep)
    · intro hdeep
      rcases hseen.reached hdeep with hzero | ⟨names, hanswered⟩
      · exact Or.inl hzero
      · obtain ⟨c, hc, hcombinators⟩ := hdeep
        refine Or.inr ⟨names, hanswered, c, hc, ?_⟩
        exact lt_of_lt_of_le hcombinators (combinators_le_loweredDepth _)

/-- The composition of one child under a limit of one level. -/
def oneLevel (definition : SavedSearchKind) : SavedSearches :=
  { single definition with options := { maxDepth := 1 } }

/-- A filter on its own is within a limit of one level. -/
theorem limitCountsCombinators_filter :
    LimitCountsCombinators ∅ (fun _ => none) Env.reference oneWord emptyLookup plainVisit
      (oneLevel (.availability (.hasCover true))) := by
  have hdepth : ∀ names : NameMap, ∀ c ∈ (oneLevel (.availability (.hasCover true))).children,
      combinators c.definition ≤ 0 ∧ loweredDepth names c.definition ≤ 1 := by
    intro names c hc
    cases List.mem_singleton.1 hc
    exact ⟨le_refl _, le_refl _⟩
  refine (limitCountsCombinators_iff _ _ _ _ _ _ _ ?_ ?_).2 ⟨?_, fun _ => ⟨(by rintro ⟨⟩), fun names _ c hc =>
    (hdepth names c hc).2⟩⟩
  · intro c hc
    cases List.mem_singleton.1 hc
    exact trivial
  · exact fun _ hr => by cases hr
  · rintro ⟨c, hc, hdeep⟩
    have := (hdepth ∅ c hc).1
    exact absurd hdeep (by show ¬ 1 < _; omega)

/-- A flat conjunction counts two levels. -/
theorem not_limitCountsCombinators_flat :
    Topical (.and [.availability (.hasCover true)]) ∧
    ¬ LimitCountsCombinators ∅ (fun _ => none) Env.reference oneWord emptyLookup plainVisit
      (oneLevel (.and [.availability (.hasCover true)])) := by
  refine ⟨⟨trivial, trivial⟩, fun hcounts => ?_⟩
  obtain ⟨c, hc, hdeep⟩ := hcounts.1 ⟨2, rfl⟩
  cases List.mem_singleton.1 hc
  exact absurd hdeep (by decide)

end Limit

end SavedSearch
