import Livtet.Rendered

/-! # Placeholders in full

    The tokens of a text are read from left to right, each replaced by the string bound
    to its name or by the date it stands for; what is inserted is not read again, and a
    `$$` that nothing closes stays as it is.

    The code does less. It looks into literals only, so the bounds of a range and the
    elements of a set keep their tokens. A literal that ends in an open `$$` keeps all
    of its tokens. And a token that does not resolve is no error: the literal is
    replaced by a marker that matches nothing. -/

namespace SavedSearch

open BoolQuery Maps SyncStore SyncPairing Outcomes

/-! ## One text -/

/-- A text read from left to right: its closed tokens with what stands before each, and a
    rest without a `$$`, or from a `$$` that nothing closes. -/
inductive Scan
  | plain (rest : List Char)
  | leftOpen (rest : List Char)
  | token (before : List Char) (name : String) (tail : Scan)

def scan (rest : List Char) : Scan :=
  match _hopen : splitDollars rest with
  | none => .plain rest
  | some (before, afterOpen) =>
      match _hclose : splitDollars afterOpen with
      | none => .leftOpen rest
      | some (token, afterClose) => .token before (String.ofList token) (scan afterClose)
termination_by rest.length
decreasing_by
  have hopen := length_splitDollars _hopen
  have hclose := length_splitDollars _hclose
  omega

/-- The text with its tokens replaced; `none` where one of them has no text. -/
def Scan.expand (textOf : String → Option String) : Scan → Option (List Char)
  | .plain rest => some rest
  | .leftOpen rest => some rest
  | .token before name tail => do
      let text ← textOf name
      let tail ← tail.expand textOf
      pure (before ++ text.toList ++ tail)

def Scan.isLeftOpen : Scan → Bool
  | .plain _ => false
  | .leftOpen _ => true
  | .token _ _ tail => tail.isLeftOpen

section Text

variable {rest before afterOpen token afterClose : List Char}

theorem scan_none (hopen : splitDollars rest = none) : scan rest = .plain rest := by
  rw [scan]
  split
  · rfl
  · next hsome => cases hopen.symm.trans hsome

theorem scan_unclosed (hopen : splitDollars rest = some (before, afterOpen))
    (hclose : splitDollars afterOpen = none) : scan rest = .leftOpen rest := by
  rw [scan]
  split
  · next hnone => cases hopen.symm.trans hnone
  · next hsome =>
      cases Option.some.inj (hopen.symm.trans hsome)
      split
      · rfl
      · next hsome => cases hclose.symm.trans hsome

theorem scan_closed (hopen : splitDollars rest = some (before, afterOpen))
    (hclose : splitDollars afterOpen = some (token, afterClose)) :
    scan rest = .token before (String.ofList token) (scan afterClose) := by
  rw [scan]
  split
  · next hnone => cases hopen.symm.trans hnone
  · next hsome =>
      cases Option.some.inj (hopen.symm.trans hsome)
      split
      · next hnone => cases hclose.symm.trans hnone
      · next hsome =>
          cases Option.some.inj (hclose.symm.trans hsome)
          rfl

/-- What the loop makes of a text whose tokens all resolve: nothing if the text is left
    open, else its expansion after what is there already. By induction on the text. -/
theorem substituteFrom_expands {ε : Type} {resolve : String → Option (Except ε String)}
    {textOf : String → Option String}
    (htextOf : ∀ token text, resolve token = some (.ok text) → textOf token = some text)
    (rest out : List Char) (changed : Bool) :
    ∀ s, substituteFrom resolve rest out changed = some s → s ≠ .marker →
    if (scan rest).isLeftOpen then s = .unchanged
    else ∃ text, (scan rest).expand textOf = some text ∧
      ((s = .replaced (String.ofList (out ++ text))) ∨
        s = .unchanged ∧ changed = false ∧ text = rest) := by
  fun_induction substituteFrom resolve rest out changed with
  | case1 rest out changed hopen =>
      intro s h _
      rw [scan_none hopen]
      cases Option.some.inj h
      refine ⟨rest, rfl, ?_⟩
      cases changed with
      | true => exact Or.inl rfl
      | false => exact Or.inr ⟨rfl, rfl, rfl⟩
  | case2 rest out changed before afterOpen hopen hclose =>
      intro s h _
      rw [scan_unclosed hopen hclose]
      exact (Option.some.inj h).symm
  | case3 rest out changed before afterOpen hopen token afterClose hclose hstop =>
      intro s h
      cases h
  | case4 rest out changed before afterOpen hopen token afterClose hclose e herror =>
      intro s h hmarker
      exact absurd (Option.some.inj h).symm hmarker
  | case5 rest out changed before afterOpen hopen token afterClose hclose text htext ih =>
      intro s h hmarker
      -- the rest is scanned with `changed` set: it is unchanged only if it is left open
      have hrest := ih s h hmarker
      rw [scan_closed hopen hclose, Scan.isLeftOpen]
      split
      · next hleft =>
          rw [if_pos hleft] at hrest
          exact hrest
      · next hleft =>
          rw [if_neg hleft] at hrest
          obtain ⟨tail, htail, hs⟩ := hrest
          refine ⟨before ++ text.toList ++ tail, ?_, ?_⟩
          · rw [Scan.expand, htextOf _ _ htext, htail]
            rfl
          · rcases hs with hs | ⟨_, hchanged, _⟩
            · rw [hs]
              simp
            · cases hchanged

end Text

/-! ## One query -/

section Query

variable (bindings : CompositionBindings) (clock : Clock)

/-- The string bound to a name, or the date that the token stands for. -/
def tokenText (token : String) : Option String :=
  match parsePlaceholder ("$$" ++ token ++ "$$") with
  | .error _ => none
  | .ok (.user name) => bindings.lookup name
  | .ok name => clock name

def expandText (text : String) : Option String :=
  ((scan text.toList).expand (tokenText bindings clock)).map String.ofList

def expandBound : UserInputBound → Option UserInputBound
  | .inclusive value => (expandText bindings clock value).map .inclusive
  | .exclusive value => (expandText bindings clock value).map .exclusive
  | .unbounded => some .unbounded

/-- The phrase, the bounds or the elements of a leaf, expanded. -/
def expandLeaf : UserInputLeaf → Option UserInputLeaf
  | .literal l => (expandText bindings clock l.phrase).map fun phrase => .literal { l with phrase }
  | .range field lower upper => do
      let lower ← expandBound bindings clock lower
      let upper ← expandBound bindings clock upper
      pure (.range field lower upper)
  | .set field elements => (elements.mapM (expandText bindings clock)).map (.set field)
  | l => some l

mutual

def expandAst : UserInputAst → Option UserInputAst
  | .clause children => (expandChildren children).map .clause
  | .boost inner => (expandAst inner).map .boost
  | .leaf l => (expandLeaf bindings clock l).map .leaf

def expandChildren : List (Option Occur × UserInputAst) →
    Option (List (Option Occur × UserInputAst))
  | [] => some []
  | (occur, child) :: rest => do
      let child ← expandAst child
      let rest ← expandChildren rest
      pure ((occur, child) :: rest)

end

mutual

def leaves : UserInputAst → List UserInputLeaf
  | .clause children => leavesEach children
  | .boost inner => leaves inner
  | .leaf l => [l]

def leavesEach : List (Option Occur × UserInputAst) → List UserInputLeaf
  | [] => []
  | (_, child) :: rest => leaves child ++ leavesEach rest

end

def UserInputBound.texts : UserInputBound → List String
  | .inclusive value => [value]
  | .exclusive value => [value]
  | .unbounded => []

/-- The texts of a leaf that may hold placeholders. -/
def UserInputLeaf.texts : UserInputLeaf → List String
  | .literal l => [l.phrase]
  | .range _ lower upper => lower.texts ++ upper.texts
  | .set _ elements => elements
  | _ => []

/-- Those that the code leaves as they are. -/
def UserInputLeaf.skipped : UserInputLeaf → List String
  | .literal l => if (scan l.phrase.toList).isLeftOpen then [l.phrase] else []
  | .range _ lower upper => lower.texts ++ upper.texts
  | .set _ elements => elements
  | _ => []

/-- Every token of the query is a date, or a name that is bound. -/
def AllBound (ast : UserInputAst) : Prop :=
  ∀ l ∈ leaves ast, ∀ text ∈ l.texts, phraseBound bindings text

/-- The texts that the code leaves alone are what they expand to. -/
def SkipsNothing (ast : UserInputAst) : Prop :=
  ∀ l ∈ leaves ast, ∀ text ∈ l.skipped, expandText bindings clock text = some text

variable {DbErr : Type} {bindings clock}

theorem tokenText_of_resolveToken {token text : String}
    (h : (resolveToken bindings clock token : Option (Except (CompositionError DbErr) String)) =
      some (.ok text)) : tokenText bindings clock token = some text := by
  unfold resolveToken at h
  unfold tokenText
  cases hparse : parsePlaceholder ("$$" ++ token ++ "$$") with
  | error e =>
      rw [hparse] at h
      cases h
  | ok name =>
      rw [hparse] at h
      cases name with
      | user name =>
          simp only at h ⊢
          cases hlookup : bindings.lookup name with
          | none =>
              rw [hlookup] at h
              cases h
          | some value =>
              rw [hlookup] at h
              exact congrArg some (Except.ok.inj (Option.some.inj h))
      | reserved r =>
          obtain ⟨date, hdate, hok⟩ := Option.map_eq_some_iff.1 h
          cases Except.ok.inj hok
          exact hdate
      | dateOffset unit sign amount =>
          obtain ⟨date, hdate, hok⟩ := Option.map_eq_some_iff.1 h
          cases Except.ok.inj hok
          exact hdate

/-- A literal whose tokens resolve is expanded, unless it is left open. -/
theorem expandAst_literal {l : UserInputLiteral} {ast : UserInputAst}
    (hbound : phraseBound bindings l.phrase)
    (h : substituteLiteral DbErr bindings clock l = some ast) :
    expandAst bindings clock (.leaf (.literal l)) = some ast ↔
      ∀ text ∈ (UserInputLeaf.literal l).skipped, expandText bindings clock text = some text := by
  obtain ⟨s, hs, rfl⟩ := Option.map_eq_some_iff.1 h
  have hmarker : s ≠ .marker := by
    rw [Ne, substituteFrom_marker (fun _ _ => tokenBound_iff) _ _ _ s hs]
    simpa [phraseBound] using hbound
  have hexpands := substituteFrom_expands (fun _ _ => tokenText_of_resolveToken) _ _ _ s hs hmarker
  rw [expandAst, expandLeaf, UserInputLeaf.skipped]
  split at hexpands
  · next hleft =>
      subst hexpands
      rw [if_pos hleft, List.forall_mem_singleton]
      cases l
      cases expandText bindings clock _ <;> simp
  · next hleft =>
      rw [if_neg hleft]
      obtain ⟨text, htext, hs⟩ := hexpands
      refine iff_of_true ?_ fun _ h => by cases h
      rw [expandText, htext]
      rcases hs with rfl | ⟨rfl, _, rfl⟩
      · rfl
      · simp

theorem expandBound_eq_self_iff {bound : UserInputBound} :
    expandBound bindings clock bound = some bound ↔
      ∀ text ∈ bound.texts, expandText bindings clock text = some text := by
  cases bound with
  | unbounded => exact iff_of_true rfl fun _ h => by cases h
  | _ value => simp [expandBound, UserInputBound.texts]

/-- The other leaves are left alone. -/
theorem expandLeaf_eq_self_iff {l : UserInputLeaf} (hl : ∀ lit, l ≠ .literal lit) :
    expandLeaf bindings clock l = some l ↔
      ∀ text ∈ l.skipped, expandText bindings clock text = some text := by
  cases l with
  | literal lit => exact absurd rfl (hl lit)
  | range field lower upper =>
      rw [UserInputLeaf.skipped, List.forall_mem_append, ← expandBound_eq_self_iff,
        ← expandBound_eq_self_iff, expandLeaf]
      cases expandBound bindings clock lower with
      | none => simp
      | some lower' => cases expandBound bindings clock upper <;> simp
  | set field elements =>
      rw [expandLeaf, UserInputLeaf.skipped]
      constructor
      · intro h
        obtain ⟨elements', helements, heq⟩ := Option.map_eq_some_iff.1 h
        cases heq
        exact fun text htext => List.forall₂_same.1 (mapM_eq_some_iff.1 helements) text htext
      · intro h
        exact Option.map_eq_some_iff.2 ⟨elements, mapM_eq_some_iff.2 (List.forall₂_same.2 h), rfl⟩
  | _ => exact iff_of_true rfl fun _ h => by cases h

mutual

/-- A query whose tokens resolve is expanded in full exactly if the texts that are left
    alone are what they expand to. -/
theorem expandAst_iff (ast ast' : UserInputAst) (hbound : AllBound bindings ast)
    (h : substitutePlaceholders DbErr bindings clock ast = some ast') :
    expandAst bindings clock ast = some ast' ↔ SkipsNothing bindings clock ast := by
  cases ast with
  | clause children =>
      rw [substitutePlaceholders] at h
      obtain ⟨children', hchildren, rfl⟩ := Option.map_eq_some_iff.1 h
      rw [expandAst, SkipsNothing, leaves, ← expandChildren_iff children children' hbound hchildren]
      simp
  | boost inner =>
      rw [substitutePlaceholders] at h
      obtain ⟨inner', hinner, rfl⟩ := Option.map_eq_some_iff.1 h
      have hiff := expandAst_iff inner inner' hbound hinner
      rw [expandAst, SkipsNothing, leaves, ← SkipsNothing, ← hiff]
      simp
  | leaf l =>
      rw [SkipsNothing, leaves, List.forall_mem_singleton]
      cases l with
      | literal l =>
          rw [substitutePlaceholders] at h
          exact expandAst_literal (hbound _ (List.mem_singleton.2 rfl) _ (List.mem_singleton.2 rfl)) h
      | _ =>
          cases Option.some.inj h
          refine Iff.trans ?_ (expandLeaf_eq_self_iff fun _ hlit => by cases hlit)
          rw [expandAst]
          simp

theorem expandChildren_iff (children children' : List (Option Occur × UserInputAst))
    (hbound : ∀ l ∈ leavesEach children, ∀ text ∈ l.texts, phraseBound bindings text)
    (h : substituteChildren DbErr bindings clock children = some children') :
    expandChildren bindings clock children = some children' ↔
      ∀ l ∈ leavesEach children, ∀ text ∈ l.skipped, expandText bindings clock text = some text := by
  cases children with
  | nil =>
      rw [substituteChildren] at h
      cases Option.some.inj h
      exact iff_of_true rfl fun _ h => by cases h
  | cons child rest =>
      rw [substituteChildren] at h
      obtain ⟨first, hfirst, h⟩ := Option.bind_eq_some_iff.1 h
      obtain ⟨others, hothers, h⟩ := Option.bind_eq_some_iff.1 h
      cases Option.some.inj h
      rw [leavesEach] at hbound ⊢
      rw [List.forall_mem_append] at hbound ⊢
      rw [← expandChildren_iff rest others hbound.2 hothers]
      have hchild := expandAst_iff child.2 first hbound.1 hfirst
      rw [SkipsNothing] at hchild
      rw [← hchild, expandChildren]
      cases expandAst bindings clock child.2 with
      | none => simp
      | some first' => cases expandChildren bindings clock rest <;> simp

end

end Query

/-! ## A composition -/

section Composition

variable {DbErr : Type} {bindings : CompositionBindings} {clock : Clock} {env : Env}
  {grammar : Grammar} {lookup : ResourceLookup DbErr} {order : KeyVisit} {searches : SavedSearches}

def CompositionError.IsPlaceholderError : CompositionError DbErr → Prop
  | .invalidPlaceholderSyntax _ => True
  | .unboundPlaceholders _ => True
  | _ => False

/-- Placeholders are replaced in full, or the render fails for a placeholder. -/
structure FullySubstituted (bindings : CompositionBindings) (clock : Clock) (env : Env)
    (grammar : Grammar) (lookup : ResourceLookup DbErr) (order : KeyVisit)
    (searches : SavedSearches) : Prop where
  replaced : ∀ ast, render bindings clock env grammar lookup order searches = some (.ok ast) →
    ∃ renderings asts, lowerAll env grammar lookup order searches = .ok renderings ∧
      renderings.mapM (expandAst bindings clock) = some asts ∧
      ast = andClause (asts.map fun a => orClause [a])
  refused : ∀ renderings, lowerAll env grammar lookup order searches = .ok renderings →
    (∃ ast ∈ renderings, ¬ AllBound bindings ast) →
    ∃ e, render bindings clock env grammar lookup order searches = some (.error e) ∧
      e.IsPlaceholderError

/-- The code meets this on children that are lowered when every token resolves and either
    no query comes out or the texts that are left alone are what they expand to. -/
def SubstitutesEnough (bindings : CompositionBindings) (clock : Clock) (env : Env)
    (grammar : Grammar) (lookup : ResourceLookup DbErr) (order : KeyVisit)
    (searches : SavedSearches) : Prop :=
  ∀ renderings, lowerAll env grammar lookup order searches = .ok renderings →
    (∀ ast ∈ renderings, AllBound bindings ast) ∧
    ((∃ ast ∈ renderings, searches.options.maxDepth < nestingDepth ast) ∨
      (∃ ast ∈ renderings, substitutePlaceholders DbErr bindings clock ast = none) ∨
      ∀ ast ∈ renderings, SkipsNothing bindings clock ast)

/-- No render fails for a placeholder once its children are lowered. -/
theorem not_placeholderError {renderings : List UserInputAst} {e : CompositionError DbErr}
    (hlower : lowerAll env grammar lookup order searches = .ok renderings)
    (h : render bindings clock env grammar lookup order searches = some (.error e)) :
    ¬ e.IsPlaceholderError := by
  cases hsub : renderings.mapM (substitutePlaceholders DbErr bindings clock) with
  | none =>
      rw [render, hlower] at h
      simp only [hsub, Option.map_none] at h
      cases h
  | some asts =>
      rw [render_of_rendered ⟨renderings, hlower, hsub⟩] at h
      have h := Option.some.inj h
      split at h
      · cases Except.error.inj h
        exact id
      · cases h

theorem withOccur_injective (occur : Occur) :
    Function.Injective (withOccur occur : List UserInputAst → UserInputAst) := by
  intro asts asts' h
  refine List.map_injective_iff.2 ?_ (Query.clause.inj h)
  intro a a' ha
  exact congrArg Prod.snd ha

theorem fold_injective :
    Function.Injective fun asts : List UserInputAst => andClause (asts.map fun a => orClause [a]) := by
  intro asts asts' h
  refine List.map_injective_iff.2 ?_ (withOccur_injective .must h)
  intro a a' ha
  exact List.head_eq_of_cons_eq (withOccur_injective .should ha)

/-- The depth of the children is the same before and after substitution. -/
theorem within_substituted_iff {renderings asts : List UserInputAst} {limit : Nat}
    (hsub : renderings.mapM (substitutePlaceholders DbErr bindings clock) = some asts) :
    (∀ a ∈ asts, nestingDepth a ≤ limit) ↔ ∀ ast ∈ renderings, nestingDepth ast ≤ limit := by
  have hpairs := mapM_eq_some_iff.1 hsub
  constructor
  · intro h ast hast
    obtain ⟨a, ha, hpair⟩ := exists_right_of_forall₂ hpairs ast hast
    rw [← nestingDepth_substitute _ _ hpair]
    exact h a ha
  · intro h a ha
    obtain ⟨ast, hast, hpair⟩ := exists_left_of_forall₂ hpairs a ha
    rw [nestingDepth_substitute _ _ hpair]
    exact h ast hast

/-- Children whose tokens resolve are expanded in full exactly if no text that matters is
    left alone. -/
theorem expanded_iff {renderings asts : List UserInputAst}
    (hbound : ∀ ast ∈ renderings, AllBound bindings ast)
    (hsub : renderings.mapM (substitutePlaceholders DbErr bindings clock) = some asts) :
    renderings.mapM (expandAst bindings clock) = some asts ↔
      ∀ ast ∈ renderings, SkipsNothing bindings clock ast := by
  have hpairs := mapM_eq_some_iff.1 hsub
  rw [mapM_eq_some_iff]
  constructor
  · intro hexpand ast hast
    have hboth : List.Forall₂ (fun ast a => substitutePlaceholders DbErr bindings clock ast = some a ∧
        expandAst bindings clock ast = some a) renderings asts :=
      List.Forall₂.mp (fun _ _ => And.intro) hpairs hexpand
    obtain ⟨a, _, ha, hexpanded⟩ := exists_right_of_forall₂ hboth ast hast
    exact (expandAst_iff ast a (hbound ast hast) ha).1 hexpanded
  · intro hskips
    have hall : ∀ ast ∈ renderings, AllBound bindings ast ∧ SkipsNothing bindings clock ast :=
      fun ast hast => ⟨hbound ast hast, hskips ast hast⟩
    refine List.Forall₂.imp ?_ ((List.forall₂_and_left _ _).2 ⟨hall, hpairs⟩)
    rintro ast a ⟨⟨hb, hs⟩, ha⟩
    exact (expandAst_iff ast a hb ha).2 hs

/-- **PLACEHOLDERS ARE REPLACED IN FULL, OR THE RENDER FAILS** exactly if every token of the
    lowered children resolves and, where a query comes out, the texts that the code leaves
    alone are what they expand to. -/
theorem fullySubstituted_iff (bindings : CompositionBindings) (clock : Clock) (env : Env)
    (grammar : Grammar) (lookup : ResourceLookup DbErr) (order : KeyVisit)
    (searches : SavedSearches) :
    FullySubstituted bindings clock env grammar lookup order searches ↔
      SubstitutesEnough bindings clock env grammar lookup order searches := by
  constructor
  · intro hfull renderings hlower
    have hbound : ∀ ast ∈ renderings, AllBound bindings ast := by
      intro ast hast
      by_contra hnot
      obtain ⟨e, he, hplaceholder⟩ := hfull.refused renderings hlower ⟨ast, hast, hnot⟩
      exact not_placeholderError hlower he hplaceholder
    refine ⟨hbound, ?_⟩
    by_cases hdeep : ∃ ast ∈ renderings, searches.options.maxDepth < nestingDepth ast
    · exact Or.inl hdeep
    cases hsub : renderings.mapM (substitutePlaceholders DbErr bindings clock) with
    | none => exact Or.inr (Or.inl (mapM_eq_none_iff.1 hsub))
    | some asts =>
        -- the render succeeds, with the children as the code substitutes them
        have hwithin : ∀ ast ∈ renderings, nestingDepth ast ≤ searches.options.maxDepth :=
          fun ast hast => not_lt.1 fun hlt => hdeep ⟨ast, hast, hlt⟩
        have hrender := render_eq_ok_iff.2 ⟨asts, ⟨renderings, hlower, hsub⟩,
          (within_substituted_iff hsub).2 hwithin, rfl⟩
        obtain ⟨renderings', asts', hlower', hexpand, hfold⟩ := hfull.replaced _ hrender
        cases Except.ok.inj (hlower.symm.trans hlower')
        cases fold_injective hfold
        exact Or.inr (Or.inr ((expanded_iff hbound hsub).1 hexpand))
  · intro henough
    constructor
    · intro ast h
      obtain ⟨asts, ⟨renderings, hlower, hsub⟩, hdepth, rfl⟩ := render_eq_ok_iff.1 h
      obtain ⟨hbound, hdeep | hstops | hskips⟩ := henough renderings hlower
      · obtain ⟨ast, hast, hlt⟩ := hdeep
        exact absurd ((within_substituted_iff hsub).1 hdepth ast hast) (not_le.2 hlt)
      · cases (mapM_eq_none_iff.2 hstops).symm.trans hsub
      · exact ⟨renderings, asts, hlower, (expanded_iff hbound hsub).2 hskips, rfl⟩
    · rintro renderings hlower ⟨ast, hast, hnot⟩
      exact absurd ((henough renderings hlower).1 ast hast) hnot

/-- A title filter with a name that is not bound. -/
theorem not_fullySubstituted_unbound :
    ¬ FullySubstituted ∅ (fun _ => none) Env.reference oneWord emptyLookup plainVisit
      (single (.text (.byTitle "$$x$$"))) := by
  intro hfull
  have hunbound : ¬ AllBound ∅ (fieldTermExact "title" "$$x$$") := by
    intro hbound
    have hphrase := hbound _ (List.mem_singleton.2 rfl) _ (List.mem_singleton.2 rfl)
    have htoken : placeholders "$$x$$".toList = ["x"] := by
      have hopen : splitDollars "$$x$$".toList = some ([], ['x', '$', '$']) := by decide
      rw [placeholders_closed hopen (by decide : _ = some (['x'], [])),
        placeholders_none (by decide)]
    have hx := hphrase "x" (by rw [htoken]; exact List.mem_singleton.2 rfl)
    exact absurd hx (by decide)
  obtain ⟨e, he, hplaceholder⟩ := hfull.refused _ rfl ⟨_, List.mem_cons_self, hunbound⟩
  exact not_placeholderError rfl he hplaceholder

end Composition

end SavedSearch
