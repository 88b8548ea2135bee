import Livtet.Rendered

/-! # The rows a composition refers to

    The ids are collected by one recursion over the children, grouped by axis, looked
    for and named in batches, and found again by the recursion that lowers the children.
    Nothing is lost on the way: a row that is gone is reported before anything is
    lowered, and a filter is lowered with the name that was given for its own axis and
    id. -/

namespace SavedSearch

open BoolQuery Maps SyncStore SyncPairing Outcomes

/-! ## The ids in a tree -/

/-- The id occurs in the tree, at any depth. -/
inductive Refers : ResourceKind × DbId → SavedSearchKind → Prop
  | author {id : DbId} : Refers (.author, id) (.categorization (.byAuthor id))
  | genre {id : DbId} : Refers (.genre, id) (.categorization (.byGenre id))
  | subject {id : DbId} : Refers (.subject, id) (.categorization (.bySubject id))
  | series {id : DbId} : Refers (.series, id) (.categorization (.bySeries id))
  | publisher {id : DbId} : Refers (.publisher, id) (.categorization (.byPublisher id))
  | tag {id : DbId} : Refers (.tag, id) (.categorization (.byTag id))
  | and {r : ResourceKind × DbId} {k : SavedSearchKind} {of : List SavedSearchKind}
      (hk : k ∈ of) (h : Refers r k) : Refers r (.and of)
  | or {r : ResourceKind × DbId} {k : SavedSearchKind} {of : List SavedSearchKind}
      (hk : k ∈ of) (h : Refers r k) : Refers r (.or of)
  | not {r : ResourceKind × DbId} {of : SavedSearchKind} (h : Refers r of) : Refers r (.not of)

theorem mem_referencedIds_categorization {r : ResourceKind × DbId} {c : CategorizationSearch} :
    r ∈ c.referencedIds ↔ Refers r (.categorization c) := by
  constructor
  · intro h
    cases c with
    | inCollection id => cases h
    | _ id =>
        cases List.mem_singleton.1 h
        constructor
  · intro h
    cases h <;> exact List.mem_singleton.2 rfl

mutual

/-- The recursion collects the ids that occur, and no others. -/
theorem mem_referencedIds (k : SavedSearchKind) {r : ResourceKind × DbId} :
    r ∈ referencedIds k ↔ Refers r k := by
  cases k with
  | and of =>
      rw [referencedIds, mem_referencedIdsEach of]
      refine ⟨?_, fun h => by cases h with | and hk h => exact ⟨_, hk, h⟩⟩
      rintro ⟨_, hk, h⟩
      exact .and hk h
  | or of =>
      rw [referencedIds, mem_referencedIdsEach of]
      refine ⟨?_, fun h => by cases h with | or hk h => exact ⟨_, hk, h⟩⟩
      rintro ⟨_, hk, h⟩
      exact .or hk h
  | not of =>
      rw [referencedIds, mem_referencedIds of]
      exact ⟨.not, fun h => by cases h with | not h => exact h⟩
  | categorization c =>
      rw [referencedIds]
      exact mem_referencedIds_categorization
  | _ => exact iff_of_false (by rintro ⟨⟩) (by rintro ⟨⟩)

theorem mem_referencedIdsEach (ks : List SavedSearchKind) {r : ResourceKind × DbId} :
    r ∈ referencedIdsEach ks ↔ ∃ k ∈ ks, Refers r k := by
  cases ks with
  | nil => exact iff_of_false List.not_mem_nil fun h =>
      absurd h.choose_spec.1 List.not_mem_nil
  | cons k rest =>
      rw [referencedIdsEach, List.mem_append, mem_referencedIds k, mem_referencedIdsEach rest,
        List.exists_mem_cons_iff]

end

/-- Some child refers to the row. -/
def SavedSearches.Refers (searches : SavedSearches) (r : ResourceKind × DbId) : Prop :=
  ∃ c ∈ searches.children, SavedSearch.Refers r c.definition

theorem mem_references {searches : SavedSearches} {r : ResourceKind × DbId} :
    r ∈ searches.references ↔ searches.Refers r := by
  rw [SavedSearches.references, List.mem_flatMap]
  exact exists_congr fun c => and_congr_right fun _ => mem_referencedIds c.definition

/-! ## The names that are given -/

section Names

variable {DbErr : Type} {lookup : ResourceLookup DbErr} {order : KeyVisit}
  {refs : List (ResourceKind × DbId)}

/-- The name that the lookup gives an id when it is asked for all the ids of the axis. -/
def ResourceLookup.givenName (lookup : ResourceLookup DbErr) (refs : List (ResourceKind × DbId))
    (r : ResourceKind × DbId) : Option String :=
  match lookup.names r.1 (idsOf refs r.1) with
  | .ok resolved => resolved.reverse.lookup r.2
  | .error _ => none

/-- One batch: a name of the batch where there is one, and what was there before. -/
theorem lookup_batch (kind : ResourceKind) (resolved : List (DbId × String)) (names : NameMap)
    (r : ResourceKind × DbId) :
    (resolved.foldl (fun names p => names.insert (kind, p.1) p.2) names).lookup r =
      if r.1 = kind then (resolved.reverse.lookup r.2).or (names.lookup r) else names.lookup r := by
  induction resolved generalizing names with
  | nil => simp
  | cons p rest ih =>
      have hone : [p].lookup r.2 = if r.2 = p.1 then some p.2 else none := by
        by_cases hid : r.2 = p.1
        · rw [if_pos hid, hid, List.lookup_cons_self]
        · rw [if_neg hid, List.lookup_cons, beq_eq_false_iff_ne.2 hid]
          rfl
      rw [List.foldl_cons, ih, List.reverse_cons, List.lookup_append, hone]
      by_cases hkind : r.1 = kind
      · rw [if_pos hkind, if_pos hkind]
        by_cases hid : r.2 = p.1
        · have hr : r = (kind, p.1) := Prod.ext hkind hid
          rw [if_pos hid, hr, AList.lookup_insert]
          cases rest.reverse.lookup (kind, p.1).2 <;> rfl
        · have hr : r ≠ (kind, p.1) := fun hr => hid (congrArg Prod.snd hr)
          rw [if_neg hid, AList.lookup_insert_ne hr]
          cases rest.reverse.lookup r.2 <;> rfl
      · have hr : r ≠ (kind, p.1) := fun hr => hkind (congrArg Prod.fst hr)
        rw [if_neg hkind, if_neg hkind, AList.lookup_insert_ne hr]

/-- The batches of the axes, one after the other. -/
theorem lookup_batches {kinds : List ResourceKind} {before names : NameMap}
    (h : kinds.foldlM (fun names kind =>
      match lookup.names kind (idsOf refs kind) with
      | .error e => .error (.db e)
      | .ok resolved =>
          .ok (resolved.foldl (fun names p => names.insert (kind, p.1) p.2) names)) before =
      (.ok names : Except (CompositionError DbErr) NameMap)) (r : ResourceKind × DbId) :
    names.lookup r = if r.1 ∈ kinds then (lookup.givenName refs r).or (before.lookup r)
      else before.lookup r := by
  induction kinds generalizing before with
  | nil =>
      cases Except.ok.inj h
      rfl
  | cons kind rest ih =>
      obtain ⟨middle, hmiddle, hrest⟩ := foldlM_cons_eq_ok.1 h
      cases hnames : lookup.names kind (idsOf refs kind) with
      | error e =>
          rw [hnames] at hmiddle
          cases hmiddle
      | ok resolved =>
          rw [hnames] at hmiddle
          cases Except.ok.inj hmiddle
          rw [ih hrest, lookup_batch]
          by_cases hkind : r.1 = kind
          · have hgiven : lookup.givenName refs r = resolved.reverse.lookup r.2 := by
              rw [ResourceLookup.givenName, hkind, hnames]
            have hmem : r.1 ∈ kind :: rest := hkind ▸ List.mem_cons_self
            rw [if_pos hkind, if_pos hmem, hgiven]
            split
            · cases resolved.reverse.lookup r.2 <;> rfl
            · rfl
          · have hmem : r.1 ∈ kind :: rest ↔ r.1 ∈ rest := by simp [hkind]
            rw [if_neg hkind]
            simp only [hmem]

/-- The name a referenced row is known by is the one given for its axis and id. -/
theorem lookup_resolveNames {names : NameMap} (h : resolveNames lookup order refs = .ok names)
    {r : ResourceKind × DbId} (hr : r ∈ refs) : names.lookup r = lookup.givenName refs r := by
  have hkind : r.1 ∈ axes order refs := mem_axes.2 ⟨r.2, hr⟩
  rw [lookup_batches h r, if_pos hkind, AList.lookup_empty, Option.or_none]

end Names

/-! ## Lowering with the names that are given -/

def ResourceKind.idField : ResourceKind → String
  | .author => "author_id"
  | .genre => "genre_id"
  | .subject => "subject_id"
  | .series => "series_id"
  | .publisher => "publisher_id"
  | .tag => "tag_id"

def ResourceKind.textField : ResourceKind → String
  | .author => "authors"
  | .genre => "genres"
  | .subject => "subjects"
  | .series => "series"
  | .publisher => "publishers"
  | .tag => "tags"

section Lowers

variable (env : Env) (grammar : Grammar) (nameOf : ResourceKind × DbId → Option String)

mutual

/-- What a tree is lowered to when its rows go by these names: a filter on a row asks for
    its id, or for its id or its name. -/
inductive Lowers : SavedSearchKind → UserInputAst → Prop
  | id {c : CategorizationSearch} {r : ResourceKind × DbId} (hr : Refers r (.categorization c))
      (hname : nameOf r = none) :
      Lowers (.categorization c) (fieldTermExact r.1.idField (r.2.text env))
  | idOrName {c : CategorizationSearch} {r : ResourceKind × DbId} {name : String}
      (hr : Refers r (.categorization c)) (hname : nameOf r = some name) :
      Lowers (.categorization c) (orClause [fieldTermExact r.1.idField (r.2.text env),
        fieldTermUndelimited r.1.textField name])
  | inCollection {id : DbId} :
      Lowers (.categorization (.inCollection id)) (fieldTermExact "collection_id" (id.text env))
  | limit {l : LimitSearch} : Lowers (.limit l) l.intoAst
  | format {f : FormatSearch} : Lowers (.format f) f.intoAst
  | identifier {i : IdentifierSearch} : Lowers (.identifier i) i.intoAst
  | availability {a : AvailabilitySearch} : Lowers (.availability a) a.intoAst
  | ordering {o : OrderingSearch} : Lowers (.ordering o) o.intoAst
  | text {t : TextSearch} : Lowers (.text t) t.intoAst
  | userDefined {queryDsl : String} {ast : UserInputAst}
      (h : parseUserDsl grammar queryDsl = .ok ast) : Lowers (.userDefined queryDsl) ast
  | not {of : SavedSearchKind} {ast : UserInputAst} (h : Lowers of ast) :
      Lowers (.not of) (mustNotClause ast)
  | andNone : Lowers (.and []) (fieldExists "_all")
  | and {of : List SavedSearchKind} {asts : List UserInputAst} (hne : of ≠ [])
      (h : LowersEach of asts) : Lowers (.and of) (andClause asts)
  | orNone : Lowers (.or []) (fieldExists "_all")
  | or {of : List SavedSearchKind} {asts : List UserInputAst} (hne : of ≠ [])
      (h : LowersEach of asts) : Lowers (.or of) (orClause asts)

inductive LowersEach : List SavedSearchKind → List UserInputAst → Prop
  | nil : LowersEach [] []
  | cons {k : SavedSearchKind} {ks : List SavedSearchKind} {ast : UserInputAst}
      {asts : List UserInputAst} (h : Lowers k ast) (hs : LowersEach ks asts) :
      LowersEach (k :: ks) (ast :: asts)

end

variable {env grammar nameOf} {names : NameMap}

theorem lowers_hybrid {c : CategorizationSearch} {kind : ResourceKind} {id : DbId}
    (hr : Refers (kind, id) (.categorization c))
    (hnames : names.lookup (kind, id) = nameOf (kind, id)) :
    Lowers env grammar nameOf (.categorization c)
      (hybrid env names kind id kind.idField kind.textField) := by
  rw [hybrid]
  cases hname : nameOf (kind, id) with
  | none =>
      rw [hnames, hname]
      exact Lowers.id hr hname
  | some name =>
      rw [hnames, hname]
      exact Lowers.idOrName hr hname

theorem lowers_categorization (c : CategorizationSearch)
    (hnames : ∀ r, Refers r (.categorization c) → names.lookup r = nameOf r) :
    Lowers env grammar nameOf (.categorization c) (c.intoAstWithNames env names) := by
  cases c with
  | byAuthor id => exact lowers_hybrid .author (hnames _ .author)
  | byGenre id => exact lowers_hybrid .genre (hnames _ .genre)
  | bySubject id => exact lowers_hybrid .subject (hnames _ .subject)
  | bySeries id => exact lowers_hybrid .series (hnames _ .series)
  | byPublisher id => exact lowers_hybrid .publisher (hnames _ .publisher)
  | byTag id => exact lowers_hybrid .tag (hnames _ .tag)
  | inCollection id => exact Lowers.inCollection

mutual

/-- The recursion over the children lowers with the names it finds for their rows. -/
theorem lowers_of_intoAst (k : SavedSearchKind) (hnames : ∀ r, Refers r k → names.lookup r = nameOf r)
    (ast : UserInputAst) (h : intoAstWithNames env names grammar k = .ok ast) :
    Lowers env grammar nameOf k ast := by
  cases k with
  | and of =>
      rw [intoAstWithNames] at h
      obtain ⟨asts, hasts, h⟩ := bind_eq_ok.1 h
      -- an empty list of children has a tree of its own
      have heach := lowersEach_of_intoAsts of (fun k hk r hr => hnames r (.and hk hr)) asts hasts
      cases heach with
      | nil =>
          cases Except.ok.inj h
          exact Lowers.andNone
      | cons hfirst hrest =>
          cases Except.ok.inj h
          exact Lowers.and (List.cons_ne_nil _ _) (LowersEach.cons hfirst hrest)
  | or of =>
      rw [intoAstWithNames] at h
      obtain ⟨asts, hasts, h⟩ := bind_eq_ok.1 h
      have heach := lowersEach_of_intoAsts of (fun k hk r hr => hnames r (.or hk hr)) asts hasts
      cases heach with
      | nil =>
          cases Except.ok.inj h
          exact Lowers.orNone
      | cons hfirst hrest =>
          cases Except.ok.inj h
          exact Lowers.or (List.cons_ne_nil _ _) (LowersEach.cons hfirst hrest)
  | not of =>
      rw [intoAstWithNames] at h
      obtain ⟨inner, hinner, h⟩ := bind_eq_ok.1 h
      cases Except.ok.inj h
      exact Lowers.not (lowers_of_intoAst of (fun r hr => hnames r (.not hr)) inner hinner)
  | categorization c =>
      cases Except.ok.inj h
      exact lowers_categorization c hnames
  | userDefined queryDsl =>
      rw [intoAstWithNames] at h
      exact Lowers.userDefined h
  | limit l => cases Except.ok.inj h; exact Lowers.limit
  | format f => cases Except.ok.inj h; exact Lowers.format
  | identifier i => cases Except.ok.inj h; exact Lowers.identifier
  | availability a => cases Except.ok.inj h; exact Lowers.availability
  | ordering o => cases Except.ok.inj h; exact Lowers.ordering
  | text t => cases Except.ok.inj h; exact Lowers.text

theorem lowersEach_of_intoAsts (ks : List SavedSearchKind)
    (hnames : ∀ k ∈ ks, ∀ r, Refers r k → names.lookup r = nameOf r) (asts : List UserInputAst)
    (h : intoAsts env names grammar ks = .ok asts) : LowersEach env grammar nameOf ks asts := by
  cases ks with
  | nil =>
      rw [intoAsts] at h
      cases Except.ok.inj h
      exact LowersEach.nil
  | cons k rest =>
      rw [intoAsts] at h
      obtain ⟨first, hfirst, h⟩ := bind_eq_ok.1 h
      obtain ⟨others, hothers, h⟩ := bind_eq_ok.1 h
      cases Except.ok.inj h
      obtain ⟨hk, hrest⟩ := List.forall_mem_cons.1 hnames
      exact LowersEach.cons (lowers_of_intoAst k hk first hfirst)
        (lowersEach_of_intoAsts rest hrest others hothers)

end

end Lowers

/-! ## What a render makes of its references -/

section Stale

variable {DbErr : Type} {bindings : CompositionBindings} {clock : Clock} {env : Env}
  {grammar : Grammar} {lookup : ResourceLookup DbErr} {order : KeyVisit} {searches : SavedSearches}

/-- The lookup answers whatever it is asked. -/
structure ResourceLookup.Answers (lookup : ResourceLookup DbErr) : Prop where
  isPresent : ∀ kind id, ∃ found, lookup.isPresent kind id = .ok found
  names : ∀ kind ids, ∃ resolved, lookup.names kind ids = .ok resolved

/-- The row is referred to and is not there. -/
def Stale (lookup : ResourceLookup DbErr) (searches : SavedSearches) (r : ResourceKind × DbId) :
    Prop :=
  searches.Refers r ∧ lookup.isPresent r.1 r.2 = .ok false

/-- The check fails with the missing ids of one axis. -/
theorem stale_of_checkReferences (hanswers : lookup.Answers)
    {e : CompositionError DbErr}
    (h : checkReferences lookup order searches.references = .error e) :
    ∃ stale, e = .staleReferences stale ∧ stale ≠ [] ∧ ∀ r ∈ stale, Stale lookup searches r := by
  obtain ⟨kind, hkind, herror⟩ := error_of_forM h
  obtain ⟨stale, hstale⟩ : ∃ stale, stale = [] ++ ((idsOf searches.references kind).map
    fun id => (kind, id)).filter lookup.isMissing := ⟨_, rfl⟩
  have hfold := stale_eq_ok_iff.2 ⟨fun id _ => hanswers.isPresent kind id, hstale⟩
  have herror := (bind_eq_of_ok hfold).symm.trans herror
  split at herror
  · cases herror
  · next hne =>
      refine ⟨stale, (Except.error.inj herror).symm, fun hnil => hne (by rw [hnil]; rfl), ?_⟩
      intro r hr
      rw [hstale, List.nil_append, List.mem_filter] at hr
      obtain ⟨hmem, hmissing⟩ := hr
      obtain ⟨id, hid, rfl⟩ := List.mem_map.1 hmem
      refine ⟨mem_references.1 (mem_idsOf.1 hid), ?_⟩
      obtain ⟨found, hfound⟩ := hanswers.isPresent kind id
      rw [ResourceLookup.isMissing, hfound] at hmissing
      rw [hfound]
      exact congrArg _ (by simpa using hmissing)

/-- A child that is not lowered is not reported as a stale reference. -/
theorem not_stale_of_lowerChildren {names : NameMap} {stale : List (ResourceKind × DbId)}
    (h : (lowerChildren env grammar names searches : Except (CompositionError DbErr) _) =
      .error (.staleReferences stale)) : False := by
  obtain ⟨child, _, herror⟩ := error_of_mapM h
  split at herror
  · cases herror
  · split at herror <;> cases herror

/-- A render fails with stale references exactly when the check of the references does. -/
theorem render_stale_iff (hdepth : 0 < searches.options.maxDepth)
    {stale : List (ResourceKind × DbId)} :
    render bindings clock env grammar lookup order searches =
        some (.error (.staleReferences stale)) ↔
      checkReferences lookup order searches.references = .error (.staleReferences stale) := by
  have hzero : searches.options.maxDepth ≠ 0 := Nat.pos_iff_ne_zero.1 hdepth
  cases hcheck : checkReferences lookup order searches.references with
  | error e =>
      have hlower : lowerAll env grammar lookup order searches = .error e := by
        rw [lowerAll, if_neg hzero, hcheck, error_bind]
      rw [render_of_error hlower, Option.some.injEq, Except.error.injEq]
      exact ⟨congrArg _, Except.error.inj⟩
  | ok _ =>
      -- past the check, no step reports a stale reference
      refine iff_of_false ?_ (by rintro ⟨⟩)
      intro h
      cases hlower : lowerAll env grammar lookup order searches with
      | error e =>
          rw [render_of_error hlower] at h
          cases Except.error.inj (Option.some.inj h)
          rw [lowerAll, if_neg hzero, hcheck, ok_bind] at hlower
          cases hnames : resolveNames lookup order searches.references with
          | error e =>
              obtain ⟨d, rfl⟩ := db_of_resolveNames hnames
              rw [hnames] at hlower
              cases Except.error.inj hlower
          | ok names =>
              rw [hnames, ok_bind] at hlower
              exact not_stale_of_lowerChildren hlower
      | ok renderings =>
          cases hsub : renderings.mapM (substitutePlaceholders DbErr bindings clock) with
          | none =>
              rw [render, hlower] at h
              simp only [hsub, Option.map_none] at h
              cases h
          | some asts =>
              rw [render_of_rendered ⟨renderings, hlower, hsub⟩] at h
              split at h <;> cases h

/-- A render that succeeds has lowered each child with the names that the lookup gave. -/
theorem lowers_of_render {ast : UserInputAst}
    (h : render bindings clock env grammar lookup order searches = some (.ok ast)) :
    ∃ renderings asts,
      List.Forall₂ (fun c lowered =>
        Lowers env grammar (lookup.givenName searches.references) c.definition lowered)
        searches.children renderings ∧
      renderings.mapM (substitutePlaceholders DbErr bindings clock) = some asts ∧
      ast = andClause (asts.map fun a => orClause [a]) := by
  obtain ⟨asts, ⟨renderings, hlower, hsub⟩, _, rfl⟩ := render_eq_ok_iff.1 h
  obtain ⟨_, _, names, hnames, hchildren⟩ := lowerAll_eq_ok_iff.1 hlower
  refine ⟨renderings, asts, ?_, hsub, rfl⟩
  have hlowered := lowerChildren_eq_ok_iff.1 hchildren
  have hmem : ∀ c ∈ searches.children, ∀ r, Refers r c.definition →
      names.lookup r = lookup.givenName searches.references r := fun c hc r hr =>
    lookup_resolveNames hnames (mem_references.2 ⟨c, hc, hr⟩)
  refine List.Forall₂.imp ?_ ((List.forall₂_and_left _ _).2 ⟨hmem, hlowered⟩)
  rintro c lowered ⟨hc, hast, _⟩
  exact lowers_of_intoAst c.definition hc lowered hast

/-- **STALE REFERENCES ARE CAUGHT**: the render reports them exactly if a referenced row is
    gone, lists only such rows, and otherwise lowers each filter on a row to its id, or to
    its id or the name given for that id. -/
theorem staleReferences_caught (bindings : CompositionBindings) (clock : Clock) (env : Env)
    (grammar : Grammar) (lookup : ResourceLookup DbErr) (order : KeyVisit)
    (searches : SavedSearches) (hdepth : 0 < searches.options.maxDepth)
    (hanswers : lookup.Answers) :
    ((∃ stale, render bindings clock env grammar lookup order searches =
        some (.error (.staleReferences stale))) ↔ ∃ r, Stale lookup searches r) ∧
    (∀ stale, render bindings clock env grammar lookup order searches =
      some (.error (.staleReferences stale)) → ∀ r ∈ stale, Stale lookup searches r) ∧
    (∀ ast, render bindings clock env grammar lookup order searches = some (.ok ast) →
      ∃ renderings asts,
        List.Forall₂ (fun c lowered =>
          Lowers env grammar (lookup.givenName searches.references) c.definition lowered)
          searches.children renderings ∧
        renderings.mapM (substitutePlaceholders DbErr bindings clock) = some asts ∧
        ast = andClause (asts.map fun a => orClause [a])) := by
  have hlisted : ∀ stale, render bindings clock env grammar lookup order searches =
      some (.error (.staleReferences stale)) →
      stale ≠ [] ∧ ∀ r ∈ stale, Stale lookup searches r := by
    intro stale h
    obtain ⟨stale', heq, hne, hstale⟩ :=
      stale_of_checkReferences hanswers ((render_stale_iff hdepth).1 h)
    cases heq
    exact ⟨hne, hstale⟩
  refine ⟨⟨?_, ?_⟩, fun stale h => (hlisted stale h).2, fun ast h => lowers_of_render h⟩
  · rintro ⟨stale, h⟩
    obtain ⟨r, hr⟩ := List.exists_mem_of_ne_nil stale (hlisted stale h).1
    exact ⟨r, (hlisted stale h).2 r hr⟩
  · rintro ⟨r, hrefers, hgone⟩
    cases hcheck : checkReferences lookup order searches.references with
    | ok _ =>
        have hfound := checkReferences_eq_ok_iff.1 hcheck r (mem_references.2 hrefers)
        rw [hgone] at hfound
        cases hfound
    | error e =>
        obtain ⟨stale, rfl, _⟩ := stale_of_checkReferences hanswers hcheck
        exact ⟨stale, (render_stale_iff hdepth).2 hcheck⟩

/-- A lookup that knows the authors of one id. -/
def oneAuthor (known : DbId) : ResourceLookup String where
  isPresent kind id := .ok (kind == .author && id == known)
  names _ ids := .ok ((ids.filter (· == known)).map fun id => (id, "Herbert"))

/-- Two authors of whom one is gone. -/
theorem staleReferences_caught_author :
    ∃ stale, render ∅ (fun _ => none) Env.reference oneWord
        (oneAuthor ⟨List.replicate 16 0, rfl⟩) plainVisit
        (single (.and [.categorization (.byAuthor ⟨List.replicate 16 0, rfl⟩),
          .not (.categorization (.byAuthor ⟨List.replicate 16 1, rfl⟩))])) =
      some (.error (.staleReferences stale)) := by
  refine (staleReferences_caught _ _ _ _ _ _ _ (by decide) ⟨?_, ?_⟩).1.2 ?_
  · exact fun kind id => ⟨_, rfl⟩
  · exact fun kind ids => ⟨_, rfl⟩
  · refine ⟨(.author, ⟨List.replicate 16 1, rfl⟩), ⟨_, List.mem_cons_self, ?_⟩, by decide⟩
    exact .and (List.mem_cons_of_mem _ List.mem_cons_self) (.not .author)

end Stale

end SavedSearch
