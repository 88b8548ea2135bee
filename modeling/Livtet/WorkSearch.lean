import Livtet.WorkList

/-! # The search in the list of works

    The text that is searched for goes into a pattern as it is, and a `%` or a `_` in it
    stands for any characters, or for any one. So the list has all works with the text in
    the title or in the name of an author, of the work or of one of its editions. But a text
    with one of the two characters is found where it is not: the search is literal, whatever
    the library, exactly if it has neither (`searchesLiterally_iff`). -/

namespace WorkSearch

open SyncStore (Env)
open SyncPairing (DbId trim toLower_cases)
open Reindex (NamedRow Link)
open Library WorkList LikePatterns RankedSort

/-! ## What should be found -/

/-- The text is in the other, up to the case of ASCII letters. -/
def ContainsText (n s : String) : Prop := Contains Char.toLower n.toList s.toList

/-- The author is linked to the work, or to one of its editions. -/
def AuthorOf (db : Db) (work : DbId) (a : NamedRow) : Prop :=
  a ∈ db.tables.authors ∧ (⟨work, a.id⟩ ∈ db.tables.workAuthors ∨
    ∃ e ∈ db.tables.editions, e.workId = work ∧
      ∃ c ∈ db.tables.editionAuthors, c.editionId = e.id ∧ c.authorId = a.id)

/-- The title of the work is one of these, or the name of an author of it. -/
def Finds (p : String → Prop) (db : Db) (w : Model) : Prop :=
  p w.title ∨ ∃ a, AuthorOf db w.id a ∧ p a.name

section Property

variable (env : Env) (sortBy : Option WorkSortBy) (sortDirection : Option SortDirection)
  (q : String) (db : ListedDb)

/-- The work is on some page of this size. An offset is a number of 32 bits. -/
def Yielded (limit : Nat) (work : DbId) : Prop :=
  ∃ i, i * limit < 4294967296 ∧
    ∃ x ∈ pageAt env db limit sortBy sortDirection (some q) i, x.id = work

/-- Whatever the size of the pages, on them are the works with the text, and no others. -/
def SearchesLiterally : Prop :=
  ∀ limit, 1 ≤ limit → limit < 4294967296 → ∀ work,
    Yielded env sortBy sortDirection q db limit work ↔
      ∃ w ∈ db.models, w.id = work ∧ Finds (ContainsText (trim q)) db.toDb w

/-- The pattern of the text. -/
def patternOf (n : String) : String := "%" ++ n ++ "%"

/-- A work with a title or an author that matches the text as a pattern has one that contains
    it. -/
def FoundLiterally : Prop :=
  ∀ w ∈ db.models, Finds (fun s => like (patternOf (trim q)) s = true) db.toDb w →
    Finds (ContainsText (trim q)) db.toDb w

end Property

/-! ## What the query selects -/

section Selected

variable {env : Env} {db : Db} {pattern q : String} {work : DbId}

theorem mem_firstByText {ids : List DbId} :
    ∀ {seen : List String}, work ∈ firstByText env seen ids ↔
      work ∈ ids ∧ work.text env ∉ seen := by
  induction ids with
  | nil => exact fun {_} => iff_of_false List.not_mem_nil fun h => List.not_mem_nil h.1
  | cons id rest ih =>
      intro seen
      rw [firstByText]
      split
      · rename_i hseen
        rw [ih, List.mem_cons]
        refine and_congr_left fun hnew => (or_iff_right ?_).symm
        rintro rfl
        exact hnew (List.contains_iff_mem.1 hseen)
      · rename_i hnew
        rw [List.contains_iff_mem] at hnew
        rw [List.mem_cons, ih, List.mem_cons, List.mem_cons, not_or]
        constructor
        · rintro (rfl | ⟨hmem, _, hseen⟩)
          · exact ⟨Or.inl rfl, hnew⟩
          · exact ⟨Or.inr hmem, hseen⟩
        · rintro ⟨rfl | hmem, hseen⟩
          · exact Or.inl rfl
          by_cases hid : work = id
          · exact Or.inl hid
          · exact Or.inr ⟨hmem, fun htext => hid (DbId.text_injective env htext), hseen⟩

theorem mem_authorIds {id : DbId} :
    id ∈ (db.tables.authors.filter fun a => like pattern a.name).map (fun a => a.id) ↔
      ∃ a ∈ db.tables.authors, a.id = id ∧ like pattern a.name = true := by
  rw [List.mem_map]
  constructor
  · rintro ⟨a, ha, hid⟩
    exact ⟨a, (List.mem_filter.1 ha).1, hid, (List.mem_filter.1 ha).2⟩
  · rintro ⟨a, ha, hid, hlike⟩
    exact ⟨a, List.mem_filter.2 ⟨ha, hlike⟩, hid⟩

theorem mem_linkedWorks {ids : List DbId} :
    work ∈ (db.tables.workAuthors.filter fun l => ids.contains l.target).map (fun l => l.owner) ↔
      ∃ id ∈ ids, ⟨work, id⟩ ∈ db.tables.workAuthors := by
  rw [List.mem_map]
  constructor
  · rintro ⟨l, hl, rfl⟩
    obtain ⟨hmem, htarget⟩ := List.mem_filter.1 hl
    exact ⟨l.target, List.contains_iff_mem.1 htarget, hmem⟩
  · rintro ⟨id, hid, hmem⟩
    exact ⟨_, List.mem_filter.2 ⟨hmem, List.contains_iff_mem.2 hid⟩, rfl⟩

theorem mem_linkedEditions {ids : List DbId} {edition : DbId} :
    edition ∈ (db.tables.editionAuthors.filter fun c => ids.contains c.authorId).map
        (fun c => c.editionId) ↔
      ∃ c ∈ db.tables.editionAuthors, c.editionId = edition ∧ c.authorId ∈ ids := by
  rw [List.mem_map]
  constructor
  · rintro ⟨c, hc, hedition⟩
    obtain ⟨hmem, hauthor⟩ := List.mem_filter.1 hc
    exact ⟨c, hmem, hedition, List.contains_iff_mem.1 hauthor⟩
  · rintro ⟨c, hmem, hedition, hauthor⟩
    exact ⟨c, List.mem_filter.2 ⟨hmem, List.contains_iff_mem.2 hauthor⟩, hedition⟩

theorem mem_worksOf {editions : List DbId} :
    work ∈ (db.tables.editions.filter fun e => editions.contains e.id).map (fun e => e.workId) ↔
      ∃ e ∈ db.tables.editions, e.workId = work ∧ e.id ∈ editions := by
  rw [List.mem_map]
  constructor
  · rintro ⟨e, he, hwork⟩
    obtain ⟨hmem, hid⟩ := List.mem_filter.1 he
    exact ⟨e, hmem, hwork, List.contains_iff_mem.1 hid⟩
  · rintro ⟨e, hmem, hwork, hid⟩
    exact ⟨e, List.mem_filter.2 ⟨hmem, List.contains_iff_mem.2 hid⟩, hwork⟩

/-- The works of the authors that match, over either table of links. -/
theorem mem_worksAuthoredBy : work ∈ worksAuthoredBy env db pattern ↔
    ∃ a, AuthorOf db work a ∧ like pattern a.name = true := by
  -- the lists of ids first: an empty one ends the search early, with the same answer
  have hauthored : work ∈ worksAuthoredBy env db pattern ↔
      (∃ id ∈ (db.tables.authors.filter fun a => like pattern a.name).map (fun a => a.id),
        ⟨work, id⟩ ∈ db.tables.workAuthors) ∨
      ∃ e ∈ db.tables.editions, e.workId = work ∧ ∃ c ∈ db.tables.editionAuthors,
        c.editionId = e.id ∧
          c.authorId ∈ (db.tables.authors.filter fun a => like pattern a.name).map fun a => a.id := by
    rw [worksAuthoredBy]
    dsimp only
    split
    · rename_i hnone
      rw [List.isEmpty_iff] at hnone
      rw [hnone]
      refine iff_of_false List.not_mem_nil ?_
      rintro (⟨id, hid, _⟩ | ⟨e, _, _, c, _, _, hid⟩)
      · exact List.not_mem_nil hid
      · exact List.not_mem_nil hid
    · rw [mem_firstByText, and_iff_left List.not_mem_nil]
      split
      · rename_i hnone
        rw [List.isEmpty_iff] at hnone
        rw [mem_linkedWorks]
        refine (or_iff_left ?_).symm
        rintro ⟨e, _, _, c, hc, hedition, hauthor⟩
        have hmem := mem_linkedEditions.2 ⟨c, hc, hedition, hauthor⟩
        rw [hnone] at hmem
        exact List.not_mem_nil hmem
      · rw [List.mem_append, mem_linkedWorks, mem_worksOf]
        simp only [mem_linkedEditions]
  rw [hauthored]
  constructor
  · rintro (⟨id, hid, hlink⟩ | ⟨e, he, hwork, c, hc, hedition, hid⟩)
    · obtain ⟨a, ha, rfl, hlike⟩ := mem_authorIds.1 hid
      exact ⟨a, ⟨ha, Or.inl hlink⟩, hlike⟩
    · obtain ⟨a, ha, hauthor, hlike⟩ := mem_authorIds.1 hid
      exact ⟨a, ⟨ha, Or.inr ⟨e, he, hwork, c, hc, hedition, hauthor.symm⟩⟩, hlike⟩
  · rintro ⟨a, ⟨ha, hlink | ⟨e, he, hwork, c, hc, hedition, hauthor⟩⟩, hlike⟩
    · exact Or.inl ⟨a.id, mem_authorIds.2 ⟨a, ha, rfl, hlike⟩, hlink⟩
    · exact Or.inr ⟨e, he, hwork, c, hc, hedition,
        mem_authorIds.2 ⟨a, ha, hauthor.symm, hlike⟩⟩

theorem needle_some (hq : trim q ≠ "") : needle (some q) = some (trim q) :=
  if_pos (decide_eq_true hq)

theorem selected_iff (hq : trim q ≠ "") {w : Model} : selected env db (some q) w = true ↔
    Finds (fun s => like (patternOf (trim q)) s = true) db w := by
  rw [selected]
  rw [needle_some hq]
  dsimp only
  rw [Bool.or_eq_true, Bool.and_eq_true, List.contains_iff_mem, ← patternOf, mem_worksAuthoredBy,
    Finds]
  refine or_congr_right (and_iff_right_of_imp fun hauthor => ?_)
  have hmem := (@mem_worksAuthoredBy env _ _ _).2 hauthor
  cases hids : worksAuthoredBy env db (patternOf (trim q)) with
  | nil =>
      rw [hids] at hmem
      cases hmem
  | cons id rest => rfl

end Selected

/-! ## The pattern of a text -/

/-- What is folded to a character that is no letter is that character. -/
theorem eq_of_toLower {c d : Char} (hd : d.val.toNat < 97) (h : c.toLower = d) : c = d := by
  rcases toLower_cases c with hsame | ⟨hlow, hhigh, hshift⟩
  · exact hsame.symm.trans h
  · rw [h] at hshift
    omega

/-- No letter is folded to a wildcard. -/
theorem filler_x : Filler Char.toLower sqlWildcards 'x' where
  run := fun _ h => eq_of_toLower (by decide) h
  one := fun _ h => eq_of_toLower (by decide) h
  notRun := by decide
  notOne := by decide

theorem pattern_patternOf (n : String) :
    pattern sqlWildcards (patternOf n).toList = between sqlWildcards n.toList := by
  rw [patternOf, String.toList_append, String.toList_append, pattern, List.map_append,
    List.map_append]
  rfl

theorem like_patternOf (n s : String) : like (patternOf n) s =
    matchesWith Char.toLower (between sqlWildcards n.toList) s.toList := by
  rw [like, pattern_patternOf]

section Found

variable {q : String} {db : ListedDb}

theorem Finds.imp {p p' : String → Prop} {db : Db} {w : Model} (h : ∀ s, p s → p' s)
    (hw : Finds p db w) : Finds p' db w :=
  Or.imp (h _) (Exists.imp fun _ ha => ⟨ha.1, h _ ha.2⟩) hw

/-- The pattern finds all that has the text. -/
theorem finds_of_contains {db : Db} {w : Model} (h : Finds (ContainsText (trim q)) db w) :
    Finds (fun s => like (patternOf (trim q)) s = true) db w := by
  refine h.imp fun s hs => ?_
  rw [like_patternOf]
  exact matches_of_contains hs

end Found

/-! ## What is on the pages -/

section Pages

variable {env : Env} {sortBy : Option WorkSortBy} {sortDirection : Option SortDirection}
  {q : String} {db : ListedDb} {limit : Nat} {work : DbId}

theorem nodup_models : (db.models.map fun w => w.id).Nodup := by
  rw [ListedDb.models, List.map_map]
  exact db.sound.keys.workKeys

theorem mem_ordered (hq : trim q ≠ "") {w : Model} :
    w ∈ ordered env db sortBy sortDirection (some q) ↔
      w ∈ db.models ∧ Finds (fun s => like (patternOf (trim q)) s = true) db.toDb w := by
  rw [ordered_perm.mem_iff, matching, List.mem_filter, selected_iff hq]

/-- A work is on a page if its place in the order is. -/
theorem yielded_iff (hlimit : 1 ≤ limit) : Yielded env sortBy sortDirection q db limit work ↔
    ∃ (k : Nat) (w : Model), (ordered env db sortBy sortDirection (some q))[k]? = some w ∧
      w.id = work ∧ k / limit * limit < 4294967296 := by
  constructor
  · rintro ⟨i, hi, x, hx, hid⟩
    rw [pageAt_eq hlimit] at hx
    obtain ⟨w, hw, rfl⟩ := List.mem_map.1 hx
    obtain ⟨r, hr⟩ := List.mem_iff_getElem?.1 hw
    have hrlt : r < limit := by
      by_contra hge
      rw [page, List.getElem?_take, if_neg hge] at hr
      cases hr
    rw [getElem?_page hrlt] at hr
    refine ⟨i * limit + r, w, hr, hid, ?_⟩
    rw [Nat.mul_comm i limit, Nat.mul_add_div hlimit, Nat.div_eq_of_lt hrlt, Nat.add_zero]
    exact hi
  · rintro ⟨k, w, hw, hid, hk⟩
    refine ⟨k / limit, hk, summarize db.toDb w, ?_, hid⟩
    rw [pageAt_eq hlimit]
    refine List.mem_map_of_mem (List.mem_iff_getElem?.2 ⟨k % limit, ?_⟩)
    rw [getElem?_page (Nat.mod_lt k hlimit), Nat.mul_comm, Nat.div_add_mod, hw]

theorem few_of_literally
    (h : SearchesLiterally env sortBy sortDirection q db) :
    (matching env db (some q)).length ≤ 4294967296 := by
  by_contra hmany
  rw [← (@ordered_perm env db sortBy sortDirection (some q)).length_eq] at hmany
  -- the first work that has no page of its own is on the second of the widest pages
  obtain ⟨w, hw⟩ : ∃ w, (ordered env db sortBy sortDirection (some q))[4294967296]? = some w :=
    ⟨_, List.getElem?_eq_getElem (Nat.lt_of_not_le hmany)⟩
  have hwide : Yielded env sortBy sortDirection q db 4294967295 w.id :=
    (yielded_iff (by decide)).2 ⟨4294967296, w, hw, rfl, by decide⟩
  have hnarrow := (h 1 (by decide) (by decide) w.id).2
    ((h 4294967295 (by decide) (by decide) w.id).1 hwide)
  obtain ⟨k, w', hw', hid, hk⟩ := (yielded_iff (by decide)).1 hnarrow
  rw [Nat.div_one, Nat.mul_one] at hk
  have hids : ((ordered env db sortBy sortDirection (some q)).map fun w => w.id)[k]? =
      ((ordered env db sortBy sortDirection (some q)).map fun w => w.id)[4294967296]? := by
    rw [List.getElem?_map, List.getElem?_map, hw, hw', Option.map_some, Option.map_some, hid]
  refine List.nodup_iff_getElem?_ne_getElem?.1 nodup_ordered k 4294967296 hk ?_ hids
  rw [List.length_map]
  exact Nat.lt_of_not_le hmany

theorem foundLiterally_of_literally (hq : trim q ≠ "")
    (h : SearchesLiterally env sortBy sortDirection q db) : FoundLiterally q db := by
  intro w hw hfinds
  have hfew := few_of_literally h
  rw [← (@ordered_perm env db sortBy sortDirection (some q)).length_eq] at hfew
  obtain ⟨k, hk⟩ := List.mem_iff_getElem?.1 ((mem_ordered hq).2 ⟨hw, hfinds⟩)
  obtain ⟨hlt, _⟩ := List.getElem?_eq_some_iff.1 hk
  have hyielded : Yielded env sortBy sortDirection q db 1 w.id := by
    refine (yielded_iff (by decide)).2 ⟨k, w, hk, rfl, ?_⟩
    rw [Nat.div_one, Nat.mul_one]
    exact Nat.lt_of_lt_of_le hlt hfew
  obtain ⟨w', hw', hid, hcontains⟩ := (h 1 (by decide) (by decide) w.id).1 hyielded
  rw [← List.inj_on_of_nodup_map nodup_models hw' hw hid]
  exact hcontains

theorem literally_of_foundLiterally (hq : trim q ≠ "") (h : FoundLiterally q db)
    (hfew : (matching env db (some q)).length ≤ 4294967296) :
    SearchesLiterally env sortBy sortDirection q db := by
  intro limit hlimit _ work
  rw [yielded_iff hlimit]
  constructor
  · rintro ⟨k, w, hw, hid, _⟩
    obtain ⟨hmem, hfinds⟩ := (mem_ordered hq).1 (List.mem_of_getElem? hw)
    exact ⟨w, hmem, hid, h w hmem hfinds⟩
  · rintro ⟨w, hmem, hid, hcontains⟩
    obtain ⟨k, hk⟩ := List.mem_iff_getElem?.1
      ((@mem_ordered env sortBy sortDirection q db hq w).2 ⟨hmem, finds_of_contains hcontains⟩)
    obtain ⟨hlt, _⟩ := List.getElem?_eq_some_iff.1 hk
    rw [ordered_perm.length_eq] at hlt
    exact ⟨k, w, hk, hid,
      Nat.lt_of_le_of_lt (Nat.div_mul_le_self k limit) (Nat.lt_of_lt_of_le hlt hfew)⟩

end Pages

/-! ## A text with a wildcard -/

/-- One work with a title. -/
def titledTables (title : String) : Tables := { oneWork with
  works := [{ id := sampleId 1, title, description := none, languageId := none
              sortTitle := none }] }

/-- The constraints do not ask for titles. -/
theorem sound_titledTables (title : String) : (titledTables title).Sound := by
  have hkeys := oneWorkDb.sound.keys
  have hrefs := oneWorkDb.sound.references
  exact ⟨⟨hkeys.editionKeys, hkeys.workKeys, hkeys.authorKeys, hkeys.formatKeys, hkeys.languageKeys,
    hkeys.identifierKeys, hkeys.identifierValues, hkeys.contributionKeys, hkeys.fileKeys,
    hkeys.fileEditions⟩, ⟨hrefs.editionWork, hrefs.editionFormat, hrefs.editionLanguage,
    hrefs.workLanguage, hrefs.contributionEdition, hrefs.contributionAuthor, hrefs.workAuthorWork,
    hrefs.workAuthorAuthor, hrefs.linkEdition, hrefs.linkIdentifier, hrefs.fileEdition⟩⟩

/-- A library of one work with a title. -/
def titled (title : String) : ListedDb where
  tables := titledTables title
  sound := sound_titledTables title
  createdAt := fun _ => 0
  updatedAt := fun _ => none

def titledWork (title : String) : Model where
  id := sampleId 1
  title := title
  description := none
  languageId := none
  sortTitle := none
  createdAt := 0
  updatedAt := none

theorem models_titled (title : String) : (titled title).models = [titledWork title] := rfl

theorem finds_titled_iff {p : String → Prop} {title : String} :
    Finds p (titled title).toDb (titledWork title) ↔ p title := by
  refine or_iff_left ?_
  rintro ⟨a, ha, _⟩
  exact List.not_mem_nil ha.1

/-- In a library of one work, the search is literal if it is for the title. -/
theorem foundLiterally_titled_iff {q title : String} : FoundLiterally q (titled title) ↔
    (like (patternOf (trim q)) title = true → ContainsText (trim q) title) := by
  rw [FoundLiterally]
  rw [models_titled]
  simp only [List.forall_mem_singleton, finds_titled_iff]

/-- **THE SEARCH IS LITERAL** in a library exactly if what the pattern of the text finds has
    the text, and not more works are found than there are offsets. In every library, that
    is so exactly if the text has neither wildcard. -/
theorem searchesLiterally_iff (env : Env) (sortBy : Option WorkSortBy)
    (sortDirection : Option SortDirection) (q : String) (hq : trim q ≠ "") :
    (∀ db, SearchesLiterally env sortBy sortDirection q db ↔
      FoundLiterally q db ∧ (matching env db (some q)).length ≤ 4294967296) ∧
    ((∀ db, FoundLiterally q db) ↔ ¬ HasWildcard sqlWildcards (trim q).toList) := by
  refine ⟨fun db => ⟨fun h => ⟨foundLiterally_of_literally hq h, few_of_literally h⟩,
    fun h => literally_of_foundLiterally hq h.1 h.2⟩, ?_⟩
  rw [← between_literal_iff filler_x]
  constructor
  · intro h s hs
    have hfound := foundLiterally_titled_iff.1 (h (titled (String.ofList s)))
    rw [like_patternOf, ContainsText, String.toList_ofList] at hfound
    exact hfound hs
  · intro h db w _ hfinds
    refine hfinds.imp fun s hs => h s.toList ?_
    rwa [like_patternOf] at hs

/-- A text without a wildcard is searched for literally. -/
theorem searchesLiterally_dune : trim "dune" ≠ "" ∧
    SearchesLiterally Env.reference none none "dune" (titled "Dune") := by
  have hiff := searchesLiterally_iff Env.reference none none "dune" (by decide)
  have hfew : (matching Env.reference (titled "Dune") (some "dune")).length ≤ 4294967296 :=
    (List.length_filter_le _ _).trans (by decide)
  exact ⟨by decide, (hiff.1 (titled "Dune")).2 ⟨hiff.2.2 (by decide) (titled "Dune"), hfew⟩⟩

/-- A percentage finds a number that it is not in. -/
theorem not_searchesLiterally_percentage :
    ¬ SearchesLiterally Env.reference none none "100%" (titled "1001 Nights") := by
  intro h
  have hfound := foundLiterally_titled_iff.1 (foundLiterally_of_literally (by decide) h)
  have hcontains : ContainsText (trim "100%") "1001 Nights" := hfound (by decide)
  have hsign : '%' ∈ "1001 Nights".toList.map Char.toLower :=
    hcontains.subset (show '%' ∈ (trim "100%").toList.map Char.toLower by decide)
  exact absurd hsign (by decide)

end WorkSearch
