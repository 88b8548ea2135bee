import Livtet.InStep
import Livtet.Lib.KeyedRows

/-! # One ISBN, many spellings

    An identifier is stored as the whole URN, letter for letter. A lookup by
    identifier compares these texts. The ISBNs of an edition, and the identifiers of
    its document, are what the parser of bare ISBNs makes of the stored text, or the
    text itself where the parser refuses it: and it refuses every URN. -/

namespace Library

open SyncStore SyncPairing DocIndex SearchIndex Reindex Outcomes KeyedRows

/-! ## Lookups -/

/-- The editions that carry an identifier, the newest first. -/
def findEditionsByIdentifier (identifier : Identifier) (db : Db) : List Edition :=
  match db.tables.identifiers.find? fun r => decide (r.value = identifier.asUrnString) with
  | none => []
  | some row =>
      let links := db.tables.editionIdentifiers.filter fun l => decide (l.target = row.id)
      let ids := links.map fun l => l.owner
      if ids.isEmpty then []
      else (db.tables.editions.filter fun e => ids.contains e.id).mergeSort fun a b =>
        decide (b.createdAt ≤ a.createdAt)

/-- The canonical form, or the text as it is. -/
def readIsbn (value : String) : String :=
  match Isbn.parse value with
  | .ok canonical => canonical
  | .error _ => value

/-- The ISBNs of some editions: the entries of the map, in the order of the links. -/
def getEditionIsbnsImpl (ids : List DbId) (db : Db) : List (DbId × String) :=
  let junctionRows := linksOf ids db.tables.editionIdentifiers
  let identifierRows := db.tables.identifiers.filter fun r =>
    (junctionRows.map fun l => l.target).contains r.id
  junctionRows.filterMap fun row =>
    (identifierRows.find? fun r => decide (r.id = row.target)).bind fun ident =>
      if ident.kind ≠ "isbn" then none
      else some (row.owner, readIsbn ident.value)

/-- The identifiers of a document: the kinds and the values in pairs. -/
def documentIdentifiers (d : Document) : List (String × String) :=
  (textsOf .identifierKinds d).zip (textsOf .identifierValues d)

/-- The edition carries the row. -/
def Linked (t : Tables) (e : DbId) (r : IdentifierRow) : Prop :=
  r ∈ t.identifiers ∧ ⟨e, r.id⟩ ∈ t.editionIdentifiers

section Lookups

variable {db : Db} {e : DbId}

/-- What carries an identifier is an edition. -/
theorem exists_edition_of_linked {r : IdentifierRow} (h : Linked db.tables e r) :
    ∃ row ∈ db.tables.editions, row.id = e := by
  have howner : e ∈ db.tables.editionLinks.map fun l => l.owner :=
    List.mem_map.2 ⟨_, List.mem_append_right _ h.2, rfl⟩
  exact List.mem_map.1 (db.sound.references.linkEdition howner)

theorem mem_owners_iff {links : List Link} {target : DbId} :
    e ∈ (links.filter fun l => decide (l.target = target)).map (fun l => l.owner) ↔
      ⟨e, target⟩ ∈ links := by
  rw [List.mem_map]
  constructor
  · rintro ⟨l, hl, rfl⟩
    obtain ⟨hmem, htarget⟩ := List.mem_filter.1 hl
    rw [← of_decide_eq_true htarget]
    exact hmem
  · intro hl
    exact ⟨_, List.mem_filter.2 ⟨hl, decide_eq_true rfl⟩, rfl⟩

theorem mem_findEditionsByIdentifier_iff {i : Identifier} :
    (∃ row ∈ findEditionsByIdentifier i db, row.id = e) ↔
      ∃ r, Linked db.tables e r ∧ r.value = i.asUrnString := by
  unfold findEditionsByIdentifier
  cases hfound : db.tables.identifiers.find? fun r => decide (r.value = i.asUrnString) with
  | none =>
      rw [find?_key_eq_none] at hfound
      constructor
      · rintro ⟨row, hrow, _⟩
        cases hrow
      · rintro ⟨r, hlinked, hvalue⟩
        exact absurd (List.mem_map.2 ⟨r, hlinked.1, hvalue⟩) hfound
  | some r =>
      obtain ⟨hr, hvalue⟩ := (find?_key_eq_some db.sound.keys.identifierValues).1 hfound
      constructor
      · rintro ⟨row, hrow, rfl⟩
        simp only at hrow
        split at hrow
        · cases hrow
        · rw [List.mem_mergeSort, List.mem_filter, List.contains_iff_mem, mem_owners_iff] at hrow
          exact ⟨r, ⟨hr, hrow.2⟩, hvalue⟩
      · rintro ⟨r', hlinked, hvalue'⟩
        obtain ⟨row, hrow, rfl⟩ := exists_edition_of_linked hlinked
        have hsame : r' = r := List.inj_on_of_nodup_map db.sound.keys.identifierValues hlinked.1 hr
          (hvalue'.trans hvalue.symm)
        have howner := mem_owners_iff.2 (hsame ▸ hlinked.2)
        refine ⟨row, ?_, rfl⟩
        simp only
        rw [if_neg (by simpa using List.ne_nil_of_mem howner), List.mem_mergeSort, List.mem_filter,
          List.contains_iff_mem]
        exact ⟨hrow, howner⟩

theorem mem_getEditionIsbnsImpl_iff {isbn : String} :
    (e, isbn) ∈ getEditionIsbnsImpl [e] db ↔
      ∃ r, Linked db.tables e r ∧ r.kind = "isbn" ∧ readIsbn r.value = isbn := by
  unfold getEditionIsbnsImpl
  simp only [List.mem_filterMap]
  constructor
  · rintro ⟨l, hl, hident⟩
    obtain ⟨r, hfound, hr⟩ := Option.bind_eq_some_iff.1 hident
    split at hr
    · cases hr
    · rename_i hkind
      cases Option.some.inj hr
      have hrow := (List.mem_filter.1 (List.mem_of_find?_eq_some hfound)).1
      have htarget : r.id = l.target := of_decide_eq_true (List.find?_some hfound :)
      refine ⟨r, ⟨hrow, ?_⟩, not_not.1 hkind, rfl⟩
      rw [htarget]
      exact (List.mem_filter.1 hl).1
  · rintro ⟨r, hlinked, hkind, rfl⟩
    have hlink : (⟨e, r.id⟩ : Link) ∈ linksOf [e] db.tables.editionIdentifiers :=
      List.mem_filter.2 ⟨hlinked.2, by simp⟩
    have hfound := (find?_key_eq_some db.sound.keys.identifierKeys).2 ⟨hlinked.1, rfl⟩
    refine ⟨⟨e, r.id⟩, hlink, ?_⟩
    rw [find?_filter_of_imp]
    · rw [hfound, Option.bind_some, if_neg (not_not.2 hkind)]
    · intro r' hr'
      rw [List.contains_iff_mem, of_decide_eq_true hr']
      exact List.mem_map.2 ⟨_, hlink, rfl⟩

theorem mem_targets_iff {links : List Link} {target : DbId} :
    target ∈ targets links e ↔ ⟨e, target⟩ ∈ links := by
  rw [targets, List.mem_map]
  constructor
  · rintro ⟨l, hl, rfl⟩
    obtain ⟨hmem, howner⟩ := List.mem_filter.1 hl
    rw [← of_decide_eq_true howner]
    exact hmem
  · intro hl
    exact ⟨_, List.mem_filter.2 ⟨hl, decide_eq_true rfl⟩, rfl⟩

theorem readIsbn_eq (value : String) : readIsbn value = (Isbn.parse value).toOption.getD value := by
  unfold readIsbn
  cases Isbn.parse value with
  | ok canonical => rfl
  | error e => rfl

theorem mem_identifiersOf_iff {row : EditionRow} {isbn : String} :
    ("isbn", isbn) ∈ identifiersOf db.catalog row ↔
      ∃ r, Linked db.tables row.id r ∧ r.kind = "isbn" ∧ readIsbn r.value = isbn := by
  rw [identifiersOf, List.mem_filterMap]
  constructor
  · rintro ⟨target, htarget, hident⟩
    obtain ⟨r, hfound, hr⟩ := Option.map_eq_some_iff.1 hident
    obtain ⟨hkind, hvalue⟩ := Prod.mk.injEq _ _ _ _ ▸ hr
    obtain ⟨hrow, rfl⟩ := (find?_key_eq_some db.sound.keys.identifierKeys).1 hfound
    rw [if_pos hkind, ← readIsbn_eq] at hvalue
    exact ⟨r, ⟨hrow, mem_targets_iff.1 htarget⟩, hkind, hvalue⟩
  · rintro ⟨r, hlinked, hkind, rfl⟩
    have hfound := (find?_key_eq_some db.sound.keys.identifierKeys).2 ⟨hlinked.1, rfl⟩
    refine ⟨r.id, mem_targets_iff.2 hlinked.2, ?_⟩
    show (db.tables.identifiers.find? fun r' => decide (r'.id = r.id)).map _ = _
    rw [hfound, Option.map_some, if_pos hkind, ← readIsbn_eq, hkind]

end Lookups

/-! ## The document of an edition -/

section Documents

variable {lib : IndexLib} {env : Env}

/-- The identifiers are written in pairs. -/
theorem documentIdentifiers_rebuiltEdition (c : Catalog) (row : EditionRow) :
    documentIdentifiers (rebuiltEdition lib env c row) = identifiersOf c row := by
  have hkinds : textsOf .identifierKinds (rebuiltEdition lib env c row) =
      (identifiersOf c row).map Prod.fst := by
    rw [rebuiltEdition, textsOf_flatten]
    simp [textsOf_texts]
  have hvalues : textsOf .identifierValues (rebuiltEdition lib env c row) =
      (identifiersOf c row).map Prod.snd := by
    rw [rebuiltEdition, textsOf_flatten]
    simp [textsOf_texts]
  rw [documentIdentifiers, hkinds, hvalues]
  exact (List.zip_of_prod rfl rfl).symm

/-- The document a rebuild writes for the edition has the ISBN. -/
def DocumentCarries (lib : IndexLib) (env : Env) (s : Store) (e : DbId) (isbn : String) : Prop :=
  ∃ d ∈ (reindex lib env s.db s.index).committed,
    hasTerm (.editionId, e.text env) d = true ∧ ("isbn", isbn) ∈ documentIdentifiers d

theorem documentCarries_iff {s : Store} {e : DbId} {isbn : String} :
    DocumentCarries lib env s e isbn ↔
      ∃ r, Linked s.db.tables e r ∧ r.kind = "isbn" ∧ readIsbn r.value = isbn := by
  unfold DocumentCarries
  rw [committed_reindex]
  constructor
  · rintro ⟨d, hd, hid, hisbn⟩
    rcases List.mem_append.1 hd with hd | hd
    · obtain ⟨row, _, rfl⟩ := List.mem_map.1 hd
      have he : e = row.id := DbId.text_injective env (hasTerm_editionId_rebuilt.1 hid)
      rw [documentIdentifiers_rebuiltEdition, mem_identifiersOf_iff] at hisbn
      rw [he]
      exact hisbn
    · obtain ⟨a, _, rfl⟩ := List.mem_map.1 hd
      rw [hasTerm_editionId_rebuiltAuthor] at hid
      cases hid
  · rintro ⟨r, hlinked, hisbn⟩
    obtain ⟨row, hrow, rfl⟩ := exists_edition_of_linked hlinked
    have hmem : row.toEditionRow ∈ s.db.catalog.editions := List.mem_map_of_mem hrow
    refine ⟨_, List.mem_append_left _ (List.mem_map_of_mem hmem),
      hasTerm_editionId_rebuilt.2 rfl, ?_⟩
    rw [documentIdentifiers_rebuiltEdition, mem_identifiersOf_iff]
    exact ⟨r, hlinked, hisbn⟩

end Documents

/-! ## An identifier is added -/

section Added

variable {lib : IndexLib} {env : Env} {newId e : DbId} {i j : Identifier} {db db' : Db}

/-- The row of the URN is there, and no other that was not. -/
theorem mem_identifierRow {id : DbId} (h : identifierRow newId i db = .ok (id, db')) :
    db'.tables.editionIdentifiers = db.tables.editionIdentifiers ∧
    ∃ row, row.id = id ∧ row.value = i.asUrnString ∧
      ∀ r, r ∈ db'.tables.identifiers ↔ r ∈ db.tables.identifiers ∨ r = row := by
  unfold identifierRow at h
  cases hfound : db.tables.identifiers.find? fun r => decide (r.value = i.asUrnString) with
  | some row =>
      rw [hfound] at h
      cases Except.ok.inj h
      obtain ⟨hmem, hvalue⟩ := (find?_key_eq_some db.sound.keys.identifierValues).1 hfound
      refine ⟨rfl, row, rfl, hvalue, fun r => ⟨Or.inl, ?_⟩⟩
      rintro (hr | rfl)
      · exact hr
      · exact hmem
  | none =>
      rw [hfound] at h
      obtain ⟨db₂, hdb, h⟩ := bind_eq_ok.1 h
      cases Except.ok.inj h
      rw [execute_eq_ok.1 hdb]
      refine ⟨rfl, ⟨newId, i.kind.asStr, i.asUrnString⟩, rfl, rfl, fun r => ?_⟩
      rw [List.mem_append, List.mem_singleton]

theorem mem_linkIdentifier {id : DbId} (h : linkIdentifier e id db = .ok db') :
    db'.tables.identifiers = db.tables.identifiers ∧
    ∀ l, l ∈ db'.tables.editionIdentifiers ↔ l ∈ db.tables.editionIdentifiers ∨ l = ⟨e, id⟩ := by
  unfold linkIdentifier at h
  split at h
  · rename_i hany
    cases Except.ok.inj h
    obtain ⟨l, hl, hsame⟩ := List.any_eq_true.1 hany
    obtain ⟨howner, htarget⟩ := of_decide_eq_true hsame
    have hlinked : (⟨e, id⟩ : Link) ∈ db.tables.editionIdentifiers := by
      rw [← howner, ← htarget]
      exact hl
    refine ⟨rfl, fun l => ⟨Or.inl, ?_⟩⟩
    rintro (hl | rfl)
    · exact hl
    · exact hlinked
  · rw [execute_eq_ok.1 h]
    refine ⟨rfl, fun l => ?_⟩
    rw [List.mem_append, List.mem_singleton]

/-- The row of the URN is linked, and no other that was not. -/
theorem linked_attachIdentifier {id : DbId}
    (h : attachIdentifier newId e i db = .ok (id, db')) :
    ∃ row, row.value = i.asUrnString ∧
      ∀ r, Linked db'.tables e r ↔ Linked db.tables e r ∨ r = row := by
  obtain ⟨⟨id₁, db₁⟩, hrow, h⟩ := bind_eq_ok.1 h
  obtain ⟨db₂, hlink, h⟩ := bind_eq_ok.1 h
  cases Except.ok.inj h
  obtain ⟨hsame, row, rfl, hvalue, hrows⟩ := mem_identifierRow hrow
  obtain ⟨hkept, hlinks⟩ := mem_linkIdentifier hlink
  refine ⟨row, hvalue, fun r => ?_⟩
  rw [Linked, hkept, hlinks, hsame, hrows]
  constructor
  · rintro ⟨hr | rfl, hl | hl⟩
    · exact Or.inl ⟨hr, hl⟩
    · refine Or.inr (List.inj_on_of_nodup_map db₁.sound.keys.identifierKeys ?_ ?_ ?_)
      · exact (hrows r).2 (Or.inl hr)
      · exact (hrows row).2 (Or.inr rfl)
      · exact congrArg Link.target hl
    · exact Or.inr rfl
    · exact Or.inr rfl
  · rintro (⟨hr, hl⟩ | rfl)
    · exact ⟨Or.inl hr, Or.inl hl⟩
    · exact ⟨Or.inr rfl, Or.inr rfl⟩

theorem linked_addEditionIdentifier {r : String} {s s' : Store}
    (h : addEditionIdentifier lib env newId e i s = .ok (r, s')) :
    ∃ row, row.value = i.asUrnString ∧
      ∀ r, Linked s'.db.tables e r ↔ Linked s.db.tables e r ∨ r = row := by
  obtain ⟨_, _, h⟩ := bind_eq_ok.1 h
  obtain ⟨⟨id, db'⟩, hattach, h⟩ := bind_eq_ok.1 h
  cases Except.ok.inj h
  exact linked_attachIdentifier hattach

/-! ## Spellings -/

/-- The URN of an ISBN is stored as it was spelled. -/
theorem asUrnString_of_parse {s : String} (h : Identifier.parse ("urn:isbn:" ++ s) = .ok i) :
    i.asUrnString = "urn:isbn:" ++ s := by
  have hchars : ("urn:isbn:" ++ s).toList =
      'u' :: 'r' :: 'n' :: ':' :: 'i' :: 's' :: 'b' :: 'n' :: ':' :: s.toList := by
    rw [String.toList_append]
    rfl
  have hurn : Urn.parse ("urn:isbn:" ++ s) =
      if s.toList.isEmpty then .error (.emptyValue ("urn:isbn:" ++ s)) else .ok ⟨"isbn", s⟩ := by
    unfold Urn.parse
    rw [hchars]
    show (if s.toList.isEmpty then .error _
      else Except.ok (Urn.mk (String.ofList ['i', 's', 'b', 'n']) (String.ofList s.toList))) = _
    rw [String.ofList_toList]
  unfold Identifier.parse at h
  rw [hurn] at h
  by_cases hs : s.toList.isEmpty = true
  · rw [if_pos hs] at h
    cases h
  · rw [if_neg hs] at h
    cases Except.ok.inj h
    rfl

/-- No spelling of the ISBN is read from the URN of one. -/
theorem readIsbn_eq_iff {s isbn value : String} (hs : Isbn.parse s = .ok isbn) :
    readIsbn value = isbn ↔ Isbn.parse value = .ok isbn := by
  unfold readIsbn
  cases hvalue : Isbn.parse value with
  | ok canonical => exact ⟨congrArg _, Except.ok.inj⟩
  | error e =>
      refine iff_of_false ?_ (fun h => by cases h)
      rintro rfl
      rw [Isbn.parse_parse hs] at hvalue
      cases hvalue

/-- The edition carries a row of the ISBN that is no URN. -/
def HasIsbn (t : Tables) (e : DbId) (isbn : String) : Prop :=
  ∃ r, Linked t e r ∧ r.kind = "isbn" ∧ Isbn.parse r.value = .ok isbn

/-- The edition carries the URN with this spelling. -/
def HasUrn (t : Tables) (e : DbId) (s : String) : Prop :=
  ∃ r, Linked t e r ∧ r.value = "urn:isbn:" ++ s

section Spellings

variable {s t isbn : String} {store store' : Store} {urn : String}

theorem found_iff (hi : Identifier.parse ("urn:isbn:" ++ s) = .ok i)
    (hj : Identifier.parse ("urn:isbn:" ++ t) = .ok j)
    (h : addEditionIdentifier lib env newId e i store = .ok (urn, store')) :
    (∃ row ∈ findEditionsByIdentifier j store'.db, row.id = e) ↔
      s = t ∨ HasUrn store.db.tables e t := by
  obtain ⟨row, hvalue, hlinked⟩ := linked_addEditionIdentifier h
  rw [mem_findEditionsByIdentifier_iff, asUrnString_of_parse hj]
  rw [asUrnString_of_parse hi] at hvalue
  simp only [hlinked]
  constructor
  · rintro ⟨r, hr | rfl, hr'⟩
    · exact Or.inr ⟨r, hr, hr'⟩
    · exact Or.inl (String.append_right_inj _ |>.1 (hvalue.symm.trans hr'))
  · rintro (rfl | ⟨r, hr, hr'⟩)
    · exact ⟨row, Or.inr rfl, hvalue⟩
    · exact ⟨r, Or.inl hr, hr'⟩

/-- A URN adds nothing to what is read as an ISBN. -/
theorem hasIsbn_iff (hs : Isbn.parse s = .ok isbn)
    (hi : Identifier.parse ("urn:isbn:" ++ s) = .ok i)
    (h : addEditionIdentifier lib env newId e i store = .ok (urn, store')) :
    (∃ r, Linked store'.db.tables e r ∧ r.kind = "isbn" ∧ readIsbn r.value = isbn) ↔
      HasIsbn store.db.tables e isbn := by
  obtain ⟨row, hvalue, hlinked⟩ := linked_addEditionIdentifier h
  rw [asUrnString_of_parse hi] at hvalue
  simp only [hlinked, readIsbn_eq_iff hs]
  constructor
  · rintro ⟨r, hr | rfl, hkind, hparse⟩
    · exact ⟨r, hr, hkind, hparse⟩
    · rw [hvalue, Isbn.parse_urn] at hparse
      cases hparse
  · rintro ⟨r, hr, hkind, hparse⟩
    exact ⟨r, Or.inl hr, hkind, hparse⟩

end Spellings

/-- The edition is found by the identifier, and the ISBN is one of its ISBNs and of those of
    its document. -/
structure OneIdentifier (lib : IndexLib) (env : Env) (s : Store) (e : DbId) (j : Identifier)
    (isbn : String) : Prop where
  found : ∃ row ∈ findEditionsByIdentifier j s.db, row.id = e
  isbns : (e, isbn) ∈ getEditionIsbnsImpl [e] s.db
  document : DocumentCarries lib env s e isbn

/-- **ONE ISBN IS ONE IDENTIFIER** after it was added under one spelling and is looked for
    under another, exactly if the spellings are the same or the edition had the other one too,
    and the edition already had the ISBN without the URN around it. -/
theorem oneIdentifier_iff (lib : IndexLib) (env : Env) {s t isbn : String} {i j : Identifier}
    {newId e : DbId} {urn : String} {store store' : Store}
    (hs : Isbn.parse s = .ok isbn) (_ht : Isbn.parse t = .ok isbn)
    (hi : Identifier.parse ("urn:isbn:" ++ s) = .ok i)
    (hj : Identifier.parse ("urn:isbn:" ++ t) = .ok j)
    (h : addEditionIdentifier lib env newId e i store = .ok (urn, store')) :
    OneIdentifier lib env store' e j isbn ↔
      (s = t ∨ HasUrn store.db.tables e t) ∧ HasIsbn store.db.tables e isbn := by
  have hisbns := hasIsbn_iff hs hi h
  constructor
  · rintro ⟨hfound, hisbn, _⟩
    exact ⟨(found_iff hi hj h).1 hfound, hisbns.1 (mem_getEditionIsbnsImpl_iff.1 hisbn)⟩
  · rintro ⟨hspelled, hisbn⟩
    have hread := hisbns.2 hisbn
    exact ⟨(found_iff hi hj h).2 hspelled, mem_getEditionIsbnsImpl_iff.2 hread,
      documentCarries_iff.2 hread⟩

end Added

/-! ## A library of one edition -/

/-- The library of one edition, with the links and identifiers given. -/
def identified (links : List Link) (identifiers : List IdentifierRow) : Tables :=
  { oneEditionDb.tables with editionIdentifiers := links, identifiers := identifiers }

theorem addEditionIdentifier_identified (links : List Link) (rows : List IdentifierRow)
    {i : Identifier} {index : IndexWriter} {db db₁ db' : Db}
    (hdb : db.tables = identified links rows)
    (hdb₁ : db₁.tables = identified links (rows ++ [⟨sampleId 4, i.kind.asStr, i.asUrnString⟩]))
    (hdb' : db'.tables = identified (links ++ [⟨sampleId 2, sampleId 4⟩])
      (rows ++ [⟨sampleId 4, i.kind.asStr, i.asUrnString⟩]))
    (hnew : i.asUrnString ∉ rows.map fun r => r.value)
    (hunlinked : sampleId 4 ∉ links.map fun l => l.target) :
    addEditionIdentifier plainLib Env.reference (sampleId 4) (sampleId 2) i ⟨db, index⟩ =
      .ok (i.asUrnString, syncEditionIndex plainLib Env.reference index db') := by
  obtain ⟨edition, hedition⟩ :
      ∃ edition, requireEdition Env.reference db (sampleId 2) = .ok edition := by
    rw [requireEdition, hdb]
    exact ⟨_, rfl⟩
  have hrow : identifierRow (sampleId 4) i db = .ok (sampleId 4, db₁) := by
    have hnone : (db.tables.identifiers.find? fun r => decide (r.value = i.asUrnString)) = none := by
      rw [hdb]
      exact find?_key_eq_none.2 hnew
    unfold identifierRow
    rw [hnone, hdb]
    exact bind_eq_ok.2 ⟨db₁, execute_eq_ok.2 hdb₁, rfl⟩
  have hlink : linkIdentifier (sampleId 2) (sampleId 4) db₁ = .ok db' := by
    unfold linkIdentifier
    rw [hdb₁]
    rw [if_neg]
    · exact execute_eq_ok.2 hdb'
    · intro hany
      obtain ⟨l, hl, hsame⟩ := List.any_eq_true.1 hany
      exact hunlinked (List.mem_map.2 ⟨l, hl, (of_decide_eq_true hsame).2⟩)
  exact bind_eq_ok.2 ⟨edition, hedition, bind_eq_ok.2 ⟨(sampleId 4, db'),
    bind_eq_ok.2 ⟨(sampleId 4, db₁), hrow, bind_eq_ok.2 ⟨db', hlink, rfl⟩⟩, rfl⟩⟩

/-- The edition has no identifier. -/
def unidentifiedStore : Store := ⟨oneEditionDb, Writer.empty⟩

/-- The edition has the URN of the ISBN in its short form. -/
def shortFormDb : Db where
  tables := identified [⟨sampleId 2, sampleId 4⟩] [⟨sampleId 4, "isbn", "urn:isbn:0306406152"⟩]
  sound := by decide

def shortForm : Identifier := ⟨.isbn, ⟨"isbn", "0306406152"⟩⟩

def longForm : Identifier := ⟨.isbn, ⟨"isbn", "9780306406157"⟩⟩

/-- The edition has the bare ISBN. -/
def bareIsbnStore : Store where
  db := {
    tables := identified [⟨sampleId 2, sampleId 3⟩] [⟨sampleId 3, "isbn", "9780306406157"⟩]
    sound := by decide }
  index := Writer.empty

/-- The edition has its URN as well. -/
def bothDb : Db where
  tables := identified [⟨sampleId 2, sampleId 3⟩, ⟨sampleId 2, sampleId 4⟩]
    [⟨sampleId 3, "isbn", "9780306406157"⟩, ⟨sampleId 4, "isbn", "urn:isbn:9780306406157"⟩]
  sound := by decide

/-- Added in its short form, an ISBN is not found in its long form. -/
theorem not_oneIdentifier_shortForm :
    Isbn.parse "0306406152" = .ok "9780306406157" ∧
    Isbn.parse "9780306406157" = .ok "9780306406157" ∧
    Identifier.parse ("urn:isbn:" ++ "0306406152") = .ok shortForm ∧
    Identifier.parse ("urn:isbn:" ++ "9780306406157") = .ok longForm ∧
    addEditionIdentifier plainLib Env.reference (sampleId 4) (sampleId 2) shortForm
      unidentifiedStore = .ok ("urn:isbn:0306406152",
        syncEditionIndex plainLib Env.reference Writer.empty shortFormDb) ∧
    ¬ OneIdentifier plainLib Env.reference
      (syncEditionIndex plainLib Env.reference Writer.empty shortFormDb) (sampleId 2) longForm
      "9780306406157" := by
  have hmid : ∃ db : Db, db.tables =
      identified [] [⟨sampleId 4, "isbn", "urn:isbn:0306406152"⟩] := ⟨⟨_, by decide⟩, rfl⟩
  obtain ⟨db₁, hdb₁⟩ := hmid
  have hi : Identifier.parse ("urn:isbn:" ++ "0306406152") = .ok shortForm := by rfl
  have hj : Identifier.parse ("urn:isbn:" ++ "9780306406157") = .ok longForm := by rfl
  have hadded : addEditionIdentifier plainLib Env.reference (sampleId 4) (sampleId 2) shortForm
      unidentifiedStore = .ok ("urn:isbn:0306406152",
        syncEditionIndex plainLib Env.reference Writer.empty shortFormDb) :=
    addEditionIdentifier_identified [] [] rfl hdb₁ rfl (by decide) (by decide)
  refine ⟨by rfl, by rfl, hi, hj, hadded, fun hone => ?_⟩
  rcases (found_iff hi hj hadded).1 hone.found with hsame | ⟨r, hlinked, _⟩
  · exact absurd hsame (by decide)
  · cases hlinked.1

/-- An edition with the bare ISBN is given its URN. -/
theorem oneIdentifier_bareIsbn :
    OneIdentifier plainLib Env.reference
      (syncEditionIndex plainLib Env.reference Writer.empty bothDb) (sampleId 2) longForm
      "9780306406157" := by
  have hmid : ∃ db : Db, db.tables =
      identified [⟨sampleId 2, sampleId 3⟩] [⟨sampleId 3, "isbn", "9780306406157"⟩,
        ⟨sampleId 4, "isbn", "urn:isbn:9780306406157"⟩] := ⟨⟨_, by decide⟩, rfl⟩
  obtain ⟨db₁, hdb₁⟩ := hmid
  have hj : Identifier.parse ("urn:isbn:" ++ "9780306406157") = .ok longForm := by rfl
  have hisbn : Isbn.parse "9780306406157" = .ok "9780306406157" := by rfl
  have hadded : addEditionIdentifier plainLib Env.reference (sampleId 4) (sampleId 2) longForm
      bareIsbnStore = .ok ("urn:isbn:9780306406157",
        syncEditionIndex plainLib Env.reference Writer.empty bothDb) :=
    addEditionIdentifier_identified [⟨sampleId 2, sampleId 3⟩]
      [⟨sampleId 3, "isbn", "9780306406157"⟩] rfl hdb₁ rfl (by decide) (by decide)
  refine (oneIdentifier_iff plainLib Env.reference hisbn hisbn hj hj hadded).2 ⟨Or.inl rfl, ?_⟩
  exact ⟨⟨sampleId 3, "isbn", "9780306406157"⟩, ⟨List.mem_cons_self, List.mem_cons_self⟩, rfl,
    hisbn⟩

end Library
