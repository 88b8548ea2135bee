import Livtet.Lib.KeyedRows
import Livtet.Library

/-! # What keeps the constraints

    A statement goes through if the tables it leaves have their keys and references. Most
    statements change one table: then only its own constraints are in question. -/

namespace Library

open SyncPairing (DbId)
open Reindex (Link IdentifierRow)
open KeyedRows

variable {t : Tables} {e : DbId}

theorem execute_of_sound {t : Tables} (h : t.Sound) : execute t = .ok ⟨t, h⟩ :=
  execute_eq_ok.2 rfl

/-! ## What a call asks for -/

section Required

variable {env : SyncStore.Env}

theorem requireEdition_eq_ok_iff {library : Db} {e : DbId} :
    (∃ row, requireEdition env library e = .ok row) ↔ e ∈ library.tables.editionIds := by
  rw [requireEdition, Tables.editionIds, List.mem_map]
  cases hfind : library.tables.editions.find? fun x => decide (x.id = e) with
  | none =>
      refine iff_of_false (by rintro ⟨row, h⟩; cases h) ?_
      rintro ⟨x, hx, hid⟩
      exact absurd (decide_eq_true hid) (List.find?_eq_none.1 hfind x hx)
  | some x =>
      exact iff_of_true ⟨x, rfl⟩
        ⟨x, List.mem_of_find?_eq_some hfind, of_decide_eq_true (List.find?_some hfind :)⟩

theorem requireContributor_eq_ok_iff {library : Db} {id : DbId} :
    (∃ row, requireContributor env library id = .ok row) ↔ id ∈ library.tables.authorIds := by
  rw [requireContributor, Tables.authorIds]
  cases hfind : library.tables.authors.find? fun a => decide (a.id = id) with
  | none => exact iff_of_false (by rintro ⟨row, h⟩; cases h) (find?_key_eq_none.1 hfind)
  | some a =>
      obtain ⟨ha, hid⟩ := (find?_key_eq_some library.sound.keys.authorKeys).1 hfind
      exact iff_of_true ⟨a, rfl⟩ (List.mem_map.2 ⟨a, ha, hid⟩)

end Required

/-! ## Links -/

/-- Links that name editions and identifiers. -/
theorem sound_editionIdentifiers (h : t.Sound) {links : List Link}
    (hlinks : ∀ l ∈ links, l.owner ∈ t.editionIds ∧ l.target ∈ t.identifierIds) :
    { t with editionIdentifiers := links }.Sound := by
  have hrefs := h.references
  refine ⟨⟨h.keys.editionKeys, h.keys.workKeys, h.keys.authorKeys, h.keys.formatKeys,
    h.keys.languageKeys, h.keys.identifierKeys, h.keys.identifierValues, h.keys.contributionKeys,
    h.keys.fileKeys, h.keys.fileEditions⟩, ⟨hrefs.editionWork, hrefs.editionFormat,
    hrefs.editionLanguage, hrefs.workLanguage, hrefs.contributionEdition, hrefs.contributionAuthor,
    hrefs.workAuthorWork, hrefs.workAuthorAuthor, ?_, ?_, hrefs.fileEdition⟩⟩
  · intro id hid
    obtain ⟨l, hl, rfl⟩ := List.mem_map.1 hid
    rcases List.mem_append.1 hl with hother | hown
    · exact hrefs.linkEdition (List.mem_map_of_mem (List.mem_append_left _ hother))
    · exact (hlinks l hown).1
  · intro id hid
    obtain ⟨l, hl, rfl⟩ := List.mem_map.1 hid
    exact (hlinks l hl).2

theorem link_mem (h : t.Sound) {l : Link} (hl : l ∈ t.editionIdentifiers) :
    l.owner ∈ t.editionIds ∧ l.target ∈ t.identifierIds :=
  ⟨h.references.linkEdition (List.mem_map_of_mem (List.mem_append_right _ hl)),
    h.references.linkIdentifier (List.mem_map_of_mem hl)⟩

/-- A new identifier has an id and a value of its own. -/
theorem sound_insertIdentifier (h : t.Sound) {r : IdentifierRow} (hid : r.id ∉ t.identifierIds)
    (hvalue : r.value ∉ t.identifiers.map fun r => r.value) :
    { t with identifiers := t.identifiers ++ [r] }.Sound := by
  have hrefs := h.references
  refine ⟨⟨h.keys.editionKeys, h.keys.workKeys, h.keys.authorKeys, h.keys.formatKeys,
    h.keys.languageKeys, ?_, ?_, h.keys.contributionKeys, h.keys.fileKeys, h.keys.fileEditions⟩,
    ⟨hrefs.editionWork, hrefs.editionFormat, hrefs.editionLanguage, hrefs.workLanguage,
    hrefs.contributionEdition, hrefs.contributionAuthor, hrefs.workAuthorWork,
    hrefs.workAuthorAuthor, hrefs.linkEdition, ?_, hrefs.fileEdition⟩⟩
  · show ((t.identifiers ++ [r]).map _).Nodup
    rw [List.map_append, List.map_singleton]
    exact nodup_append_one h.keys.identifierKeys hid
  · rw [List.map_append, List.map_singleton]
    exact nodup_append_one h.keys.identifierValues hvalue
  · refine List.Subset.trans hrefs.linkIdentifier ?_
    show _ ⊆ (t.identifiers ++ [r]).map _
    rw [List.map_append]
    exact List.subset_append_left _ _

theorem sound_editionAuthors (h : t.Sound) {rows : List Contribution} (hnodup : rows.Nodup)
    (hrows : ∀ c ∈ rows, c.editionId ∈ t.editionIds ∧ c.authorId ∈ t.authorIds) :
    { t with editionAuthors := rows }.Sound := by
  have hrefs := h.references
  refine ⟨⟨h.keys.editionKeys, h.keys.workKeys, h.keys.authorKeys, h.keys.formatKeys,
    h.keys.languageKeys, h.keys.identifierKeys, h.keys.identifierValues, hnodup, h.keys.fileKeys,
    h.keys.fileEditions⟩, ⟨hrefs.editionWork, hrefs.editionFormat, hrefs.editionLanguage,
    hrefs.workLanguage, ?_, ?_, hrefs.workAuthorWork, hrefs.workAuthorAuthor, hrefs.linkEdition,
    hrefs.linkIdentifier, hrefs.fileEdition⟩⟩
  · intro id hid
    obtain ⟨c, hc, rfl⟩ := List.mem_map.1 hid
    exact (hrows c hc).1
  · intro id hid
    obtain ⟨c, hc, rfl⟩ := List.mem_map.1 hid
    exact (hrows c hc).2

theorem contribution_mem (h : t.Sound) {c : Contribution} (hc : c ∈ t.editionAuthors) :
    c.editionId ∈ t.editionIds ∧ c.authorId ∈ t.authorIds :=
  ⟨h.references.contributionEdition (List.mem_map_of_mem hc),
    h.references.contributionAuthor (List.mem_map_of_mem hc)⟩

/-- A deleted author takes its links along. -/
theorem sound_dropAuthor (h : t.Sound) (id : DbId) : (t.dropAuthor id).Sound := by
  have hkeys := h.keys
  have hrefs := h.references
  have hkept : ∀ {ids : List DbId}, ids ⊆ t.authorIds → (∀ a ∈ ids, a ≠ id) →
      ids ⊆ (t.dropAuthor id).authorIds := by
    intro ids hids hne a ha
    obtain ⟨row, hrow, rfl⟩ := List.mem_map.1 (hids ha)
    exact List.mem_map.2 ⟨row, List.mem_filter.2 ⟨hrow, decide_eq_true (hne _ ha)⟩, rfl⟩
  refine ⟨⟨hkeys.editionKeys, hkeys.workKeys, hkeys.authorKeys.sublist (List.filter_sublist.map _),
    hkeys.formatKeys, hkeys.languageKeys, hkeys.identifierKeys, hkeys.identifierValues,
    hkeys.contributionKeys.filter _, hkeys.fileKeys, hkeys.fileEditions⟩, ⟨hrefs.editionWork,
    hrefs.editionFormat, hrefs.editionLanguage, hrefs.workLanguage, ?_, ?_, ?_, ?_,
    hrefs.linkEdition, hrefs.linkIdentifier, hrefs.fileEdition⟩⟩
  · exact fun _ hid => hrefs.contributionEdition ((List.filter_sublist.map _).subset hid)
  · refine hkept (fun _ hid => hrefs.contributionAuthor ((List.filter_sublist.map _).subset hid)) ?_
    intro a ha
    obtain ⟨c, hc, rfl⟩ := List.mem_map.1 ha
    exact of_decide_eq_true (List.mem_filter.1 hc).2
  · exact fun _ hid => hrefs.workAuthorWork ((List.filter_sublist.map _).subset hid)
  · refine hkept (fun _ hid => hrefs.workAuthorAuthor ((List.filter_sublist.map _).subset hid)) ?_
    intro a ha
    obtain ⟨l, hl, rfl⟩ := List.mem_map.1 ha
    exact of_decide_eq_true (List.mem_filter.1 hl).2

/-! ## Files -/

theorem sound_digitalInventory (h : t.Sound) {rows : List FileRow}
    (hkeys : (rows.map fun f => f.id).Nodup) (heditions : (rows.map fun f => f.editionId).Nodup)
    (hrows : (rows.map fun f => f.editionId) ⊆ t.editionIds) :
    { t with digitalInventory := rows }.Sound := by
  have hrefs := h.references
  exact ⟨⟨h.keys.editionKeys, h.keys.workKeys, h.keys.authorKeys, h.keys.formatKeys,
    h.keys.languageKeys, h.keys.identifierKeys, h.keys.identifierValues, h.keys.contributionKeys,
    hkeys, heditions⟩, ⟨hrefs.editionWork, hrefs.editionFormat, hrefs.editionLanguage,
    hrefs.workLanguage, hrefs.contributionEdition, hrefs.contributionAuthor, hrefs.workAuthorWork,
    hrefs.workAuthorAuthor, hrefs.linkEdition, hrefs.linkIdentifier, hrows⟩⟩

theorem any_file : (t.digitalInventory.any fun f => decide (f.editionId = e)) = true ↔
    ∃ f ∈ t.digitalInventory, f.editionId = e := by
  rw [List.any_eq_true]
  exact exists_congr fun f => and_congr_right fun _ => decide_eq_true_iff

/-- An update that changes neither the id nor the edition of a file. -/
theorem sound_updatedFiles (h : t.Sound) (e : DbId) {f : FileRow → FileRow}
    (hf : ∀ r, (f r).id = r.id ∧ (f r).editionId = r.editionId) :
    { t with digitalInventory := t.digitalInventory.map fun r : FileRow =>
      if r.editionId = e then f r else r }.Sound := by
  have hids : ∀ r ∈ t.digitalInventory, (if r.editionId = e then f r else r).id = r.id := by
    intro r _
    split
    · exact (hf r).1
    · rfl
  have heditions : ∀ r ∈ t.digitalInventory,
      (if r.editionId = e then f r else r).editionId = r.editionId := by
    intro r _
    split
    · exact (hf r).2
    · rfl
  refine sound_digitalInventory h ?_ ?_ ?_
  · rw [List.map_map]
    exact (List.map_congr_left hids).symm ▸ h.keys.fileKeys
  · rw [List.map_map]
    exact (List.map_congr_left heditions).symm ▸ h.keys.fileEditions
  · rw [List.map_map]
    exact (List.map_congr_left heditions).symm ▸ h.references.fileEdition

/-- A new file needs an id that is free. -/
theorem sound_newFile (h : t.Sound) {r : FileRow} (hedition : r.editionId ∈ t.editionIds)
    (hnone : ¬ ∃ f ∈ t.digitalInventory, f.editionId = r.editionId)
    (hfree : r.id ∉ t.digitalInventory.map fun f => f.id) :
    { t with digitalInventory := t.digitalInventory ++ [r] }.Sound := by
  refine sound_digitalInventory h ?_ ?_ ?_
  · rw [List.map_append, List.map_singleton]
    exact nodup_append_one h.keys.fileKeys hfree
  · rw [List.map_append, List.map_singleton]
    exact nodup_append_one h.keys.fileEditions fun h => hnone (List.mem_map.1 h)
  · rw [List.map_append, List.map_singleton]
    exact append_one_subset h.references.fileEdition hedition

theorem sound_keptFiles (h : t.Sound) (p : FileRow → Bool) :
    { t with digitalInventory := t.digitalInventory.filter p }.Sound := by
  have hsub : (t.digitalInventory.filter p).Sublist t.digitalInventory := List.filter_sublist
  exact sound_digitalInventory h (h.keys.fileKeys.sublist (hsub.map _))
    (h.keys.fileEditions.sublist (hsub.map _))
    fun x hx => h.references.fileEdition ((hsub.map _).subset hx)

end Library
