import Livtet.Constraints

/-! # The index in step with the library

    After a call the index should hold the documents a full rebuild would write. The
    calls that rebuild it leave just that. Deleting a work or an edition takes the
    documents of the editions that are gone, and no other document changes with them.
    A new work is in no document before it has an edition.

    A new edition or contributor, a new name of a contributor and a deleted contributor
    do not reach the index. -/

namespace Library

open SyncStore SyncPairing DocIndex SearchIndex Reindex Outcomes

section System

variable (lib : IndexLib) (env : Env)

/-- The index holds exactly the documents a full rebuild would write. -/
def InStep (s : Store) : Prop := s.docs.Perm (reindex lib env s.db s.index).committed

/-- The calls that bring nothing into the library that the index does not get, and take or
    change nothing it keeps. -/
def Guard (s : Store) : Call → Prop
  | .createEdition _ _ _ => False
  | .createContributor _ _ => False
  | .updateContributor id name => ∀ a ∈ s.db.tables.authors, a.id = id → a.name = trim name
  | .deleteContributor id => id ∉ s.db.tables.authorIds
  | _ => True

/-- Between calls nothing is queued. -/
def Settled (s : Store) : Prop := s.index.pending = []

/-- The index was rebuilt after the tables changed, or nothing changed. -/
def Refreshed (s s' : Store) : Prop :=
  (∃ db, s' = syncEditionIndex lib env s.index db) ∨ s' = s

end System

variable {lib : IndexLib} {env : Env} {s s' : Store}

theorem inStep_iff : InStep lib env s ↔ s.docs.Perm (rebuiltDocuments lib env s.db.catalog) := by
  rw [InStep, committed_reindex]

/-! ## Calls that rebuild the index -/

theorem Db.eq_of_tables {db db' : Db} (h : db.tables = db'.tables) : db = db' := by
  cases db
  cases db'
  cases h
  rfl

theorem store_eq_of_tables {db : Db} (h : db.tables = s.db.tables) : { s with db } = s := by
  cases Db.eq_of_tables h
  rfl

theorem Refreshed.inStep (h : Refreshed lib env s s') (hs : InStep lib env s) :
    InStep lib env s' := by
  rcases h with ⟨db, rfl⟩ | rfl
  · rw [inStep_iff]
    exact .of_eq (committed_reindex db s.index)
  · exact hs

theorem Refreshed.settled (h : Refreshed lib env s s') (hs : Settled s) : Settled s' := by
  rcases h with ⟨db, rfl⟩ | rfl
  · rfl
  · exact hs

/-- A call that rebuilds the index only if it removed something. -/
theorem refreshed_of_removed {removed : Bool} {db : Db}
    (h : removed = false → db.tables = s.db.tables) :
    Refreshed lib env s
      (if removed then syncEditionIndex lib env s.index db else { s with db }) := by
  cases removed with
  | true => exact Or.inl ⟨db, rfl⟩
  | false => exact Or.inr (store_eq_of_tables (h rfl))

theorem filter_eq_self_of_any {α : Type} {xs : List α} {p : α → Bool} (h : xs.any p = false) :
    (xs.filter fun x => !p x) = xs :=
  List.filter_eq_self.2 fun x hx => by simpa using List.any_eq_false.1 h x hx

theorem refreshed_removeEditionFile {id : DbId} {removed : Bool}
    (h : removeEditionFile lib env id s = .ok (removed, s')) : Refreshed lib env s s' := by
  obtain ⟨db, hdb, h⟩ := bind_eq_ok.1 h
  cases Except.ok.inj h
  refine refreshed_of_removed fun hnone => ?_
  rw [execute_eq_ok.1 hdb]
  have hkept := filter_eq_self_of_any hnone
  simp only [← decide_not] at hkept
  rw [hkept]

theorem tables_detachIdentifier {id : DbId} {urn : String} {db db' : Db}
    (h : detachIdentifier id urn db = .ok (false, db')) : db'.tables = db.tables := by
  rw [detachIdentifier] at h
  split at h
  · cases Except.ok.inj h
    rfl
  · obtain ⟨db₁, hdb, h⟩ := bind_eq_ok.1 h
    obtain ⟨hnone, rfl⟩ := Prod.mk.inj (Except.ok.inj h)
    rw [execute_eq_ok.1 hdb, filter_eq_self_of_any hnone]

theorem tables_detachContributor {c : Contribution} {db db' : Db}
    (h : detachContributor c db = .ok (false, db')) : db'.tables = db.tables := by
  obtain ⟨db₁, hdb, h⟩ := bind_eq_ok.1 h
  obtain ⟨hnone, rfl⟩ := Prod.mk.inj (Except.ok.inj h)
  have hkept : (db.tables.editionAuthors.filter fun x => decide (x ≠ c)) = _ :=
    List.filter_eq_self.2 fun x hx => decide_eq_true fun hxc =>
      of_decide_eq_false hnone (hxc ▸ hx)
  rw [execute_eq_ok.1 hdb, hkept]

theorem eq_ok_of_snd {α : Type} {x : Except LivtetError (α × Store)}
    (h : Prod.snd <$> x = .ok s') : ∃ a, x = .ok (a, s') := by
  obtain ⟨⟨a, _⟩, hx, rfl⟩ := map_eq_ok.1 h
  exact ⟨a, hx⟩

/-- Whatever the call gives, the store is refreshed. -/
def Rebuilds {α : Type} (lib : IndexLib) (env : Env) (s : Store)
    (x : Except LivtetError (α × Store)) : Prop :=
  ∀ r s', x = .ok (r, s') → Refreshed lib env s s'

namespace Rebuilds

variable {α β : Type}

theorem bind {x : Except LivtetError β} {f : β → Except LivtetError (α × Store)}
    (h : ∀ b, x = .ok b → Rebuilds lib env s (f b)) : Rebuilds lib env s (x >>= f) := by
  intro r s' hx
  obtain ⟨b, hb, hf⟩ := bind_eq_ok.1 hx
  exact h b hb r s' hf

theorem ok {r : α} (h : Refreshed lib env s s') : Rebuilds lib env s (.ok (r, s')) := by
  intro r' s'' hx
  cases Except.ok.inj hx
  exact h

/-- A call that rebuilds the index over the tables it wrote. -/
theorem synced (r : α) (db : Db) :
    Rebuilds lib env s (.ok (r, syncEditionIndex lib env s.index db)) :=
  .ok (.inl ⟨db, rfl⟩)

theorem snd {x : Except LivtetError (α × Store)} (hx : Rebuilds lib env s x)
    (h : Prod.snd <$> x = .ok s') : Refreshed lib env s s' := by
  obtain ⟨r, h⟩ := eq_ok_of_snd h
  exact hx r s' h

end Rebuilds

/-- The calls that rebuild the index once the tables have changed. -/
def Call.Refreshes : Call → Prop
  | .createWork _ _ _ _ => False
  | .createEdition _ _ _ => False
  | .deleteWork _ => False
  | .deleteEdition _ => False
  | .createContributor _ _ => False
  | .updateContributor _ _ => False
  | .deleteContributor _ => False
  | _ => True

theorem refreshed_of_refreshes {call : Call} (hcall : call.Refreshes)
    (h : perform lib env s call = .ok s') : Refreshed lib env s s' := by
  cases call with
  | setEditionFile now newId editionId filePath fileFormat fileSizeBytes =>
      exact Rebuilds.snd (.bind fun _ _ => .bind fun db _ => .synced _ db) h
  | removeEditionFile editionId =>
      exact Rebuilds.snd (fun _ _ => refreshed_removeEditionFile) h
  | addEditionIdentifier newId editionId identifier =>
      exact Rebuilds.snd (.bind fun _ _ => .bind fun attached _ => .synced _ attached.2) h
  | updateEditionIdentifier newId editionId old new =>
      exact Rebuilds.snd
        (.bind fun _ _ => .bind fun _ _ => .bind fun attached _ => .synced _ attached.2) h
  | removeEditionIdentifier editionId identifier =>
      -- nothing is written to the index if nothing was removed, and then nothing has changed
      refine Rebuilds.snd (.bind fun detached hdetach => .ok ?_) h
      obtain ⟨removed, db⟩ := detached
      refine refreshed_of_removed fun hnone => ?_
      obtain rfl : removed = false := hnone
      exact tables_detachIdentifier hdetach
  | updateEdition now editionId patch =>
      exact Rebuilds.snd (.bind fun _ _ => .bind fun _ _ => .bind fun db _ => .synced _ db) h
  | setEditionCoverUrl now editionId coverImageUrl =>
      exact Rebuilds.snd (.bind fun _ _ => .bind fun db _ => .synced _ db) h
  | addEditionContributor editionId contributorId role =>
      exact Rebuilds.snd
        (.bind fun _ _ => .bind fun _ _ => .bind fun _ _ => .bind fun db _ => .synced _ db) h
  | updateEditionContributor editionId contributorId fromRole toRole =>
      exact Rebuilds.snd (.bind fun _ _ => .bind fun _ _ => .bind fun _ _ => .bind fun _ _ =>
        .bind fun _ _ => .bind fun db _ => .synced _ db) h
  | removeEditionContributor editionId contributorId role =>
      refine Rebuilds.snd (.bind fun _ _ => .bind fun detached hdetach => .ok ?_) h
      obtain ⟨removed, db⟩ := detached
      refine refreshed_of_removed fun hnone => ?_
      obtain rfl : removed = false := hnone
      exact tables_detachContributor hdetach
  | _ => exact hcall.elim

/-! ## Which documents are there -/

theorem rebuiltAuthor_injective : Function.Injective (rebuiltAuthor lib env) := by
  rintro ⟨id, name⟩ ⟨id', name'⟩ h
  have hterms : id.text env = id'.text env ∧ name = name' := by
    simp only [rebuiltAuthor, texts, List.map_cons, List.map_nil, List.flatten_cons,
      List.flatten_nil, List.append_nil, List.cons_append, List.nil_append, List.cons.injEq,
      Prod.mk.injEq, FieldValue.text.injEq, true_and] at h
    exact ⟨h.1, h.2.1⟩
  rw [DbId.text_injective env hterms.1, hterms.2]

theorem rebuiltAuthor_ne_rebuiltEdition {a : NamedRow} {c : Catalog} {e : EditionRow} :
    rebuiltAuthor lib env a ≠ rebuiltEdition lib env c e := by
  intro h
  have hkind : isAuthorOf (a.id.text env) (rebuiltAuthor lib env a) = true :=
    isAuthorOf_rebuiltAuthor.2 rfl
  rw [h, isAuthorOf_rebuilt] at hkind
  cases hkind

theorem rebuiltAuthor_mem_iff {a : NamedRow} {c : Catalog} :
    rebuiltAuthor lib env a ∈ rebuiltDocuments lib env c ↔ a ∈ c.authors := by
  rw [rebuiltDocuments, List.mem_append]
  constructor
  · rintro (h | h)
    · obtain ⟨e, _, he⟩ := List.mem_map.1 h
      exact absurd he.symm rebuiltAuthor_ne_rebuiltEdition
    · obtain ⟨b, hb, hab⟩ := List.mem_map.1 h
      exact rebuiltAuthor_injective hab ▸ hb
  · intro h
    exact Or.inr (List.mem_map_of_mem h)

/-- A document of an edition is of an edition that is there. -/
theorem id_mem_of_rebuiltEdition_mem {c c' : Catalog} {e : EditionRow}
    (h : rebuiltEdition lib env c' e ∈ rebuiltDocuments lib env c) :
    e.id ∈ c.editions.map fun e => e.id := by
  rw [rebuiltDocuments, List.mem_append] at h
  rcases h with h | h
  · obtain ⟨e', he', heq⟩ := List.mem_map.1 h
    have hid : hasTerm (.editionId, e.id.text env) (rebuiltEdition lib env c e') = true := by
      rw [heq, hasTerm_editionId_rebuilt]
    have hsame := DbId.text_injective env (hasTerm_editionId_rebuilt.1 hid)
    exact hsame ▸ List.mem_map_of_mem he'
  · obtain ⟨a, _, ha⟩ := List.mem_map.1 h
    exact absurd ha rebuiltAuthor_ne_rebuiltEdition

/-! ## Calls that leave the index as it is -/

theorem not_mem_of_nodup_append {α : Type} {xs : List α} {x : α} (h : (xs ++ [x]).Nodup) :
    x ∉ xs := fun hx => (List.nodup_append.1 h).2.2 x hx x List.mem_cons_self rfl

/-- A new work has no edition, so no document names it. -/
theorem inStep_createWork {newId : DbId} {title : String} {sortTitle description : Option String}
    {r : DbId} (h : createWork newId title sortTitle description s = .ok (r, s')) :
    s'.index = s.index ∧ (InStep lib env s → InStep lib env s') := by
  rw [createWork] at h
  split at h
  · cases h
  · obtain ⟨db, hdb, h⟩ := bind_eq_ok.1 h
    cases Except.ok.inj h
    refine ⟨rfl, fun hs => ?_⟩
    have ht := execute_eq_ok.1 hdb
    have hnew : newId ∉ s.db.tables.workIds := by
      have hkeys := db.sound.keys.workKeys
      rw [ht, Tables.workIds, List.map_append] at hkeys
      exact not_mem_of_nodup_append hkeys
    rw [inStep_iff] at hs ⊢
    have hsame : rebuiltDocuments lib env db.catalog = rebuiltDocuments lib env s.db.catalog := by
      have heditions : db.catalog.editions = s.db.catalog.editions := by simp only [Db.catalog, ht]
      have hauthors : db.catalog.authors = s.db.catalog.authors := by simp only [Db.catalog, ht]
      rw [rebuiltDocuments, rebuiltDocuments, heditions, hauthors]
      refine congrArg (· ++ _) (List.map_congr_left fun e he => Agree.rebuiltEdition_eq ?_)
      obtain ⟨row, hrow, rfl⟩ := List.mem_map.1 he
      have hne : newId ≠ row.workId := by
        rintro rfl
        exact hnew (s.db.sound.references.editionWork (List.mem_map_of_mem hrow))
      constructor
      case work =>
        simp only [Db.catalog, ht, List.map_append, List.find?_append]
        simp [hne]
      all_goals simp only [Db.catalog, ht]
      exact fun _ _ => trivial
    rw [hsame]
    exact hs

/-- A call that leaves the index: what the new library has a document for, the old had. -/
theorem mem_of_inStep (hs : InStep lib env s) (hs' : InStep lib env s')
    (hindex : s'.index = s.index) (d : Document) :
    d ∈ rebuiltDocuments lib env s'.db.catalog ↔ d ∈ rebuiltDocuments lib env s.db.catalog := by
  rw [inStep_iff] at hs hs'
  have hdocs : s'.docs = s.docs := congrArg Writer.committed hindex
  rw [← hs'.mem_iff, hdocs, hs.mem_iff]

/-- The document of a new edition is missing. -/
theorem not_inStep_createEdition {now : Int} {newId : DbId} {input : NewEdition} {r : DbId}
    (h : createEdition env now newId input s = .ok (r, s')) :
    s'.index = s.index ∧ (InStep lib env s → ¬ InStep lib env s') := by
  obtain ⟨_, _, h⟩ := bind_eq_ok.1 h
  obtain ⟨publishedDate, _, h⟩ := bind_eq_ok.1 h
  obtain ⟨db, hdb, h⟩ := bind_eq_ok.1 h
  cases Except.ok.inj h
  refine ⟨rfl, fun hs hs' => ?_⟩
  have ht := execute_eq_ok.1 hdb
  have hnew : newId ∉ s.db.tables.editionIds := by
    have hkeys := db.sound.keys.editionKeys
    rw [ht, Tables.editionIds, List.map_append] at hkeys
    exact not_mem_of_nodup_append hkeys
  obtain ⟨e, he, hid⟩ : ∃ e ∈ db.catalog.editions, e.id = newId := by
    show ∃ e ∈ db.tables.editions.map fun e => e.toEditionRow, e.id = newId
    rw [ht]
    exact ⟨_, List.mem_map_of_mem (List.mem_append_right _ List.mem_cons_self), rfl⟩
  have hold := (mem_of_inStep hs hs' rfl (rebuiltEdition lib env db.catalog e)).1
    (List.mem_append_left _ (List.mem_map_of_mem he))
  have hmem := id_mem_of_rebuiltEdition_mem hold
  rw [hid] at hmem
  refine hnew ?_
  simpa [Db.catalog, Tables.editionIds, List.map_map] using hmem

/-- The document of a new contributor is missing. -/
theorem not_inStep_createContributor {newId : DbId} {name : String} {r : NamedRow}
    (h : createContributor newId name s = .ok (r, s')) :
    s'.index = s.index ∧ (InStep lib env s → ¬ InStep lib env s') := by
  obtain ⟨name', _, h⟩ := bind_eq_ok.1 h
  obtain ⟨db, hdb, h⟩ := bind_eq_ok.1 h
  cases Except.ok.inj h
  refine ⟨rfl, fun hs hs' => ?_⟩
  have ht := execute_eq_ok.1 hdb
  have hnew : newId ∉ s.db.tables.authorIds := by
    have hkeys := db.sound.keys.authorKeys
    rw [ht, Tables.authorIds, List.map_append] at hkeys
    exact not_mem_of_nodup_append hkeys
  have hmem : (⟨newId, name'⟩ : NamedRow) ∈ db.catalog.authors := by
    show _ ∈ db.tables.authors
    rw [ht]
    exact List.mem_append_right _ List.mem_cons_self
  have hold := (mem_of_inStep hs hs' rfl _).1 (rebuiltAuthor_mem_iff.2 hmem)
  exact hnew (List.mem_map_of_mem (rebuiltAuthor_mem_iff.1 hold))

theorem eq_of_authorId {db : Db} {a b : NamedRow} (ha : a ∈ db.tables.authors)
    (hb : b ∈ db.tables.authors) (h : a.id = b.id) : a = b :=
  List.inj_on_of_nodup_map db.sound.keys.authorKeys ha hb h

/-- A contributor's document has the old name. -/
theorem inStep_updateContributor_iff {id : DbId} {name : String} {r : NamedRow}
    (h : updateContributor env id name s = .ok (r, s')) :
    s'.index = s.index ∧
      (InStep lib env s → (InStep lib env s' ↔ Guard s (.updateContributor id name))) := by
  obtain ⟨name', hname, h⟩ := bind_eq_ok.1 h
  obtain ⟨_, _, h⟩ := bind_eq_ok.1 h
  obtain ⟨db, hdb, h⟩ := bind_eq_ok.1 h
  cases Except.ok.inj h
  have hclean : name' = trim name := by
    rw [cleanName] at hname
    split at hname
    · cases hname
    · exact (Except.ok.inj hname).symm
  have ht := execute_eq_ok.1 hdb
  refine ⟨rfl, fun hs => ⟨fun hs' a ha hid => ?_, fun hguard => ?_⟩⟩
  · have hmem : (⟨a.id, name'⟩ : NamedRow) ∈ db.catalog.authors := by
      show _ ∈ db.tables.authors
      rw [ht]
      exact List.mem_map.2 ⟨a, ha, if_pos hid⟩
    have hold := (mem_of_inStep hs hs' rfl _).1 (rebuiltAuthor_mem_iff.2 hmem)
    have hsame := eq_of_authorId ha (rebuiltAuthor_mem_iff.1 hold) rfl
    rw [hsame, hclean]
  · have hkept :
        (s.db.tables.authors.map fun a => if a.id = id then { a with name := name' } else a) =
        s.db.tables.authors := by
      refine (List.map_congr_left fun a ha => ?_).trans (List.map_id _)
      split
      · next hid => rw [hclean, ← hguard a ha hid]; rfl
      · rfl
    have hsame : { s with db } = s := store_eq_of_tables (by rw [ht, hkept])
    rw [hsame]
    exact hs

/-- The document of a deleted contributor stays. -/
theorem inStep_deleteContributor_iff {id : DbId} {r : Bool}
    (h : deleteContributor id s = .ok (r, s')) :
    s'.index = s.index ∧
      (InStep lib env s → (InStep lib env s' ↔ Guard s (.deleteContributor id))) := by
  obtain ⟨db, hdb, h⟩ := bind_eq_ok.1 h
  cases Except.ok.inj h
  have ht := execute_eq_ok.1 hdb
  refine ⟨rfl, fun hs => ⟨fun hs' hid => ?_, fun hguard => ?_⟩⟩
  · obtain ⟨a, ha, rfl⟩ := List.mem_map.1 hid
    have hnew := (mem_of_inStep hs hs' rfl _).2 (rebuiltAuthor_mem_iff.2 ha)
    have hleft : a ∈ db.tables.authors := rebuiltAuthor_mem_iff.1 hnew
    rw [ht] at hleft
    exact of_decide_eq_true (List.mem_filter.1 hleft).2 rfl
  · have hrefs := s.db.sound.references
    have hauthors : (s.db.tables.authors.filter fun a => decide (a.id ≠ id)) = _ :=
      List.filter_eq_self.2 fun a ha => decide_eq_true fun h => hguard (h ▸ List.mem_map_of_mem ha)
    have heditions : (s.db.tables.editionAuthors.filter fun c => decide (c.authorId ≠ id)) = _ :=
      List.filter_eq_self.2 fun c hc => decide_eq_true fun h =>
        hguard (h ▸ hrefs.contributionAuthor (List.mem_map_of_mem hc))
    have hworks : (s.db.tables.workAuthors.filter fun l => decide (l.target ≠ id)) = _ :=
      List.filter_eq_self.2 fun l hl => decide_eq_true fun h =>
        hguard (h ▸ hrefs.workAuthorAuthor (List.mem_map_of_mem hl))
    have hsame : { s with db } = s :=
      store_eq_of_tables (by rw [ht, Tables.dropAuthor, hauthors, heditions, hworks])
    rw [hsame]
    exact hs

/-! ## Deletions -/

/-- No document of these editions. -/
def spared (env : Env) (ids : List DbId) (d : Document) : Bool :=
  ids.all fun id => !hasTerm (.editionId, id.text env) d

theorem committed_deleteEditions (ids : List DbId) : ∀ w : IndexWriter, w.pending = [] →
    (ids.foldl (fun w id => SearchIndex.deleteEdition env id w) w).committed =
        w.committed.filter (spared env ids) ∧
      (ids.foldl (fun w id => SearchIndex.deleteEdition env id w) w).pending = [] := by
  induction ids with
  | nil => exact fun w hw => ⟨(List.filter_eq_self.2 fun _ _ => rfl).symm, hw⟩
  | cons id rest ih =>
      intro w hw
      obtain ⟨hdocs, hpending⟩ := ih (SearchIndex.deleteEdition env id w) rfl
      refine ⟨?_, hpending⟩
      have hfirst : (SearchIndex.deleteEdition env id w).committed =
          w.committed.filter fun d => !hasTerm (.editionId, id.text env) d := by
        rw [SearchIndex.deleteEdition, Writer.committed_deleteTerm,
          Writer.committed_commit_of_pending_nil hw]
      rw [List.foldl_cons, hdocs, hfirst, List.filter_filter]
      refine List.filter_congr fun d _ => ?_
      rw [spared, spared, List.all_cons, Bool.and_comm]

theorem spared_rebuiltEdition {ids : List DbId} {c : Catalog} {e : EditionRow} :
    spared env ids (rebuiltEdition lib env c e) = !ids.contains e.id := by
  rw [spared, Bool.eq_iff_iff, List.all_eq_true, Bool.not_eq_true', ← Bool.not_eq_true,
    List.contains_iff_mem]
  constructor
  · intro h hmem
    have hterm := h e.id hmem
    rw [hasTerm_editionId_rebuilt.2 rfl] at hterm
    cases hterm
  · intro h id hid
    rw [Bool.not_eq_true', ← Bool.not_eq_true, hasTerm_editionId_rebuilt]
    intro htext
    exact h (DbId.text_injective env htext ▸ hid)

theorem spared_rebuiltAuthor {ids : List DbId} {a : NamedRow} :
    spared env ids (rebuiltAuthor lib env a) = true := by
  rw [spared, List.all_eq_true]
  intro id _
  rw [hasTerm_editionId_rebuiltAuthor]
  rfl

/-- Without the editions that are gone, the documents are the others'. -/
theorem rebuiltDocuments_dropped {c c' : Catalog} {ids : List DbId}
    (heditions : c'.editions = c.editions.filter fun e => !ids.contains e.id)
    (hauthors : c'.authors = c.authors) (hagree : ∀ e ∈ c'.editions, Agree e c' c) :
    rebuiltDocuments lib env c' = (rebuiltDocuments lib env c).filter (spared env ids) := by
  have hkept : (c.authors.map (rebuiltAuthor lib env)).filter (spared env ids) =
      c.authors.map (rebuiltAuthor lib env) := by
    refine List.filter_eq_self.2 fun d hd => ?_
    obtain ⟨a, _, rfl⟩ := List.mem_map.1 hd
    exact spared_rebuiltAuthor
  have hothers : (c.editions.map (rebuiltEdition lib env c)).filter (spared env ids) =
      c'.editions.map (rebuiltEdition lib env c) := by
    rw [List.filter_map, heditions]
    refine congrArg _ (List.filter_congr fun e _ => ?_)
    exact spared_rebuiltEdition
  rw [rebuiltDocuments, rebuiltDocuments, List.filter_append, hkept, hothers, hauthors]
  refine congrArg (· ++ _) (List.map_congr_left fun e he => ?_)
  exact (hagree e he).rebuiltEdition_eq

/-- The index loses the documents of the editions that are gone. -/
theorem inStep_of_dropped {ids : List DbId} {db : Db} {index : IndexWriter}
    (hs : InStep lib env s) (hdocs : index.committed = s.docs.filter (spared env ids))
    (heditions : db.catalog.editions = s.db.catalog.editions.filter fun e => !ids.contains e.id)
    (hauthors : db.catalog.authors = s.db.catalog.authors)
    (hagree : ∀ e ∈ db.catalog.editions, Agree e db.catalog s.db.catalog) :
    InStep lib env ⟨db, index⟩ := by
  rw [inStep_iff] at hs ⊢
  show index.committed.Perm _
  rw [hdocs, rebuiltDocuments_dropped heditions hauthors hagree]
  exact hs.filter _

theorem targets_filter (links : List Link) (keeps : DbId → Bool) {owner : DbId}
    (h : keeps owner = true) :
    targets (links.filter fun l => keeps l.owner) owner = targets links owner := by
  rw [targets, targets, List.filter_filter]
  refine congrArg _ (List.filter_congr fun l _ => ?_)
  by_cases hl : l.owner = owner
  · simp [hl, h]
  · simp [hl]

/-- The tables without some editions, and without some works. -/
def Tables.without (t : Tables) (gone lost : DbId → Bool) : Tables :=
  { t.dropEditions gone with
    works := t.works.filter fun w => !lost w.id
    workAuthors := t.workAuthors.filter fun l => !lost l.owner }

/-- What an edition's document is made of is not touched by deleting other editions, nor
    by deleting another work. -/
theorem agree_without {db db' : Db} {gone lost : DbId → Bool} {e : EditionRow}
    (ht : db'.tables = db.tables.without gone lost) (hid : gone e.id = false)
    (hwork : lost e.workId = false) : Agree e db'.catalog db.catalog := by
  have hkept : (!gone e.id) = true := by rw [hid]; rfl
  have hfound : (!lost e.workId) = true := by rw [hwork]; rfl
  constructor
  case work =>
    have hworks : db'.catalog.works = db.catalog.works.filter fun w => !lost w.id := by
      simp only [Db.catalog, ht, Tables.without, List.filter_map]
      rfl
    rw [hworks]
    refine find?_filter_of_imp fun w hw => ?_
    rw [of_decide_eq_true hw]
    exact hfound
  case editionAuthors =>
    have hlinks : db'.catalog.editionAuthors =
        db.catalog.editionAuthors.filter fun l => !gone l.owner := by
      simp only [Db.catalog, ht, Tables.without, Tables.dropEditions, List.filter_map]
      rfl
    rw [hlinks]
    exact targets_filter _ (fun id => !gone id) hkept
  case digitalInventory =>
    have hfiles : db'.catalog.digitalInventory =
        db.catalog.digitalInventory.filter fun id => !gone id := by
      simp only [Db.catalog, ht, Tables.without, Tables.dropEditions, List.filter_map]
      rfl
    rw [hfiles, Bool.eq_iff_iff, List.contains_iff_mem, List.contains_iff_mem, List.mem_filter]
    exact and_iff_left hkept
  case identifiers =>
    intro _ _
    simp only [Db.catalog, ht, Tables.without, Tables.dropEditions]
  all_goals simp only [Db.catalog, ht, Tables.without, Tables.dropEditions]
  · exact targets_filter _ (fun id => !lost id) hfound
  all_goals exact targets_filter _ (fun id => !gone id) hkept

/-- A deletion of editions, and of works without any other edition. -/
theorem inStep_without {db : Db} {index : IndexWriter} {ids : List DbId} {lost : DbId → Bool}
    (ht : db.tables = s.db.tables.without (fun id => ids.contains id) lost)
    (hlost : ∀ e ∈ s.db.tables.editions, lost e.workId = true → e.id ∈ ids)
    (hdocs : index.committed = s.docs.filter (spared env ids)) (hs : InStep lib env s) :
    InStep lib env ⟨db, index⟩ := by
  have heditions : db.catalog.editions =
      s.db.catalog.editions.filter fun e => !ids.contains e.id := by
    simp only [Db.catalog, ht, Tables.without, Tables.dropEditions, List.filter_map]
    rfl
  refine inStep_of_dropped hs hdocs heditions (by simp only [Db.catalog, ht, Tables.without,
    Tables.dropEditions]) fun e he => ?_
  rw [heditions, List.mem_filter] at he
  obtain ⟨hmem, hkept⟩ := he
  obtain ⟨row, hrow, rfl⟩ := List.mem_map.1 hmem
  have hid : ids.contains row.id = false := by simpa using hkept
  refine agree_without ht hid (Bool.eq_false_iff.2 fun hgone => ?_)
  have hcontra := hlost row hrow hgone
  rw [← List.contains_iff_mem, hid] at hcontra
  cases hcontra

theorem dropWork_eq_without (t : Tables) (workId : DbId) :
    t.dropWork workId =
      t.without (fun id => ((t.editionsOfWork workId).map fun e => e.id).contains id)
        fun id => decide (id = workId) := by
  simp only [Tables.dropWork, Tables.without, decide_not, ne_eq]

theorem inStep_deleteWork {workId : DbId} {r : Bool} (hsettled : Settled s)
    (h : deleteWork env workId s = .ok (r, s')) :
    Settled s' ∧ (InStep lib env s → InStep lib env s') := by
  obtain ⟨db, hdb, h⟩ := bind_eq_ok.1 h
  cases Except.ok.inj h
  have ht := execute_eq_ok.1 hdb
  rw [dropWork_eq_without] at ht
  have hlost : ∀ e ∈ s.db.tables.editions, decide (e.workId = workId) = true →
      e.id ∈ (s.db.tables.editionsOfWork workId).map fun e => e.id :=
    fun e he hwork => List.mem_map_of_mem (List.mem_filter.2 ⟨he, hwork⟩)
  split
  · obtain ⟨hdocs, hpending⟩ := committed_deleteEditions
      ((s.db.tables.editionsOfWork workId).map fun e => e.id) s.index hsettled
    exact ⟨hpending, inStep_without ht hlost hdocs⟩
  · next hremoved =>
      refine ⟨hsettled, inStep_without ht hlost ?_⟩
      -- no edition is of a work that is not there
      have hnone : s.db.tables.editionsOfWork workId = [] := by
        refine List.filter_eq_nil_iff.2 fun e he hwork => hremoved ?_
        rw [List.contains_iff_mem, ← of_decide_eq_true hwork]
        exact s.db.sound.references.editionWork (List.mem_map_of_mem he)
      rw [hnone]
      exact (List.filter_eq_self.2 fun _ _ => rfl).symm

theorem eq_of_length_le_one {α : Type} {xs : List α} {a b : α} (h : xs.length ≤ 1) (ha : a ∈ xs)
    (hb : b ∈ xs) : a = b := by
  match xs, h with
  | [], _ => cases ha
  | [x], _ => rw [List.mem_singleton.1 ha, List.mem_singleton.1 hb]

/-- Without its last edition a work has none, so deleting it takes nothing else along. -/
theorem dropWork_dropEditions {t : Tables} {edition : Edition} (hmem : edition ∈ t.editions)
    (hlast : (t.editionsOfWork edition.workId).length ≤ 1) :
    (t.dropEditions fun id => [edition.id].contains id).dropWork edition.workId =
      t.without (fun id => [edition.id].contains id) fun id => decide (id = edition.workId) := by
  have hnone : (t.dropEditions fun id => [edition.id].contains id).editionsOfWork edition.workId =
      [] := by
    refine List.filter_eq_nil_iff.2 fun e he hwork => ?_
    obtain ⟨he, hkept⟩ := List.mem_filter.1 he
    have hsame : e = edition := eq_of_length_le_one hlast (List.mem_filter.2 ⟨he, hwork⟩)
      (List.mem_filter.2 ⟨hmem, decide_eq_true rfl⟩)
    simp [hsame] at hkept
  rw [dropWork_eq_without, hnone]
  simp only [Tables.without, Tables.dropEditions, List.map_nil, List.contains_nil, Bool.not_false,
    List.filter_true]

theorem dropEditions_eq_without (t : Tables) (gone : DbId → Bool) :
    t.dropEditions gone = t.without gone fun _ => false := by
  simp only [Tables.without, Tables.dropEditions, Bool.not_false, List.filter_true]

theorem inStep_deleteEdition {editionId : DbId} {r : Bool} (hsettled : Settled s)
    (h : deleteEdition env editionId s = .ok (r, s')) :
    Settled s' ∧ (InStep lib env s → InStep lib env s') := by
  rw [deleteEdition] at h
  split at h
  · cases Except.ok.inj h
    exact ⟨hsettled, id⟩
  next edition hfound =>
    have hmem := List.mem_of_find?_eq_some hfound
    have hid : edition.id = editionId := by simpa using List.find?_some hfound
    obtain ⟨db₁, hdb₁, h⟩ := bind_eq_ok.1 h
    obtain ⟨db, hdb, h⟩ := bind_eq_ok.1 h
    cases Except.ok.inj h
    have ht₁ := execute_eq_ok.1 hdb₁
    obtain ⟨hdocs, hpending⟩ := committed_deleteEditions [editionId] s.index hsettled
    refine ⟨hpending, fun hs => ?_⟩
    rw [dropEmptied] at hdb
    split at hdb
    · next hlast =>
        have ht := execute_eq_ok.1 hdb
        rw [ht₁, ← hid, dropWork_dropEditions hmem hlast] at ht
        refine inStep_without ht (fun e he hwork => ?_) (hid ▸ hdocs) hs
        have hsame : e = edition := eq_of_length_le_one hlast (List.mem_filter.2 ⟨he, hwork⟩)
          (List.mem_filter.2 ⟨hmem, decide_eq_true rfl⟩)
        rw [hsame]
        exact List.mem_singleton.2 rfl
    · cases Except.ok.inj hdb
      rw [dropEditions_eq_without] at ht₁
      exact inStep_without ht₁ (fun _ _ hfalse => by cases hfalse) hdocs hs

/-! ## Sequences of calls -/

/-- A call that succeeds leaves nothing queued, and keeps the index in step exactly if it
    meets the condition. -/
theorem inStep_perform {call : Call} (hsettled : Settled s) (h : perform lib env s call = .ok s') :
    Settled s' ∧ (InStep lib env s → (InStep lib env s' ↔ Guard s call)) := by
  cases call with
  | createWork newId title sortTitle description =>
      rw [perform] at h
      obtain ⟨r, h⟩ := eq_ok_of_snd h
      obtain ⟨hindex, hkept⟩ := inStep_createWork h
      exact ⟨(congrArg Writer.pending hindex).trans hsettled,
        fun hs => iff_of_true (hkept hs) trivial⟩
  | createEdition now newId input =>
      rw [perform] at h
      obtain ⟨r, h⟩ := eq_ok_of_snd h
      obtain ⟨hindex, hlost⟩ := not_inStep_createEdition h
      exact ⟨(congrArg Writer.pending hindex).trans hsettled,
        fun hs => iff_of_false (hlost hs) id⟩
  | deleteWork workId =>
      rw [perform] at h
      obtain ⟨r, h⟩ := eq_ok_of_snd h
      obtain ⟨hsettled', hkept⟩ := inStep_deleteWork hsettled h
      exact ⟨hsettled', fun hs => iff_of_true (hkept hs) trivial⟩
  | deleteEdition editionId =>
      rw [perform] at h
      obtain ⟨r, h⟩ := eq_ok_of_snd h
      obtain ⟨hsettled', hkept⟩ := inStep_deleteEdition hsettled h
      exact ⟨hsettled', fun hs => iff_of_true (hkept hs) trivial⟩
  | createContributor newId name =>
      rw [perform] at h
      obtain ⟨r, h⟩ := eq_ok_of_snd h
      obtain ⟨hindex, hlost⟩ := not_inStep_createContributor h
      exact ⟨(congrArg Writer.pending hindex).trans hsettled,
        fun hs => iff_of_false (hlost hs) id⟩
  | updateContributor id name =>
      rw [perform] at h
      obtain ⟨r, h⟩ := eq_ok_of_snd h
      obtain ⟨hindex, hiff⟩ := inStep_updateContributor_iff h
      exact ⟨(congrArg Writer.pending hindex).trans hsettled, hiff⟩
  | deleteContributor id =>
      rw [perform] at h
      obtain ⟨r, h⟩ := eq_ok_of_snd h
      obtain ⟨hindex, hiff⟩ := inStep_deleteContributor_iff h
      exact ⟨(congrArg Writer.pending hindex).trans hsettled, hiff⟩
  | _ =>
      -- every other call writes the documents of the edition it changes
      have hfresh : Refreshed lib env s s' := by
        refine refreshed_of_refreshes ?_ h
        exact trivial
      exact ⟨hfresh.settled hsettled, fun hs => iff_of_true (hfresh.inStep hs) trivial⟩

theorem step_eq_of_perform {call : Call} (h : perform lib env s call = .ok s') :
    step lib env s call = s' := by
  rw [step, h]
  rfl

theorem settled_step (call : Call) (hs : Settled s) : Settled (step lib env s call) := by
  cases h : perform lib env s call with
  | error e =>
      rw [step, h]
      exact hs
  | ok s' =>
      rw [step_eq_of_perform h]
      exact (inStep_perform hs h).1

theorem settled_exec (calls : List Call) : ∀ s : Store, Settled s →
    Settled (Runs.exec (step lib env) s calls) := by
  induction calls with
  | nil => exact fun _ hs => hs
  | cons call rest ih => exact fun s hs => ih _ (settled_step call hs)

/-- What is asked of a call only if it succeeds. -/
theorem inStep_step_iff (hs : InStep lib env s ∧ Settled s) (call : Call) :
    InStep lib env (step lib env s call) ∧ Settled (step lib env s call) ↔
      (Succeeds lib env s call → Guard s call) := by
  rw [and_iff_left (settled_step call hs.2)]
  cases h : perform lib env s call with
  | error e =>
      have hkept : step lib env s call = s := by rw [step, h]; rfl
      have hfails : ¬ Succeeds lib env s call := by
        rintro ⟨s', hs'⟩
        rw [h] at hs'
        cases hs'
      rw [hkept]
      exact iff_of_true hs.1 fun hok => absurd hok hfails
  | ok s' =>
      rw [step_eq_of_perform h, (inStep_perform hs.2 h).2 hs.1]
      exact ⟨fun hguard _ => hguard, fun hguard => hguard ⟨s', h⟩⟩

/-- A store whose index has just been rebuilt. -/
def freshlyReindexed (lib : IndexLib) (env : Env) (db : Db) (index : IndexWriter) : Store :=
  ⟨db, reindex lib env db index⟩

/-- **THE INDEX IS IN STEP** after every call of a sequence, all of which succeed, exactly if
    none creates an edition or a contributor, renames a contributor or deletes one. -/
theorem inStep_iff_admitted (lib : IndexLib) (env : Env) (db : Db) (index : IndexWriter)
    (calls : List Call)
    (hok : Runs.Admitted (step lib env) (Succeeds lib env) (freshlyReindexed lib env db index)
      calls) :
    (∀ pre, pre <+: calls →
        InStep lib env (Runs.exec (step lib env) (freshlyReindexed lib env db index) pre)) ↔
      Runs.Admitted (step lib env) Guard (freshlyReindexed lib env db index) calls := by
  have hstart : InStep lib env (freshlyReindexed lib env db index) ∧
      Settled (freshlyReindexed lib env db index) := by
    refine ⟨?_, rfl⟩
    rw [inStep_iff]
    exact .of_eq (committed_reindex db index)
  have halways := @Runs.always_iff_admitted _ _ (step lib env)
    (fun s call => Succeeds lib env s call → Guard s call)
    (fun s => InStep lib env s ∧ Settled s) (fun _ call hs => inStep_step_iff hs call)
    (freshlyReindexed lib env db index) calls hstart
  rw [← Runs.Admitted.imp_iff hok, ← halways]
  refine forall₂_congr fun pre _ => ?_
  exact (and_iff_left (settled_exec pre _ hstart.2)).symm

/-! ## A library of one work -/

def sampleId (n : UInt8) : DbId := ⟨n :: List.replicate 15 0, rfl⟩

/-- One work without an edition. -/
def oneWork : Tables where
  editions := []
  works := [{ id := sampleId 1, title := "Dune", description := none, languageId := none
              sortTitle := none }]
  authors := []
  tags := []
  genres := []
  subjects := []
  publishers := []
  formats := []
  languages := []
  editionAuthors := []
  workAuthors := []
  editionTags := []
  editionGenres := []
  editionSubjects := []
  editionPublishers := []
  seriesEntries := []
  digitalInventory := []
  editionIdentifiers := []
  identifiers := []

def oneWorkDb : Db := ⟨oneWork, by decide⟩

def oneWorkStore : Store := freshlyReindexed plainLib Env.reference oneWorkDb Writer.empty

/-- An edition of the work, of which nothing else is known. -/
def bareEdition : NewEdition where
  workId := sampleId 1
  title := none
  description := none
  publishedDate := none
  formatId := none
  languageId := none
  notes := none
  coverImageUrl := none

/-- The work is gone. -/
def noWorkDb : Db := ⟨oneWork.dropWork (sampleId 1), by decide⟩

/-- The work has the edition. -/
def oneEditionDb : Db where
  tables := { oneWork with
    editions := [{ id := sampleId 2, workId := sampleId 1, title := none, publishedDate := none
                   formatId := none, languageId := none, notes := none, description := none
                   createdAt := 0, updatedAt := none, coverImageUrl := none }] }
  sound := by decide

theorem succeeds_deletedWork :
    Succeeds plainLib Env.reference oneWorkStore (.deleteWork (sampleId 1)) := by
  have hdb : execute (oneWork.dropWork (sampleId 1)) = .ok noWorkDb := execute_of_sound _
  refine ⟨⟨noWorkDb, oneWorkStore.index⟩, ?_⟩
  show Prod.snd <$> (execute (oneWork.dropWork (sampleId 1)) >>= _) = _
  rw [hdb]
  rfl

theorem succeeds_createdEdition :
    Succeeds plainLib Env.reference oneWorkStore (.createEdition 0 (sampleId 2) bareEdition) := by
  have hdb : execute oneEditionDb.tables = .ok oneEditionDb := execute_of_sound _
  obtain ⟨w, hwork⟩ : ∃ w, requireWork Env.reference oneWorkDb (sampleId 1) = .ok w := ⟨_, rfl⟩
  have hcreated : createEdition Env.reference 0 (sampleId 2) bareEdition oneWorkStore =
      .ok (sampleId 2, ⟨oneEditionDb, oneWorkStore.index⟩) :=
    bind_eq_ok.2 ⟨w, hwork, bind_eq_ok.2 ⟨none, rfl, bind_eq_ok.2 ⟨oneEditionDb, hdb, rfl⟩⟩⟩
  refine ⟨⟨oneEditionDb, oneWorkStore.index⟩, ?_⟩
  rw [perform, hcreated]
  rfl

/-- A work is deleted: the index is in step. -/
theorem inStep_deletedWork :
    Succeeds plainLib Env.reference oneWorkStore (.deleteWork (sampleId 1)) ∧
    InStep plainLib Env.reference (Runs.exec (step plainLib Env.reference) oneWorkStore
      [.deleteWork (sampleId 1)]) :=
  ⟨succeeds_deletedWork, (inStep_iff_admitted plainLib Env.reference oneWorkDb Writer.empty
    [Call.deleteWork (sampleId 1)] ⟨succeeds_deletedWork, trivial⟩).2 ⟨trivial, trivial⟩ _
    List.prefix_rfl⟩

/-- An edition is created: its document is not in the index. -/
theorem not_inStep_createdEdition :
    Succeeds plainLib Env.reference oneWorkStore (.createEdition 0 (sampleId 2) bareEdition) ∧
    ¬ InStep plainLib Env.reference (Runs.exec (step plainLib Env.reference) oneWorkStore
      [.createEdition 0 (sampleId 2) bareEdition]) := by
  refine ⟨succeeds_createdEdition, ?_⟩
  obtain ⟨s', h⟩ := succeeds_createdEdition
  rw [Runs.exec_cons, Runs.exec_nil, step_eq_of_perform h]
  rw [perform] at h
  obtain ⟨r, h⟩ := eq_ok_of_snd h
  refine (not_inStep_createEdition h).2 ?_
  rw [inStep_iff]
  exact .of_eq (committed_reindex oneWorkDb Writer.empty)

end Library
