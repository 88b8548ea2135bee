import Mathlib.Data.List.TakeWhile
import Mathlib.Data.Set.Insert
import Livtet.Identifiers

/-! # The links of an edition are sets

    The rows of identifiers are shared: a link names the row of a URN, and the kind is a
    column of its own beside the URN. A contributor is linked in a role, which is part of
    the key. Each row is that of an identifier that was parsed, so the kind and the URN that
    are read back are those that were written; no row is linked twice, and no URN has two
    rows. So what is listed for an edition is the set that the calls leave, each element
    once (`lists_after`), and a call on one edition leaves the sets of the others. -/

namespace LinkSets

open SyncStore (Env)
open SyncPairing (DbId trim)
open SearchIndex (IndexLib plainLib)
open Reindex (Link IdentifierRow)
open Outcomes Library KeyedRows

/-! ## Identifiers, written and read back -/

/-- The identifier was parsed, as each is that comes in. -/
def Parsed (i : Identifier) : Prop := ∃ s, Identifier.parse s = .ok i

def toIdentifier (row : IdentifierRow) : Identifier where
  kind := (IdentifierKind.parse row.kind).getD (.custom row.kind)
  urn := (Urn.parse row.value).toOption.getD ⟨row.kind, row.value⟩

/-- Every row is that of an identifier. -/
def Faithful (t : Tables) : Prop :=
  ∀ r ∈ t.identifiers, ∃ i, Parsed i ∧ r.kind = i.kind.asStr ∧ r.value = i.asUrnString

theorem parse_asStr {s : String} {kind : IdentifierKind} (h : IdentifierKind.parse s = some kind) :
    IdentifierKind.parse kind.asStr = some kind := by
  have hself := h
  unfold IdentifierKind.parse at h
  split at h
  case h_8 => cases h
  case h_9 =>
    cases Option.some.inj h
    exact hself
  all_goals
    cases Option.some.inj h
    rfl

/-- A scheme has no colon, and neither the scheme nor the value is empty. -/
structure WellFormed (u : Urn) : Prop where
  scheme : u.scheme.toList ≠ []
  noColon : ':' ∉ u.scheme.toList
  value : u.value.toList ≠ []

theorem wellFormed_of_parse {s : String} {u : Urn} (h : Urn.parse s = .ok u) : WellFormed u := by
  rw [Urn.parse] at h
  dsimp only at h
  split at h
  · cases h
  split at h
  · cases h
  split at h
  · cases h
  split at h
  · cases h
  · rename_i hscheme hvalue
    cases Except.ok.inj h
    refine ⟨?_, ?_, ?_⟩
    · rw [String.toList_ofList]
      exact fun hnil => hscheme (List.isEmpty_iff.2 hnil)
    · rw [String.toList_ofList]
      intro hcolon
      simpa using List.mem_takeWhile_imp hcolon
    · rw [String.toList_ofList]
      exact fun hnil => hvalue (List.isEmpty_iff.2 hnil)

theorem parse_toUrnString {u : Urn} (h : WellFormed u) : Urn.parse u.toUrnString = .ok u := by
  have hchars : u.toUrnString.toList =
      'u' :: 'r' :: 'n' :: ':' :: (u.scheme.toList ++ ':' :: u.value.toList) := by
    rw [Urn.toUrnString]
    simp only [String.toList_append, List.append_assoc]
    rfl
  have hprefix : ¬ (!"urn:".toList.isPrefixOf u.toUrnString.toList) = true := by
    rw [hchars]
    exact Bool.false_ne_true
  have hrest : u.toUrnString.toList.drop 4 = u.scheme.toList ++ ':' :: u.value.toList := by
    rw [hchars]
    rfl
  have hspan : ∀ c ∈ u.scheme.toList, (c != ':') = true := by
    intro c hc
    rw [bne_iff_ne]
    rintro rfl
    exact h.noColon hc
  have htake : (u.scheme.toList ++ ':' :: u.value.toList).takeWhile (· != ':') =
      u.scheme.toList := by
    rw [List.takeWhile_append_of_pos hspan]
    exact List.append_nil _
  have hdrop : ((u.scheme.toList ++ ':' :: u.value.toList).dropWhile (· != ':')).drop 1 =
      u.value.toList := by
    rw [List.dropWhile_append_of_pos hspan]
    rfl
  rw [Urn.parse]
  rw [if_neg hprefix]
  dsimp only
  rw [hrest, htake, hdrop, if_neg (by simp), if_neg (by simpa using h.scheme),
    if_neg (by simpa using h.value), String.ofList_toList, String.ofList_toList]

section Parsing

variable {i j : Identifier}

theorem Parsed.parse_kind (h : Parsed i) : IdentifierKind.parse i.kind.asStr = some i.kind ∧
    Urn.parse i.asUrnString = .ok i.urn ∧ IdentifierKind.parse i.urn.scheme = some i.kind := by
  obtain ⟨s, hs⟩ := h
  rw [Identifier.parse] at hs
  split at hs
  · cases hs
  · rename_i urn hurn
    split at hs
    · cases hs
    · rename_i kind hkind
      cases Except.ok.inj hs
      exact ⟨parse_asStr hkind, parse_toUrnString (wellFormed_of_parse hurn), hkind⟩

/-- An identifier that was parsed is told by its text. -/
theorem Parsed.parse_asUrnString (h : Parsed i) : Identifier.parse i.asUrnString = .ok i := by
  obtain ⟨_, hurn, hkind⟩ := h.parse_kind
  rw [Identifier.parse]
  rw [hurn]
  dsimp only
  rw [hkind]

theorem Parsed.eq_of_asUrnString (hi : Parsed i) (hj : Parsed j)
    (h : i.asUrnString = j.asUrnString) : i = j := by
  have hsame := hi.parse_asUrnString
  rw [h, hj.parse_asUrnString] at hsame
  exact (Except.ok.inj hsame).symm

theorem toIdentifier_eq {r : IdentifierRow} (hi : Parsed i) (hkind : r.kind = i.kind.asStr)
    (hvalue : r.value = i.asUrnString) : toIdentifier r = i := by
  obtain ⟨hparsed, hurn, _⟩ := hi.parse_kind
  rw [toIdentifier]
  rw [hkind, hvalue, hparsed, hurn]
  rfl

/-- What is read from a row is what was written. -/
theorem Faithful.toIdentifier {t : Tables} (h : Faithful t) {r : IdentifierRow}
    (hr : r ∈ t.identifiers) :
    Parsed (toIdentifier r) ∧ r.value = (LinkSets.toIdentifier r).asUrnString := by
  obtain ⟨i, hi, hkind, hvalue⟩ := h r hr
  rw [toIdentifier_eq hi hkind hvalue]
  exact ⟨hi, hvalue⟩

end Parsing

/-! ## What is listed -/

def listEditionIdentifiers (editionId : DbId) (db : Db) : List Identifier :=
  let links := db.tables.editionIdentifiers.filter fun l => decide (l.owner = editionId)
  let ids := links.map fun l => l.target
  if ids.isEmpty then []
  else ((db.tables.identifiers.filter fun r => ids.contains r.id).mergeSort fun a b =>
    decide (a.value ≤ b.value)).map toIdentifier

def byNameThenRole (a b : Contribution × String) : Bool :=
  decide (a.2 < b.2 ∨ a.2 = b.2 ∧ a.1.role ≤ b.1.role)

/-- The links, each with the name of its contributor. -/
def listEditionContributors (editionId : DbId) (db : Db) : List (Contribution × String) :=
  let links := db.tables.editionAuthors.filter fun c => decide (c.editionId = editionId)
  if links.isEmpty then []
  else
    let names := db.tables.authors.filter fun a => (links.map fun c => c.authorId).contains a.id
    (links.map fun c =>
      (c, ((names.find? fun a => decide (a.id = c.authorId)).map fun a => a.name).getD "")).mergeSort
        byNameThenRole

/-- The list has the elements of the set, each once. -/
def Lists {α : Type} (xs : List α) (S : Set α) : Prop := xs.Nodup ∧ ∀ a, a ∈ xs ↔ a ∈ S

/-- What is linked to each edition. -/
@[ext]
structure Sets where
  identifiers : DbId → Set Identifier
  contributors : DbId → Set (DbId × String)

/-- What the tables link to each edition. -/
def carried (t : Tables) : Sets where
  identifiers e := {i | ∃ r, Linked t e r ∧ toIdentifier r = i}
  contributors e := {p | ⟨e, p.1, p.2⟩ ∈ t.editionAuthors}

section Listed

variable {db : Db} {e : DbId}

theorem mem_carried_identifiers {t : Tables} (h : Faithful t) {i : Identifier} :
    i ∈ (carried t).identifiers e ↔ Parsed i ∧ ∃ r, Linked t e r ∧ r.value = i.asUrnString := by
  constructor
  · rintro ⟨r, hr, rfl⟩
    obtain ⟨hparsed, hvalue⟩ := h.toIdentifier hr.1
    exact ⟨hparsed, r, hr, hvalue⟩
  · rintro ⟨hparsed, r, hr, hvalue⟩
    obtain ⟨hread, hvalue'⟩ := h.toIdentifier hr.1
    exact ⟨r, hr, hread.eq_of_asUrnString hparsed (hvalue'.symm.trans hvalue)⟩

/-- No two rows are read as the same identifier. -/
theorem Faithful.nodup_read {t : Tables} (h : Faithful t)
    (hvalues : (t.identifiers.map fun r => r.value).Nodup) (p : IdentifierRow → Bool) :
    ((t.identifiers.filter p).map LinkSets.toIdentifier).Nodup := by
  refine List.Nodup.of_map Identifier.asUrnString ?_
  have hread : ((t.identifiers.filter p).map LinkSets.toIdentifier).map Identifier.asUrnString =
      (t.identifiers.filter p).map fun r => r.value := by
    rw [List.map_map]
    exact List.map_congr_left fun r hr => (h.toIdentifier (List.mem_filter.1 hr).1).2.symm
  rw [hread]
  exact hvalues.sublist (List.filter_sublist.map _)

theorem mem_rows {r : IdentifierRow} :
    r ∈ (db.tables.identifiers.filter fun r =>
      ((db.tables.editionIdentifiers.filter fun l => decide (l.owner = e)).map
        fun l => l.target).contains r.id) ↔ Linked db.tables e r := by
  rw [List.mem_filter, List.contains_iff_mem]
  exact and_congr_right fun _ => mem_targets_iff

theorem listEditionIdentifiers_perm : (listEditionIdentifiers e db).Perm
    ((db.tables.identifiers.filter fun r =>
      ((db.tables.editionIdentifiers.filter fun l => decide (l.owner = e)).map
        fun l => l.target).contains r.id).map toIdentifier) := by
  unfold listEditionIdentifiers
  dsimp only
  split
  · rename_i hempty
    rw [List.isEmpty_iff.1 hempty]
    simp
  · exact (List.mergeSort_perm _ _).map _

theorem lists_identifiers (h : Faithful db.tables) :
    Lists (listEditionIdentifiers e db) ((carried db.tables).identifiers e) := by
  constructor
  · rw [listEditionIdentifiers_perm.nodup_iff]
    exact h.nodup_read db.sound.keys.identifierValues _
  · intro i
    rw [listEditionIdentifiers_perm.mem_iff, List.mem_map]
    exact exists_congr fun r => and_congr_left fun _ => mem_rows

/-- The contributor and the role. -/
def pair (c : Contribution × String) : DbId × String := (c.1.authorId, c.1.role)

theorem listEditionContributors_perm : ((listEditionContributors e db).map pair).Perm
    ((db.tables.editionAuthors.filter fun c => decide (c.editionId = e)).map
      fun c => (c.authorId, c.role)) := by
  rw [listEditionContributors]
  dsimp only
  split
  · rename_i hempty
    rw [List.isEmpty_iff.1 hempty]
    exact List.Perm.refl _
  · refine ((List.mergeSort_perm _ _).map _).trans ?_
    rw [List.map_map]
    exact List.Perm.refl _

theorem lists_contributors :
    Lists ((listEditionContributors e db).map pair) ((carried db.tables).contributors e) := by
  constructor
  · rw [listEditionContributors_perm.nodup_iff]
    refine List.Nodup.map_on ?_ (db.sound.keys.contributionKeys.filter _)
    rintro ⟨e₁, a₁, r₁⟩ h₁ ⟨e₂, a₂, r₂⟩ h₂ hpair
    obtain rfl : e₁ = e := of_decide_eq_true (List.mem_filter.1 h₁).2
    obtain rfl : e₂ = e₁ := of_decide_eq_true (List.mem_filter.1 h₂).2
    obtain ⟨rfl, rfl⟩ := Prod.mk.inj hpair
    rfl
  · rintro ⟨a, role⟩
    rw [listEditionContributors_perm.mem_iff, List.mem_map]
    constructor
    · rintro ⟨c, hc, hpair⟩
      obtain ⟨hmem, hedition⟩ := List.mem_filter.1 hc
      obtain ⟨rfl, rfl⟩ := Prod.mk.inj hpair
      obtain rfl : c.editionId = e := of_decide_eq_true hedition
      exact hmem
    · intro hmem
      exact ⟨_, List.mem_filter.2 ⟨hmem, decide_eq_true rfl⟩, rfl⟩

end Listed

/-! ## Calls -/

/-- An identifier that comes in. -/
def ParsedIdentifier := {i : Identifier // Parsed i}

/-- A call on the links of an edition, or the deletion of a contributor. -/
inductive LinkCall
  | addEditionIdentifier (newId editionId : DbId) (identifier : ParsedIdentifier)
  | updateEditionIdentifier (newId editionId : DbId) (old new : ParsedIdentifier)
  | removeEditionIdentifier (editionId : DbId) (identifier : ParsedIdentifier)
  | addEditionContributor (editionId contributorId : DbId) (role : String)
  | updateEditionContributor (editionId contributorId : DbId) (fromRole toRole : String)
  | removeEditionContributor (editionId contributorId : DbId) (role : String)
  | deleteContributor (id : DbId)

namespace LinkCall

def toCall : LinkCall → Call
  | .addEditionIdentifier newId e i => .addEditionIdentifier newId e i.1
  | .updateEditionIdentifier newId e old new => .updateEditionIdentifier newId e old.1 new.1
  | .removeEditionIdentifier e i => .removeEditionIdentifier e i.1
  | .addEditionContributor e c role => .addEditionContributor e c role
  | .updateEditionContributor e c fromRole toRole => .updateEditionContributor e c fromRole toRole
  | .removeEditionContributor e c role => .removeEditionContributor e c role
  | .deleteContributor id => .deleteContributor id

/-- The edition whose links the call is about. -/
def edition : LinkCall → Option DbId
  | .addEditionIdentifier _ e _ => some e
  | .updateEditionIdentifier _ e _ _ => some e
  | .removeEditionIdentifier e _ => some e
  | .addEditionContributor e _ _ => some e
  | .updateEditionContributor e _ _ _ => some e
  | .removeEditionContributor e _ _ => some e
  | .deleteContributor _ => none

end LinkCall

/-- The row of the URN is there, or the new row's id is free. -/
def Drawable (t : Tables) (newId : DbId) (i : Identifier) : Prop :=
  (i.asUrnString ∈ t.identifiers.map fun r => r.value) ∨ newId ∉ t.identifierIds

instance (t : Tables) (newId : DbId) (i : Identifier) : Decidable (Drawable t newId i) :=
  inferInstanceAs (Decidable (_ ∨ _))

section Accepted

variable (lib : IndexLib)

/-- A role as it is stored. -/
def stored (role : String) : String := lib.toLowercase (trim role)

/-- The call is not refused: what it names is there, and the roles are not blank. -/
def Accepted (t : Tables) : LinkCall → Prop
  | .addEditionIdentifier newId e i => e ∈ t.editionIds ∧ Drawable t newId i.1
  | .updateEditionIdentifier newId e _ new => e ∈ t.editionIds ∧ Drawable t newId new.1
  | .removeEditionIdentifier _ _ => True
  | .addEditionContributor e c role => stored lib role ≠ "" ∧ e ∈ t.editionIds ∧ c ∈ t.authorIds
  | .updateEditionContributor e c fromRole toRole =>
      stored lib fromRole ≠ "" ∧ stored lib toRole ≠ "" ∧ e ∈ t.editionIds ∧ c ∈ t.authorIds
  | .removeEditionContributor _ _ role => stored lib role ≠ ""
  | .deleteContributor _ => True

instance (t : Tables) : DecidablePred (Accepted lib t)
  | .addEditionIdentifier _ _ _ => inferInstanceAs (Decidable (_ ∧ _))
  | .updateEditionIdentifier _ _ _ _ => inferInstanceAs (Decidable (_ ∧ _))
  | .removeEditionIdentifier _ _ => inferInstanceAs (Decidable True)
  | .addEditionContributor _ _ _ => inferInstanceAs (Decidable (_ ∧ _))
  | .updateEditionContributor _ _ _ _ => inferInstanceAs (Decidable (_ ∧ _))
  | .removeEditionContributor _ _ _ => inferInstanceAs (Decidable (_ ≠ _))
  | .deleteContributor _ => inferInstanceAs (Decidable True)

/-- What a call that is refused comes to: nothing, but an update has removed the old link
    before it looks for the new row. -/
def half (t : Tables) : LinkCall → Option LinkCall
  | .updateEditionIdentifier _ e old _ =>
      if e ∈ t.editionIds then some (.removeEditionIdentifier e old) else none
  | _ => none

/-- What a call comes to. -/
def effect (t : Tables) (c : LinkCall) : Option LinkCall :=
  if Accepted lib t c then some c else half t c

namespace Sets

variable (w : Sets) (e : DbId)

def insertIdentifier (i : Identifier) : Sets :=
  { w with identifiers := Function.update w.identifiers e (insert i (w.identifiers e)) }

def removeIdentifier (i : Identifier) : Sets :=
  { w with identifiers := Function.update w.identifiers e (w.identifiers e \ {i}) }

def insertContributor (p : DbId × String) : Sets :=
  { w with contributors := Function.update w.contributors e (insert p (w.contributors e)) }

def removeContributor (p : DbId × String) : Sets :=
  { w with contributors := Function.update w.contributors e (w.contributors e \ {p}) }

def dropContributor (id : DbId) : Sets :=
  { w with contributors := fun e => {p ∈ w.contributors e | p.1 ≠ id} }

variable {w e} {e' : DbId} {i j : Identifier} {p q : DbId × String}

theorem mem_update_insert {α : Type} {f : DbId → Set α} {a b : α} :
    a ∈ Function.update f e (insert b (f e)) e' ↔ a ∈ f e' ∨ e' = e ∧ a = b := by
  by_cases he : e' = e
  · subst he
    rw [Function.update_self, Set.mem_insert_iff, or_comm, and_iff_right rfl]
  · rw [Function.update_of_ne he, or_iff_left fun h => he h.1]

theorem mem_update_diff {α : Type} {f : DbId → Set α} {a b : α} :
    a ∈ Function.update f e (f e \ {b}) e' ↔ a ∈ f e' ∧ ¬ (e' = e ∧ a = b) := by
  by_cases he : e' = e
  · subst he
    rw [Function.update_self, Set.mem_sdiff, Set.mem_singleton_iff, and_iff_right rfl]
  · rw [Function.update_of_ne he, and_iff_left fun h => he h.1]

@[simp] theorem mem_insertIdentifier : j ∈ (w.insertIdentifier e i).identifiers e' ↔
    j ∈ w.identifiers e' ∨ e' = e ∧ j = i := mem_update_insert

@[simp] theorem mem_removeIdentifier : j ∈ (w.removeIdentifier e i).identifiers e' ↔
    j ∈ w.identifiers e' ∧ ¬ (e' = e ∧ j = i) := mem_update_diff

@[simp] theorem mem_insertContributor : q ∈ (w.insertContributor e p).contributors e' ↔
    q ∈ w.contributors e' ∨ e' = e ∧ q = p := mem_update_insert

@[simp] theorem mem_removeContributor : q ∈ (w.removeContributor e p).contributors e' ↔
    q ∈ w.contributors e' ∧ ¬ (e' = e ∧ q = p) := mem_update_diff

end Sets

/-- The sets after a call that is accepted. -/
def Sets.after (w : Sets) : LinkCall → Sets
  | .addEditionIdentifier _ e i => w.insertIdentifier e i.1
  | .updateEditionIdentifier _ e old new => (w.removeIdentifier e old.1).insertIdentifier e new.1
  | .removeEditionIdentifier e i => w.removeIdentifier e i.1
  | .addEditionContributor e c role => w.insertContributor e (c, stored lib role)
  | .updateEditionContributor e c fromRole toRole =>
      (w.removeContributor e (c, stored lib fromRole)).insertContributor e (c, stored lib toRole)
  | .removeEditionContributor e c role => w.removeContributor e (c, stored lib role)
  | .deleteContributor id => w.dropContributor id

end Accepted

/-! ## What a statement changes -/

section Statements

variable {e : DbId} {newId id : DbId} {i : Identifier} {db db' : Db}

theorem identifierRow_ok_iff :
    (∃ r, identifierRow newId i db = .ok r) ↔ Drawable db.tables newId i := by
  unfold identifierRow Drawable
  cases hfound : db.tables.identifiers.find? fun r => decide (r.value = i.asUrnString) with
  | some row =>
      refine iff_of_true ⟨_, rfl⟩ (Or.inl ?_)
      exact List.mem_map.2 ⟨row, (find?_key_eq_some db.sound.keys.identifierValues).1 hfound⟩
  | none =>
      have hvalue := find?_key_eq_none.1 hfound
      constructor
      · rintro ⟨r, hr⟩
        obtain ⟨db', hdb, _⟩ := bind_eq_ok.1 hr
        refine Or.inr fun hid => ?_
        have hkeys := db'.sound.keys.identifierKeys
        rw [execute_eq_ok.1 hdb, Tables.identifierIds, List.map_append, List.nodup_append] at hkeys
        exact hkeys.2.2 newId hid newId (List.mem_singleton_self _) rfl
      · rintro (hthere | hfree)
        · exact absurd hthere hvalue
        · have hsound := sound_insertIdentifier
            (r := ⟨newId, i.kind.asStr, i.asUrnString⟩) db.sound hfree hvalue
          exact ⟨_, bind_eq_ok.2 ⟨_, execute_of_sound hsound, rfl⟩⟩

theorem linkIdentifier_ok (he : e ∈ db.tables.editionIds) (hid : id ∈ db.tables.identifierIds) :
    ∃ db', linkIdentifier e id db = .ok db' := by
  rw [linkIdentifier]
  split
  · exact ⟨db, rfl⟩
  · refine ⟨_, execute_of_sound (sound_editionIdentifiers db.sound fun l hl => ?_)⟩
    rcases List.mem_append.1 hl with hl | hl
    · exact link_mem db.sound hl
    · rw [List.mem_singleton.1 hl]
      exact ⟨he, hid⟩

theorem editions_identifierRow (h : identifierRow newId i db = .ok (id, db')) :
    db'.tables.editionIds = db.tables.editionIds ∧
      db'.tables.editionAuthors = db.tables.editionAuthors := by
  rw [identifierRow] at h
  split at h
  · cases Except.ok.inj h
    exact ⟨rfl, rfl⟩
  · obtain ⟨db₂, hdb, h⟩ := bind_eq_ok.1 h
    cases Except.ok.inj h
    rw [execute_eq_ok.1 hdb]
    exact ⟨rfl, rfl⟩

/-- An identifier can be attached to an edition exactly if its row can be had. -/
theorem attachIdentifier_ok_iff (he : e ∈ db.tables.editionIds) :
    (∃ r, attachIdentifier newId e i db = .ok r) ↔ Drawable db.tables newId i := by
  rw [← identifierRow_ok_iff]
  constructor
  · rintro ⟨r, hr⟩
    obtain ⟨r', hrow, _⟩ := bind_eq_ok.1 hr
    exact ⟨r', hrow⟩
  · rintro ⟨⟨id, db₁⟩, hrow⟩
    obtain ⟨_, row, hid, _, hrows⟩ := mem_identifierRow hrow
    have hmem : id ∈ db₁.tables.identifierIds :=
      List.mem_map.2 ⟨row, (hrows row).2 (Or.inr rfl), hid⟩
    obtain ⟨db₂, hlink⟩ := linkIdentifier_ok ((editions_identifierRow hrow).1 ▸ he) hmem
    exact ⟨_, bind_eq_ok.2 ⟨_, hrow, bind_eq_ok.2 ⟨db₂, hlink, rfl⟩⟩⟩

theorem editionAuthors_linkIdentifier (h : linkIdentifier e id db = .ok db') :
    db'.tables.editionAuthors = db.tables.editionAuthors := by
  rw [linkIdentifier] at h
  split at h
  · cases Except.ok.inj h
    rfl
  · rw [execute_eq_ok.1 h]

theorem editionAuthors_attachIdentifier (h : attachIdentifier newId e i db = .ok (id, db')) :
    db'.tables.editionAuthors = db.tables.editionAuthors := by
  obtain ⟨⟨id₁, db₁⟩, hrow, h⟩ := bind_eq_ok.1 h
  obtain ⟨db₂, hlink, h⟩ := bind_eq_ok.1 h
  cases Except.ok.inj h
  exact (editionAuthors_linkIdentifier hlink).trans (editions_identifierRow hrow).2

/-- The row of the URN is linked to the edition, and nothing else is. -/
theorem linked_attachIdentifier_iff (h : attachIdentifier newId e i db = .ok (id, db')) :
    ∃ row, row.value = i.asUrnString ∧ ∀ e' r,
      Linked db'.tables e' r ↔ Linked db.tables e' r ∨ e' = e ∧ r = row := by
  obtain ⟨⟨id₁, db₁⟩, hrow, h⟩ := bind_eq_ok.1 h
  obtain ⟨db₂, hlink, h⟩ := bind_eq_ok.1 h
  cases Except.ok.inj h
  obtain ⟨hsame, row, rfl, hvalue, hrows⟩ := mem_identifierRow hrow
  obtain ⟨hkept, hlinks⟩ := mem_linkIdentifier hlink
  refine ⟨row, hvalue, fun e' r => ?_⟩
  -- a row that is new is linked to nothing
  have hold : r ∈ db₁.tables.identifiers → ⟨e', r.id⟩ ∈ db.tables.editionIdentifiers →
      r ∈ db.tables.identifiers := by
    intro hr hl
    obtain ⟨r', hr', hid⟩ := List.mem_map.1 (link_mem db.sound hl).2
    have hsamerow : r' = r := List.inj_on_of_nodup_map db₁.sound.keys.identifierKeys
      ((hrows r').2 (Or.inl hr')) hr hid
    exact hsamerow ▸ hr'
  rw [Linked, hkept, hlinks, hsame]
  constructor
  · rintro ⟨hr, hl | hl⟩
    · exact Or.inl ⟨hold hr hl, hl⟩
    · obtain ⟨rfl, hid⟩ := Link.mk.inj hl
      refine Or.inr ⟨rfl, List.inj_on_of_nodup_map db₁.sound.keys.identifierKeys hr ?_ hid⟩
      exact (hrows row).2 (Or.inr rfl)
  · rintro (⟨hr, hl⟩ | ⟨rfl, rfl⟩)
    · exact ⟨(hrows r).2 (Or.inl hr), Or.inl hl⟩
    · exact ⟨(hrows r).2 (Or.inr rfl), Or.inr rfl⟩

theorem faithful_attachIdentifier (hi : Parsed i) (hf : Faithful db.tables)
    (h : attachIdentifier newId e i db = .ok (id, db')) : Faithful db'.tables := by
  obtain ⟨⟨id₁, db₁⟩, hrow, h⟩ := bind_eq_ok.1 h
  obtain ⟨db₂, hlink, h⟩ := bind_eq_ok.1 h
  cases Except.ok.inj h
  have hfaithful : Faithful db₁.tables := by
    rw [identifierRow] at hrow
    split at hrow
    · cases Except.ok.inj hrow
      exact hf
    · obtain ⟨db₃, hdb, hrow⟩ := bind_eq_ok.1 hrow
      cases Except.ok.inj hrow
      rw [execute_eq_ok.1 hdb]
      intro r hr
      rcases List.mem_append.1 hr with hr | hr
      · exact hf r hr
      · rw [List.mem_singleton.1 hr]
        exact ⟨i, hi, rfl, rfl⟩
  intro r hr
  rw [(mem_linkIdentifier hlink).1] at hr
  exact hfaithful r hr

/-- The identifier is in the set of the edition, and nothing else is new in any set. -/
theorem carried_attachIdentifier (hi : Parsed i) (hf : Faithful db.tables)
    (h : attachIdentifier newId e i db = .ok (id, db')) :
    carried db'.tables = (carried db.tables).insertIdentifier e i := by
  have hf' := faithful_attachIdentifier hi hf h
  refine Sets.ext ?_ ?_
  · funext e'
    ext j
    obtain ⟨row, hvalue, hlinked⟩ := linked_attachIdentifier_iff h
    rw [Sets.mem_insertIdentifier, mem_carried_identifiers hf', mem_carried_identifiers hf]
    simp only [hlinked]
    constructor
    · rintro ⟨hj, r, hr | ⟨he, rfl⟩, hr'⟩
      · exact Or.inl ⟨hj, r, hr, hr'⟩
      · exact Or.inr ⟨he, hj.eq_of_asUrnString hi (hr'.symm.trans hvalue)⟩
    · rintro (⟨hj, r, hr, hr'⟩ | ⟨he, rfl⟩)
      · exact ⟨hj, r, Or.inl hr, hr'⟩
      · exact ⟨hi, row, Or.inr ⟨he, rfl⟩, hvalue⟩
  · funext e'
    ext p
    show _ ∈ db'.tables.editionAuthors ↔ _ ∈ db.tables.editionAuthors
    rw [editionAuthors_attachIdentifier h]

/-! ### Detaching -/

theorem detachIdentifier_ok (e : DbId) (urn : String) (db : Db) :
    ∃ removed db', detachIdentifier e urn db = .ok (removed, db') := by
  rw [detachIdentifier]
  split
  · exact ⟨false, db, rfl⟩
  · exact ⟨_, _, bind_eq_ok.2 ⟨_, execute_of_sound (sound_editionIdentifiers db.sound
      fun l hl => link_mem db.sound (List.mem_filter.1 hl).1), rfl⟩⟩

/-- What a detached identifier leaves: all but the link. -/
structure Detached (e : DbId) (urn : String) (t t' : Tables) : Prop where
  editions : t'.editionIds = t.editionIds
  identifiers : t'.identifiers = t.identifiers
  contributions : t'.editionAuthors = t.editionAuthors
  linked : ∀ e' r, Linked t' e' r ↔ Linked t e' r ∧ ¬ (e' = e ∧ r.value = urn)

theorem detached_detachIdentifier {urn : String} {removed : Bool}
    (h : detachIdentifier e urn db = .ok (removed, db')) : Detached e urn db.tables db'.tables := by
  rw [detachIdentifier] at h
  cases hfound : db.tables.identifiers.find? fun r => decide (r.value = urn) with
  | none =>
      rw [hfound] at h
      cases Except.ok.inj h
      refine ⟨rfl, rfl, rfl, fun e' r => (and_iff_left_of_imp ?_).symm⟩
      rintro hlinked ⟨_, hvalue⟩
      exact find?_key_eq_none.1 hfound (List.mem_map.2 ⟨r, hlinked.1, hvalue⟩)
  | some row =>
      rw [hfound] at h
      obtain ⟨hrow, hvalue⟩ := (find?_key_eq_some db.sound.keys.identifierValues).1 hfound
      obtain ⟨db₁, hdb, h⟩ := bind_eq_ok.1 h
      cases Except.ok.inj h
      rw [execute_eq_ok.1 hdb]
      refine ⟨rfl, rfl, rfl, fun e' r => ?_⟩
      have hsame : r ∈ db.tables.identifiers → (r.id = row.id ↔ r.value = urn) := by
        intro hr
        rw [← hvalue]
        exact ⟨fun hid => congrArg _
          (List.inj_on_of_nodup_map db.sound.keys.identifierKeys hr hrow hid),
          fun hval => congrArg _
          (List.inj_on_of_nodup_map db.sound.keys.identifierValues hr hrow hval)⟩
      rw [Linked, Linked, and_assoc]
      refine and_congr_right fun hr => ?_
      rw [← hsame hr, List.mem_filter, Bool.not_eq_true', decide_eq_false_iff_not]

theorem Detached.carried {i : Identifier} {t t' : Tables} (hi : Parsed i) (hf : Faithful t)
    (h : Detached e i.asUrnString t t') :
    Faithful t' ∧ carried t' = (carried t).removeIdentifier e i := by
  have hf' : Faithful t' := by
    intro r hr
    rw [h.identifiers] at hr
    exact hf r hr
  refine ⟨hf', Sets.ext ?_ ?_⟩
  · funext e'
    ext j
    rw [Sets.mem_removeIdentifier, mem_carried_identifiers hf', mem_carried_identifiers hf]
    simp only [h.linked]
    constructor
    · rintro ⟨hj, r, ⟨hr, hother⟩, hvalue⟩
      refine ⟨⟨hj, r, hr, hvalue⟩, ?_⟩
      rintro ⟨he, rfl⟩
      exact hother ⟨he, hvalue⟩
    · rintro ⟨⟨hj, r, hr, hvalue⟩, hother⟩
      refine ⟨hj, r, ⟨hr, ?_⟩, hvalue⟩
      rintro ⟨he, hurn⟩
      exact hother ⟨he, hj.eq_of_asUrnString hi (hvalue.symm.trans hurn)⟩
  · funext e'
    ext p
    show _ ∈ t'.editionAuthors ↔ _ ∈ t.editionAuthors
    rw [h.contributions]

/-! ### Contributions -/

variable {c : Contribution} {t : Tables}

/-- Other contributions, and everything else as it was. -/
def rewritten (t : Tables) (rows : List Contribution) : Tables := { t with editionAuthors := rows }

theorem attachContributor_eq_ok (h : attachContributor c db = .ok db') :
    ∃ rows, db'.tables = rewritten db.tables rows ∧
      ∀ x, x ∈ rows ↔ x ∈ db.tables.editionAuthors ∨ x = c := by
  rw [attachContributor] at h
  split at h
  · rename_i hmem
    cases Except.ok.inj h
    refine ⟨db.tables.editionAuthors, rfl, fun x => (or_iff_left_of_imp ?_).symm⟩
    rintro rfl
    exact hmem
  · refine ⟨_, execute_eq_ok.1 h, fun x => ?_⟩
    rw [List.mem_append, List.mem_singleton]

theorem attachContributor_ok (he : c.editionId ∈ db.tables.editionIds)
    (ha : c.authorId ∈ db.tables.authorIds) : ∃ db', attachContributor c db = .ok db' := by
  rw [attachContributor]
  split
  · exact ⟨db, rfl⟩
  · rename_i hnew
    refine ⟨_, execute_of_sound (sound_editionAuthors db.sound
      (nodup_append_one db.sound.keys.contributionKeys hnew) fun x hx => ?_)⟩
    rcases List.mem_append.1 hx with hx | hx
    · exact contribution_mem db.sound hx
    · rw [List.mem_singleton.1 hx]
      exact ⟨he, ha⟩

theorem detachContributor_eq_ok {removed : Bool}
    (h : detachContributor c db = .ok (removed, db')) :
    db'.tables = rewritten db.tables (db.tables.editionAuthors.filter fun x => decide (x ≠ c)) := by
  obtain ⟨db₁, hdb, h⟩ := bind_eq_ok.1 h
  cases Except.ok.inj h
  exact execute_eq_ok.1 hdb

theorem detachContributor_ok (c : Contribution) (db : Db) :
    ∃ r, detachContributor c db = .ok r :=
  ⟨_, bind_eq_ok.2 ⟨_, execute_of_sound (sound_editionAuthors db.sound
    (db.sound.keys.contributionKeys.filter _)
    fun _ hx => contribution_mem db.sound (List.mem_filter.1 hx).1), rfl⟩⟩

theorem carried_attached {rows : List Contribution}
    (hrows : ∀ x, x ∈ rows ↔ x ∈ t.editionAuthors ∨ x = c) :
    carried (rewritten t rows) =
      (carried t).insertContributor c.editionId (c.authorId, c.role) := by
  refine Sets.ext rfl ?_
  funext e'
  ext p
  rw [Sets.mem_insertContributor]
  show _ ∈ rows ↔ _ ∈ t.editionAuthors ∨ _
  rw [hrows]
  refine or_congr_right ?_
  constructor
  · rintro rfl
    exact ⟨rfl, rfl⟩
  · rintro ⟨rfl, rfl⟩
    rfl

theorem carried_detached :
    carried (rewritten t (t.editionAuthors.filter fun x => decide (x ≠ c))) =
      (carried t).removeContributor c.editionId (c.authorId, c.role) := by
  refine Sets.ext rfl ?_
  funext e'
  ext p
  rw [Sets.mem_removeContributor]
  show _ ∈ t.editionAuthors.filter _ ↔ _ ∈ t.editionAuthors ∧ _
  rw [List.mem_filter, decide_eq_true_iff]
  refine and_congr_right fun _ => not_congr ?_
  constructor
  · rintro rfl
    exact ⟨rfl, rfl⟩
  · rintro ⟨rfl, rfl⟩
    rfl

theorem carried_dropAuthor (id : DbId) :
    carried (t.dropAuthor id) = (carried t).dropContributor id := by
  refine Sets.ext rfl ?_
  funext e'
  ext p
  show _ ∈ t.editionAuthors.filter _ ↔ _ ∈ t.editionAuthors ∧ _
  rw [List.mem_filter, decide_eq_true_iff]

end Statements

/-! ## What a call changes -/

section Effects

variable {lib : IndexLib} {env : Env} {s s' : Store} {e : DbId}

theorem db_ite {removed : Bool} {db : Db} :
    (if removed then syncEditionIndex lib env s.index db else { s with db }).db = db := by
  cases removed <;> rfl

theorem cleanRole_eq_ok {role cleaned : String} :
    cleanRole lib role = .ok cleaned ↔ stored lib role ≠ "" ∧ stored lib role = cleaned := by
  unfold cleanRole stored
  by_cases h : lib.toLowercase (trim role) = ""
  · rw [if_pos h]
    exact iff_of_false (by rintro ⟨⟩) fun hne => hne.1 h
  · rw [if_neg h]
    exact ⟨fun hok => ⟨h, Except.ok.inj hok⟩, fun hne => congrArg _ hne.2⟩

/-- Every row is faithful, and the sets are these. -/
def Holds (s : Store) (w : Sets) : Prop := Faithful s.db.tables ∧ carried s.db.tables = w

/-- A call that returns has done to the sets what it should. -/
theorem holds_perform (hf : Faithful s.db.tables) {c : LinkCall}
    (h : perform lib env s c.toCall = .ok s') :
    Holds s' ((carried s.db.tables).after lib c) := by
  cases c with
  | addEditionIdentifier newId e i =>
      obtain ⟨r, h⟩ := eq_ok_of_snd h
      obtain ⟨_, _, h⟩ := bind_eq_ok.1 h
      obtain ⟨⟨id, db⟩, hattach, h⟩ := bind_eq_ok.1 h
      cases Except.ok.inj h
      exact ⟨faithful_attachIdentifier i.2 hf hattach, carried_attachIdentifier i.2 hf hattach⟩
  | updateEditionIdentifier newId e old new =>
      obtain ⟨r, h⟩ := eq_ok_of_snd h
      obtain ⟨_, _, h⟩ := bind_eq_ok.1 h
      obtain ⟨⟨removed, db₁⟩, hdetach, h⟩ := bind_eq_ok.1 h
      obtain ⟨⟨id, db⟩, hattach, h⟩ := bind_eq_ok.1 h
      cases Except.ok.inj h
      obtain ⟨hf₁, hcarried⟩ := (detached_detachIdentifier hdetach).carried old.2 hf
      refine ⟨faithful_attachIdentifier new.2 hf₁ hattach, ?_⟩
      -- the new link is made on what the detaching left
      exact (carried_attachIdentifier new.2 hf₁ hattach).trans
        (congrArg (Sets.insertIdentifier · e new.1) hcarried)
  | removeEditionIdentifier e i =>
      obtain ⟨r, h⟩ := eq_ok_of_snd h
      obtain ⟨⟨removed, db⟩, hdetach, h⟩ := bind_eq_ok.1 h
      cases Except.ok.inj h
      rw [Holds, db_ite]
      exact (detached_detachIdentifier hdetach).carried i.2 hf
  | addEditionContributor e a role =>
      obtain ⟨r, h⟩ := eq_ok_of_snd h
      obtain ⟨role', hrole, h⟩ := bind_eq_ok.1 h
      obtain ⟨_, _, h⟩ := bind_eq_ok.1 h
      obtain ⟨_, _, h⟩ := bind_eq_ok.1 h
      obtain ⟨db, hattach, h⟩ := bind_eq_ok.1 h
      cases Except.ok.inj h
      obtain ⟨_, rfl⟩ := cleanRole_eq_ok.1 hrole
      obtain ⟨rows, htables, hrows⟩ := attachContributor_eq_ok hattach
      show Faithful db.tables ∧ carried db.tables = _
      rw [htables]
      exact ⟨hf, carried_attached hrows⟩
  | updateEditionContributor e a fromRole toRole =>
      obtain ⟨r, h⟩ := eq_ok_of_snd h
      obtain ⟨from', hfrom, h⟩ := bind_eq_ok.1 h
      obtain ⟨to', hto, h⟩ := bind_eq_ok.1 h
      obtain ⟨_, _, h⟩ := bind_eq_ok.1 h
      obtain ⟨_, _, h⟩ := bind_eq_ok.1 h
      obtain ⟨⟨removed, db₁⟩, hdetach, h⟩ := bind_eq_ok.1 h
      obtain ⟨db, hattach, h⟩ := bind_eq_ok.1 h
      cases Except.ok.inj h
      obtain ⟨_, rfl⟩ := cleanRole_eq_ok.1 hfrom
      obtain ⟨_, rfl⟩ := cleanRole_eq_ok.1 hto
      obtain ⟨rows, htables, hrows⟩ := attachContributor_eq_ok hattach
      show Faithful db.tables ∧ carried db.tables = _
      rw [htables, detachContributor_eq_ok hdetach]
      rw [detachContributor_eq_ok hdetach] at hrows
      refine ⟨hf, (carried_attached hrows).trans ?_⟩
      exact congrArg (Sets.insertContributor · e (a, stored lib toRole)) carried_detached
  | removeEditionContributor e a role =>
      obtain ⟨r, h⟩ := eq_ok_of_snd h
      obtain ⟨role', hrole, h⟩ := bind_eq_ok.1 h
      obtain ⟨⟨removed, db⟩, hdetach, h⟩ := bind_eq_ok.1 h
      cases Except.ok.inj h
      obtain ⟨_, rfl⟩ := cleanRole_eq_ok.1 hrole
      rw [Holds, db_ite, detachContributor_eq_ok hdetach]
      exact ⟨hf, carried_detached⟩
  | deleteContributor id =>
      obtain ⟨r, h⟩ := eq_ok_of_snd h
      obtain ⟨db, hdb, h⟩ := bind_eq_ok.1 h
      cases Except.ok.inj h
      show Faithful db.tables ∧ carried db.tables = _
      rw [execute_eq_ok.1 hdb]
      -- the links of a contributor go with it
      exact ⟨hf, carried_dropAuthor id⟩

theorem exists_cleanRole_iff {role : String} :
    (∃ cleaned, cleanRole lib role = .ok cleaned) ↔ stored lib role ≠ "" :=
  ⟨fun h => (cleanRole_eq_ok.1 h.choose_spec).1, fun h => ⟨_, cleanRole_eq_ok.2 ⟨h, rfl⟩⟩⟩

/-- The calls that return are those that are not refused. -/
theorem succeeds_iff (c : LinkCall) :
    Succeeds lib env s c.toCall ↔ Accepted lib s.db.tables c := by
  cases c with
  | addEditionIdentifier newId e i =>
      refine exists_ok_map_iff.trans ((exists_ok_bind_iff fun row hrow => ?_).trans
        (and_congr_left' requireEdition_eq_ok_iff))
      have he := requireEdition_eq_ok_iff.1 ⟨row, hrow⟩
      exact (exists_ok_last_iff fun _ _ => ⟨_, rfl⟩).trans (attachIdentifier_ok_iff he)
  | updateEditionIdentifier newId e old new =>
      refine exists_ok_map_iff.trans ((exists_ok_bind_iff fun row hrow => ?_).trans
        (and_congr_left' requireEdition_eq_ok_iff))
      have he := requireEdition_eq_ok_iff.1 ⟨row, hrow⟩
      refine (exists_ok_bind_iff fun detached hdetach => ?_).trans
        (and_iff_right ?_)
      · obtain ⟨removed, db₁⟩ := detached
        have hleft := detached_detachIdentifier hdetach
        refine (exists_ok_last_iff fun _ _ => ⟨_, rfl⟩).trans
          ((attachIdentifier_ok_iff (hleft.editions ▸ he)).trans ?_)
        -- detaching removes no identifier, so the id is drawn from the same ones
        rw [Drawable, Drawable, Tables.identifierIds, Tables.identifierIds, hleft.identifiers]
      · obtain ⟨removed, db₁, hdetach⟩ := detachIdentifier_ok e old.1.asUrnString s.db
        exact ⟨_, hdetach⟩
  | removeEditionIdentifier e i =>
      refine iff_of_true (exists_ok_map_iff.2 ((exists_ok_last_iff fun _ _ => ⟨_, rfl⟩).2 ?_)) trivial
      obtain ⟨removed, db₁, hdetach⟩ := detachIdentifier_ok e i.1.asUrnString s.db
      exact ⟨_, hdetach⟩
  | addEditionContributor e a role =>
      refine exists_ok_map_iff.trans ((exists_ok_bind_iff fun _ _ => ?_).trans
        (and_congr_left' exists_cleanRole_iff))
      refine (exists_ok_bind_iff fun row hrow => ?_).trans
        (and_congr_left' requireEdition_eq_ok_iff)
      refine (exists_ok_last_iff fun author hauthor => ?_).trans requireContributor_eq_ok_iff
      obtain ⟨db, hattach⟩ := @attachContributor_ok s.db ⟨e, a, _⟩
        (requireEdition_eq_ok_iff.1 ⟨row, hrow⟩) (requireContributor_eq_ok_iff.1 ⟨author, hauthor⟩)
      exact ⟨_, bind_eq_ok.2 ⟨db, hattach, rfl⟩⟩
  | updateEditionContributor e a fromRole toRole =>
      refine exists_ok_map_iff.trans ((exists_ok_bind_iff fun from' _ => ?_).trans
        (and_congr_left' exists_cleanRole_iff))
      refine (exists_ok_bind_iff fun to' _ => ?_).trans (and_congr_left' exists_cleanRole_iff)
      refine (exists_ok_bind_iff fun row hrow => ?_).trans
        (and_congr_left' requireEdition_eq_ok_iff)
      refine (exists_ok_last_iff fun author hauthor => ?_).trans requireContributor_eq_ok_iff
      obtain ⟨⟨removed, db₁⟩, hdetach⟩ := detachContributor_ok ⟨e, a, from'⟩ s.db
      have htables := detachContributor_eq_ok hdetach
      have he : e ∈ db₁.tables.editionIds := by
        rw [htables]
        exact requireEdition_eq_ok_iff.1 ⟨row, hrow⟩
      have ha : a ∈ db₁.tables.authorIds := by
        rw [htables]
        exact requireContributor_eq_ok_iff.1 ⟨author, hauthor⟩
      obtain ⟨db, hattach⟩ := @attachContributor_ok db₁ ⟨e, a, to'⟩ he ha
      exact ⟨_, bind_eq_ok.2 ⟨_, hdetach, bind_eq_ok.2 ⟨db, hattach, rfl⟩⟩⟩
  | removeEditionContributor e a role =>
      refine exists_ok_map_iff.trans ((exists_ok_last_iff fun _ _ => ?_).trans exists_cleanRole_iff)
      obtain ⟨r, hr⟩ := detachContributor_ok _ s.db
      exact ⟨_, bind_eq_ok.2 ⟨r, hr, rfl⟩⟩
  | deleteContributor id =>
      refine iff_of_true (exists_ok_map_iff.2 ((exists_ok_last_iff fun _ _ => ⟨_, rfl⟩).2 ?_)) trivial
      exact ⟨_, execute_of_sound (sound_dropAuthor s.db.sound id)⟩

end Effects

/-! ## Runs -/

section Runs

variable (lib : IndexLib) (env : Env)

/-- What a call that fails leaves: an update has detached the old link. -/
def leftBy (s : Store) : LinkCall → Store
  | .updateEditionIdentifier _ e old _ =>
      match requireEdition env s.db e, detachIdentifier e old.1.asUrnString s.db with
      | .ok _, .ok (_, db) => { s with db }
      | _, _ => s
  | _ => s

def step (s : Store) (c : LinkCall) : Store :=
  (perform lib env s c.toCall).toOption.getD (leftBy env s c)

/-- What the calls of a run come to. -/
def effects : Store → List LinkCall → List LinkCall
  | _, [] => []
  | s, c :: rest => (effect lib s.db.tables c).toList ++ effects (step lib env s c) rest

/-- The sets that a run leaves: what its calls do to them, one after the other. -/
def Sets.afterRun (w : Sets) (s : Store) (run : List LinkCall) : Sets :=
  (effects lib env s run).foldl (Sets.after lib) w

end Runs

section Runs

variable {lib : IndexLib} {env : Env} {s s' : Store}

theorem step_of_accepted {c : LinkCall} (hf : Faithful s.db.tables)
    (h : Accepted lib s.db.tables c) :
    Holds (step lib env s c) ((carried s.db.tables).after lib c) := by
  obtain ⟨s', hs'⟩ := (@succeeds_iff lib env s c).2 h
  rw [step, hs']
  exact holds_perform hf hs'

theorem step_of_refused {c : LinkCall} (h : ¬ Accepted lib s.db.tables c) :
    step lib env s c = leftBy env s c := by
  rw [step]
  cases hs' : perform lib env s c.toCall with
  | error e => rfl
  | ok s' => exact absurd ((succeeds_iff c).1 ⟨s', hs'⟩) h

/-- The half of an update that is done when the other is refused. -/
theorem leftBy_updateEditionIdentifier (hf : Faithful s.db.tables) (newId e : DbId)
    (old new : ParsedIdentifier) :
    Holds (leftBy env s (.updateEditionIdentifier newId e old new))
      (if e ∈ s.db.tables.editionIds then (carried s.db.tables).removeIdentifier e old.1
        else carried s.db.tables) := by
  rw [leftBy]
  cases hrow : requireEdition env s.db e with
  | error err =>
      have hnone : e ∉ s.db.tables.editionIds := by
        intro he
        obtain ⟨row, hok⟩ := (@requireEdition_eq_ok_iff env s.db e).2 he
        cases hrow.symm.trans hok
      rw [if_neg hnone]
      exact ⟨hf, rfl⟩
  | ok row =>
      obtain ⟨removed, db, hdetach⟩ := detachIdentifier_ok e old.1.asUrnString s.db
      rw [if_pos (requireEdition_eq_ok_iff.1 ⟨row, hrow⟩), hdetach]
      exact (detached_detachIdentifier hdetach).carried old.2 hf

/-- After a call the sets are what it comes to. -/
theorem holds_step (c : LinkCall) (hf : Faithful s.db.tables) : Holds (step lib env s c)
    ((effect lib s.db.tables c).toList.foldl (Sets.after lib) (carried s.db.tables)) := by
  by_cases h : Accepted lib s.db.tables c
  · rw [effect, if_pos h]
    exact step_of_accepted hf h
  · rw [effect, if_neg h, step_of_refused h]
    cases c with
    | updateEditionIdentifier newId e old new =>
        have hleft := @leftBy_updateEditionIdentifier env s hf newId e old new
        rw [half]
        by_cases he : e ∈ s.db.tables.editionIds
        · rw [if_pos he] at hleft ⊢
          exact hleft
        · rw [if_neg he] at hleft ⊢
          exact hleft
    | addEditionIdentifier newId e i => exact ⟨hf, rfl⟩
    | removeEditionIdentifier e i => exact ⟨hf, rfl⟩
    | addEditionContributor e a role => exact ⟨hf, rfl⟩
    | updateEditionContributor e a fromRole toRole => exact ⟨hf, rfl⟩
    | removeEditionContributor e a role => exact ⟨hf, rfl⟩
    | deleteContributor id => exact ⟨hf, rfl⟩

theorem holds_exec (run : List LinkCall) :
    ∀ {s : Store}, Faithful s.db.tables → Holds (Runs.exec (step lib env) s run)
      ((carried s.db.tables).afterRun lib env s run) := by
  induction run with
  | nil => exact fun hf => ⟨hf, rfl⟩
  | cons c rest ih =>
      intro s hf
      obtain ⟨hf', hcarried⟩ := @holds_step lib env s c hf
      rw [Runs.exec_cons, Sets.afterRun, effects, List.foldl_append, ← hcarried]
      exact ih hf'

end Runs

/-! ## The other calls -/

/-- The identifiers that a call brings. -/
def identifiersOf : Call → List Identifier
  | .addEditionIdentifier _ _ i => [i]
  | .updateEditionIdentifier _ _ old new => [old, new]
  | .removeEditionIdentifier _ i => [i]
  | _ => []

/-- A call as it comes in: its identifiers were parsed. -/
def ParsedCall := {c : Call // ∀ i ∈ identifiersOf c, Parsed i}

section Made

variable {lib : IndexLib} {env : Env} {s s' : Store}

theorem Faithful.of_identifiers {t t' : Tables} (hf : Faithful t)
    (h : t'.identifiers = t.identifiers) : Faithful t' := by
  intro r hr
  rw [h] at hr
  exact hf r hr

/-- A statement that leaves the identifiers as they are. -/
theorem Faithful.of_execute {t t' : Tables} {db : Db} (hf : Faithful t)
    (h : execute t' = .ok db) (hsame : t'.identifiers = t.identifiers) : Faithful db.tables := by
  rw [execute_eq_ok.1 h]
  exact hf.of_identifiers hsame

theorem identifiers_writeFile {now : Int} {newId e : DbId} {filePath : String}
    {fileFormat : Option String} {fileSizeBytes : Option Int} {t : Tables} {db : Db}
    (h : writeFile now newId e filePath fileFormat fileSizeBytes t = .ok db) :
    db.tables.identifiers = t.identifiers := by
  rw [writeFile] at h
  split at h
  · rw [execute_eq_ok.1 h]
  split at h
  · cases h
  · rw [execute_eq_ok.1 h]

theorem identifiers_deleteEdition {e : DbId} {removed : Bool}
    (h : deleteEdition env e s = .ok (removed, s')) :
    s'.db.tables.identifiers = s.db.tables.identifiers := by
  rw [deleteEdition] at h
  split at h
  · cases Except.ok.inj h
    rfl
  · obtain ⟨db₁, hdb₁, h⟩ := bind_eq_ok.1 h
    obtain ⟨db₂, hdb₂, h⟩ := bind_eq_ok.1 h
    cases Except.ok.inj h
    have hdropped : db₂.tables.identifiers = db₁.tables.identifiers := by
      rw [dropEmptied] at hdb₂
      split at hdb₂
      · rw [execute_eq_ok.1 hdb₂]
        rfl
      · cases Except.ok.inj hdb₂
        rfl
    refine hdropped.trans ?_
    rw [execute_eq_ok.1 hdb₁]
    rfl

/-- No call writes a row that is not that of an identifier. -/
theorem faithful_perform (hf : Faithful s.db.tables) (call : ParsedCall)
    (h : perform lib env s call.1 = .ok s') : Faithful s'.db.tables := by
  obtain ⟨call, hcall⟩ := call
  cases call with
  | setEditionFile now newId e filePath fileFormat fileSizeBytes =>
      obtain ⟨r, h⟩ := eq_ok_of_snd h
      obtain ⟨_, _, h⟩ := bind_eq_ok.1 h
      obtain ⟨db, hdb, h⟩ := bind_eq_ok.1 h
      cases Except.ok.inj h
      -- a write that is to other tables leaves the identifiers as they are
      exact hf.of_identifiers (identifiers_writeFile hdb)
  | removeEditionFile e =>
      obtain ⟨r, h⟩ := eq_ok_of_snd h
      obtain ⟨db, hdb, h⟩ := bind_eq_ok.1 h
      cases Except.ok.inj h
      rw [db_ite]
      exact hf.of_execute hdb rfl
  | addEditionIdentifier newId e i =>
      -- a caller parses what it passes, so the row inserted is faithful
      have hi : Parsed i := hcall i (List.mem_singleton_self i)
      exact (holds_perform (c := .addEditionIdentifier newId e ⟨i, hi⟩) hf h).1
  | updateEditionIdentifier newId e old new =>
      have hold : Parsed old := hcall old List.mem_cons_self
      have hnew : Parsed new := hcall new (List.mem_cons_of_mem _ List.mem_cons_self)
      exact (holds_perform (c := .updateEditionIdentifier newId e ⟨old, hold⟩ ⟨new, hnew⟩) hf h).1
  | removeEditionIdentifier e i =>
      have hi : Parsed i := hcall i (List.mem_singleton_self i)
      exact (holds_perform (c := .removeEditionIdentifier e ⟨i, hi⟩) hf h).1
  | createWork newId title sortTitle description =>
      obtain ⟨r, h⟩ := eq_ok_of_snd h
      rw [createWork] at h
      split at h
      · cases h
      · obtain ⟨db, hdb, h⟩ := bind_eq_ok.1 h
        cases Except.ok.inj h
        exact hf.of_execute hdb rfl
  | createEdition now newId input =>
      obtain ⟨r, h⟩ := eq_ok_of_snd h
      obtain ⟨_, _, h⟩ := bind_eq_ok.1 h
      obtain ⟨_, _, h⟩ := bind_eq_ok.1 h
      obtain ⟨db, hdb, h⟩ := bind_eq_ok.1 h
      cases Except.ok.inj h
      exact hf.of_execute hdb rfl
  | updateEdition now e patch =>
      obtain ⟨r, h⟩ := eq_ok_of_snd h
      obtain ⟨_, _, h⟩ := bind_eq_ok.1 h
      obtain ⟨_, _, h⟩ := bind_eq_ok.1 h
      obtain ⟨db, hdb, h⟩ := bind_eq_ok.1 h
      cases Except.ok.inj h
      exact hf.of_execute hdb rfl
  | setEditionCoverUrl now e coverImageUrl =>
      obtain ⟨r, h⟩ := eq_ok_of_snd h
      obtain ⟨_, _, h⟩ := bind_eq_ok.1 h
      obtain ⟨db, hdb, h⟩ := bind_eq_ok.1 h
      cases Except.ok.inj h
      exact hf.of_execute hdb rfl
  | deleteWork workId =>
      obtain ⟨r, h⟩ := eq_ok_of_snd h
      obtain ⟨db, hdb, h⟩ := bind_eq_ok.1 h
      obtain rfl := congrArg Prod.snd (Except.ok.inj h)
      refine (hf.of_execute hdb rfl).of_identifiers ?_
      split <;> rfl
  | deleteEdition e =>
      obtain ⟨r, h⟩ := eq_ok_of_snd h
      exact hf.of_identifiers (identifiers_deleteEdition h)
  | createContributor newId name =>
      obtain ⟨r, h⟩ := eq_ok_of_snd h
      obtain ⟨_, _, h⟩ := bind_eq_ok.1 h
      obtain ⟨db, hdb, h⟩ := bind_eq_ok.1 h
      cases Except.ok.inj h
      exact hf.of_execute hdb rfl
  | updateContributor id name =>
      obtain ⟨r, h⟩ := eq_ok_of_snd h
      obtain ⟨_, _, h⟩ := bind_eq_ok.1 h
      obtain ⟨_, _, h⟩ := bind_eq_ok.1 h
      obtain ⟨db, hdb, h⟩ := bind_eq_ok.1 h
      cases Except.ok.inj h
      exact hf.of_execute hdb rfl
  | deleteContributor id => exact (holds_perform (c := .deleteContributor id) hf h).1
  | addEditionContributor e a role =>
      exact (holds_perform (c := .addEditionContributor e a role) hf h).1
  | updateEditionContributor e a fromRole toRole =>
      exact (holds_perform (c := .updateEditionContributor e a fromRole toRole) hf h).1
  | removeEditionContributor e a role =>
      exact (holds_perform (c := .removeEditionContributor e a role) hf h).1

theorem faithful_step (call : ParsedCall) (hf : Faithful s.db.tables) :
    Faithful (Library.step lib env s call.1).db.tables := by
  rw [Library.step]
  cases hs' : perform lib env s call.1 with
  | error e => exact hf
  | ok s' => exact faithful_perform hf call hs'

/-- Whatever calls were made, every row is that of an identifier. -/
theorem faithful_exec (made : List ParsedCall) (hf : Faithful s.db.tables) :
    Faithful (Runs.exec (fun s call => Library.step lib env s call.1) s made).db.tables :=
  @Runs.preserved _ _ _ (fun s : Store => Faithful s.db.tables)
    (fun _ call hs => faithful_step call hs) s made hf

end Made

/-! ## The sets and what is listed -/

/-- What is listed for each edition. -/
def listed (s : Store) : Sets where
  identifiers e := {i | i ∈ listEditionIdentifiers e s.db}
  contributors e := {p | p ∈ (listEditionContributors e s.db).map pair}

/-- The lists are these sets, each element once. -/
structure ListsSets (s : Store) (w : Sets) : Prop where
  identifiers : ∀ e, Lists (listEditionIdentifiers e s.db) (w.identifiers e)
  contributors : ∀ e, Lists ((listEditionContributors e s.db).map pair) (w.contributors e)

/-- The sets of an edition are the same. -/
def SameFor (e : DbId) (w w' : Sets) : Prop :=
  w'.identifiers e = w.identifiers e ∧ w'.contributors e = w.contributors e

section Sets

variable {lib : IndexLib} {env : Env} {s : Store} {w : Sets}

theorem Holds.listsSets (h : Holds s w) : ListsSets s w := by
  obtain ⟨hf, rfl⟩ := h
  exact ⟨fun _ => lists_identifiers hf, fun _ => lists_contributors⟩

theorem listed_eq (hf : Faithful s.db.tables) : listed s = carried s.db.tables :=
  Sets.ext (funext fun _ => Set.ext (lists_identifiers hf).2)
    (funext fun _ => Set.ext lists_contributors.2)

/-- An edition's sets change only with a call on it, or with a contributor that is deleted. -/
theorem sameFor_after (lib : IndexLib) (w : Sets) {c : LinkCall} {e e' : DbId}
    (hc : c.edition = some e) (hne : e' ≠ e) : SameFor e' w (w.after lib c) := by
  cases c with
  | deleteContributor id => cases hc
  | addEditionIdentifier newId e₁ i =>
      cases Option.some.inj hc
      exact ⟨Function.update_of_ne hne _ _, rfl⟩
  | updateEditionIdentifier newId e₁ old new =>
      cases Option.some.inj hc
      exact ⟨(Function.update_of_ne hne _ _).trans (Function.update_of_ne hne _ _), rfl⟩
  | removeEditionIdentifier e₁ i =>
      cases Option.some.inj hc
      exact ⟨Function.update_of_ne hne _ _, rfl⟩
  | addEditionContributor e₁ a role =>
      cases Option.some.inj hc
      exact ⟨rfl, Function.update_of_ne hne _ _⟩
  | updateEditionContributor e₁ a fromRole toRole =>
      cases Option.some.inj hc
      exact ⟨rfl, (Function.update_of_ne hne _ _).trans (Function.update_of_ne hne _ _)⟩
  | removeEditionContributor e₁ a role =>
      cases Option.some.inj hc
      exact ⟨rfl, Function.update_of_ne hne _ _⟩

/-- What a call comes to is about its edition. -/
theorem edition_effect {t : Tables} {c c' : LinkCall} (h : effect lib t c = some c') :
    c'.edition = c.edition := by
  rw [effect] at h
  split at h
  · cases Option.some.inj h
    rfl
  · unfold half at h
    split at h
    · split at h
      · cases Option.some.inj h
        rfl
      · cases h
    · cases h

theorem sameFor_step (hf : Faithful s.db.tables) {c : LinkCall} {e e' : DbId}
    (hc : c.edition = some e) (hne : e' ≠ e) :
    SameFor e' (listed s) (listed (step lib env s c)) := by
  obtain ⟨hf', hcarried⟩ := @holds_step lib env s c hf
  rw [listed_eq hf, listed_eq hf', hcarried]
  cases heffect : effect lib s.db.tables c with
  | none => exact ⟨rfl, rfl⟩
  | some c' => exact sameFor_after lib _ ((edition_effect heffect).trans hc) hne

end Sets

/-- **THE LINKS ARE SETS.** Whatever calls the library has seen: after a run of calls on the
    links, each list has exactly the elements of the set that the calls leave, each once, and one
    more call on an edition leaves the sets of every other. -/
theorem lists_after (lib : IndexLib) (env : Env) (created : Store)
    (hf : Faithful created.db.tables) (made : List ParsedCall) (run : List LinkCall) :
    let s := Runs.exec (fun s call => Library.step lib env s call.1) created made
    let s' := Runs.exec (step lib env) s run
    ListsSets s' ((listed s).afterRun lib env s run) ∧
      ∀ c e, LinkCall.edition c = some e → ∀ e' ≠ e,
        SameFor e' (listed s') (listed (step lib env s' c)) := by
  intro s s'
  have hfaithful : Faithful s.db.tables := faithful_exec made hf
  have hholds := @holds_exec lib env run s hfaithful
  rw [← listed_eq hfaithful] at hholds
  refine ⟨hholds.listsSets, fun c e hc e' hne => ?_⟩
  exact sameFor_step hholds.1 hc hne

/-! ## An identifier is added -/

def oneEditionStore : Store := ⟨oneEditionDb, DocIndex.Writer.empty⟩

def parsedLongForm : ParsedIdentifier := ⟨longForm, "urn:isbn:9780306406157", rfl⟩

def addLongForm : LinkCall := .addEditionIdentifier (sampleId 4) (sampleId 2) parsedLongForm

/-- The one edition of a library is given an identifier, which is then all it has. -/
theorem lists_after_addLongForm :
    listEditionIdentifiers (sampleId 2)
      (step plainLib Env.reference oneEditionStore addLongForm).db = [longForm] := by
  have hnone : ∀ r, r ∉ oneEditionStore.db.tables.identifiers := fun r => List.not_mem_nil
  have hlists := (lists_after plainLib Env.reference oneEditionStore
    (fun r hr => absurd hr (hnone r)) [] [addLongForm]).1.identifiers (sampleId 2)
  have haccepted : Accepted plainLib oneEditionStore.db.tables addLongForm :=
    ⟨List.mem_singleton_self _, Or.inr List.not_mem_nil⟩
  have hrun : effects plainLib Env.reference oneEditionStore [addLongForm] = [addLongForm] := by
    rw [effects, effect, if_pos haccepted]
    rfl
  rw [Sets.afterRun, Runs.exec_nil, hrun] at hlists
  refine List.perm_singleton.1 ((List.perm_ext_iff_of_nodup hlists.1 (List.nodup_singleton _)).2
    fun i => (hlists.2 i).trans ?_)
  refine Sets.mem_insertIdentifier.trans ?_
  rw [List.mem_singleton, and_iff_right rfl]
  exact or_iff_right List.not_mem_nil

end LinkSets
