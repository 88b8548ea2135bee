import Livtet.LinkSets

/-! # Identifiers as URNs

    An identifier is written as a URN, and only the URN is read back: the kind is what its
    scheme says. So an identifier of a custom kind is read back exactly if its scheme has no
    colon and is not the scheme of a kind that is known. Whatever is parsed is written as it
    was, and comes out of its row as it is. -/

namespace LinkSets

open SyncStore (Env)
open SyncPairing (DbId)
open Reindex (IdentifierRow)
open Outcomes Library KeyedRows

/-- `Identifier::new`. -/
def newIdentifier (kind : IdentifierKind) (value : String) : Identifier :=
  ⟨kind, ⟨kind.asStr, value⟩⟩

def knownSchemes : List String := ["isbn", "oclc", "lccn", "doi", "http", "https", "opds"]

/-- A custom scheme without a colon that is no other kind's. -/
def PlainKind : IdentifierKind → Prop
  | .custom scheme => ':' ∉ scheme.toList ∧ scheme ∉ knownSchemes
  | _ => True

/-! ## From an identifier to its text and back -/

section RoundTrip

variable {kind : IdentifierKind} {value : String}

theorem parse_custom {scheme : String} (hne : scheme ≠ "") (h : scheme ∉ knownSchemes) :
    IdentifierKind.parse scheme = some (.custom scheme) := by
  simp only [knownSchemes, List.mem_cons, List.not_mem_nil, or_false, not_or] at h
  rw [IdentifierKind.parse]
  exacts [h.1, h.2.1, h.2.2.1, h.2.2.2.1, h.2.2.2.2.1, h.2.2.2.2.2.1, h.2.2.2.2.2.2, hne]

theorem parse_knownScheme {scheme : String} (h : scheme ∈ knownSchemes) :
    IdentifierKind.parse scheme ≠ some (.custom scheme) := by
  simp only [knownSchemes, List.mem_cons, List.not_mem_nil, or_false] at h
  rcases h with rfl | rfl | rfl | rfl | rfl | rfl | rfl <;> decide

/-- The scheme of a plain kind has no colon and is read as the kind. -/
theorem PlainKind.parse_asStr (hkind : kind ≠ .custom "") (h : PlainKind kind) :
    kind.asStr.toList ≠ [] ∧ ':' ∉ kind.asStr.toList ∧
      IdentifierKind.parse kind.asStr = some kind := by
  cases kind with
  | custom scheme =>
      have hne : scheme ≠ "" := fun hempty => hkind (congrArg _ hempty)
      exact ⟨fun hnil => hne (String.toList_eq_nil_iff.1 hnil), h.1, parse_custom hne h.2⟩
  | isbn => decide
  | oclc => decide
  | lccn => decide
  | doi => decide
  | web => decide
  | opds => decide

theorem parse_newIdentifier_iff (hkind : kind ≠ .custom "") (hvalue : value ≠ "") :
    Identifier.parse (newIdentifier kind value).asUrnString = .ok (newIdentifier kind value) ↔
      PlainKind kind := by
  constructor
  · intro h
    have hparsed : Parsed (newIdentifier kind value) := ⟨_, h⟩
    obtain ⟨_, hurn, hscheme⟩ := hparsed.parse_kind
    cases kind with
    | custom scheme =>
        refine ⟨(wellFormed_of_parse hurn).noColon, fun hknown => ?_⟩
        exact parse_knownScheme hknown hscheme
    | isbn => trivial
    | oclc => trivial
    | lccn => trivial
    | doi => trivial
    | web => trivial
    | opds => trivial
  · intro h
    obtain ⟨hne, hcolon, hscheme⟩ := h.parse_asStr hkind
    have hwell : WellFormed (newIdentifier kind value).urn :=
      ⟨hne, hcolon, fun hnil => hvalue (String.toList_eq_nil_iff.1 hnil)⟩
    rw [Identifier.parse, Identifier.asUrnString, parse_toUrnString hwell]
    dsimp only
    rw [newIdentifier, hscheme]

end RoundTrip

/-! ## From a text to its identifier and back -/

/-- A URN is written as it was read. -/
theorem toUrnString_of_parse {s : String} {u : Urn} (h : Urn.parse s = .ok u) :
    u.toUrnString = s := by
  rw [Urn.parse] at h
  split at h
  · cases h
  · rename_i hprefix
    dsimp only at h
    split at h
    · cases h
    · rename_i hcolon
      split at h
      · cases h
      · split at h
        · cases h
        · cases h
          rw [Bool.not_eq_true, Bool.not_eq_false'] at hprefix hcolon
          obtain ⟨rest, hrest⟩ := List.isPrefixOf_iff_prefix.1 hprefix
          have hdrop : s.toList.drop 4 = rest := by
            rw [← hrest]
            rfl
          rw [hdrop, List.contains_iff_mem] at hcolon
          obtain ⟨before, after, rfl, hbefore⟩ := List.eq_append_cons_of_mem hcolon
          have hspan : ∀ c ∈ before, (c != ':') = true := by
            intro c hc
            rw [bne_iff_ne]
            rintro rfl
            exact hbefore hc
          rw [← String.toList_inj, Urn.toUrnString]
          simp only [String.toList_append, String.toList_ofList, hdrop]
          rw [List.takeWhile_append_of_pos hspan, List.dropWhile_append_of_pos hspan, ← hrest]
          simp only [List.takeWhile_cons, List.dropWhile_cons, bne_self_eq_false,
            Bool.false_eq_true, if_false, List.append_nil, List.append_assoc, List.drop_succ_cons,
            List.drop_zero]
          rfl

theorem asUrnString_of_parse {s : String} {i : Identifier} (h : Identifier.parse s = .ok i) :
    i.asUrnString = s := by
  rw [Identifier.parse] at h
  split at h
  · cases h
  · rename_i urn hurn
    split at h
    · cases h
    · cases h
      exact toUrnString_of_parse hurn

/-- The row that is stored, where the URN has none, is turned into the identifier. -/
theorem stored_of_attach {i : Identifier} (hi : Parsed i) {newId e id : DbId} {db db' : Db}
    (h : attachIdentifier newId e i db = .ok (id, db'))
    (hnew : ∀ r ∈ db.tables.identifiers, r.value ≠ i.asUrnString) :
    ∃ row, db'.tables.identifiers = db.tables.identifiers ++ [row] ∧ toIdentifier row = i := by
  obtain ⟨⟨id₁, db₁⟩, hrow, h⟩ := bind_eq_ok.1 h
  obtain ⟨_, hlink, h⟩ := bind_eq_ok.1 h
  cases Except.ok.inj h
  have hnone : (db.tables.identifiers.find? fun r => decide (r.value = i.asUrnString)) = none :=
    List.find?_eq_none.2 fun r hr => by simpa using hnew r hr
  rw [identifierRow, hnone] at hrow
  obtain ⟨db₃, hdb, hrow⟩ := bind_eq_ok.1 hrow
  cases Except.ok.inj hrow
  refine ⟨⟨newId, i.kind.asStr, i.asUrnString⟩, ?_, toIdentifier_eq hi rfl rfl⟩
  have hkept : db'.tables.identifiers = db₁.tables.identifiers := by
    rw [linkIdentifier] at hlink
    split at hlink
    · cases Except.ok.inj hlink
      rfl
    · rw [execute_eq_ok.1 hlink]
  rw [hkept, execute_eq_ok.1 hdb]

/-- **IDENTIFIERS SURVIVE THEIR TEXT**, exactly if their kind is plain; and whatever text is
    accepted is given back, and its row turned back into what was read. -/
theorem identifier_text_iff (kind : IdentifierKind) (value : String) :
    (kind ≠ .custom "" → value ≠ "" →
      (Identifier.parse (newIdentifier kind value).asUrnString = .ok (newIdentifier kind value) ↔
        PlainKind kind)) ∧
    ∀ s i, Identifier.parse s = .ok i → i.asUrnString = s ∧
      ∀ newId e id db db', attachIdentifier newId e i db = .ok (id, db') →
        (∀ r ∈ db.tables.identifiers, r.value ≠ s) →
          ∃ row, db'.tables.identifiers = db.tables.identifiers ++ [row] ∧
            toIdentifier row = i := by
  refine ⟨parse_newIdentifier_iff, fun s i h => ?_⟩
  have htext := asUrnString_of_parse h
  refine ⟨htext, fun newId e id db db' hattach hnew => ?_⟩
  rw [← htext] at hnew
  exact stored_of_attach ⟨s, h⟩ hattach hnew

/-- The text of an ISBN. -/
theorem identifier_text_isbn :
    (Identifier.mk .isbn ⟨"isbn", "9780061120084"⟩).asUrnString = "urn:isbn:9780061120084" :=
  ((identifier_text_iff .isbn "9780061120084").2 "urn:isbn:9780061120084" _ (by rfl)).1

/-- A scheme with a colon is cut in two. -/
theorem identifier_text_colon :
    ¬ (Identifier.parse (newIdentifier (.custom "a:b") "c").asUrnString =
      .ok (newIdentifier (.custom "a:b") "c")) := by
  intro h
  have hplain := (parse_newIdentifier_iff (by decide) (by decide)).1 h
  exact hplain.1 (by decide)

end LinkSets
