import Livtet.Store
import Mathlib.Data.List.Sort
import Mathlib.Data.String.Basic

/-! # Naming — the id of an entity in Rust and in SQL

    The change log names a row by its hex id, or by a JSON object of its key. The audit
    triggers write that object with `json_object`, in the order of its arguments;
    `SyncableEntityKind::entity_id` writes it with `serde_json`, whose map is in the order
    of its keys. The two texts are the same where the arguments are in that order. -/

namespace SyncNaming

open SqlRows JsonText SyncSchema SyncStore

/-! ## Objects of texts -/

/-- A character of a JSON string, as both libraries write it: the short escapes, and
    `\u00xx` for every other control character. -/
def escapeChar (c : Char) : List Char :=
  match c with
  | '"' => ['\\', '"']
  | '\\' => ['\\', '\\']
  | '\n' => ['\\', 'n']
  | '\r' => ['\\', 'r']
  | '\t' => ['\\', 't']
  | '\x08' => ['\\', 'b']
  | '\x0c' => ['\\', 'f']
  | c => if c.toNat < 32 then
      ['\\', 'u', '0', '0', HexText.digitChar (c.toNat / 16), HexText.digitChar (c.toNat % 16)]
    else [c]

def quote (s : String) : List Char := '"' :: s.toList.flatMap escapeChar ++ ['"']

def members : List (String × String) → List Char
  | [] => []
  | [p] => quote p.1 ++ ':' :: quote p.2
  | p :: rest => quote p.1 ++ ':' :: quote p.2 ++ ',' :: members rest

/-- A compact JSON object of texts. -/
def objectText (fields : List (String × String)) : String :=
  String.ofList ('{' :: members fields ++ ['}'])

/-- `serde_json::json!` of an object, as text: its map is ordered by key. -/
def jsonToString (fields : List (String × String)) : String :=
  objectText (fields.insertionSort fun a b => a.1 ≤ b.1)

/-! ## The two names -/

/-- `DbId::to_hex` of an id column. -/
def toHex (r : Row) (column : String) : String :=
  match r column with
  | .blob bytes => HexText.encode bytes
  | _ => ""

def role (r : Row) : String :=
  match r "role" with
  | .text s => s
  | _ => ""

/-- `SyncableEntityKind::entity_id` of a model, read from its row. -/
def entityId (k : SyncableEntityKind) (e : Row) : String :=
  match k with
  | .work => toHex e "id"
  | .edition => toHex e "id"
  | .digitalInventory => toHex e "id"
  | .ownedEdition => toHex e "id"
  | .editionLoan => toHex e "id"
  | SyncableEntityKind.annotation => toHex e "id"
  | .readingList => toHex e "id"
  | .readingProgress => toHex e "id"
  | .editionGroup => toHex e "id"
  | .seriesEntry => jsonToString
      [("series_id", toHex e "series_id"), ("edition_id", toHex e "edition_id")]
  | .readingListBook => jsonToString
      [("reading_list_id", toHex e "reading_list_id"), ("edition_id", toHex e "edition_id")]
  | .workAuthor => jsonToString
      [("work_id", toHex e "work_id"), ("author_id", toHex e "author_id"), ("role", role e)]
  | .workTag => jsonToString [("work_id", toHex e "work_id"), ("tag_id", toHex e "tag_id")]
  | .workGenre => jsonToString [("work_id", toHex e "work_id"), ("genre_id", toHex e "genre_id")]
  | .workSubject => jsonToString
      [("work_id", toHex e "work_id"), ("subject_id", toHex e "subject_id")]
  | .workPublisher => jsonToString
      [("work_id", toHex e "work_id"), ("publisher_id", toHex e "publisher_id")]
  | .editionAuthor => jsonToString
      [("edition_id", toHex e "edition_id"), ("author_id", toHex e "author_id"), ("role", role e)]
  | .editionTag => jsonToString
      [("edition_id", toHex e "edition_id"), ("tag_id", toHex e "tag_id")]
  | .editionGenre => jsonToString
      [("edition_id", toHex e "edition_id"), ("genre_id", toHex e "genre_id")]
  | .editionSubject => jsonToString
      [("edition_id", toHex e "edition_id"), ("subject_id", toHex e "subject_id")]
  | .editionPublisher => jsonToString
      [("edition_id", toHex e "edition_id"), ("publisher_id", toHex e "publisher_id")]

/-- The key columns a trigger names a row by; none where it is named by its `id`. -/
def keyFields (k : SyncableEntityKind) : List (String × Encoding) :=
  match k.auditTrigger.entityId with
  | .hexId => []
  | .json key => key
  | .lowerJson key => key

/-- The texts of the key, in the order of the trigger. -/
def keyTexts (k : SyncableEntityKind) (e : Row) : List (String × String) :=
  (keyFields k).map fun p => (p.1, if p.2 = .raw then role e else toHex e p.1)

/-- `json_object` of the key of a row: its arguments in their order, as compact text. -/
def WritesKey (env : Env) (k : SyncableEntityKind) (e : Row) : Prop :=
  env.json.object (jsonFields (keyFields k) e) = some (objectText (keyTexts k e))

/-! ## Where they agree -/

/-- The key of a row whose name is an object goes into Rust's object too. -/
theorem entityId_of_key (e : Row) : ∀ k : SyncableEntityKind, keyFields k ≠ [] →
    entityId k e = jsonToString (keyTexts k e) := by
  intro k hk
  cases k <;> first | exact absurd rfl hk | rfl

/-- The first letter of an object's first key is its third character. -/
theorem third_char {fields : List (String × String)} {c : Char}
    (h : (fields.head?.bind fun p => p.1.toList.head?) = some c) (hc : escapeChar c = [c]) :
    (objectText fields).toList[2]? = some c := by
  rw [objectText, String.toList_ofList]
  match fields, h with
  | [p], h =>
      obtain ⟨cs, hcs⟩ := List.head?_eq_some_iff.1 h
      simp only [members, quote, hcs, List.flatMap_cons, hc, List.cons_append, List.nil_append,
        List.getElem?_cons_succ, List.getElem?_cons_zero]
  | p :: q :: rest, h =>
      obtain ⟨cs, hcs⟩ := List.head?_eq_some_iff.1 h
      simp only [members, quote, hcs, List.flatMap_cons, hc, List.cons_append, List.nil_append,
        List.getElem?_cons_succ, List.getElem?_cons_zero]

/-- Sorting the fields sorts the columns. -/
theorem map_fst_sorted (k : SyncableEntityKind) (e : Row) :
    ((keyTexts k e).insertionSort fun a b => a.1 ≤ b.1).map Prod.fst =
      ((keyFields k).map Prod.fst).insertionSort fun a b => a ≤ b := by
  rw [List.map_insertionSort (fun a b : String × String => a.1 ≤ b.1) (fun a b : String => a ≤ b)
    Prod.fst _ fun _ _ _ _ => Iff.rfl, keyTexts, List.map_map]
  rfl

/-- Where the columns are not in order, the two objects begin with different letters. -/
theorem first_letters : ∀ k : SyncableEntityKind,
    ¬ ((keyFields k).map Prod.fst).Pairwise (· < ·) →
    ∃ c d, (((keyFields k).map Prod.fst).head?.bind fun n => n.toList.head?) = some c ∧
      ((((keyFields k).map Prod.fst).insertionSort fun a b => a ≤ b).head?.bind fun n =>
        n.toList.head?) = some d ∧
      c.toLower ≠ d ∧ c ≠ d ∧ escapeChar c = [c] ∧ escapeChar d = [d] := by
  intro k h
  cases k <;> first
    | exact absurd (by decide) h
    | exact ⟨_, _, rfl, rfl, by decide, by decide, by decide, by decide⟩

theorem head?_key_letter {fields : List (String × String)} :
    (fields.head?.bind fun p => p.1.toList.head?) =
      ((fields.map Prod.fst).head?.bind fun n => n.toList.head?) := by
  cases fields with
  | nil => rfl
  | cons p rest => rfl

/-- A name that is a hex id is written the same on both sides. -/
theorem triggerEntityId_of_hexId (env : Env) (e : Row) : ∀ k : SyncableEntityKind,
    keyFields k = [] → triggerEntityId env k e = some (entityId k e) := by
  intro k hk
  cases k <;> first | rfl | exact absurd hk (by decide)

/-- The trigger's object, in lower case or not; no object in order is lowered. -/
theorem triggerEntityId_of_key {env : Env} {e : Row} (k : SyncableEntityKind)
    (hk : keyFields k ≠ []) (hobject : WritesKey env k e) :
    triggerEntityId env k e = some (objectText (keyTexts k e)) ∨
      (¬ ((keyFields k).map Prod.fst).Pairwise (· < ·) ∧
        triggerEntityId env k e = some (lower (objectText (keyTexts k e)))) := by
  have hform : ∀ k : SyncableEntityKind, keyFields k ≠ [] →
      k.auditTrigger.entityId = .json (keyFields k) ∨
        (¬ ((keyFields k).map Prod.fst).Pairwise (· < ·) ∧
          k.auditTrigger.entityId = .lowerJson (keyFields k)) := by decide
  rw [WritesKey] at hobject
  rcases hform k hk with h | ⟨hunsorted, h⟩
  · left
    rw [triggerEntityId, h]
    exact hobject
  · refine Or.inr ⟨hunsorted, ?_⟩
    rw [triggerEntityId, h]
    dsimp only
    rw [hobject]
    rfl

/-- Where the columns are not in order, the names differ in their third character. -/
theorem not_agrees_of_unsorted {env : Env} {e : Row} (k : SyncableEntityKind)
    (hobject : WritesKey env k e) (hk : keyFields k ≠ [])
    (hunsorted : ¬ ((keyFields k).map Prod.fst).Pairwise (· < ·)) :
    triggerEntityId env k e ≠ some (entityId k e) := by
  intro heq
  obtain ⟨c, d, hc, hd, hlower, hne, hplain, hplain'⟩ := first_letters k hunsorted
  have hfirst : (objectText (keyTexts k e)).toList[2]? = some c := by
    refine third_char ?_ hplain
    rw [head?_key_letter, keyTexts, List.map_map]
    exact hc
  have hsecond : (entityId k e).toList[2]? = some d := by
    rw [entityId_of_key e k hk]
    refine third_char ?_ hplain'
    rw [head?_key_letter, map_fst_sorted]
    exact hd
  rcases triggerEntityId_of_key k hk hobject with h | ⟨_, h⟩
  · rw [← Option.some.inj (h.symm.trans heq), hfirst] at hsecond
    exact hne (Option.some.inj hsecond)
  · rw [← Option.some.inj (h.symm.trans heq), lower, String.toList_ofList,
      List.getElem?_map, hfirst] at hsecond
    exact hlower (Option.some.inj hsecond)

/-- Rust and SQL name a row alike exactly where the trigger lists the key columns in
    alphabetical order: in the tables named by their `id`, and in the editions' tags,
    genres, subjects and publishers. -/
theorem entityId_agrees_iff (env : Env) (k : SyncableEntityKind) (e : Row)
    (hobject : WritesKey env k e) :
    triggerEntityId env k e = some (entityId k e) ↔
      ((keyFields k).map Prod.fst).Pairwise (· < ·) := by
  by_cases hk : keyFields k = []
  · refine iff_of_true (triggerEntityId_of_hexId env e k hk) ?_
    rw [hk]
    exact List.Pairwise.nil
  · have hrust := entityId_of_key e k hk
    by_cases hsorted : ((keyFields k).map Prod.fst).Pairwise (· < ·)
    · refine iff_of_true ?_ hsorted
      have hfields : (keyTexts k e).Pairwise fun a b => a.1 ≤ b.1 := by
        have hcolumns : ((keyTexts k e).map Prod.fst).Pairwise fun a b => a ≤ b := by
          rw [keyTexts, List.map_map]
          exact hsorted.imp fun h => le_of_lt h
        exact List.pairwise_map.1 hcolumns
      rcases triggerEntityId_of_key k hk hobject with h | ⟨hnot, _⟩
      · rw [h, hrust, jsonToString, hfields.insertionSort_eq]
      · exact absurd hsorted hnot
    · exact iff_of_false (not_agrees_of_unsorted k hobject hk hsorted) hsorted

/-- The tag of a work or an edition. -/
def tagged : Row := fun c =>
  .blob (List.replicate 16 (if c = "tag_id" then 1 else 2))

theorem entityId_agrees_edition_tag :
    triggerEntityId Env.reference .editionTag tagged = some (entityId .editionTag tagged) :=
  (entityId_agrees_iff Env.reference .editionTag tagged (by unfold WritesKey; decide +kernel)).2
    (by decide)

/-- The trigger of a work's tag writes the work first, and Rust the tag. -/
theorem not_entityId_agrees_work_tag :
    triggerEntityId Env.reference .workTag tagged =
        some (objectText [("work_id", toHex tagged "work_id"), ("tag_id", toHex tagged "tag_id")]) ∧
      triggerEntityId Env.reference .workTag tagged ≠ some (entityId .workTag tagged) := by
  have hobject : WritesKey Env.reference .workTag tagged := by
    unfold WritesKey
    decide +kernel
  exact ⟨hobject, not_agrees_of_unsorted .workTag hobject (by decide) (by decide)⟩

end SyncNaming
