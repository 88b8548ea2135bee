import Livtet.Lib.JsonText
import Mathlib.Data.String.Basic

/-! # JSON documents as trees

    What a document looks like beyond its text: how deeply it is nested, which
    scalars stand in it, what becomes of it when every fraction is replaced. A
    document whose integers fit 64 bits and whose objects are sorted maps is
    `Valid`; `Node` is one that is, and `Node.ofJson` makes one of any document. -/

namespace JsonText

open SqlRows

namespace Json

/-- Induction over a document: a list's items and an object's members come first. -/
@[elab_as_elim]
theorem tree_induction {P : Json → Prop} (scalar : ∀ j, (∀ items, j ≠ .arr items) →
      (∀ members, j ≠ .obj members) → P j)
    (arr : ∀ items, (∀ x ∈ items, P x) → P (.arr items))
    (obj : ∀ members : List (String × Json), (∀ p ∈ members, P p.2) → P (.obj members)) :
    ∀ j, P j
  | .null | .bool _ | .int _ | .real _ | .str _ => scalar _ (by rintro items ⟨⟩) (by rintro members ⟨⟩)
  | .arr items => arr items fun x _ => tree_induction scalar arr obj x
  | .obj members => obj members fun p hp => by
      have : sizeOf p.2 < sizeOf members := by
        have hmem := List.sizeOf_lt_of_mem hp
        obtain ⟨k, v⟩ := p
        simp only [Prod.mk.sizeOf_spec] at hmem ⊢
        omega
      exact tree_induction scalar arr obj p.2

/-! ## Nesting, scalars, fractions -/

mutual

/-- How many arrays and objects lie around the innermost value. -/
def depth : Json → Nat
  | .arr items => itemsDepth items + 1
  | .obj members => membersDepth members + 1
  | _ => 0

def itemsDepth : List Json → Nat
  | [] => 0
  | x :: rest => max (depth x) (itemsDepth rest)

def membersDepth : List (String × Json) → Nat
  | [] => 0
  | (_, x) :: rest => max (depth x) (membersDepth rest)

end

theorem itemsDepth_le_iff {n : Nat} : ∀ {items : List Json},
    itemsDepth items ≤ n ↔ ∀ x ∈ items, x.depth ≤ n
  | [] => by simp [itemsDepth]
  | x :: rest => by
      rw [itemsDepth, Nat.max_le, List.forall_mem_cons, itemsDepth_le_iff]

theorem membersDepth_le_iff {n : Nat} : ∀ {members : List (String × Json)},
    membersDepth members ≤ n ↔ ∀ p ∈ members, p.2.depth ≤ n
  | [] => by simp [membersDepth]
  | (k, x) :: rest => by
      rw [membersDepth, Nat.max_le, List.forall_mem_cons, membersDepth_le_iff]

theorem depth_arr_le_iff {n : Nat} {items : List Json} :
    (Json.arr items).depth ≤ n + 1 ↔ ∀ x ∈ items, x.depth ≤ n := by
  rw [depth, Nat.add_le_add_iff_right, itemsDepth_le_iff]

theorem depth_obj_le_iff {n : Nat} {members : List (String × Json)} :
    (Json.obj members).depth ≤ n + 1 ↔ ∀ p ∈ members, p.2.depth ≤ n := by
  rw [depth, Nat.add_le_add_iff_right, membersDepth_le_iff]

mutual

/-- The values that are neither arrays nor objects. -/
def scalars : Json → List Json
  | .arr items => itemsScalars items
  | .obj members => membersScalars members
  | j => [j]

def itemsScalars : List Json → List Json
  | [] => []
  | x :: rest => scalars x ++ itemsScalars rest

def membersScalars : List (String × Json) → List Json
  | [] => []
  | (_, x) :: rest => scalars x ++ membersScalars rest

end

theorem scalars_arr (items : List Json) : (Json.arr items).scalars = items.flatMap scalars := by
  rw [scalars]
  induction items with
  | nil => rfl
  | cons x rest ih => rw [itemsScalars, ih, List.flatMap_cons]

theorem scalars_obj (members : List (String × Json)) :
    (Json.obj members).scalars = members.flatMap fun p => p.2.scalars := by
  rw [scalars]
  induction members with
  | nil => rfl
  | cons p rest ih => rw [membersScalars, ih, List.flatMap_cons]

mutual

/-- Every fraction replaced. -/
def mapReal (f : Decimal → Decimal) : Json → Json
  | .real d => .real (f d)
  | .arr items => .arr (itemsMapReal f items)
  | .obj members => .obj (membersMapReal f members)
  | j => j

def itemsMapReal (f : Decimal → Decimal) : List Json → List Json
  | [] => []
  | x :: rest => mapReal f x :: itemsMapReal f rest

def membersMapReal (f : Decimal → Decimal) : List (String × Json) → List (String × Json)
  | [] => []
  | (k, x) :: rest => (k, mapReal f x) :: membersMapReal f rest

end

variable {f : Decimal → Decimal}

theorem mapReal_arr (items : List Json) :
    (Json.arr items).mapReal f = .arr (items.map (mapReal f)) := by
  rw [mapReal]
  congr 1
  induction items with
  | nil => rfl
  | cons x rest ih => rw [itemsMapReal, ih, List.map_cons]

theorem mapReal_obj (members : List (String × Json)) :
    (Json.obj members).mapReal f = .obj (members.map fun p => (p.1, p.2.mapReal f)) := by
  rw [mapReal]
  congr 1
  induction members with
  | nil => rfl
  | cons p rest ih => rw [membersMapReal, ih, List.map_cons]

theorem map_eq_self_iff {α : Type} {g : α → α} {xs : List α} :
    xs.map g = xs ↔ ∀ x ∈ xs, g x = x := by
  have h := List.map_inj_left (l := xs) (f := g) (g := id)
  rwa [List.map_id] at h

/-- A document is left as it is exactly if each of its fractions is. -/
theorem mapReal_eq_self_iff (j : Json) :
    j.mapReal f = j ↔ ∀ d, .real d ∈ j.scalars → f d = d := by
  induction j using tree_induction with
  | scalar j harr hobj =>
      cases j with
      | arr items => exact absurd rfl (harr items)
      | obj members => exact absurd rfl (hobj members)
      | _ => simp [mapReal, scalars]
  | arr items ih =>
      rw [mapReal_arr, scalars_arr, Json.arr.injEq]
      simp only [List.mem_flatMap]
      constructor
      · rintro h d ⟨x, hx, hd⟩
        exact (ih x hx).1 (map_eq_self_iff.1 h x hx) d hd
      · exact fun h => map_eq_self_iff.2 fun x hx => (ih x hx).2 fun d hd => h d ⟨x, hx, hd⟩
  | obj members ih =>
      rw [mapReal_obj, scalars_obj, Json.obj.injEq]
      simp only [List.mem_flatMap]
      have hp : ∀ p : String × Json, (p.1, p.2.mapReal f) = p ↔ p.2.mapReal f = p.2 :=
        fun p => by rw [Prod.ext_iff, and_iff_right rfl]
      constructor
      · rintro h d ⟨p, hmem, hd⟩
        exact (ih p hmem).1 ((hp p).1 (map_eq_self_iff.1 h p hmem)) d hd
      · exact fun h => map_eq_self_iff.2 fun p hmem =>
          (hp p).2 ((ih p hmem).2 fun d hd => h d ⟨p, hmem, hd⟩)

/-! ## Valid documents -/

/-- An integer that a signed or an unsigned 64-bit word holds. -/
def InRange (n : Int) : Prop := -2 ^ 63 ≤ n ∧ n < 2 ^ 64

instance (n : Int) : Decidable (InRange n) := inferInstanceAs (Decidable (_ ∧ _))

/-- Integers fit 64 bits, and an object's names ascend. -/
inductive Valid : Json → Prop
  | null : Valid .null
  | bool (b : Bool) : Valid (.bool b)
  | int {n : Int} (h : InRange n) : Valid (.int n)
  | real (d : Decimal) : Valid (.real d)
  | str (s : String) : Valid (.str s)
  | arr {items : List Json} (h : ∀ x ∈ items, Valid x) : Valid (.arr items)
  | obj {members : List (String × Json)} (sorted : members.Pairwise fun p q => p.1 < q.1)
      (h : ∀ p ∈ members, Valid p.2) : Valid (.obj members)

/-- Put a member into a sorted map; one of the same name is replaced. -/
def insertSorted (name : String) (x : Json) : List (String × Json) → List (String × Json)
  | [] => [(name, x)]
  | (k, y) :: rest =>
      if name < k then (name, x) :: (k, y) :: rest
      else if name = k then (k, x) :: rest
      else (k, y) :: insertSorted name x rest

mutual

/-- The document as a map-based value: a later member of a name wins, and an integer
    beyond 64 bits is a fraction. -/
def canon : Json → Json
  | .int n => if InRange n then .int n else .real ⟨n * 10, 0⟩
  | .arr items => .arr (itemsCanon items)
  | .obj members => .obj (membersCanon [] members)
  | j => j

def itemsCanon : List Json → List Json
  | [] => []
  | x :: rest => canon x :: itemsCanon rest

def membersCanon (acc : List (String × Json)) : List (String × Json) → List (String × Json)
  | [] => acc
  | (k, x) :: rest => membersCanon (insertSorted k (canon x) acc) rest

end

theorem itemsCanon_eq_map (items : List Json) : itemsCanon items = items.map canon := by
  induction items with
  | nil => rfl
  | cons x rest ih => rw [itemsCanon, ih, List.map_cons]

theorem mem_insertSorted {name : String} {x : Json} {p : String × Json} :
    ∀ {members : List (String × Json)}, p ∈ insertSorted name x members →
      p = (name, x) ∨ p ∈ members
  | [], h => .inl (List.mem_singleton.1 h)
  | (k, y) :: rest, h => by
      rw [insertSorted] at h
      split at h
      · exact List.mem_cons.1 h
      split at h
      · next he =>
          subst he
          rcases List.mem_cons.1 h with h | h
          · exact .inl h
          · exact .inr (List.mem_cons_of_mem _ h)
      · rcases List.mem_cons.1 h with rfl | h
        · exact .inr List.mem_cons_self
        · rcases mem_insertSorted h with h | h
          · exact .inl h
          · exact .inr (List.mem_cons_of_mem _ h)

theorem pairwise_insertSorted {name : String} {x : Json} :
    ∀ {members : List (String × Json)}, (members.Pairwise fun p q => p.1 < q.1) →
      (insertSorted name x members).Pairwise fun p q => p.1 < q.1
  | [], _ => List.pairwise_singleton _ _
  | (k, y) :: rest, h => by
      obtain ⟨hk, hrest⟩ := List.pairwise_cons.1 h
      rw [insertSorted]
      split
      · next hlt =>
          refine List.pairwise_cons.2 ⟨fun p hp => ?_, h⟩
          rcases List.mem_cons.1 hp with rfl | hp
          · exact hlt
          · exact lt_trans hlt (hk p hp)
      split
      · exact List.pairwise_cons.2 ⟨hk, hrest⟩
      · next hlt hne =>
          refine List.pairwise_cons.2 ⟨fun p hp => ?_, pairwise_insertSorted hrest⟩
          rcases mem_insertSorted hp with rfl | hp
          · exact lt_of_le_of_ne (not_lt.1 hlt) fun h => hne h.symm
          · exact hk p hp

/-- What a sorted map has under a name after a member is put into it. -/
theorem lookup_insertSorted (name : String) (x : Json) (k : String) :
    ∀ members : List (String × Json),
      (insertSorted name x members).lookup k = if k = name then some x else members.lookup k
  | [] => by
      rw [insertSorted, List.lookup_cons, List.lookup_nil]
      by_cases h : k = name
      · rw [if_pos h, beq_iff_eq.2 h]
      · rw [if_neg h, beq_eq_false_iff_ne.2 h]
  | (k', y) :: rest => by
      rw [insertSorted]
      by_cases h : k = name
      · subst h
        split
        · simp
        split
        · next hsame => simp [hsame]
        · next hne =>
            rw [List.lookup_cons, beq_eq_false_iff_ne.2 hne, lookup_insertSorted k x k rest,
              if_pos rfl, if_pos rfl]
      · rw [if_neg h]
        split
        · rw [List.lookup_cons, beq_eq_false_iff_ne.2 h]
        split
        · next hsame =>
            have hk : (k == k') = false := beq_eq_false_iff_ne.2 fun hk => h (hk.trans hsame.symm)
            rw [List.lookup_cons, List.lookup_cons, hk]
        · rw [List.lookup_cons, List.lookup_cons, lookup_insertSorted name x k rest, if_neg h]

/-- A later member of a name wins. -/
theorem lookup_membersCanon (k : String) : ∀ members acc : List (String × Json),
    (membersCanon acc members).lookup k = ((members.reverse.lookup k).map canon).or (acc.lookup k)
  | [], acc => by simp [membersCanon]
  | (name, x) :: rest, acc => by
      rw [membersCanon, lookup_membersCanon k rest, lookup_insertSorted, List.reverse_cons,
        List.lookup_append, List.lookup_cons, List.lookup_nil]
      by_cases h : k = name
      · rw [if_pos h, beq_iff_eq.2 h]
        cases rest.reverse.lookup k <;> rfl
      · rw [if_neg h, beq_eq_false_iff_ne.2 h]
        cases rest.reverse.lookup k <;> rfl

theorem valid_membersCanon : ∀ {members acc : List (String × Json)},
    (∀ p ∈ members, (canon p.2).Valid) → (Json.obj acc).Valid →
      (Json.obj (membersCanon acc members)).Valid
  | [], _, _, hacc => hacc
  | (k, x) :: rest, acc, h, hacc => by
      obtain ⟨hx, hrest⟩ := List.forall_mem_cons.1 h
      cases hacc with
      | obj hsorted hvalid =>
          rw [membersCanon]
          refine valid_membersCanon hrest (.obj (pairwise_insertSorted hsorted) fun p hp => ?_)
          rcases mem_insertSorted hp with rfl | hp
          · exact hx
          · exact hvalid p hp

theorem valid_canon (j : Json) : (canon j).Valid := by
  induction j using tree_induction with
  | scalar j harr hobj =>
      cases j with
      | null => exact .null
      | bool b => exact .bool b
      | int n =>
          rw [canon]
          split
          · next h => exact .int h
          · exact .real _
      | real d => exact .real d
      | str s => exact .str s
      | arr items => exact absurd rfl (harr items)
      | obj members => exact absurd rfl (hobj members)
  | arr items ih =>
      rw [canon, itemsCanon_eq_map]
      exact .arr (List.forall_mem_map.2 ih)
  | obj members ih =>
      rw [canon]
      exact valid_membersCanon ih (.obj List.Pairwise.nil (fun p hp => absurd hp List.not_mem_nil))

theorem insertSorted_last {name : String} {x : Json} : ∀ {members : List (String × Json)},
    (∀ p ∈ members, p.1 < name) → insertSorted name x members = members ++ [(name, x)]
  | [], _ => rfl
  | (k, y) :: rest, h => by
      obtain ⟨hk, hrest⟩ := List.forall_mem_cons.1 h
      rw [insertSorted, if_neg (lt_asymm hk), if_neg (ne_of_gt hk), insertSorted_last hrest,
        List.cons_append]

/-- Members that ascend, after those already in the map, are appended one by one. -/
theorem membersCanon_sorted : ∀ {members acc : List (String × Json)},
    ((acc ++ members).Pairwise fun p q => p.1 < q.1) → (∀ p ∈ members, canon p.2 = p.2) →
      membersCanon acc members = acc ++ members
  | [], acc, _, _ => (List.append_nil acc).symm
  | (k, x) :: rest, acc, hsorted, h => by
      obtain ⟨hx, hrest⟩ := List.forall_mem_cons.1 h
      have hlast : ∀ p ∈ acc, p.1 < k :=
        fun p hp => (List.pairwise_append.1 hsorted).2.2 p hp (k, x) List.mem_cons_self
      have hsplit : acc ++ [(k, x)] ++ rest = acc ++ (k, x) :: rest := by simp
      rw [membersCanon, hx, insertSorted_last hlast, membersCanon_sorted (hsplit ▸ hsorted) hrest,
        hsplit]

theorem canon_of_valid {j : Json} (h : j.Valid) : canon j = j := by
  induction h with
  | null => rfl
  | bool b => rfl
  | int h => rw [canon, if_pos h]
  | real d => rfl
  | str s => rfl
  | arr _ ih => rw [canon, itemsCanon_eq_map, map_eq_self_iff.2 ih]
  | obj hsorted _ ih =>
      rw [canon, membersCanon_sorted (by rwa [List.nil_append]) ih, List.nil_append]

theorem valid_mapReal {j : Json} (h : j.Valid) : (j.mapReal f).Valid := by
  induction h with
  | null => exact .null
  | bool b => exact .bool b
  | int h => exact .int h
  | real d => exact .real _
  | str s => exact .str s
  | arr _ ih =>
      rw [mapReal_arr]
      exact .arr (List.forall_mem_map.2 ih)
  | obj hsorted _ ih =>
      rw [mapReal_obj]
      exact .obj (List.pairwise_map.2 hsorted) (List.forall_mem_map.2 ih)

/-- The integers of a valid document fit 64 bits. -/
theorem inRange_of_valid {j : Json} (h : j.Valid) : ∀ n, .int n ∈ j.scalars → InRange n := by
  induction h with
  | int h =>
      intro n hn
      simp only [scalars, List.mem_singleton, Json.int.injEq] at hn
      exact hn ▸ h
  | arr _ ih =>
      intro n hn
      rw [scalars_arr] at hn
      obtain ⟨x, hx, hn⟩ := List.mem_flatMap.1 hn
      exact ih x hx n hn
  | obj _ _ ih =>
      intro n hn
      rw [scalars_obj] at hn
      obtain ⟨p, hp, hn⟩ := List.mem_flatMap.1 hn
      exact ih p hp n hn
  | _ => simp [scalars]

/-- A valid document. -/
@[ext]
structure Node where
  val : Json
  valid : val.Valid

namespace Node

/-- The value a document is read as. -/
def ofJson (j : Json) : Node := ⟨j.canon, valid_canon j⟩

def mapReal (f : Decimal → Decimal) (x : Node) : Node := ⟨x.val.mapReal f, valid_mapReal x.valid⟩

theorem ofJson_val (x : Node) : ofJson x.val = x := Node.ext (canon_of_valid x.valid)

theorem ofJson_mapReal (f : Decimal → Decimal) (x : Node) :
    ofJson (x.val.mapReal f) = x.mapReal f := ofJson_val (x.mapReal f)

theorem mapReal_eq_self_iff (x : Node) :
    x.mapReal f = x ↔ ∀ d, .real d ∈ x.val.scalars → f d = d := by
  rw [← Json.mapReal_eq_self_iff, Node.ext_iff]
  rfl

end Node

end Json

end JsonText
