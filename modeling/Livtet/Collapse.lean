import Livtet.SearchPages

/-! # Hits collapsed onto works

    Hits are collapsed by their work id, in the order the work ids are seen. A person has
    no work: all persons have the empty work id and become one hit. The limit is looked at
    after a hit was put out, so a limit of nothing lets one through
    (`collapse_eq_groupedByOwner_iff`). -/

namespace SearchPages

open SyncStore (Env)
open SyncPairing Maps SearchIndex Library BoolQuery Filters RankedSort FirstSeen

variable {Score : Type} [LinearOrder Score]

/-! ## What the collapse comes to -/

/-- The hit that the hits of one work are merged into. -/
def merged : List (SearchHit Score) → Option (SearchHit Score)
  | [] => none
  | first :: rest => some (rest.foldl mergeHit (openGroup first))

theorem merged_append_one (hits : List (SearchHit Score)) (h : SearchHit Score) :
    merged (hits ++ [h]) = some (((merged hits).map fun g => mergeHit g h).getD (openGroup h)) := by
  cases hits with
  | nil => rfl
  | cons first rest => rw [List.cons_append, merged, List.foldl_append]; rfl

theorem merged_eq (first : SearchHit Score) (rest : List (SearchHit Score)) :
    merged (first :: rest) = some { first with
      groupedEditionIds := first.groupedEditionIds ++
        (first :: rest).filterMap fun h => h.editionId
      score := (rest.map fun h => h.score).foldl max first.score } := by
  have hfold : ∀ (rest : List (SearchHit Score)) (g : SearchHit Score),
      rest.foldl mergeHit g = { g with
        groupedEditionIds := g.groupedEditionIds ++ rest.filterMap fun h => h.editionId
        score := (rest.map fun h => h.score).foldl max g.score } := by
    intro rest
    induction rest with
    | nil =>
        intro g
        rw [List.filterMap_nil, List.append_nil]
        rfl
    | cons h rest ih =>
        intro g
        rw [List.foldl_cons, ih]
        have hscore : (mergeHit g h).score = max g.score h.score := (max_def_lt _ _).symm
        have hids : (mergeHit g h).groupedEditionIds =
            g.groupedEditionIds ++ h.editionId.toList := rfl
        rw [hscore, hids, List.map_cons, List.foldl_cons, List.append_assoc]
        cases hid : h.editionId with
        | none => rw [List.filterMap_cons_none hid]; rfl
        | some id => rw [List.filterMap_cons_some hid]; rfl
  have hids : (openGroup first).groupedEditionIds ++ rest.filterMap (fun h => h.editionId) =
      first.groupedEditionIds ++ (first :: rest).filterMap fun h => h.editionId := by
    have hopen : (openGroup first).groupedEditionIds =
        first.groupedEditionIds ++ first.editionId.toList := rfl
    rw [hopen, List.append_assoc]
    cases hid : first.editionId with
    | none => rw [List.filterMap_cons_none hid]; rfl
    | some id => rw [List.filterMap_cons_some hid]; rfl
  rw [merged, hfold, hids]
  rfl

/-- The hits of a work. -/
def hitsOf (hits : List (SearchHit Score)) (workId : String) : List (SearchHit Score) :=
  hits.filter fun h => decide (h.workId = workId)

omit [LinearOrder Score] in
theorem hitsOf_append_one (hits : List (SearchHit Score)) (h : SearchHit Score) (w : String) :
    hitsOf (hits ++ [h]) w = if h.workId = w then hitsOf hits w ++ [h] else hitsOf hits w := by
  rw [hitsOf, List.filter_append]
  by_cases hw : h.workId = w
  · have hone : [h].filter (fun h => decide (h.workId = w)) = [h] :=
      List.filter_eq_self.2 (by simpa using hw)
    rw [if_pos hw, hone]
    rfl
  · have hone : [h].filter (fun h => decide (h.workId = w)) = [] :=
      List.filter_eq_nil_iff.2 (by simpa using hw)
    rw [if_neg hw, hone, List.append_nil]
    rfl

theorem merged_hitsOf_eq_none_iff {hits : List (SearchHit Score)} {w : String} :
    merged (hitsOf hits w) = none ↔ w ∉ hits.map fun h => h.workId := by
  have hnil : merged (hitsOf hits w) = none ↔ hitsOf hits w = [] := by
    cases hitsOf hits w with
    | nil => exact iff_of_true rfl rfl
    | cons first rest =>
        refine iff_of_false (fun h => ?_) (List.cons_ne_nil _ _)
        cases h
  rw [hnil, hitsOf, List.filter_eq_nil_iff, List.mem_map, not_exists]
  refine forall_congr' fun h => ?_
  rw [decide_eq_true_eq, not_and]

/-- After the first loop: the work ids as they were seen, each with its merged hit. -/
theorem grouped_foldl (hits : List (SearchHit Score)) :
    (hits.foldl Grouped.add ⟨∅, []⟩).order = (hits.map fun h => h.workId).eraseDups ∧
      ∀ w, (hits.foldl Grouped.add ⟨∅, []⟩).grouped.lookup w = merged (hitsOf hits w) := by
  induction hits using List.reverseRecOn with
  | nil => exact ⟨rfl, fun _ => rfl⟩
  | append_singleton hits h ih =>
      obtain ⟨horder, hlookup⟩ := ih
      -- by induction from the right: the last hit opens a group or joins one
      rw [List.foldl_append, List.foldl_cons, List.foldl_nil, List.map_append, List.map_singleton,
        eraseDups_append_one]
      generalize hits.foldl Grouped.add ⟨∅, []⟩ = g at horder hlookup ⊢
      have hat := hlookup h.workId
      unfold Grouped.add
      cases hfound : g.grouped.lookup h.workId with
      | none =>
          rw [hfound] at hat
          rw [if_neg (merged_hitsOf_eq_none_iff.1 hat.symm)]
          refine ⟨by rw [← horder], fun w => ?_⟩
          dsimp only
          rw [hitsOf_append_one]
          by_cases hw : h.workId = w
          · rw [if_pos hw, ← hw, AList.lookup_insert, merged_append_one, ← hat]
            rfl
          · rw [if_neg hw, AList.lookup_insert_ne (Ne.symm hw), hlookup]
      | some existing =>
          rw [hfound] at hat
          have hseen : h.workId ∈ hits.map fun h => h.workId := by
            by_contra hnot
            rw [merged_hitsOf_eq_none_iff.2 hnot] at hat
            cases hat
          rw [if_pos hseen]
          refine ⟨horder, fun w => ?_⟩
          dsimp only
          rw [hitsOf_append_one]
          by_cases hw : h.workId = w
          · rw [if_pos hw, ← hw, AList.lookup_insert, merged_append_one, ← hat]
            rfl
          · rw [if_neg hw, AList.lookup_insert_ne (Ne.symm hw), hlookup]

omit [LinearOrder Score] in
/-- The second loop puts out the first hits, as many as the limit, but at least one. -/
theorem emit_eq (limit : Nat) : ∀ (order : List String) (grouped : Map String (SearchHit Score))
    (out : List (SearchHit Score)), order.Nodup → (∀ k ∈ order, grouped.lookup k ≠ none) →
    emit limit order grouped out =
      out ++ (order.take (max (limit - out.length) 1)).filterMap (fun k => grouped.lookup k) := by
  intro order
  induction order with
  | nil =>
      intro grouped out _ _
      rw [emit, List.take_nil, List.filterMap_nil, List.append_nil]
  | cons key order ih =>
      intro grouped out hnodup hall
      obtain ⟨hnot, hnodup⟩ := List.nodup_cons.1 hnodup
      cases hfound : grouped.lookup key with
      | none => exact absurd hfound (hall key List.mem_cons_self)
      | some h =>
          have hput : ∀ keys, (key :: keys).filterMap (fun k => grouped.lookup k) =
              h :: keys.filterMap fun k => grouped.lookup k := by
            intro keys
            rw [List.filterMap_cons, hfound]
          rw [emit, hfound]
          dsimp only
          rw [List.length_append, List.length_singleton]
          -- the limit is checked after the hit is put out, so one is put out even at a limit of 0
          by_cases hfull : limit ≤ out.length + 1
          · have hone : max (limit - out.length) 1 = 1 := by omega
            rw [if_pos hfull, hone, List.take_succ_cons, List.take_zero,
              hput, List.filterMap_nil]
          · have hmore : max (limit - out.length) 1 = max (limit - (out.length + 1)) 1 + 1 := by
              omega
            have herase : ∀ k ∈ order, (grouped.erase key).lookup k = grouped.lookup k := by
              intro k hk
              exact AList.lookup_erase_ne fun heq => hnot (heq ▸ hk)
            rw [if_neg hfull, ih _ _ hnodup, List.length_append, List.length_singleton, hmore,
              List.take_succ_cons, hput, List.append_assoc,
              List.singleton_append]
            · refine congrArg (fun l => out ++ h :: l) (List.filterMap_congr fun k hk => ?_)
              exact herase k (List.mem_of_mem_take hk)
            · intro k hk
              rw [herase k hk]
              exact hall k (List.mem_cons_of_mem _ hk)

/-- The collapsed hits: a hit for each of the first works that are seen. -/
theorem collapse_eq (hits : List (SearchHit Score)) (limit : Nat) :
    collapseEditionsToWorks hits limit =
      ((hits.map fun h => h.workId).eraseDups.take (max limit 1)).filterMap
        fun w => merged (hitsOf hits w) := by
  obtain ⟨horder, hlookup⟩ := grouped_foldl hits
  unfold collapseEditionsToWorks
  dsimp only
  rw [horder, emit_eq limit _ _ _ (nodup_eraseDups _), List.nil_append, List.length_nil,
    Nat.sub_zero]
  · exact List.filterMap_congr fun w _ => hlookup w
  · intro k hk hnone
    rw [hlookup] at hnone
    exact merged_hitsOf_eq_none_iff.1 hnone (List.mem_eraseDups.1 hk)

/-! ## One hit a work, and one a person -/

/-- What a hit counts for: a work, or a person, who has none. -/
inductive Owner
  | work (workId : String)
  | person (position : Nat)
deriving DecidableEq

def ownerOf (x : SearchHit Score × Nat) : Owner :=
  match x.1.kind with
  | .person => .person x.2
  | _ => .work x.1.workId

/-- The owners as they are seen. -/
def ownersOf (hits : List (SearchHit Score)) : List Owner := (hits.zipIdx.map ownerOf).eraseDups

def membersOf (hits : List (SearchHit Score)) (o : Owner) : List (SearchHit Score) :=
  (hits.zipIdx.filter fun x => decide (ownerOf x = o)).map Prod.fst

/-- The first hit of a group, with the edition ids and the largest score of all. -/
def summary : List (SearchHit Score) → Option (SearchHit Score)
  | [] => none
  | first :: rest => some { first with
      groupedEditionIds := (first :: rest).filterMap fun h => h.editionId
      score := (rest.map fun h => h.score).foldl max first.score }

/-- What the collapse is for: no more hits than the limit, one for each owner. -/
def groupedByOwner (hits : List (SearchHit Score)) (limit : Nat) : List (SearchHit Score) :=
  ((ownersOf hits).take limit).filterMap fun o => summary (membersOf hits o)

/-- The work id under which the hits of an owner are collapsed. -/
def workIdOf (hits : List (SearchHit Score)) : Owner → String
  | .work workId => workId
  | .person position => ((hits[position]?).map fun h => h.workId).getD ""

/-- Of the owners that are put out no two have one work id; none brings ids of its own, and
    what else has its work id has no edition, nor a larger score. -/
structure CollapsesExactly (hits : List (SearchHit Score)) (limit : Nat) : Prop where
  limited : limit = 0 → hits = []
  distinct : (((ownersOf hits).take limit).map (workIdOf hits)).Nodup
  fresh : ∀ o ∈ (ownersOf hits).take limit, ∀ first ∈ (membersOf hits o).head?,
    first.groupedEditionIds = []
  apart : ∀ o ∈ (ownersOf hits).take limit, ∀ x ∈ hits.zipIdx, x.1.workId = workIdOf hits o →
    ownerOf x ≠ o → x.1.editionId = none ∧ ∃ h ∈ membersOf hits o, x.1.score ≤ h.score

section Owners

omit [LinearOrder Score]

theorem workIdOf_ownerOf {hits : List (SearchHit Score)} {x : SearchHit Score × Nat}
    (hx : x ∈ hits.zipIdx) : workIdOf hits (ownerOf x) = x.1.workId := by
  unfold ownerOf
  cases x.1.kind with
  | edition => rfl
  | work => rfl
  | person =>
      have hat := List.mem_zipIdx_iff_getElem?.1 hx
      simp only [workIdOf, hat, Option.map_some, Option.getD_some]

theorem map_workId_eq (hits : List (SearchHit Score)) :
    hits.map (fun h => h.workId) = (hits.zipIdx.map ownerOf).map (workIdOf hits) := by
  have hfst : hits.map (fun h => h.workId) = hits.zipIdx.map fun x => x.1.workId := by
    conv_lhs => rw [← List.zipIdx_map_fst 0 hits, List.map_map]
    rfl
  rw [hfst, List.map_map]
  exact List.map_congr_left fun x hx => (workIdOf_ownerOf hx).symm

/-- The work ids as they are seen are those of the owners as they are seen. -/
theorem eraseDups_workIds (hits : List (SearchHit Score)) :
    (hits.map fun h => h.workId).eraseDups = ((ownersOf hits).map (workIdOf hits)).eraseDups := by
  rw [map_workId_eq, ownersOf, eraseDups_map_eraseDups]

theorem hitsOf_eq (hits : List (SearchHit Score)) (w : String) :
    hitsOf hits w = (hits.zipIdx.filter fun x => decide (x.1.workId = w)).map Prod.fst := by
  conv_lhs => rw [hitsOf, ← List.zipIdx_map_fst 0 hits, List.filter_map]
  rfl

/-- The members of an owner are among the hits with its work id. -/
theorem membersOf_eq (hits : List (SearchHit Score)) (o : Owner) :
    membersOf hits o = ((hits.zipIdx.filter fun x => decide (x.1.workId = workIdOf hits o)).filter
      fun x => decide (ownerOf x = o)).map Prod.fst := by
  rw [membersOf, List.filter_filter]
  refine congrArg (List.map Prod.fst) (List.filter_congr fun x hx => ?_)
  by_cases ho : ownerOf x = o
  · have hw : x.1.workId = workIdOf hits o := by rw [← ho, workIdOf_ownerOf hx]
    rw [decide_eq_true ho, decide_eq_true hw]
    rfl
  · rw [decide_eq_false ho]
    rfl

theorem mem_ownersOf {hits : List (SearchHit Score)} {o : Owner} :
    o ∈ ownersOf hits ↔ ∃ x ∈ hits.zipIdx, ownerOf x = o := by
  rw [ownersOf, List.mem_eraseDups, List.mem_map]

end Owners

/-- The hits with one work id are merged into what its owner has exactly if the others add
    nothing. -/
theorem merged_eq_summary_iff {x : SearchHit Score × Nat} {l : List (SearchHit Score × Nat)}
    {p : SearchHit Score × Nat → Bool} (hp : p x = true) :
    merged ((x :: l).map Prod.fst) = summary (((x :: l).filter p).map Prod.fst) ↔
      x.1.groupedEditionIds = [] ∧ ∀ y ∈ x :: l, p y = false →
        y.1.editionId = none ∧ ∃ h ∈ ((x :: l).filter p).map Prod.fst, y.1.score ≤ h.score := by
  have hids := append_filterMap_eq_iff (f := fun y : SearchHit Score × Nat => y.1.editionId)
    (p := p) (l := x :: l) (m := x.1.groupedEditionIds)
  rw [List.filter_cons_of_pos hp] at hids ⊢
  rw [List.map_cons, List.map_cons, merged_eq, summary, Option.some.injEq, ← List.map_cons,
    ← List.map_cons, List.filterMap_map, List.filterMap_map, List.map_map, List.map_map]
  simp only [SearchHit.mk.injEq, true_and, and_true]
  have hscore := foldl_max_filter_eq_iff (f := fun y : SearchHit Score × Nat => y.1.score)
    (p := p) (a := x) (l := l)
  refine and_comm.trans ((and_congr hids hscore).trans ?_)
  rw [and_assoc]
  refine and_congr_right fun _ => ⟨fun h y hy hpy => ⟨h.1 y hy hpy, ?_⟩, fun h => ⟨?_, ?_⟩⟩
  · have hyl : y ∈ l := by
      rcases List.mem_cons.1 hy with rfl | hyl
      · rw [hp] at hpy
        exact absurd hpy.symm Bool.false_ne_true
      · exact hyl
    obtain ⟨c, hc, hle⟩ := h.2 y hyl hpy
    exact ⟨c.1, List.mem_map_of_mem hc, hle⟩
  · exact fun y hy hpy => (h y hy hpy).1
  · intro y hy hpy
    obtain ⟨_, hg, hle⟩ := (h y (List.mem_cons_of_mem _ hy) hpy).2
    obtain ⟨c, hc, rfl⟩ := List.mem_map.1 hg
    exact ⟨c, hc, hle⟩

section Collapse

variable {hits : List (SearchHit Score)} {limit : Nat}

omit [LinearOrder Score] in
/-- The first hit with the work id of an owner that is put out is its own. -/
theorem hitsOf_head (hdistinct : (((ownersOf hits).take limit).map (workIdOf hits)).Nodup)
    {o : Owner} (ho : o ∈ (ownersOf hits).take limit) :
    ∃ x l, hits.zipIdx.filter (fun x => decide (x.1.workId = workIdOf hits o)) = x :: l ∧
      ownerOf x = o := by
  obtain ⟨y, hy, hyo⟩ := mem_ownersOf.1 (List.mem_of_mem_take ho)
  have hyw : y.1.workId = workIdOf hits o := by rw [← hyo, workIdOf_ownerOf hy]
  cases hlist : hits.zipIdx.filter (fun x => decide (x.1.workId = workIdOf hits o)) with
  | nil => exact absurd (decide_eq_true hyw) (List.filter_eq_nil_iff.1 hlist y hy)
  | cons x l =>
      refine ⟨x, l, rfl, ?_⟩
      have hx := List.mem_filter.1 (hlist ▸ List.mem_cons_self (a := x) (l := l))
      obtain ⟨before, after, hsplit, hbefore, _⟩ := List.filter_eq_cons_iff.1 hlist
      have hnot : o ∉ before.map ownerOf := by
        rintro hmem
        obtain ⟨z, hz, hzo⟩ := List.mem_map.1 hmem
        have hzw := workIdOf_ownerOf (hsplit ▸ List.mem_append_left _ hz)
        rw [hzo] at hzw
        exact hbefore z hz (decide_eq_true hzw.symm)
      have hkept : ownerOf x ∈ (ownersOf hits).take limit := by
        rw [ownersOf, hsplit, List.map_append, List.map_cons] at ho ⊢
        exact mem_take_eraseDups_of_before hnot ho
      refine List.inj_on_of_nodup_map hdistinct hkept ho ?_
      rw [workIdOf_ownerOf hx.1]
      exact of_decide_eq_true hx.2

/-- An owner that is put out has what its hits say exactly if the others with its work id add
    nothing. -/
theorem merged_eq_summary_membersOf_iff
    (hdistinct : (((ownersOf hits).take limit).map (workIdOf hits)).Nodup) {o : Owner}
    (ho : o ∈ (ownersOf hits).take limit) :
    merged (hitsOf hits (workIdOf hits o)) = summary (membersOf hits o) ↔
      (∀ first ∈ (membersOf hits o).head?, first.groupedEditionIds = []) ∧
        ∀ x ∈ hits.zipIdx, x.1.workId = workIdOf hits o → ownerOf x ≠ o →
          x.1.editionId = none ∧ ∃ h ∈ membersOf hits o, x.1.score ≤ h.score := by
  obtain ⟨x, l, hlist, hxo⟩ := hitsOf_head hdistinct ho
  have hmem : ∀ y, y ∈ x :: l ↔ y ∈ hits.zipIdx ∧ y.1.workId = workIdOf hits o := by
    intro y
    rw [← hlist, List.mem_filter, decide_eq_true_eq]
  have hfirst : (x :: l).filter (fun x => decide (ownerOf x = o)) =
      x :: l.filter fun x => decide (ownerOf x = o) := by
    rw [List.filter_cons, if_pos (decide_eq_true hxo)]
  rw [hitsOf_eq, membersOf_eq, hlist, merged_eq_summary_iff (decide_eq_true hxo), hfirst,
    List.map_cons, List.head?_cons]
  simp only [Option.mem_some_iff, forall_eq', hmem, decide_eq_false_iff_not, and_imp, ne_eq]

/-- A hit for a work id that is seen has the work id. -/
theorem map_workId_merged {w : String} (hw : w ∈ hits.map fun h => h.workId) :
    (merged (hitsOf hits w)).map (fun h => h.workId) = some w := by
  cases hlist : hitsOf hits w with
  | nil => exact absurd hw (merged_hitsOf_eq_none_iff.1 (by rw [hlist]; rfl))
  | cons first rest =>
      have hfirst : first ∈ hitsOf hits w := hlist ▸ List.mem_cons_self
      have hid := of_decide_eq_true (List.mem_filter.1 hfirst).2
      rw [merged_eq, Option.map_some, hid]

theorem map_workId_summary {o : Owner} (ho : o ∈ ownersOf hits) :
    (summary (membersOf hits o)).map (fun h => h.workId) = some (workIdOf hits o) := by
  obtain ⟨y, hy, hyo⟩ := mem_ownersOf.1 ho
  have hymem : y.1 ∈ membersOf hits o :=
    List.mem_map_of_mem (List.mem_filter.2 ⟨hy, decide_eq_true hyo⟩)
  cases hlist : membersOf hits o with
  | nil => exact absurd (hlist ▸ hymem) List.not_mem_nil
  | cons first rest =>
      have hfirst : first ∈ membersOf hits o := hlist ▸ List.mem_cons_self
      obtain ⟨x, hx, hxfirst⟩ := List.mem_map.1 hfirst
      obtain ⟨hxmem, hxo⟩ := List.mem_filter.1 hx
      rw [summary, Option.map_some, ← of_decide_eq_true hxo, workIdOf_ownerOf hxmem, hxfirst]

/-- The work ids that are put out, by the collapse and as they should be. -/
theorem map_workId_filterMap_merged {ids : List String}
    (hids : ∀ w ∈ ids, w ∈ hits.map fun h => h.workId) :
    (ids.filterMap fun w => merged (hitsOf hits w)).map (fun h => h.workId) = ids := by
  rw [List.map_filterMap, List.filterMap_congr fun w hw => map_workId_merged (hids w hw),
    List.filterMap_some]

theorem map_workId_groupedByOwner :
    (groupedByOwner hits limit).map (fun h => h.workId) =
      ((ownersOf hits).take limit).map (workIdOf hits) := by
  rw [groupedByOwner, List.map_filterMap,
    List.filterMap_congr fun o ho => map_workId_summary (List.mem_of_mem_take ho)]
  exact congrFun List.filterMap_eq_map _

/-- The collapse puts out what it should exactly if the work ids of the owners differ, and each
    has what its hits say. -/
theorem collapse_eq_groupedByOwner_iff_pointwise (hlimit : 1 ≤ limit) :
    collapseEditionsToWorks hits limit = groupedByOwner hits limit ↔
      (((ownersOf hits).take limit).map (workIdOf hits)).Nodup ∧
        ∀ o ∈ (ownersOf hits).take limit,
          merged (hitsOf hits (workIdOf hits o)) = summary (membersOf hits o) := by
  have hseen : ∀ w ∈ (hits.map fun h => h.workId).eraseDups.take limit,
      w ∈ hits.map fun h => h.workId :=
    fun w hw => List.mem_eraseDups.1 (List.mem_of_mem_take hw)
  have hids : (hits.map fun h => h.workId).eraseDups.take limit =
      ((ownersOf hits).take limit).map (workIdOf hits) ↔
        (((ownersOf hits).take limit).map (workIdOf hits)).Nodup := by
    rw [eraseDups_workIds, List.map_take, take_eraseDups_eq_iff]
  -- with the same ids in the same order, the lists agree where their groups do
  have hpointwise : (hits.map fun h => h.workId).eraseDups.take limit =
      ((ownersOf hits).take limit).map (workIdOf hits) →
      (collapseEditionsToWorks hits limit = groupedByOwner hits limit ↔
        ∀ o ∈ (ownersOf hits).take limit,
          merged (hitsOf hits (workIdOf hits o)) = summary (membersOf hits o)) := by
    intro heq
    rw [collapse_eq, Nat.max_eq_left hlimit, groupedByOwner, heq, List.filterMap_map]
    refine filterMap_eq_filterMap_iff (fun o ho hnone => ?_) (fun o ho hnone => ?_)
    · have hsome := map_workId_merged (hseen _ (heq ▸ List.mem_map_of_mem ho))
      rw [show merged (hitsOf hits (workIdOf hits o)) = none from hnone] at hsome
      cases hsome
    · have hsome := map_workId_summary (List.mem_of_mem_take ho)
      rw [hnone] at hsome
      cases hsome
  constructor
  · intro h
    have heq := congrArg (List.map fun h => h.workId) h
    rw [map_workId_groupedByOwner, collapse_eq, Nat.max_eq_left hlimit,
      map_workId_filterMap_merged hseen] at heq
    exact ⟨hids.1 heq, (hpointwise heq).1 h⟩
  · rintro ⟨hdistinct, h⟩
    exact (hpointwise (hids.2 hdistinct)).2 h

/-- A hit that is put out has the edition ids of the hits with its work id. -/
theorem groupedEditionIds_of_mem_collapse (hfresh : ∀ h ∈ hits, h.groupedEditionIds = [])
    {g : SearchHit Score} (hg : g ∈ collapseEditionsToWorks hits limit) :
    g.groupedEditionIds = (hitsOf hits g.workId).filterMap fun h => h.editionId := by
  rw [collapse_eq] at hg
  obtain ⟨w, _, hmerged⟩ := List.mem_filterMap.1 hg
  cases hlist : hitsOf hits w with
  | nil =>
      rw [hlist] at hmerged
      cases hmerged
  | cons first rest =>
      have hfirst := List.mem_filter.1 (hlist ▸ List.mem_cons_self : first ∈ hitsOf hits w)
      have hw := of_decide_eq_true hfirst.2
      rw [hlist, merged_eq, Option.some.injEq] at hmerged
      rw [← hmerged]
      dsimp only
      rw [hw, hlist, hfresh first hfirst.1, List.nil_append]

theorem collapse_eq_nil_iff : collapseEditionsToWorks hits limit = [] ↔ hits = [] := by
  constructor
  · intro h
    have hids := congrArg (List.map fun h => h.workId) h
    rw [collapse_eq, map_workId_filterMap_merged
      fun w hw => List.mem_eraseDups.1 (List.mem_of_mem_take hw)] at hids
    cases hits with
    | nil => rfl
    | cons first rest =>
        rw [List.map_cons, List.eraseDups_cons, List.map_nil] at hids
        have hlength := congrArg List.length hids
        rw [List.length_take, List.length_cons, List.length_nil] at hlength
        omega
  · rintro rfl
    rfl

end Collapse

/-- **THE COLLAPSE PUTS OUT ONE HIT AN OWNER** exactly if no limit of nothing meets hits, no two
    owners that are put out share a work id, and what else has their work ids adds nothing. -/
theorem collapse_eq_groupedByOwner_iff (hits : List (SearchHit Score)) (limit : Nat) :
    collapseEditionsToWorks hits limit = groupedByOwner hits limit ↔
      CollapsesExactly hits limit := by
  cases Nat.eq_zero_or_pos limit with
  | inl hzero =>
      subst hzero
      have hnone : groupedByOwner hits 0 = [] := rfl
      rw [hnone, collapse_eq_nil_iff]
      refine ⟨fun h => ⟨fun _ => h, List.nodup_nil, ?_, ?_⟩, fun h => h.limited rfl⟩
      · exact fun o ho => absurd ho List.not_mem_nil
      · exact fun o ho => absurd ho List.not_mem_nil
  | inr hlimit =>
      rw [collapse_eq_groupedByOwner_iff_pointwise hlimit]
      constructor
      · rintro ⟨hdistinct, h⟩
        have hadds := fun o ho => (merged_eq_summary_membersOf_iff hdistinct ho).1 (h o ho)
        exact ⟨fun hzero => by omega, hdistinct, fun o ho => (hadds o ho).1,
          fun o ho => (hadds o ho).2⟩
      · intro h
        exact ⟨h.distinct, fun o ho =>
          (merged_eq_summary_membersOf_iff h.distinct ho).2 ⟨h.fresh o ho, h.apart o ho⟩⟩

/-- The document of an author. -/
def smallAuthor (authorId name : String) : Document :=
  [(.authorId, .text authorId), (.title, .text name), (.kind, .text "author")]

def twoPersons : List (SearchHit Nat) :=
  [buildHit (0, smallAuthor "a" "A"), buildHit (0, smallAuthor "b" "B")]

/-- Two persons become one hit. -/
theorem not_collapse_eq_groupedByOwner_twoPersons :
    collapseEditionsToWorks twoPersons 10 ≠ groupedByOwner twoPersons 10 := by
  intro h
  have hlength := congrArg List.length h
  revert hlength
  decide

end SearchPages
