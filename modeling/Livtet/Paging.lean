import Livtet.Engine

/-! # Paging through a change log

    A puller calls `pull_changes` from a start version, feeds each page's latest
    version back in, and stops when a page reports no more. With the log held
    fixed this reads every row above the start exactly once, in version order,
    precisely when every such row decodes and no group of rows of one version
    reaches across a page boundary: the cursor is strict, so the tail of a group
    that is cut is skipped. -/

namespace SyncPaging

open SortedPages SyncStore SyncEngine

section Pages

variable (env : Env) (log : ChangeLog) (limit : Int)

/-- The changes of all pages from `since` on; `none` when the fuel runs out first. -/
def drain : Nat → Int → Option (List SyncChange)
  | 0, _ => none
  | fuel + 1, since =>
      let page := pullChanges env log since limit
      if page.hasMore then
        (drain fuel page.latestVersion).map fun rest => page.changes ++ rest
      else some page.changes

/-- Paging ends, and its pages together are the rows above `since`, each once, in
    version order. -/
def PagesExactly (since : Int) : Prop :=
  ∃ fuel changes, drain env log limit fuel since = some changes ∧
    ((rowsAbove log since).map toSyncChange).Perm (changes.map some) ∧
    changes.Pairwise fun a b => a.version ≤ b.version

end Pages

/-- The versions above `since`, in ascending order. -/
def versionsAbove (log : ChangeLog) (since : Int) : List Int :=
  ((rowsAbove log since).map fun r => r.version).insertionSort (· ≤ ·)

/-- Every row above `since` decodes. -/
def AllDecode (log : ChangeLog) (since : Int) : Prop :=
  ∀ r ∈ rowsAbove log since, (toSyncChange r).isSome

variable {env : Env} {log : ChangeLog} {n : Nat} {since : Int}

/-- The rows above `since` in the order the page query visits them. -/
def visited (env : Env) (log : ChangeLog) (n : Nat) (since : Int) : List ChangeRow :=
  env.asc.visit n (rowsAbove log since)

theorem visited_perm (env : Env) (log : ChangeLog) (n : Nat) (since : Int) :
    (visited env log n since).Perm (rowsAbove log since) :=
  env.asc.perm _ _

theorem visited_sorted (env : Env) (log : ChangeLog) (n : Nat) (since : Int) :
    (visited env log n since).Pairwise fun a b => a.version ≤ b.version :=
  env.asc.sorted _ _

/-- Whatever order the query visits ties in, the versions come out the same. -/
theorem map_version_visited (env : Env) (log : ChangeLog) (n : Nat) (since : Int) :
    (visited env log n since).map (fun r => r.version) = versionsAbove log since := by
  refine List.Perm.eq_of_pairwise' (r := (· ≤ ·)) ?_ ?_ ?_
  · exact List.pairwise_map.2 (visited_sorted env log n since)
  · exact List.pairwise_insertionSort _ _
  · exact ((visited_perm env log n _).map _).trans (List.perm_insertionSort _ _).symm

theorem version_of_toSyncChange {r : ChangeRow} {c : SyncChange} (h : toSyncChange r = some c) :
    c.version = r.version := by
  unfold toSyncChange at h
  split at h
  · cases h
  · split at h
    · cases Option.some.inj h
      rfl
    · cases h

/-- A page that is empty ends where it began; the last row of any other is a row of
    the log. -/
theorem latestVersion_cases (env : Env) (limit : Int) (log : ChangeLog) (probe : Int) :
    ((pullChanges env log probe limit).changes.getLast? = none ∧
      (pullChanges env log probe limit).latestVersion = probe) ∨
    ∃ c, (pullChanges env log probe limit).changes.getLast? = some c ∧
      (pullChanges env log probe limit).latestVersion = c.version ∧
      c.version ≤ log.maxVersion ∧ c.version ≤ maxI64 := by
  have hlatest : (pullChanges env log probe limit).latestVersion =
      (((pullChanges env log probe limit).changes.getLast?).map fun c => c.version).getD
        probe := rfl
  cases hlast : (pullChanges env log probe limit).changes.getLast? with
  | none =>
      rw [hlast] at hlatest
      exact Or.inl ⟨rfl, hlatest⟩
  | some c =>
      rw [hlast] at hlatest
      refine Or.inr ⟨c, rfl, hlatest, ?_, c.version_i64.2⟩
      obtain ⟨r, hr, hdecode⟩ := List.mem_filterMap.1 (List.mem_of_getLast? hlast)
      have hvisit := (env.asc.perm _ _).mem_iff.1 (mem_of_mem_limited hr)
      rw [version_of_toSyncChange hdecode]
      exact ChangeLog.version_le_maxVersion (List.mem_of_mem_filter hvisit)

theorem pageChanges_sorted (env : Env) (log : ChangeLog) (limit probe : Int) :
    (pullChanges env log probe limit).changes.Pairwise fun a b => a.version ≤ b.version := by
  have hrows : (pageRows env log probe limit).Pairwise fun a b => a.version ≤ b.version := by
    rw [pageRows, limited]
    split
    · exact env.asc.sorted _ _
    · exact (env.asc.sorted _ _).sublist (List.take_sublist _ _)
  refine List.Pairwise.filterMap toSyncChange ?_ hrows
  intro r r' hle c hc c' hc'
  rw [version_of_toSyncChange hc, version_of_toSyncChange hc']
  exact hle

/-- The last change of a page has the highest version of it, and none is below where the
    page starts. -/
theorem le_latestVersion_iff {limit probe v : Int} :
    v ≤ (pullChanges env log probe limit).latestVersion ↔
      v ≤ probe ∨ ∃ c ∈ (pullChanges env log probe limit).changes, v ≤ c.version := by
  have habove : ∀ c ∈ (pullChanges env log probe limit).changes, probe < c.version := by
    intro c hc
    obtain ⟨r, hr, hrc⟩ := List.mem_filterMap.1 hc
    have hvisit := (env.asc.perm _ _).mem_iff.1 (mem_of_mem_limited hr)
    rw [version_of_toSyncChange hrc]
    exact of_decide_eq_true (List.mem_filter.1 hvisit).2
  have hlatest : (pullChanges env log probe limit).latestVersion =
      (((pullChanges env log probe limit).changes.getLast?).map fun c => c.version).getD
        probe := rfl
  rw [hlatest]
  cases hlast : (pullChanges env log probe limit).changes.getLast? with
  | none =>
      rw [List.getLast?_eq_none_iff.1 hlast]
      exact (or_iff_left fun h => by cases h.choose_spec.1).symm
  | some last =>
      have hmem := List.mem_of_getLast? hlast
      constructor
      · exact fun h => Or.inr ⟨last, hmem, h⟩
      · rintro (h | ⟨c, hc, h⟩)
        · exact le_trans h (le_of_lt (habove last hmem))
        · refine le_trans h ?_
          obtain ⟨front, hfront⟩ := List.getLast?_eq_some_iff.1 hlast
          have hsorted := pageChanges_sorted env log limit probe
          rw [hfront] at hsorted hc
          rcases List.mem_append.1 hc with hc | hc
          · exact (List.pairwise_append.1 hsorted).2.2 c hc last List.mem_cons_self
          · rw [List.mem_singleton.1 hc]
            exact le_refl _

theorem map_some_filterMap {α β : Type} {f : α → Option β} {l : List α}
    (h : ∀ a ∈ l, (f a).isSome) : (l.filterMap f).map some = l.map f := by
  induction l with
  | nil => rfl
  | cons a rest ih =>
      obtain ⟨b, hb⟩ := Option.isSome_iff_exists.1 (h a List.mem_cons_self)
      rw [List.filterMap_cons, hb, List.map_cons, List.map_cons, hb,
        ih fun x hx => h x (List.mem_cons_of_mem _ hx)]

/-- Changes decoded from rows in version order are in version order. -/
theorem pairwise_of_map {changes : List SyncChange} {rows : List ChangeRow}
    (hmap : changes.map some = rows.map toSyncChange)
    (hsorted : rows.Pairwise fun a b => a.version ≤ b.version) :
    changes.Pairwise fun a b => a.version ≤ b.version := by
  have hrows : (rows.map toSyncChange).Pairwise fun x y =>
      ∀ a b, x = some a → y = some b → a.version ≤ b.version := by
    refine List.pairwise_map.2 (hsorted.imp ?_)
    intro r r' hle a b ha hb
    rw [version_of_toSyncChange ha, version_of_toSyncChange hb]
    exact hle
  rw [← hmap] at hrows
  exact (List.pairwise_map.1 hrows).imp fun h => h _ _ rfl rfl

/-- Reading on from a later version drops the rows up to it. -/
theorem rowsAbove_of_le {v : Int} (h : since ≤ v) :
    rowsAbove log v = (rowsAbove log since).filter fun r => decide (v < r.version) := by
  rw [rowsAbove, rowsAbove, List.filter_filter]
  refine List.filter_congr fun r _ => ?_
  by_cases hv : v < r.version
  · have hs : since < r.version := by omega
    simp [hv, hs]
  · simp [hv]

theorem since_lt_of_mem_visited {r : ChangeRow} (h : r ∈ visited env log n since) :
    since < r.version := by
  have := (List.mem_filter.1 ((visited_perm env log n _).mem_iff.1 h)).2
  simpa using this

/-- What one page does when every row decodes: it is the whole rest, or `n` rows
    and the version of the last of them. -/
theorem page_cases (env : Env) (hn : 0 < n) (hdec : AllDecode log since) :
    ((visited env log n since).length < n ∧ (pullChanges env log since n).hasMore = false ∧
      (pullChanges env log since n).changes.map some =
        (visited env log n since).map toSyncChange) ∨
    (∃ a, (visited env log n since)[n - 1]? = some a ∧
      (pullChanges env log since n).hasMore = true ∧
      (pullChanges env log since n).latestVersion = a.version ∧
      (pullChanges env log since n).changes.map some =
        ((visited env log n since).take n).map toSyncChange) := by
  have hrows : pageRows env log since n = (visited env log n since).take n := limited_of_pos _
  have hsome : ∀ r ∈ (visited env log n since).take n, (toSyncChange r).isSome :=
    fun r hr => hdec r ((visited_perm env log n _).mem_iff.1 (List.mem_of_mem_take hr))
  have hmap : (pullChanges env log since n).changes.map some =
      ((visited env log n since).take n).map toSyncChange := by
    rw [← map_some_filterMap hsome, ← hrows]
    rfl
  have hlen : (pullChanges env log since n).changes.length =
      min n (visited env log n since).length := by
    have := congrArg List.length hmap
    rwa [List.length_map, List.length_map, List.length_take] at this
  have hmore : (pullChanges env log since n).hasMore =
      decide (((pullChanges env log since n).changes.length : Int) = n) := rfl
  -- the page is full exactly if as many rows are left, and only then it tells of more
  rcases Nat.lt_or_ge (visited env log n since).length n with hlt | hge
  · refine Or.inl ⟨hlt, ?_, ?_⟩
    · rw [hmore, hlen]
      simp only [decide_eq_false_iff_not]
      omega
    · rw [hmap, List.take_of_length_le (by omega)]
  · have hlast : n - 1 < (visited env log n since).length := by omega
    refine Or.inr ⟨(visited env log n since)[n - 1], List.getElem?_eq_getElem hlast, ?_, ?_, hmap⟩
    · rw [hmore, hlen]
      simp only [decide_eq_true_eq]
      omega
    · -- the last change of the page decodes the last row of the page
      have hlast? : ((visited env log n since).take n).getLast? =
          some (visited env log n since)[n - 1] := by
        rw [List.getLast?_eq_getElem?, List.length_take, Nat.min_eq_left hge,
          List.getElem?_take_of_lt (by omega), List.getElem?_eq_getElem hlast]
      have hchange : (pullChanges env log since n).changes.getLast?.map some =
          some (toSyncChange (visited env log n since)[n - 1]) := by
        rw [← List.getLast?_map, hmap, List.getLast?_map, hlast?]
        rfl
      obtain ⟨c, hc, hdecode⟩ := Option.map_eq_some_iff.1 hchange
      have hlatest : (pullChanges env log since n).latestVersion =
          ((pullChanges env log since n).changes.getLast?.map fun c => c.version).getD since := rfl
      rw [hlatest, hc]
      exact version_of_toSyncChange hdecode.symm

theorem allDecode_of_le {v : Int} (h : since ≤ v) (hdec : AllDecode log since) :
    AllDecode log v := by
  intro r hr
  rw [rowsAbove_of_le h] at hr
  exact hdec r (List.mem_of_mem_filter hr)

/-- Past a clean cut the next page starts where this one ended. -/
theorem visited_next (hn : 0 < n) {a : ChangeRow}
    (ha : (visited env log n since)[n - 1]? = some a)
    (hcut : CleanCut n (versionsAbove log since)) :
    (rowsAbove log a.version).Perm ((visited env log n since).drop n) := by
  have hsince := since_lt_of_mem_visited (List.mem_of_getElem? ha)
  rw [rowsAbove_of_le (le_of_lt hsince)]
  refine ((visited_perm env log n _).symm.filter _).trans ?_
  rw [← map_version_visited env log n] at hcut
  rw [filter_above_eq_drop (fun r => r.version) (visited_sorted env log n _) ha hn hcut]

theorem versionsAbove_next (hn : 0 < n) {a : ChangeRow}
    (ha : (visited env log n since)[n - 1]? = some a)
    (hcut : CleanCut n (versionsAbove log since)) :
    versionsAbove log a.version = (versionsAbove log since).drop n := by
  have hperm := visited_next hn ha hcut
  rw [← map_version_visited env log n since, ← List.map_drop]
  refine List.Perm.eq_of_pairwise' (r := (· ≤ ·)) ?_ ?_ ?_
  · exact List.pairwise_insertionSort _ _
  · exact List.pairwise_map.2 ((visited_sorted env log n _).sublist (List.drop_sublist _ _))
  · exact (List.perm_insertionSort _ _).trans (hperm.map _)

/-- Paging never goes back to a version it has passed. -/
theorem since_lt_of_mem_drain : ∀ (fuel : Nat) (since : Int) (changes : List SyncChange),
    AllDecode log since → 0 < n → drain env log n fuel since = some changes →
    ∀ c ∈ changes, since < c.version := by
  intro fuel
  induction fuel with
  | zero =>
      intro since changes _ _ h
      cases h
  | succ fuel ih =>
      intro since changes hdec hn h c hc
      have hpage : ∀ x ∈ (pullChanges env log since n).changes, since < x.version := by
        intro x hx
        obtain ⟨r, hr, hrx⟩ := List.mem_filterMap.1 hx
        rw [version_of_toSyncChange hrx]
        exact since_lt_of_mem_visited (mem_of_mem_limited hr)
      rw [drain] at h
      rcases page_cases env hn hdec with ⟨_, hmore, _⟩ | ⟨a, ha, hmore, hlatest, _⟩
      · rw [hmore] at h
        cases Option.some.inj h
        exact hpage c hc
      · simp only [hmore, if_true, hlatest] at h
        obtain ⟨rest, hrest, rfl⟩ := Option.map_eq_some_iff.1 h
        have hsince := since_lt_of_mem_visited (List.mem_of_getElem? ha)
        rcases List.mem_append.1 hc with hc | hc
        · exact hpage c hc
        · have := ih a.version rest (allDecode_of_le (le_of_lt hsince) hdec) hn hrest c hc
          omega

/-- A page that is full moves the start on past some rows. -/
theorem length_rowsAbove_next_lt (hn : 0 < n) {a : ChangeRow}
    (ha : (visited env log n since)[n - 1]? = some a) (hcut : CleanCut n (versionsAbove log since)) :
    (rowsAbove log a.version).length < (rowsAbove log since).length := by
  have hlt : n - 1 < (visited env log n since).length := (List.getElem?_eq_some_iff.1 ha).1
  rw [(visited_next hn ha hcut).length_eq, List.length_drop,
    ← (visited_perm env log n since).length_eq]
  omega

/-- If every row decodes and no version group is cut, paging is exact. By
    induction on the number of rows left: a full page is followed by the rest. -/
theorem pagesExactly_of_noStraddle (hn : 0 < n) : ∀ (m : Nat) (since : Int),
    (rowsAbove log since).length = m → AllDecode log since →
    NoStraddle n (versionsAbove log since) → PagesExactly env log n since := by
  intro m
  induction m using Nat.strong_induction_on with
  | _ m ih =>
      intro since hm hdec hstraddle
      rcases page_cases env hn hdec with
        ⟨_, hmore, hmap⟩ | ⟨a, ha, hmore, hlatest, hmap⟩
      · refine ⟨1, (pullChanges env log since n).changes, ?_, ?_, ?_⟩
        · simp only [drain, hmore, Bool.false_eq_true, if_false]
        · rw [hmap]
          exact ((visited_perm env log n _).symm.map _)
        · exact pairwise_of_map hmap (visited_sorted env log n _)
      · obtain ⟨hcut, hrest⟩ := (noStraddle_iff hn _).1 hstraddle
        have hsince := since_lt_of_mem_visited (List.mem_of_getElem? ha)
        have hnext := visited_next hn ha hcut
        have hlen : (rowsAbove log a.version).length < m := by
          rw [← hm]
          exact length_rowsAbove_next_lt hn ha hcut
        rw [← versionsAbove_next hn ha hcut] at hrest
        have hdec' := allDecode_of_le (le_of_lt hsince) hdec
        obtain ⟨fuel, rest, hdrain, hperm, hsorted⟩ := ih _ hlen a.version rfl hdec' hrest
        refine ⟨fuel + 1, (pullChanges env log since n).changes ++ rest, ?_, ?_, ?_⟩
        · simp only [drain, hmore, if_true, hlatest, hdrain, Option.map_some]
        · rw [List.map_append, hmap]
          have hsplit := (visited_perm env log n since).symm.map
            toSyncChange
          rw [← List.take_append_drop n (visited env log n since), List.map_append] at hsplit
          exact hsplit.trans (List.Perm.append_left _ ((hnext.symm.map _).trans hperm))
        · rw [List.pairwise_append]
          -- nothing on the later pages is at or below the end of this one
          refine ⟨pairwise_of_map hmap ((visited_sorted env log n _).sublist (List.take_sublist _ _)),
            hsorted, ?_⟩
          intro x hx y hy
          have hy' := since_lt_of_mem_drain fuel a.version rest hdec' hn hdrain y hy
          have hx' : x.version ≤ a.version := by
            have hxs : some x ∈ (pullChanges env log since n).changes.map some :=
              List.mem_map_of_mem hx
            rw [hmap] at hxs
            obtain ⟨r, hr, hrx⟩ := List.mem_map.1 hxs
            rw [version_of_toSyncChange hrx]
            exact key_le_of_mem_take (fun r => r.version) (visited_sorted env log n _) ha hn hr
          omega

/-- Exact paging means that every row decoded. -/
theorem allDecode_of_pagesExactly {limit : Int} (h : PagesExactly env log limit since) :
    AllDecode log since := by
  obtain ⟨_, changes, _, hperm, _⟩ := h
  intro r hr
  have hmem : toSyncChange r ∈ changes.map some := hperm.mem_iff.1 (List.mem_map_of_mem hr)
  obtain ⟨c, _, hc⟩ := List.mem_map.1 hmem
  rw [← hc]
  rfl

/-- A cut group is never completed: the rest of the pages lies above its version,
    so the pages hold fewer rows of that version than the log does. -/
theorem cleanCut_of_pages {a : ChangeRow} {changes rest : List SyncChange}
    (ha : (visited env log n since)[n - 1]? = some a)
    (hmap : changes.map some = ((visited env log n since).take n).map toSyncChange)
    (hrest : ∀ c ∈ rest, a.version < c.version)
    (hperm : ((rowsAbove log since).map toSyncChange).Perm ((changes ++ rest).map some)) :
    CleanCut n (versionsAbove log since) := by
  intro k hk hk'
  rw [← map_version_visited env log n, List.getElem?_map] at hk hk'
  rw [ha] at hk
  have hka : a.version = k := Option.some.inj hk
  subst hka
  obtain ⟨b, hb, hbk⟩ := Option.map_eq_some_iff.1 hk'
  have hlt := countP_take_lt (fun r : ChangeRow => r.version) hb hbk
  -- count the changes of the cut version on both sides
  let here : Option SyncChange → Bool := fun x =>
    match x with
    | some c => decide (c.version = a.version)
    | none => false
  have hhere : ∀ l : List ChangeRow, (∀ r ∈ l, (toSyncChange r).isSome) →
      (l.map toSyncChange).countP here = l.countP fun r => decide (r.version = a.version) := by
    intro l hl
    rw [List.countP_map]
    refine List.countP_congr fun r hr => ?_
    obtain ⟨c, hc⟩ := Option.isSome_iff_exists.1 (hl r hr)
    simp only [Function.comp, hc, here, version_of_toSyncChange hc]
  have hall : ∀ r ∈ rowsAbove log since, (toSyncChange r).isSome := by
    intro r hr
    obtain ⟨c, _, hc⟩ := List.mem_map.1 (hperm.mem_iff.1 (List.mem_map_of_mem hr))
    rw [← hc]
    rfl
  have hzero : (rest.map some).countP here = 0 := by
    rw [List.countP_eq_zero]
    intro x hx
    obtain ⟨c, hc, rfl⟩ := List.mem_map.1 hx
    have := hrest c hc
    simp only [here, decide_eq_true_eq]
    omega
  have hcount := hperm.countP_eq here
  rw [List.map_append, List.countP_append, hzero, hmap, hhere _ hall,
    hhere _ fun r hr => hall r ((visited_perm env log n _).mem_iff.1 (List.mem_of_mem_take hr)),
    ← (visited_perm env log n _).countP_eq] at hcount
  omega

/-- Exact paging cuts no version group: by induction on the number of rows left,
    as for the converse. -/
theorem noStraddle_of_pagesExactly (hn : 0 < n) : ∀ (m : Nat) (since : Int),
    (rowsAbove log since).length = m → PagesExactly env log n since →
    NoStraddle n (versionsAbove log since) := by
  intro m
  induction m using Nat.strong_induction_on with
  | _ m ih =>
      intro since hm h
      have hdec := allDecode_of_pagesExactly h
      obtain ⟨fuel, changes, hdrain, hperm, hsorted⟩ := h
      rcases page_cases env hn hdec with ⟨hlt, _, _⟩ | ⟨a, ha, hmore, hlatest, hmap⟩
      · refine noStraddle_of_length_le ?_
        rw [← map_version_visited env log n, List.length_map]
        omega
      · have hsince := since_lt_of_mem_visited (List.mem_of_getElem? ha)
        have hdec' := allDecode_of_le (le_of_lt hsince) hdec
        cases fuel with
        | zero => cases hdrain
        | succ fuel =>
            simp only [drain, hmore, if_true, hlatest] at hdrain
            obtain ⟨rest, hrest, rfl⟩ := Option.map_eq_some_iff.1 hdrain
            -- a group that is cut would be lost: the next page begins above its version
            have hcut := cleanCut_of_pages ha hmap
              (since_lt_of_mem_drain fuel a.version rest hdec' hn hrest) hperm
            have hnext := visited_next hn ha hcut
            have hlen : (rowsAbove log a.version).length < m := by
              rw [← hm]
              exact length_rowsAbove_next_lt hn ha hcut
            rw [noStraddle_iff hn]
            refine ⟨hcut, ?_⟩
            rw [← versionsAbove_next hn ha hcut]
            refine ih _ hlen a.version rfl ⟨fuel, rest, hrest, ?_, ?_⟩
            · -- cancel the page on both sides
              have hsplit := (visited_perm env log n since).map toSyncChange
              rw [← List.take_append_drop n (visited env log n since), List.map_append] at hsplit
              rw [List.map_append, hmap] at hperm
              have hcancel := (List.perm_append_left_iff _).1 (hsplit.trans hperm)
              exact (hnext.map _).trans hcancel
            · exact (List.pairwise_append.1 hsorted).2.1

/-- **PAGING IS EXACT** precisely when every row above the start decodes and no
    group of rows of one version reaches across a multiple of the limit. -/
theorem pagesExactly_iff (env : Env) (log : ChangeLog) (since limit : Int) (hlimit : 1 ≤ limit) :
    PagesExactly env log limit since ↔
      AllDecode log since ∧ NoStraddle limit.toNat (versionsAbove log since) := by
  obtain ⟨n, rfl⟩ : ∃ n : Nat, limit = n := ⟨limit.toNat, by omega⟩
  have hn : 0 < n := by omega
  rw [Int.toNat_natCast]
  constructor
  · intro h
    exact ⟨allDecode_of_pagesExactly h, noStraddle_of_pagesExactly hn _ since rfl h⟩
  · rintro ⟨hdec, hstraddle⟩
    exact pagesExactly_of_noStraddle hn _ since rfl hdec hstraddle

/-! ## A log in which two devices used one version -/

/-- A delete of a work, as another device pushes it. -/
def pushedDelete (entityId deviceId : String) : SyncChange :=
  { id := 0, entityType := "work", entityId, operation := "DELETE", version := 1
    payload := "", changedAt := "2026-01-01 00:00:00", deviceId, version_i64 := one_i64 }

/-- Two devices each push their first change. -/
def twoFirstChanges : List SyncChange :=
  [pushedDelete "aaaaaaaaaaaaaaaaaaaaaaaaaaaaaaaa" "tablet",
    pushedDelete "bbbbbbbbbbbbbbbbbbbbbbbbbbbbbbbb" "phone"]

/-- The log after that push into an empty database. -/
def twoFirstLog : ChangeLog :=
  match pushChanges Env.reference "2026-01-01 00:00:00" twoFirstChanges (Db.empty false) with
  | .ok p => p.2.log
  | .error _ => ChangeLog.empty

theorem pagesExactly_twoFirstLog : (1 : Int) ≤ 2 ∧ twoFirstLog.rows.length = 2 ∧
    PagesExactly Env.reference twoFirstLog 2 0 := by
  refine ⟨by decide, by decide, (pagesExactly_iff _ _ _ _ (by decide)).2 ⟨?_, ?_⟩⟩
  · unfold AllDecode
    decide
  · exact noStraddle_of_length_le (by decide)

/-- With pages of one row the second of the two rows is never delivered. -/
theorem not_pagesExactly_twoFirstLog :
    (∃ response db, pushChanges Env.reference "2026-01-01 00:00:00" twoFirstChanges
      (Db.empty false) = .ok (response, db) ∧ db.log = twoFirstLog) ∧
    ¬ PagesExactly Env.reference twoFirstLog 1 0 := by
  refine ⟨⟨_, _, rfl, rfl⟩, ?_⟩
  intro h
  have hstraddle := noStraddle_of_pagesExactly (n := 1) (by decide) _ 0 rfl h
  exact hstraddle 1 (by decide) 1 (by decide) (by decide)

end SyncPaging
