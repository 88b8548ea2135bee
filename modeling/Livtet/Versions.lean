import Livtet.Offers
import Livtet.Paging
import Livtet.Lib.Runs

/-! # Versions — what local rows are numbered

    A trigger numbers its row `MAX(version) + 1`, and so does `offer_book`. Peers put
    rows of any version into the same log. Local rows are numbered upwards for as long
    as there is room below the largest 64-bit version; where there is none, the sum is a
    REAL, which no reader takes for a version. -/

namespace SyncVersions

open SyncStore SyncEngine SyncOffers

inductive Action
  | edit (now : String) (edit : LocalEdit)
  | offerBook (now deviceId inventoryId payload : String)
  | push (now : String) (changes : List SyncChange)
  | apply (now : String) (changes : List SyncChange) (options : ApplyOptions)

/-- One action; a call that fails leaves the database as it was. -/
def step (env : Env) (db : Db) : Action → Db
  | .edit now edit =>
      match localEdit env now edit db with
      | .ok db' => db'
      | .error _ => db
  | .offerBook now deviceId inventoryId payload =>
      match logOffer now deviceId inventoryId payload db.log with
      | .ok log => { db with log }
      | .error _ => db
  | .push now changes =>
      match pushChanges env now changes db with
      | .ok (_, db') => db'
      | .error _ => db
  | .apply now changes options =>
      match applyChanges env now changes options db with
      | .ok (_, db') => db'
      | .error _ => db

/-- Every row logged since is numbered with an `i64`, above every row before it. -/
def Rises (log log' : ChangeLog) : Prop :=
  log.rows <+: log'.rows ∧
    ∀ (i : Nat) r, log.rows.length ≤ i → log'.rows[i]? = some r →
      (minI64 ≤ r.version ∧ r.version ≤ maxI64) ∧
        ∀ (j : Nat) r', j < i → log'.rows[j]? = some r' → r'.version < r.version

/-- What is asked of a step: a local edit and an offer number their rows upwards. -/
def Numbers (env : Env) (db : Db) : Action → Prop
  | .edit now edit => Rises db.log (step env db (.edit now edit)).log
  | .offerBook now deviceId inventoryId payload =>
      Rises db.log (step env db (.offerBook now deviceId inventoryId payload)).log
  | .push _ _ => True
  | .apply _ _ _ => True

/-- The rows a step logs. -/
def logged (env : Env) (db : Db) (a : Action) : Nat :=
  (step env db a).log.rows.length - db.log.rows.length

/-- There is room for the rows of the step above the highest version. -/
def Room (env : Env) (db : Db) : Action → Prop
  | .push _ _ => True
  | .apply _ _ _ => True
  | a => logged env db a = 0 ∨ db.log.maxVersion + logged env db a ≤ maxI64

/-! ## Numbering -/

/-- The rows added to a log are numbered from its highest version on, as far as a REAL
    goes. -/
structure Numbered (log log' : ChangeLog) (new : List ChangeRow) : Prop where
  rows : log'.rows = log.rows ++ new
  version : ∀ (i : Nat) r, new[i]? = some r →
    r.version = min (log.maxVersion + i + 1) realVersion
  max : log'.maxVersion = min (log.maxVersion + new.length) realVersion

theorem Numbered.refl (log : ChangeLog) : Numbered log log [] where
  rows := (List.append_nil _).symm
  version := fun _ _ h => by cases h
  max := by
    have := log.maxVersion_bounds.2
    simp only [List.length_nil]
    omega

theorem maxVersion_of_last {log : ChangeLog} {rows : List ChangeRow} {r : ChangeRow}
    (h : log.rows = rows ++ [r]) (hle : ∀ r' ∈ rows, r'.version ≤ r.version) :
    log.maxVersion = r.version := by
  have hmem : r ∈ log.rows := by
    rw [h]
    exact List.mem_append_right _ List.mem_cons_self
  refine le_antisymm ?_ (ChangeLog.version_le_maxVersion hmem)
  cases hm : log.maxVersion? with
  | none =>
      rw [ChangeLog.maxVersion?, List.max?_eq_none_iff, List.map_eq_nil_iff] at hm
      rw [hm] at hmem
      cases hmem
  | some m =>
      rw [ChangeLog.maxVersion, hm]
      obtain ⟨r', hr', rfl⟩ := List.mem_map.1 (List.max?_eq_some_iff.1 hm).1
      rw [h] at hr'
      rcases List.mem_append.1 hr' with hr' | hr'
      · exact hle r' hr'
      · rw [List.mem_singleton.1 hr']
        exact le_refl _

/-- One more row at the next version. -/
theorem Numbered.snoc {log mid log' : ChangeLog} {new : List ChangeRow} {r : ChangeRow}
    (h : Numbered log mid new) (hrows : log'.rows = mid.rows ++ [r])
    (hversion : r.version = mid.nextVersion) : Numbered log log' (new ++ [r]) := by
  have hnext : r.version = min (log.maxVersion + new.length + 1) realVersion := by
    rw [hversion, ChangeLog.nextVersion, h.max]
    omega
  refine ⟨by rw [hrows, h.rows, List.append_assoc], ?_, ?_⟩
  · intro i x hx
    rcases Nat.lt_or_ge i new.length with hlt | hge
    · rw [List.getElem?_append_left hlt] at hx
      exact h.version i x hx
    · rw [List.getElem?_append_right hge, List.getElem?_singleton] at hx
      split at hx
      next hi =>
        cases hx
        rw [hnext, show i = new.length by omega]
      · cases hx
  · have hlast : log'.maxVersion = r.version := by
      refine maxVersion_of_last hrows fun r' hr' => ?_
      have hle := ChangeLog.version_le_maxVersion hr'
      have hbound := mid.maxVersion_bounds.2
      rw [hversion, ChangeLog.nextVersion]
      omega
    rw [hlast, hnext, List.length_append, List.length_singleton]
    push_cast
    omega

theorem numbered_of_grows {log log' : ChangeLog} (h : ChangeLog.Grows log log') :
    ∃ new, Numbered log log' new := by
  induction h with
  | refl => exact ⟨[], .refl log⟩
  | step _ now entityType entityId operation payload ih =>
      obtain ⟨new, hnew⟩ := ih
      exact ⟨_, hnew.snoc (ChangeLog.logLocal_rows _ _ _ _ _ _) rfl⟩

theorem numbered_of_logOffer {now deviceId inventoryId payload : String} {log log' : ChangeLog}
    (h : logOffer now deviceId inventoryId payload log = .ok log') :
    ∃ new, Numbered log log' new :=
  ⟨_, (Numbered.refl log).snoc (ChangeLog.insert_eq_ok h).1 rfl⟩

/-! ## Room for the rows -/

/-- Numbered rows rise exactly when the last of them is within an `i64`. -/
theorem rises_iff {log log' : ChangeLog} {new : List ChangeRow} (h : Numbered log log' new) :
    Rises log log' ↔ log'.rows.length - log.rows.length = 0 ∨
      log.maxVersion + (log'.rows.length - log.rows.length : Nat) ≤ maxI64 := by
  have hlen : log'.rows.length - log.rows.length = new.length := by
    rw [h.rows, List.length_append]
    omega
  rw [hlen]
  constructor
  · rintro ⟨_, hrise⟩
    by_cases hnil : new.length = 0
    · exact Or.inl hnil
    · -- the last row carries the highest number
      obtain ⟨r, hr⟩ : ∃ r, new[new.length - 1]? = some r :=
        ⟨_, List.getElem?_eq_getElem (by omega)⟩
      have hrow : log'.rows[log.rows.length + (new.length - 1)]? = some r := by
        rw [h.rows, List.getElem?_append_right (by omega), Nat.add_sub_cancel_left, hr]
      have hvalid := (hrise _ r (by omega) hrow).1.2
      rw [h.version _ r hr] at hvalid
      have hreal : maxI64 < realVersion := by decide
      right
      omega
  · intro hroom
    refine ⟨⟨new, h.rows.symm⟩, fun i r hi hr => ?_⟩
    rw [h.rows, List.getElem?_append_right hi] at hr
    have hi' : i - log.rows.length < new.length := (List.getElem?_eq_some_iff.1 hr).1
    have hversion := h.version _ r hr
    -- each new row is above the greatest of the old, and above the new ones before it
    have hmin := log.maxVersion_bounds.1
    have hreal : maxI64 < realVersion := by decide
    refine ⟨by omega, fun j r' hj hr' => ?_⟩
    rw [h.rows] at hr'
    rcases Nat.lt_or_ge j log.rows.length with hold | hnew
    · rw [List.getElem?_append_left hold] at hr'
      have hle := ChangeLog.version_le_maxVersion (List.mem_of_getElem? hr')
      omega
    · rw [List.getElem?_append_right hnew] at hr'
      have hversion' := h.version _ r' hr'
      omega

theorem numbered_edit (env : Env) (db : Db) (now : String) (edit : LocalEdit) :
    ∃ new, Numbered db.log (step env db (.edit now edit)).log new := by
  rw [step]
  split
  next db' h => exact numbered_of_grows (Echoed.localEdit h).log
  next => exact ⟨[], .refl _⟩

theorem numbered_offerBook (env : Env) (db : Db) (now deviceId inventoryId payload : String) :
    ∃ new, Numbered db.log (step env db (.offerBook now deviceId inventoryId payload)).log new := by
  rw [step]
  split
  next log h => exact numbered_of_logOffer h
  next => exact ⟨[], .refl _⟩

theorem numbers_iff_room (env : Env) (db : Db) (a : Action) : Numbers env db a ↔ Room env db a := by
  cases a with
  | edit now edit =>
      obtain ⟨new, h⟩ := numbered_edit env db now edit
      exact rises_iff h
  | offerBook now deviceId inventoryId payload =>
      obtain ⟨new, h⟩ := numbered_offerBook env db now deviceId inventoryId payload
      exact rises_iff h
  | push now changes => exact Iff.rfl
  | apply now changes options => exact Iff.rfl

/-- In a run of local edits, offers and batches from peers every local row is numbered
    upwards exactly when every step finds room for its rows. -/
theorem versions_rise_iff (env : Env) (start : Db) (run : List Action) :
    Runs.Admitted (step env) (Numbers env) start run ↔
      Runs.Admitted (step env) (Room env) start run :=
  Runs.Admitted.congr (numbers_iff_room env) run

/-- A delete that a peer numbered with the largest 64-bit version. -/
def lastDelete : SyncChange :=
  { id := 0, entityType := "work", entityId := "aaaaaaaaaaaaaaaaaaaaaaaaaaaaaaaa"
    operation := "DELETE", version := maxI64, payload := "", changedAt := "", deviceId := "tablet" }

/-- The peer pushes it, and the reader then offers a book. -/
def offerAfterLast : List Action :=
  [.push "" [lastDelete], .offerBook "" "desk" "i" "\x7b\x7d"]

/-- The offer is logged with no 64-bit version at all. -/
theorem not_versions_rise_after_last :
    (∃ response db, pushChanges Env.reference "" [lastDelete] (Db.empty false) =
      .ok (response, db)) ∧
    ((Runs.exec (step Env.reference) (Db.empty false) offerAfterLast).log.rows.map fun r =>
      r.version) = [maxI64, realVersion] ∧
    ¬ Runs.Admitted (step Env.reference) (Numbers Env.reference) (Db.empty false)
      offerAfterLast := by
  refine ⟨⟨_, _, rfl⟩, by decide, fun h => ?_⟩
  rw [Runs.Admitted.congr (numbers_iff_room Env.reference)] at h
  have hroom : _ = 0 ∨ _ ≤ maxI64 := h.2.1
  exact absurd hroom (by decide)

end SyncVersions
