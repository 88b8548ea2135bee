import Livtet.Lib.Maps
import Livtet.Lib.Runs

/-! # A cache with a time to live

    A request is looked up under its key. An entry that is young enough is the answer;
    otherwise the source is read, and what was read is entered with the time. The cache is
    one map from keys to entries; which request an entry was read for is not in it.

    That history is the abstract state (`Stored`): the requests the source was read for, the
    newest first. The cache answers a request as the source would have answered the newest
    of them with the same key, while that is young (`answer_eq`). So it answers all requests
    of a run as the source does exactly if each meets its like (`faithful_iff`). -/

namespace TimedCache

open Maps

variable {ρ κ β : Type}

/-- A request, the time of its lookup, and the time of its entry if it makes one. -/
structure Request (ρ : Type) where
  what : ρ
  lookedUp : Nat
  entered : Nat

/-- An entry that was made at a time is young enough at another. -/
def isYoung (ttl entered now : Nat) : Bool := decide (now - entered < ttl)

section Cache

variable [DecidableEq κ] (ttl : Nat) (key : ρ → κ) (source : ρ → β)

/-- The answer in the cache, while it is young. -/
def cached (m : Map κ (β × Nat)) (now : Nat) (k : κ) : Option β :=
  match m.lookup k with
  | some (b, entered) => if isYoung ttl entered now then some b else none
  | none => none

/-- The answer, and the cache after it. -/
def request (m : Map κ (β × Nat)) (r : Request ρ) : β × Map κ (β × Nat) :=
  match cached ttl m r.lookedUp (key r.what) with
  | some b => (b, m)
  | none => (source r.what, m.insert (key r.what) (source r.what, r.entered))

def step (m : Map κ (β × Nat)) (r : Request ρ) : Map κ (β × Nat) := (request ttl key source m r).2

/-! ## Whom the source was read for -/

abbrev Stored (ρ : Type) := List (Request ρ)

/-- The newest request that has this one's key. -/
def newest (stored : Stored ρ) (k : κ) : Option (Request ρ) :=
  stored.find? fun earlier => decide (key earlier.what = k)

/-- The request that this one is answered for, if it is answered from the cache. -/
def answeredFor (stored : Stored ρ) (r : Request ρ) : Option (Request ρ) :=
  (newest key stored (key r.what)).filter fun earlier => isYoung ttl earlier.entered r.lookedUp

def store (stored : Stored ρ) (r : Request ρ) : Stored ρ :=
  if (answeredFor ttl key stored r).isSome then stored else r :: stored

/-- The entries are those of the newest requests. -/
def Remembers (m : Map κ (β × Nat)) (stored : Stored ρ) : Prop :=
  ∀ k, m.lookup k = (newest key stored k).map fun r => (source r.what, r.entered)

/-- A request that is answered for another is answered alike. -/
def MeetsItsLike (same : β → β → Prop) (stored : Stored ρ) (r : Request ρ) : Prop :=
  ∀ earlier ∈ answeredFor ttl key stored r, same (source earlier.what) (source r.what)

/-- Each request of the run is answered as the source would. -/
def Faithful (same : β → β → Prop) (run : List (Request ρ)) : Prop :=
  Runs.Admitted (step ttl key source)
    (fun m r => same (request ttl key source m r).1 (source r.what)) ∅ run

variable {ttl key source}

theorem remembers_empty : Remembers key source ∅ [] := fun k => AList.lookup_empty k

theorem cached_eq {m : Map κ (β × Nat)} {stored : Stored ρ} (h : Remembers key source m stored)
    (r : Request ρ) : cached ttl m r.lookedUp (key r.what) =
      (answeredFor ttl key stored r).map fun earlier => source earlier.what := by
  rw [cached, h, answeredFor]
  cases newest key stored (key r.what) with
  | none => rfl
  | some earlier =>
      simp only [Option.map_some, Option.filter_some]
      split
      · rfl
      · rfl

/-- The answer of the source to the request that is answered for, or to this one. -/
theorem answer_eq {m : Map κ (β × Nat)} {stored : Stored ρ} (h : Remembers key source m stored)
    (r : Request ρ) : (request ttl key source m r).1 =
      source ((answeredFor ttl key stored r).getD r).what := by
  rw [request, cached_eq h r]
  cases answeredFor ttl key stored r with
  | none => rfl
  | some earlier => rfl

theorem remembers_step {m : Map κ (β × Nat)} {stored : Stored ρ} (h : Remembers key source m stored)
    (r : Request ρ) : Remembers key source (step ttl key source m r) (store ttl key stored r) := by
  rw [step, request, store, cached_eq h r]
  cases answeredFor ttl key stored r with
  | some earlier => exact h
  | none =>
      intro k
      show (m.insert (key r.what) (source r.what, r.entered)).lookup k =
        (newest key (r :: stored) k).map _
      by_cases hk : key r.what = k
      · have hfound : newest key (r :: stored) k = some r :=
          List.find?_cons_of_pos (decide_eq_true hk)
        rw [hfound, ← hk, AList.lookup_insert]
        rfl
      · rw [AList.lookup_insert_ne (Ne.symm hk), h, newest, newest,
          List.find?_cons_of_neg (by simpa using hk)]

/-- **THE CACHE ANSWERS AS THE SOURCE** exactly if each request meets its like. -/
theorem faithful_iff {same : β → β → Prop} (hrefl : ∀ b, same b b) (run : List (Request ρ)) :
    Faithful ttl key source same run ↔
      Runs.Admitted (store ttl key) (MeetsItsLike ttl key source same) [] run := by
  have hguard : ∀ (m : Map κ (β × Nat)) stored (r : Request ρ), Remembers key source m stored →
      (same (request ttl key source m r).1 (source r.what) ↔
        MeetsItsLike ttl key source same stored r) := by
    intro m stored r h
    rw [answer_eq h, MeetsItsLike]
    cases answeredFor ttl key stored r with
    | none => exact iff_of_true (hrefl _) fun _ hnone => absurd hnone (Option.not_mem_none _)
    | some earlier =>
        refine ⟨fun hsame earlier' hearlier => ?_, fun hmeets => hmeets earlier rfl⟩
        cases hearlier
        exact hsame
  have hstep : ∀ (m : Map κ (β × Nat)) stored (r : Request ρ), Remembers key source m stored →
      Remembers key source (step ttl key source m r) (store ttl key stored r) :=
    fun m stored r h => remembers_step h r
  exact Runs.Admitted.simulate hguard hstep run remembers_empty

/-- A request is answered for one with its key. -/
theorem of_mem_answeredFor {stored : Stored ρ} {r earlier : Request ρ}
    (h : earlier ∈ answeredFor ttl key stored r) :
    earlier ∈ stored ∧ key earlier.what = key r.what := by
  have hnewest := (Option.filter_eq_some_iff.1 h).1
  exact ⟨List.mem_of_find?_eq_some hnewest,
    of_decide_eq_true (List.find?_some hnewest :)⟩

/-- Where requests with one key are alike, each is answered as the source would. -/
theorem faithful_of_key {same : β → β → Prop} (hrefl : ∀ b, same b b) {run : List (Request ρ)}
    (h : ∀ r ∈ run, ∀ r' ∈ run, key r.what = key r'.what → same (source r.what) (source r'.what)) :
    Faithful ttl key source same run := by
  refine (faithful_iff hrefl run).2 ?_
  -- what is stored is of the run
  suffices hall : ∀ (rest : List (Request ρ)) (stored : Stored ρ), (∀ r ∈ rest, r ∈ run) →
      (∀ r ∈ stored, r ∈ run) →
        Runs.Admitted (store ttl key) (MeetsItsLike ttl key source same) stored rest by
    refine hall run [] (fun _ hr => hr) fun r hr => ?_
    exact absurd hr List.not_mem_nil
  intro rest
  induction rest with
  | nil =>
      intro stored _ _
      exact trivial
  | cons r rest ih =>
      intro stored hrest hstored
      have hr := hrest r List.mem_cons_self
      refine ⟨fun earlier hearlier => ?_, ih _ (fun r' hr' => hrest r' (.tail _ hr')) ?_⟩
      · obtain ⟨hmem, hkey⟩ := of_mem_answeredFor hearlier
        exact h earlier (hstored earlier hmem) r hr hkey
      · intro r' hr'
        rw [store] at hr'
        split at hr'
        · exact hstored r' hr'
        · rcases List.mem_cons.1 hr' with rfl | hr'
          · exact hr
          · exact hstored r' hr'

end Cache

end TimedCache
