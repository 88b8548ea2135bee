import Mathlib.Data.List.AList

/-! # Finite maps — retain, and lookups after an update

    Mathlib's association lists with one value type, as the hash maps of a
    program: `retain` keeps the entries that pass a test, `mapValues` changes every
    value, and each update has one lemma that says which entries a lookup can find
    afterwards. -/

namespace Maps

variable {α β : Type*}

/-- A map from `α` to `β`. -/
abbrev Map (α β : Type*) := AList (fun _ : α => β)

/-- Keep the entries that pass the test. -/
def retain (p : α → β → Bool) (m : Map α β) : Map α β where
  entries := m.entries.filter fun e => p e.1 e.2
  nodupKeys := m.nodupKeys.sublist (List.filter_sublist)

/-- Change every value. -/
def mapValues (f : β → β) (m : Map α β) : Map α β where
  entries := m.entries.map fun e => ⟨e.1, f e.2⟩
  nodupKeys := by
    have hkeys : (m.entries.map fun e => (⟨e.1, f e.2⟩ : Sigma fun _ => β)).keys =
        m.entries.keys := by
      simp [List.keys, Function.comp_def]
    rw [List.NodupKeys, hkeys]
    exact m.nodupKeys

variable [DecidableEq α]

theorem lookup_mapValues {f : β → β} {m : Map α β} {a : α} {b : β} :
    (mapValues f m).lookup a = some b ↔ ∃ b', m.lookup a = some b' ∧ b = f b' := by
  rw [← Option.mem_def, AList.mem_lookup_iff]
  show (⟨a, b⟩ : Sigma fun _ => β) ∈ m.entries.map (fun e => ⟨e.1, f e.2⟩) ↔ _
  rw [List.mem_map]
  constructor
  · rintro ⟨⟨a', b'⟩, hmem, he⟩
    cases he
    exact ⟨b', AList.mem_lookup_iff.2 hmem, rfl⟩
  · rintro ⟨b', hlookup, rfl⟩
    exact ⟨⟨a, b'⟩, AList.mem_lookup_iff.1 hlookup, rfl⟩

theorem lookup_retain {p : α → β → Bool} {m : Map α β} {a : α} {b : β} :
    (retain p m).lookup a = some b ↔ m.lookup a = some b ∧ p a b = true := by
  rw [← Option.mem_def, ← Option.mem_def, AList.mem_lookup_iff, AList.mem_lookup_iff]
  show (⟨a, b⟩ : Sigma fun _ => β) ∈ m.entries.filter (fun e => p e.1 e.2) ↔ _
  rw [List.mem_filter]

theorem lookup_erase {m : Map α β} {k a : α} {b : β} :
    (m.erase k).lookup a = some b ↔ a ≠ k ∧ m.lookup a = some b := by
  by_cases h : a = k
  · subst h
    rw [AList.lookup_erase]
    constructor
    · intro h
      cases h
    · rintro ⟨h, _⟩
      exact absurd rfl h
  · rw [AList.lookup_erase_ne h]
    exact ⟨fun hb => ⟨h, hb⟩, fun hb => hb.2⟩

theorem lookup_insert {m : Map α β} {k a : α} {v b : β} :
    (m.insert k v).lookup a = some b ↔ (a = k ∧ b = v) ∨ (a ≠ k ∧ m.lookup a = some b) := by
  by_cases h : a = k
  · subst h
    rw [AList.lookup_insert]
    constructor
    · intro hb
      exact Or.inl ⟨rfl, (Option.some.inj hb).symm⟩
    · rintro (⟨_, rfl⟩ | ⟨h, _⟩)
      · rfl
      · exact absurd rfl h
  · rw [AList.lookup_insert_ne h]
    constructor
    · intro hb
      exact Or.inr ⟨h, hb⟩
    · rintro (⟨h', _⟩ | ⟨_, hb⟩)
      · exact absurd h' h
      · exact hb

/-! ## Making room -/

/-- `while len >= cap` remove the entry that is picked; one step for each entry is
    enough to empty the map. -/
def evict (pick : Map α β → Option α) (cap : Nat) : Nat → Map α β → Map α β
  | 0, m => m
  | steps + 1, m =>
      if cap ≤ m.entries.length then
        match pick m with
        | some k => evict pick cap steps (m.erase k)
        | none => m
      else m

/-- Making room only removes. -/
theorem lookup_of_lookup_evict {pick : Map α β → Option α} {cap : Nat} {a : α} {b : β} :
    ∀ {steps : Nat} {m : Map α β}, (evict pick cap steps m).lookup a = some b →
      m.lookup a = some b := by
  intro steps
  induction steps with
  | zero =>
      intro m h
      exact h
  | succ steps ih =>
      intro m h
      rw [evict] at h
      split at h
      · split at h
        · exact (lookup_erase.1 (ih h)).2
        · exact h
      · exact h

/-- Where there is room, nothing is removed. -/
theorem evict_of_lt {pick : Map α β → Option α} {cap steps : Nat} {m : Map α β}
    (h : m.entries.length < cap) : evict pick cap steps m = m := by
  cases steps with
  | zero => rfl
  | succ steps => rw [evict, if_neg (Nat.not_le.2 h)]

theorem length_erase_of_mem {m : Map α β} {k : α} (h : k ∈ m) :
    (m.erase k).entries.length + 1 = m.entries.length := by
  have hkeys : (m.erase k).keys.length + 1 = m.keys.length := by
    rw [AList.keys_erase, List.length_erase_of_mem (AList.mem_keys.1 h)]
    exact Nat.sub_add_cancel (List.length_pos_of_mem (AList.mem_keys.1 h))
  simpa [AList.keys, List.keys] using hkeys

/-- With a step for each entry, and a pick that finds one whenever there is one,
    there is room afterwards. -/
theorem length_evict_lt {pick : Map α β → Option α} {cap : Nat} (hcap : 0 < cap)
    (hpick : ∀ m : Map α β, m.entries ≠ [] → ∃ k ∈ m, pick m = some k) :
    ∀ {steps : Nat} {m : Map α β}, m.entries.length ≤ steps →
      (evict pick cap steps m).entries.length < cap := by
  intro steps
  induction steps with
  | zero =>
      intro m h
      rw [evict]
      omega
  | succ steps ih =>
      intro m h
      rw [evict]
      split
      · next hlen =>
          have hne : m.entries ≠ [] := by
            intro hnil
            rw [hnil, List.length_nil] at hlen
            omega
          obtain ⟨k, hk, hpicked⟩ := hpick m hne
          rw [hpicked]
          have := length_erase_of_mem hk
          exact ih (by omega)
      · next hlen => omega

end Maps
