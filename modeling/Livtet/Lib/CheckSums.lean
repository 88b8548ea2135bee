import Mathlib.Data.Nat.ModEq

/-! # Weighted check sums

    A code is protected by a sum: every value is multiplied by the weight of its place,
    and a code is valid if the modulus divides the sum. If the weight of a place has no
    factor in common with the modulus, no valid code differs from another at that place
    alone. -/

namespace CheckSums

/-- The values weighted by their places. -/
def weighted (w : Nat → Nat) : List Nat → Nat
  | [] => 0
  | v :: vs => v * w 0 + weighted (fun i => w (i + 1)) vs

theorem weighted_map {α : Type} (value : α → Nat) (w : Nat → Nat) (cs : List α) :
    (cs.mapIdx fun i c => value c * w i).sum = weighted w (cs.map value) := by
  induction cs generalizing w with
  | nil => rfl
  | cons c cs ih =>
      rw [List.mapIdx_cons, List.sum_cons, List.map_cons, weighted]
      exact congrArg (value c * w 0 + ·) (ih fun i => w (i + 1))

theorem weighted_append (w : Nat → Nat) (us vs : List Nat) :
    weighted w (us ++ vs) = weighted w us + weighted (fun i => w (i + us.length)) vs := by
  induction us generalizing w with
  | nil => exact (Nat.zero_add _).symm
  | cons u us ih =>
      rw [List.cons_append, weighted, weighted, ih, Nat.add_assoc]
      rfl

/-- What a replaced value changes in the sum. -/
theorem weighted_set (w : Nat → Nat) {vs : List Nat} {i : Nat} (hi : i < vs.length) (v : Nat) :
    weighted w (vs.set i v) + vs[i] * w i = weighted w vs + v * w i := by
  induction vs generalizing w i with
  | nil => cases hi
  | cons u vs ih =>
      cases i with
      | zero =>
          rw [List.set_cons_zero, weighted, weighted]
          show v * w 0 + _ + u * w 0 = u * w 0 + _ + v * w 0
          omega
      | succ i =>
          have hrest := ih (fun i => w (i + 1)) (Nat.lt_of_succ_lt_succ hi)
          rw [List.set_cons_succ, weighted, weighted]
          have hi' : i < vs.length := Nat.lt_of_succ_lt_succ hi
          show u * w 0 + _ + vs[i] * w (i + 1) = u * w 0 + _ + v * w (i + 1)
          omega

/-- A replaced value is detected where the weight has no factor in common with the
    modulus. -/
theorem weighted_set_mod {m : Nat} (w : Nat → Nat) {vs : List Nat} {i v : Nat}
    (hi : i < vs.length) (hw : Nat.Coprime m (w i)) (hold : vs[i] < m) (hnew : v < m)
    (hne : v ≠ vs[i]) (hsum : weighted w vs % m = 0) : weighted w (vs.set i v) % m ≠ 0 := by
  intro hset
  have hzero : weighted w vs ≡ 0 [MOD m] := hsum.trans (Nat.zero_mod m).symm
  have hzero' : 0 ≡ weighted w (vs.set i v) [MOD m] := (Nat.zero_mod m).trans hset.symm
  have hmod : vs[i] * w i ≡ v * w i [MOD m] := by
    calc vs[i] * w i = 0 + vs[i] * w i := (Nat.zero_add _).symm
      _ ≡ weighted w (vs.set i v) + vs[i] * w i [MOD m] := hzero'.add_right _
      _ = weighted w vs + v * w i := weighted_set w hi v
      _ ≡ 0 + v * w i [MOD m] := hzero.add_right _
      _ = v * w i := Nat.zero_add _
  have heq : vs[i] ≡ v [MOD m] := Nat.ModEq.cancel_right_of_coprime hw hmod
  exact hne (heq.symm.eq_of_lt_of_lt hnew hold)

end CheckSums
