import StillVideo.Proofs.Rounding

/-!
# Shortest digits

The digits that are chosen for a magnitude round to it (`roundsTo_shortest`). Each grid is finer
than the one before, and on the last of them, finer than a quarter of the spacing, the multiple next
below the magnitude is always within reach.
-/

namespace StillVideo

attribute [local instance (2000)] instPowNat

theorem roundDiv_cases (n d : Nat) : roundDiv n d = n / d ∨ roundDiv n d = n / d + 1 := by
  unfold roundDiv
  dsimp only
  split_ifs <;> omega

namespace Binary64

theorem spacing_le_reachBelow (u : Nat) : spacing u ≤ reachBelow u := by
  unfold reachBelow
  split_ifs <;> omega

/-- On a grid finer than a quarter of the spacing the multiple next below is within reach. -/
theorem reaches_floor {u grid scale : Nat} (hgrid : 0 < grid) (hscale : 0 < scale)
    (h : 10 ^ 17 * grid ≤ u * scale) : Reaches u (u * scale / grid * grid) scale := by
  obtain ⟨j, hs, -, hu⟩ := exists_spacing u
  have hdigits : u * scale < 2 ^ 53 * (spacing u * scale) := by
    rw [← Nat.mul_assoc, Nat.mul_lt_mul_right hscale, hs, ← Nat.pow_add]
    exact hu
  have hfloor := Nat.div_add_mod (u * scale) grid
  have hmod := Nat.mod_lt (u * scale) hgrid
  have hreach := Nat.mul_le_mul_right scale (spacing_le_reachBelow u)
  rw [Nat.mul_comm grid] at hfloor
  refine .inl ⟨?_, ?_⟩
  · rw [Nat.sub_mul, Nat.mul_assoc]
    omega
  · rw [Nat.add_mul, Nat.mul_assoc, Nat.mul_assoc]
    omega

theorem reaches_gridFloor {u : Nat} {e : Int}
    (h : 10 ^ 17 * (one * 10 ^ e.toNat) ≤ u * 10 ^ (-e).toNat) :
    Reaches u (gridFloor u e * one * 10 ^ e.toNat) (10 ^ (-e).toNat) := by
  have hreach := reaches_floor (Nat.mul_pos one_pos (Nat.pow_pos (by decide)))
    (Nat.pow_pos (by decide)) h
  rwa [← gridFloor, ← Nat.mul_assoc] at hreach

theorem roundsTo_gridFloor {u : Nat} {e : Int}
    (h : 10 ^ 17 * (one * 10 ^ e.toNat) ≤ u * 10 ^ (-e).toNat) :
    roundsTo u (gridFloor u e) e = true :=
  roundsTo_iff.mpr (reaches_gridFloor h)

theorem neighbour?_eq_some {floorServes nextServes : Bool} {floor nearest d : Nat}
    (h : neighbour? floorServes nextServes floor nearest = some d)
    (hnear : nearest = floor ∨ nearest = floor + 1) :
    floorServes = true ∧ d = floor ∨ nextServes = true ∧ d = floor + 1 := by
  cases floorServes <;> cases nextServes <;> simp [neighbour?] at h ⊢ <;> omega

theorem roundsTo_of_onGrid? {u d : Nat} {e : Int} (h : onGrid? u e = some d) :
    roundsTo u d e = true := by
  unfold onGrid? at h
  rcases neighbour?_eq_some h (roundDiv_cases _ _) with ⟨hserves, rfl⟩ | ⟨hserves, rfl⟩
  · exact hserves
  · exact hserves

/-- Some grid serves: at the latest the one on which the multiple next below does. -/
theorem roundsTo_shortestFrom {u n : Nat} {e : Int}
    (h : roundsTo u (gridFloor u (e - n)) (e - n) = true) :
    roundsTo u (shortestFrom u n e).1 (shortestFrom u n e).2 = true := by
  induction n generalizing e with
  | zero =>
    rw [Int.natCast_zero, Int.sub_zero] at h
    exact h
  | succ n ih =>
    rw [shortestFrom]
    cases hgrid : onGrid? u e with
    | some d => exact roundsTo_of_onGrid? hgrid
    | none =>
      refine ih ?_
      rwa [Int.sub_sub, Int.add_comm 1, ← Int.natCast_succ]

/-- Eighteen digits are enough. -/
theorem grid_le {u len a p m : Nat} (h : one * 10 ^ len ≤ u * 10 ^ a)
    (hexp : a + 17 + p ≤ len + m) : 10 ^ 17 * (one * 10 ^ p) ≤ u * 10 ^ m := by
  have hten : 0 < 10 ^ a := Nat.pow_pos (by decide)
  refine Nat.le_of_mul_le_mul_left ?_ hten
  calc 10 ^ a * (10 ^ 17 * (one * 10 ^ p))
      = one * 10 ^ (a + 17 + p) := by rw [Nat.pow_add, Nat.pow_add]; ring
    _ ≤ one * 10 ^ (len + m) :=
      Nat.mul_le_mul_left _ (Nat.pow_le_pow_right (by decide) hexp)
    _ = one * 10 ^ len * 10 ^ m := by rw [Nat.pow_add, Nat.mul_assoc]
    _ ≤ u * 10 ^ a * 10 ^ m := Nat.mul_le_mul_right _ h
    _ = 10 ^ a * (u * 10 ^ m) := by ring

theorem exists_decimalPoint {u : Nat} (hu : 0 < u) :
    ∃ len : Nat, decimalPoint u = len + 1 - pointPlaces ∧
      one * 10 ^ len ≤ u * 10 ^ pointPlaces := by
  have hscaled : 0 < u * 10 ^ pointPlaces / one := by
    have hone := Nat.le_trans (Nat.le_mul_of_pos_left one (by decide)) two_mul_one_le
    exact Nat.div_pos (Nat.le_trans hone (Nat.le_mul_of_pos_left _ hu)) one_pos
  have hlen := length_decimalDigits_pos (u * 10 ^ pointPlaces / one)
  refine ⟨(decimalDigits (u * 10 ^ pointPlaces / one)).length - 1, ?_, ?_⟩
  · rw [decimalPoint]
    omega
  · rw [Nat.mul_comm, ← Nat.le_div_iff_mul_le one_pos]
    exact pow_le_of_lt_length_decimalDigits hscaled (by omega)

/-- **Shortest digits.** The shortest digits of a magnitude round to it. -/
theorem roundsTo_shortest {u : Nat} (hu : 0 < u) :
    roundsTo u (shortest u).1 (shortest u).2 = true := by
  obtain ⟨len, hpoint, hle⟩ := exists_decimalPoint hu
  refine roundsTo_shortestFrom (roundsTo_gridFloor (grid_le hle ?_))
  rw [hpoint]
  omega

end Binary64

end StillVideo
