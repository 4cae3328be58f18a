import StillVideo.Proofs.ShortDecimals

/-!
# The texts of whole numbers

Below `10 ^ 16` the magnitudes of the format are spaced so closely that only a whole number itself
is chosen as its shortest digits (`shortestFrom_whole`), and so small that they are laid out without
an exponent. A number of a graph that is whole is therefore written as the whole number that it is
(`graphNumber_whole`).
-/

namespace StillVideo

attribute [local instance (2000)] instPowNat

/-! ## Digits with zeros behind them -/

theorem decimalDigits_mul_ten {m : Nat} (hm : 0 < m) :
    decimalDigits (m * 10) = decimalDigits m ++ ['0'] := by
  unfold decimalDigits
  rw [Nat.toDigits_of_base_le (by decide) (by omega)]
  congr 2
  · omega
  · rw [Nat.mul_mod_left]
    rfl

theorem decimalDigits_mul_pow {m : Nat} (hm : 0 < m) (k : Nat) :
    decimalDigits (m * 10 ^ k) = decimalDigits m ++ List.replicate k '0' := by
  induction k with
  | zero => rw [Nat.pow_zero, Nat.mul_one, List.replicate_zero, List.append_nil]
  | succ k ih =>
    have hpos : 0 < m * 10 ^ k := Nat.mul_pos hm (Nat.pow_pos (by decide))
    rw [Nat.pow_succ, ← Nat.mul_assoc, decimalDigits_mul_ten hpos, ih, List.append_assoc,
      ← List.replicate_succ']

namespace Binary64

attribute [local irreducible] one bound

variable {i d : Nat} {e : Int}

/-- Below `10 ^ 16` magnitudes are at most two apart, and only even ones are that far apart. -/
theorem spacing_of_whole (hrep : Representable (i * one)) (hi : i < 10 ^ 16) :
    spacing (i * one) ≤ one ∨ spacing (i * one) = 2 * one ∧ i % 2 = 0 := by
  obtain ⟨j, hs, hlow, -⟩ := exists_spacing (i * one)
  have hone : one = 2 ^ unitPlaces := by unfold one; rfl
  have hbound : i * one < 2 ^ (54 + unitPlaces) := by
    rw [Nat.pow_add, ← hone]
    exact (Nat.mul_lt_mul_right one_pos).mpr (Nat.lt_trans hi (by decide))
  have hj : j < unitPlaces + 2 := by
    rcases hlow with rfl | hlow
    · omega
    · have := (Nat.pow_lt_pow_iff_right (by decide)).mp (Nat.lt_of_le_of_lt hlow hbound)
      omega
  rcases Nat.lt_or_ge unitPlaces j with hlarge | hsmall
  · obtain rfl : j = unitPlaces + 1 := by omega
    have hdouble : spacing (i * one) = 2 * one := by rw [hs, hone, Nat.pow_succ, Nat.mul_comm]
    refine .inr ⟨hdouble, ?_⟩
    have hdvd := hrep.2
    rw [hdouble, Nat.mul_mod_mul_right] at hdvd
    exact (Nat.mul_eq_zero.mp hdvd).resolve_right (Nat.ne_of_gt one_pos)
  · rw [hs, hone]
    exact .inl (Nat.pow_le_pow_right (by decide) hsmall)

section

variable (hrep : Representable (i * one)) (hi : i < 10 ^ 16)
include hrep hi

/-- Above the ones only a multiple that is the number itself rounds to it. -/
theorem eq_of_roundsTo_whole (he : 0 < e) (h : roundsTo (i * one) d e = true) :
    d * 10 ^ e.toNat = i := by
  obtain ⟨hlow, hhigh⟩ := (roundsTo_iff.mp h).distance
  rw [show (-e).toNat = 0 by omega, Nat.pow_zero, Nat.mul_one, Nat.mul_one,
    Nat.mul_right_comm d] at hlow hhigh
  obtain ⟨k, hk⟩ : ∃ k, e.toNat = k + 1 := ⟨e.toNat - 1, by omega⟩
  have heven : d * 10 ^ e.toNat % 2 = 0 := by
    rw [hk, Nat.pow_succ, ← Nat.mul_assoc]
    omega
  generalize d * 10 ^ e.toNat = D at *
  have hone := one_pos
  have lt_of_units : ∀ {a b : Nat}, a * one < b * one → a < b := Nat.lt_of_mul_lt_mul_right
  rcases spacing_of_whole hrep hi with hs | ⟨hs, hi2⟩
  · have hDi : D < i + 1 := lt_of_units (by rw [Nat.add_mul]; omega)
    have hiD : i < D + 1 := lt_of_units (by rw [Nat.add_mul]; omega)
    omega
  · have hDi : D < i + 2 := lt_of_units (by rw [Nat.add_mul]; omega)
    have hiD : i < D + 2 := lt_of_units (by rw [Nat.add_mul]; omega)
    omega

omit hrep hi in
/-- On the grid of the ones the number itself is chosen. -/
theorem onGrid?_whole (hpos : 0 < i) : onGrid? (i * one) 0 = some i := by
  have hgrid : gridFloor (i * one) 0 = i := by
    unfold gridFloor
    rw [show (-(0 : Int)).toNat = 0 from rfl, show (0 : Int).toNat = 0 from rfl, Nat.pow_zero,
      Nat.mul_one, Nat.mul_one, Nat.mul_div_cancel _ one_pos]
  have hserves : roundsTo (i * one) i 0 = true := by
    have hspacing := spacing_pos (i * one)
    have hbelow := Nat.lt_of_lt_of_le hspacing (spacing_le_reachBelow (i * one))
    have hunits : 0 < i * one := Nat.mul_pos hpos one_pos
    refine roundsTo_iff.mpr (.inl ?_)
    rw [show (-(0 : Int)).toNat = 0 from rfl, show (0 : Int).toNat = 0 from rfl, Nat.pow_zero,
      Nat.mul_one, Nat.mul_one, Nat.mul_one]
    omega
  have hnearest :
      roundDiv (i * one * 10 ^ (-(0 : Int)).toNat) (one * 10 ^ (0 : Int).toNat) = i := by
    rw [show (-(0 : Int)).toNat = 0 from rfl, show (0 : Int).toNat = 0 from rfl, Nat.pow_zero,
      Nat.mul_one, Nat.mul_one]
    have hone := one_pos
    exact roundDiv_eq (by omega) (by omega) (fun _ => by omega) hone
  unfold onGrid?
  dsimp only
  rw [hgrid, hserves, hnearest]
  cases roundsTo (i * one) (i + 1) 0 <;> rfl

/-- The shortest digits of a whole number write it exactly. -/
theorem shortestFrom_whole (hpos : 0 < i) {n : Nat} (he : 0 ≤ e) (hn : e < n) :
    ∃ k : Nat, (shortestFrom (i * one) n e).2 = k ∧
      (shortestFrom (i * one) n e).1 * 10 ^ k = i := by
  induction n generalizing e with
  | zero => omega
  | succ n ih =>
    rw [shortestFrom]
    rcases Int.lt_or_eq_of_le he with hlt | rfl
    · cases hgrid : onGrid? (i * one) e with
      | some d =>
        refine ⟨e.toNat, ?_, eq_of_roundsTo_whole hrep hi hlt (roundsTo_of_onGrid? hgrid)⟩
        show e = _
        omega
      | none => exact ih (by omega) (by omega)
    · rw [onGrid?_whole hpos]
      exact ⟨0, rfl, Nat.mul_one i⟩

omit hrep in
/-- The first digit of a whole number below `10 ^ 16` is one of sixteen before the point. -/
theorem decimalPoint_whole (hpos : 0 < i) :
    0 ≤ decimalPoint (i * one) - 1 ∧ decimalPoint (i * one) - 1 < (18 : Nat) := by
  have hscaled : i * one * 10 ^ pointPlaces / one = i * 10 ^ pointPlaces := by
    rw [Nat.mul_right_comm, Nat.mul_div_cancel _ one_pos]
  have hlen := length_decimalDigits_pos i
  have hle := (length_decimalDigits_le_iff (n := i) (k := 16) (by decide)).mpr hi
  unfold decimalPoint
  rw [hscaled, decimalDigits_mul_pow hpos, List.length_append, List.length_replicate]
  omega

/-- The text of a whole magnitude are its digits, a point and a zero. -/
theorem magnitudeText_whole : magnitudeText (i * one) = decimalDigits i ++ ['.', '0'] := by
  rcases Nat.eq_zero_or_pos i with rfl | hpos
  · rw [Nat.zero_mul, magnitudeText_zero]
    rfl
  obtain ⟨he, hn⟩ := decimalPoint_whole hi hpos
  obtain ⟨k, hk, hwritten⟩ := shortestFrom_whole hrep hi hpos he hn
  change (shortest (i * one)).2 = k at hk
  change (shortest (i * one)).1 * 10 ^ k = i at hwritten
  have hunits : i * one ≠ 0 := Nat.ne_of_gt (Nat.mul_pos hpos one_pos)
  rw [magnitudeText_of_ne_zero hunits, hk]
  generalize (shortest (i * one)).1 = d at *
  have hd : 0 < d := by
    rcases Nat.eq_zero_or_pos d with rfl | hd
    · rw [Nat.zero_mul] at hwritten
      omega
    · exact hd
  have hvalue : digitsValue (decimalDigits d) ≠ 0 := by
    rw [digitsValue_decimalDigits]
    exact Nat.ne_of_gt hd
  obtain ⟨front, last, n, -, htrim, hdigits⟩ := exists_trimZeros hvalue
  have hwhole : decimalDigits i = front ++ [last] ++ List.replicate (n + k) '0' := by
    rw [← hwritten, decimalDigits_mul_pow hd, hdigits, List.append_assoc,
      List.replicate_append_replicate]
  have hlen := congrArg List.length hwhole
  have hlen' := congrArg List.length hdigits
  have hle := (length_decimalDigits_le_iff (n := i) (k := 16) (by decide)).mpr hi
  simp only [List.length_append, List.length_replicate, List.length_singleton] at hlen hlen'
  have hzeros :
      ((k : Int) + (decimalDigits d).length).toNat - (front ++ [last]).length = n + k := by
    rw [List.length_append, List.length_singleton]
    omega
  have hroom : (front ++ [last]).length ≤ ((k : Int) + (decimalDigits d).length).toNat := by
    rw [List.length_append, List.length_singleton]
    omega
  rw [htrim, hwhole]
  unfold layout positional
  rw [if_pos (by omega), if_neg (by omega)]
  dsimp only
  rw [if_pos hroom, hzeros]

end

theorem decimalDigits_ne_zero {i : Nat} (hpos : 0 < i) : decimalDigits i ≠ ['0'] := fun h =>
  Nat.ne_of_gt hpos (decimalDigits_inj (n := 0) h)

/-- **Whole numbers.** A whole number of less than seventeen digits is written as it is, without a
point. -/
theorem graphNumber_whole {x : Binary64} {n : Int} (hfinite : x.isFinite = true)
    (hx : x.signedUnits = n * one) (hn : n.natAbs < 10 ^ 16) : graphNumber x = toString n := by
  have hone := one_pos
  rw [← String.toList_inj]
  cases x with
  | nan => exact absurd hfinite Bool.false_ne_true
  | infinite negative => exact absurd hfinite Bool.false_ne_true
  | finite negative u hrep =>
    obtain rfl : u = n.natAbs * one := by
      have hunits := congrArg Int.natAbs hx
      rw [Int.natAbs_mul, Int.natAbs_natCast] at hunits
      rw [← hunits]
      cases negative <;> simp [signedUnits]
    rcases Nat.eq_zero_or_pos n.natAbs with hzero | hpos
    · obtain rfl : n = 0 := Int.natAbs_eq_zero.mp hzero
      simp only [Int.natAbs_zero, Nat.zero_mul, graphNumber_zero]
      rfl
    have htext := magnitudeText_whole hrep hn
    unfold graphNumber
    cases negative with
    | true =>
      obtain ⟨m, rfl⟩ : ∃ m, n = Int.negSucc m := by
        rw [signedUnits, Int.natCast_mul, ← Int.neg_mul] at hx
        have := Int.eq_of_mul_eq_mul_right (by omega) hx
        exact Int.eq_negSucc_of_lt_zero (by omega)
      rw [text, String.toList_ofList, htext, ← List.cons_append, dropPointZero_append]
      dsimp only
      rw [if_neg, String.toList_ofList, toList_negSuccRepr]
      · rfl
      · simpa using decimalDigits_ne_zero hpos
    | false =>
      obtain ⟨m, rfl⟩ : ∃ m, n = Int.ofNat m := by
        rw [signedUnits, Int.natCast_mul] at hx
        exact ⟨_, (Int.eq_of_mul_eq_mul_right (by omega) hx).symm⟩
      rw [text, String.toList_ofList, htext, dropPointZero_append]
      dsimp only
      rw [if_neg, String.toList_ofList, toList_ofNatRepr]
      · rfl
      · intro h
        exact decimalDigits_ne_minus_cons m _ (beq_iff_eq.mp h)

end Binary64

end StillVideo
