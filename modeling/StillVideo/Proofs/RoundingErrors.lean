import StillVideo.Proofs.DecimalArithmetic
import StillVideo.Proofs.RoundingOrder

/-!
# Errors of rounding

A finite number is near the exact result that it stands for (`IsNear`). Reading a numeral, a product
with a whole number and a sum each add to the error at most one part in `2 ^ 52` of the exact result
and one unit (`isNear_ofNumeral`, `IsNear.mul_ofNat`, `IsNear.add`), as long as the results are not
out of range.
-/

namespace StillVideo

attribute [local instance (2000)] instPowNat

theorem signed_mul_left (s : Bool) (k v : ℚ) : signed s (k * v) = k * signed s v :=
  (congrArg (signed · (k * v)) (Bool.false_bne s).symm).trans (signed_mul false s k v)

theorem abs_signed_sub (s : Bool) (v w : ℚ) : |signed s v - signed s w| = |v - w| := by
  cases s with
  | false => rfl
  | true =>
    unfold signed
    rw [if_pos rfl, if_pos rfl, neg_sub_neg, abs_sub_comm]

namespace Binary64

attribute [local irreducible] one bound

/-- A finite number at most `err` units away from `v` units. -/
def IsNear (x : Binary64) (v err : ℚ) : Prop :=
  x.isFinite = true ∧ |(x.signedUnits : ℚ) - v| ≤ err

theorem signedUnits_finite {s : Bool} {u : Nat} (hu : Representable u) :
    ((finite s u hu).signedUnits : ℚ) = signed s u := by
  cases s <;> simp [signedUnits, signed]

theorem IsNear.abs_le {x : Binary64} {v err : ℚ} (h : x.IsNear v err) :
    |(x.signedUnits : ℚ)| ≤ |v| + err := by
  have := abs_sub_abs_le_abs_sub (x.signedUnits : ℚ) v
  linarith [h.2]

theorem isNear_zero : IsNear 0 0 0 := by
  refine ⟨isFinite_zero, ?_⟩
  rw [zero_eq]
  simp [zero, signedUnits]

theorem IsNear.mono {x : Binary64} {v err err' : ℚ} (h : x.IsNear v err) (hle : err ≤ err') :
    x.IsNear v err' := ⟨h.1, h.2.trans hle⟩

/-- A rounded quotient that is not out of range. -/
theorem isNear_ofUnitQuotient {n d : Nat} (hd : 0 < d) (s : Bool)
    (h : (n : ℚ) / d ≤ 10 ^ 308 * one) :
    (ofUnitQuotient s n d).IsNear (signed s (n / d)) ((n : ℚ) / d / 2 ^ 52 + 1) := by
  have hnonneg : (0 : ℚ) ≤ (n : ℚ) / d := by positivity
  have hhalf := abs_sub_roundUnits_le n hd
  have hspacing := spacing_le_div (roundUnits n d)
  have hone : (0 : ℚ) < one := Nat.cast_pos.mpr one_pos
  have hrange : roundUnits n d < bound := by
    refine lt_bound (v := (n : ℚ) / d / one) ((div_le_iff₀ hone).mpr h) ?_
    rw [div_mul_cancel₀ _ hone.ne']
    rw [abs_le] at hhalf
    linarith
  have hrep := representable_roundUnits hd hrange
  have heq : ofUnitQuotient s n d = finite s (roundUnits n d) hrep := dif_pos hrep
  rw [heq]
  refine ⟨rfl, ?_⟩
  rw [signedUnits_finite, abs_signed_sub, abs_sub_comm]
  rw [abs_le] at hhalf ⊢
  constructor <;> linarith

/-- A rounded whole number of units. -/
theorem isNear_ofInt {z : Int} (h : |(z : ℚ)| ≤ 10 ^ 308 * one) :
    (ofUnitQuotient (decide (z < 0)) z.natAbs 1).IsNear z (|(z : ℚ)| / 2 ^ 52 + 1) := by
  have habs : ((z.natAbs : Nat) : ℚ) / (1 : Nat) = |(z : ℚ)| := by
    rw [Nat.cast_one, div_one, Nat.cast_natAbs, Int.cast_abs]
  have hsigned : signed (decide (z < 0)) |(z : ℚ)| = z := by
    by_cases hz : z < 0
    · rw [decide_eq_true hz, abs_of_neg (by exact_mod_cast hz)]
      exact neg_neg _
    · rw [decide_eq_false hz, abs_of_nonneg (by exact_mod_cast Int.not_lt.mp hz)]
      rfl
  have hround := isNear_ofUnitQuotient Nat.one_pos (decide (z < 0)) (habs.trans_le h)
  rwa [habs, hsigned] at hround

/-- Reading a numeral that is not out of range. -/
theorem isNear_ofNumeral {c : Nat} {e : Int} (h : written c e ≤ 10 ^ 308) (s : Bool) :
    (ofNumeral (.finite s c e)).IsNear (signed s (written c e) * one)
      (written c e * one / 2 ^ 52 + 1) := by
  obtain ⟨u, hu, heq, -, hnear⟩ := exists_ofNumeral h s
  have hspacing := spacing_le_div u
  have hnonneg := mul_nonneg (written_nonneg c e) (Nat.cast_nonneg one)
  rw [heq]
  refine ⟨rfl, ?_⟩
  rw [signedUnits_finite, mul_comm (signed s _), ← signed_mul_left, abs_signed_sub, mul_comm,
    abs_sub_comm]
  rw [abs_le] at hnear ⊢
  constructor <;> linarith

section

variable {x y : Binary64} {v w err err' : ℚ}

/-- A product with a whole number. -/
theorem IsNear.mul_ofNat (h : x.IsNear v err) {k : Nat} (hk : Representable (k * one))
    (hpos : 0 < k) (hrange : k * (|v| + err) ≤ 10 ^ 308 * one) :
    (x * finite false (k * one) hk).IsNear (k * v)
      (k * err + (k * (|v| + err) / 2 ^ 52 + 1)) := by
  have habs := h.abs_le
  obtain ⟨hfinite, hnear⟩ := h
  cases x with
  | nan => exact absurd hfinite Bool.false_ne_true
  | infinite s => exact absurd hfinite Bool.false_ne_true
  | finite s u hu =>
    have hone : (one : ℚ) ≠ 0 := by exact_mod_cast one_pos.ne'
    have hk' : (0 : ℚ) ≤ k := Nat.cast_nonneg k
    have hexact : ((k * one * u : Nat) : ℚ) / one = k * u := by
      push_cast
      field_simp
    rw [signedUnits_finite, abs_signed, Nat.abs_cast] at habs
    rw [signedUnits_finite] at hnear
    have hle : (k : ℚ) * u ≤ k * (|v| + err) := mul_le_mul_of_nonneg_left habs hk'
    have hround := isNear_ofUnitQuotient (n := k * one * u) one_pos s
      (by rw [hexact]; exact hle.trans hrange)
    rw [hexact] at hround
    rw [mul_finite_eq _ hk (Nat.mul_pos hpos one_pos)]
    refine ⟨hround.1, ?_⟩
    calc |((scaled (k * one) one (finite s u hu)).signedUnits : ℚ) - k * v|
        ≤ |((scaled (k * one) one (finite s u hu)).signedUnits : ℚ) - signed s (k * u)| +
            |signed s (k * u) - k * v| := abs_sub_le _ _ _
      _ ≤ (k * u / 2 ^ 52 + 1) + k * err := by
          refine add_le_add hround.2 ?_
          rw [signed_mul_left, ← mul_sub, abs_mul, abs_of_nonneg hk']
          exact mul_le_mul_of_nonneg_left hnear hk'
      _ ≤ k * err + (k * (|v| + err) / 2 ^ 52 + 1) := by linarith

/-- A sum. -/
theorem IsNear.add (hx : x.IsNear v err) (hy : y.IsNear w err')
    (hrange : |v| + |w| + err + err' ≤ 10 ^ 308 * one) :
    (x + y).IsNear (v + w) (err + err' + ((|v| + |w| + err + err') / 2 ^ 52 + 1)) := by
  have hxabs := hx.abs_le
  have hyabs := hy.abs_le
  obtain ⟨hxfinite, hxnear⟩ := hx
  obtain ⟨hyfinite, hynear⟩ := hy
  cases x with
  | nan => exact absurd hxfinite Bool.false_ne_true
  | infinite s => exact absurd hxfinite Bool.false_ne_true
  | finite s u hu =>
    cases y with
    | nan => exact absurd hyfinite Bool.false_ne_true
    | infinite s => exact absurd hyfinite Bool.false_ne_true
    | finite t u' hu' =>
      have hsum : finite s u hu + finite t u' hu' =
          if (finite s u hu).signedUnits + (finite t u' hu').signedUnits = 0 then
            ofUnits (s && t) 0
          else ofUnitQuotient
            (decide ((finite s u hu).signedUnits + (finite t u' hu').signedUnits < 0))
            ((finite s u hu).signedUnits + (finite t u' hu').signedUnits).natAbs 1 := rfl
      rw [hsum]
      generalize (finite s u hu).signedUnits = a at *
      generalize (finite t u' hu').signedUnits = b at *
      have hexact : |((a + b : Int) : ℚ) - (v + w)| ≤ err + err' := by
        rw [Int.cast_add, add_sub_add_comm]
        exact (abs_add_le _ _).trans (add_le_add hxnear hynear)
      have hle : |((a + b : Int) : ℚ)| ≤ |v| + |w| + err + err' := by
        rw [Int.cast_add]
        linarith [abs_add_le (a : ℚ) b]
      have hnonneg := (abs_nonneg ((a + b : Int) : ℚ)).trans hle
      split
      · rename_i hzero
        rw [hzero] at hexact
        rw [show ofUnits (s && t) 0 = finite (s && t) 0 representable_zero from
          dif_pos representable_zero]
        refine ⟨rfl, ?_⟩
        rw [signedUnits_finite, Nat.cast_zero, signed_zero]
        rw [Int.cast_zero] at hexact
        linarith
      · have hround := isNear_ofInt (hle.trans hrange)
        refine ⟨hround.1, ?_⟩
        linarith [hround.2, abs_sub_le
          ((ofUnitQuotient (decide (a + b < 0)) (a + b).natAbs 1).signedUnits : ℚ)
          ((a + b : Int) : ℚ) (v + w)]

end

end Binary64

end StillVideo
