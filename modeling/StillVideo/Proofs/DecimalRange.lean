import StillVideo.Proofs.DecimalArithmetic

/-!
# Decimals within range

Rounding to the limits of decimals gives a result unless the number is out of range: a number that
fits and lies below `10 ^ 1000000` is kept (`exists_limit_of_fits`), and any number up to a power of
ten below that is rounded to one up to it (`exists_limit_of_le`). So products and sums have results
(`exists_mul_of_fits`, `exists_add_of_fits`, `exists_mul_of_le`, `exists_add_of_le`). From
`10 ^ 1000000` on there is none (`mul_eq_overflow`), and an operand without a value leaves a result
without one (`value?_mul_eq_none`, `value?_add_eq_none`).
-/

namespace StillVideo

attribute [local instance (2000)] instPowNat

namespace Decimal

/-- The power of ten from which on numbers are out of range. -/
def rangePlaces : Int := 1000000

section

variable {s : Bool} {c : Nat} {e : Int}

/-- The digits of a number end below the power of ten that is above it. -/
theorem size_le_of_le (hc : 0 < c) {k : Int} (h : written c e ≤ 10 ^ k) : size c + e - 1 ≤ k := by
  have hle := (zpow_le_zpow_iff_right₀ (by norm_num)).mp ((le_written hc e).trans h)
  unfold size
  omega

theorem size_lt_of_lt (hc : 0 < c) {k : Int} (h : written c e < 10 ^ k) : size c + e - 1 < k := by
  have hlt := (zpow_lt_zpow_iff_right₀ (by norm_num)).mp ((le_written hc e).trans_lt h)
  unfold size
  omega

/-- A number that fits is within range below `10 ^ 1000000`. -/
theorem exists_limit_of_fits (hfits : Fits (written c e))
    (hrange : written c e < 10 ^ rangePlaces) :
    ∃ d, limit s c e = .ok d ∧ d.value? = some (signed s (written c e)) := by
  suffices hok : ∃ d, limit s c e = .ok d by
    obtain ⟨d, hd⟩ := hok
    exact ⟨d, hd, value?_limit hd hfits⟩
  unfold limit
  rcases Nat.eq_zero_or_pos c with rfl | hc
  · exact ⟨_, rfl⟩
  have hsize := size_lt_of_lt hc hrange
  have hleast : max ((size c : Int) + e - precision) minScale ≤ maxScale := by
    unfold rangePlaces at hsize
    unfold precision minScale maxScale
    omega
  rw [if_neg (Nat.ne_of_gt hc)]
  dsimp only
  rw [if_neg (Int.not_lt.mpr (Int.le_trans (Int.le_max_left _ _) hleast))]
  split
  · rename_i hscale
    obtain ⟨r, hrescale, -⟩ := rescale_of_fits hc hfits hscale
    rw [hrescale]
    dsimp only
    rw [if_neg (Int.not_lt.mpr hleast)]
    exact ⟨_, rfl⟩
  · exact ⟨_, rfl⟩

theorem written_le_written {d : Nat} : written c e ≤ written d e ↔ c ≤ d := by
  unfold written
  rw [mul_le_mul_iff_left₀ (zpow_pos (by norm_num) e), Nat.cast_le]

theorem written_pow {k scale : Int} (h : scale ≤ k) :
    written (10 ^ (k - scale).toNat) scale = 10 ^ k := by
  have hpow := written_mul_pow 1 h
  rwa [Nat.one_mul, written, written, Nat.cast_one, one_mul] at hpow

/-- The last digit is dropped. -/
theorem written_div_le (c : Nat) (e : Int) : written (c / 10) (e + 1) ≤ written c e := by
  have hshift := written_shift (c / 10) 1 (e + 1)
  rw [Nat.pow_one, Int.natCast_one, Int.add_sub_cancel] at hshift
  rw [← hshift, written_le_written]
  omega

/-- Digits up to a power of ten are rounded to digits up to it. -/
theorem rescale_le {k scale : Int} (hscale : e < scale) (hk : scale ≤ k)
    (h : written c e ≤ 10 ^ k) :
    written (rescale c e scale).1 (rescale c e scale).2 ≤ 10 ^ k ∧
      (rescale c e scale).2 ≤ scale + 1 := by
  obtain ⟨m, hm⟩ := Int.eq_ofNat_of_zero_le (Int.sub_nonneg_of_le (Int.le_of_lt hscale))
  obtain rfl : e = scale - m := by omega
  have hround : written (roundDiv c (10 ^ (scale - (scale - m)).toNat)) scale ≤ 10 ^ k := by
    rw [← written_pow hk, ← written_shift _ m scale, written_le_written] at h
    rw [← written_pow hk, written_le_written]
    exact roundDiv_le (Nat.pow_pos (by decide)) (by rwa [hm])
  unfold rescale
  dsimp only
  split
  · exact ⟨written_zero scale ▸ zpow_nonneg (by norm_num) k, by omega⟩
  · split
    · exact ⟨(written_div_le _ _).trans hround, Int.le_refl _⟩
    · exact ⟨hround, by omega⟩

/-- A number up to a power of ten within range is rounded to a number up to it. -/
theorem exists_limit_of_le {k : Int} (hlow : minScale ≤ k) (hhigh : k + 1 < rangePlaces)
    (h : written c e ≤ 10 ^ k) :
    ∃ d v, limit s c e = .ok d ∧ d.value? = some v ∧ |v| ≤ 10 ^ k := by
  have hpos : (0 : ℚ) ≤ 10 ^ k := zpow_nonneg (by norm_num) k
  unfold limit
  rcases Nat.eq_zero_or_pos c with rfl | hc
  · refine ⟨_, _, rfl, rfl, ?_⟩
    rw [abs_signed, written_zero, abs_zero]
    exact hpos
  have hsize := size_le_of_le hc h
  have hleast : max ((size c : Int) + e - precision) minScale ≤ k ∧
      max ((size c : Int) + e - precision) minScale + 1 ≤ maxScale := by
    unfold rangePlaces at hhigh
    unfold precision minScale maxScale at *
    omega
  rw [if_neg (Nat.ne_of_gt hc)]
  dsimp only
  rw [if_neg (by omega)]
  split
  · rename_i hscale
    obtain ⟨hvalue, htop⟩ := rescale_le hscale hleast.1 h
    rw [if_neg (by omega)]
    refine ⟨_, _, rfl, rfl, ?_⟩
    rwa [abs_signed, abs_of_nonneg (written_nonneg _ _)]
  · refine ⟨_, _, rfl, rfl, ?_⟩
    rwa [abs_signed, abs_of_nonneg (written_nonneg _ _)]

end

/-! ## Products and sums -/

section

variable {x y : Decimal} {v w : ℚ} (hx : x.value? = some v) (hy : y.value? = some w)
include hx hy

theorem exists_mul_eq_limit : ∃ r n g, x.mul y = limit r n g ∧ signed r (written n g) = v * w := by
  cases x with
  | nan => exact absurd hx (by simp [value?])
  | infinite => exact absurd hx (by simp [value?])
  | finite s c e =>
    cases y with
    | nan => exact absurd hy (by simp [value?])
    | infinite => exact absurd hy (by simp [value?])
    | finite t d f =>
      obtain rfl : signed s (written c e) = v := Option.some.inj hx
      obtain rfl : signed t (written d f) = w := Option.some.inj hy
      refine ⟨s != t, c * d, e + f, rfl, ?_⟩
      rw [← signed_mul, written_mul]

theorem exists_add_eq_limit : ∃ r n g, x.add y = limit r n g ∧ written n g ≤ 2 * max |v| |w| ∧
    (Fits (v + w) → signed r (written n g) = v + w) := by
  cases x with
  | nan => exact absurd hx (by simp [value?])
  | infinite => exact absurd hx (by simp [value?])
  | finite s c e =>
    cases y with
    | nan => exact absurd hy (by simp [value?])
    | infinite => exact absurd hy (by simp [value?])
    | finite t d f =>
      obtain rfl : signed s (written c e) = v := Option.some.inj hx
      obtain rfl : signed t (written d f) = w := Option.some.inj hy
      rw [abs_signed, abs_signed, abs_of_nonneg (written_nonneg c e),
        abs_of_nonneg (written_nonneg d f)]
      exact add_eq_limit s t c d e f

/-- **Products within range.** -/
theorem exists_mul_of_fits (hfits : Fits (v * w)) (hrange : |v * w| < 10 ^ rangePlaces) :
    ∃ d, x.mul y = .ok d ∧ d.value? = some (v * w) := by
  obtain ⟨r, n, g, hlimit, hvalue⟩ := exists_mul_eq_limit hx hy
  rw [← hvalue, abs_signed, abs_of_nonneg (written_nonneg n g)] at hrange
  rw [hlimit]
  rw [← hvalue] at hfits ⊢
  exact exists_limit_of_fits (fits_signed.mp hfits) hrange

theorem exists_mul_of_le {k : Int} (hlow : minScale ≤ k) (hhigh : k + 1 < rangePlaces)
    (h : |v * w| ≤ 10 ^ k) : ∃ d r, x.mul y = .ok d ∧ d.value? = some r ∧ |r| ≤ 10 ^ k := by
  obtain ⟨r, n, g, hlimit, hvalue⟩ := exists_mul_eq_limit hx hy
  rw [← hvalue, abs_signed, abs_of_nonneg (written_nonneg n g)] at h
  rw [hlimit]
  exact exists_limit_of_le hlow hhigh h

/-- **Sums within range.** -/
theorem exists_add_of_fits (hfits : Fits (v + w)) (hrange : |v + w| < 10 ^ rangePlaces) :
    ∃ d, x.add y = .ok d ∧ d.value? = some (v + w) := by
  obtain ⟨r, n, g, hlimit, -, hexact⟩ := exists_add_eq_limit hx hy
  have hsum := hexact hfits
  rw [← hsum, abs_signed, abs_of_nonneg (written_nonneg n g)] at hrange
  rw [hlimit]
  rw [← hsum] at hfits ⊢
  exact exists_limit_of_fits (fits_signed.mp hfits) hrange

theorem exists_add_of_le {k : Int} (hlow : minScale ≤ k) (hhigh : k + 1 < rangePlaces)
    (hv : 2 * |v| ≤ 10 ^ k) (hw : 2 * |w| ≤ 10 ^ k) :
    ∃ d r, x.add y = .ok d ∧ d.value? = some r ∧ |r| ≤ 10 ^ k := by
  obtain ⟨r, n, g, hlimit, hle, -⟩ := exists_add_eq_limit hx hy
  rw [hlimit]
  refine exists_limit_of_le hlow hhigh (hle.trans ?_)
  rw [mul_max_of_nonneg _ _ (by norm_num)]
  exact max_le hv hw

end

/-! ## Results of any operands -/

theorem limit_cases (s : Bool) (c : Nat) (e : Int) :
    (∃ d v, limit s c e = .ok d ∧ d.value? = some v) ∨ limit s c e = .error .overflow := by
  unfold limit
  dsimp only
  split
  · exact .inl ⟨_, _, rfl, rfl⟩
  · split
    · exact .inr rfl
    · split
      · split
        · exact .inr rfl
        · exact .inl ⟨_, _, rfl, rfl⟩
      · exact .inl ⟨_, _, rfl, rfl⟩

/-- A number from `10 ^ 1000000` on is out of range. -/
theorem limit_eq_overflow {s : Bool} {c : Nat} {e : Int} (h : 10 ^ rangePlaces ≤ written c e) :
    limit s c e = .error .overflow := by
  have hsize := (zpow_lt_zpow_iff_right₀ (by norm_num)).mp (h.trans_lt (written_lt c e))
  have hc : c ≠ 0 := by
    rintro rfl
    rw [written_zero] at h
    exact absurd h (not_le.mpr (zpow_pos (by norm_num) _))
  unfold limit
  rw [if_neg hc]
  refine if_pos ?_
  unfold rangePlaces at hsize
  unfold maxScale precision size
  omega

section

variable {x y d : Decimal}

/-- A product of finite numbers is finite or out of range. -/
theorem mul_cases {v w : ℚ} (hx : x.value? = some v) (hy : y.value? = some w) :
    (∃ d r, x.mul y = .ok d ∧ d.value? = some r) ∨ x.mul y = .error .overflow := by
  obtain ⟨s, n, g, hlimit, -⟩ := exists_mul_eq_limit hx hy
  rw [hlimit]
  exact limit_cases s n g

theorem mul_eq_overflow {v w : ℚ} (hx : x.value? = some v) (hy : y.value? = some w)
    (h : 10 ^ rangePlaces ≤ |v * w|) : x.mul y = .error .overflow := by
  obtain ⟨s, n, g, hlimit, hvalue⟩ := exists_mul_eq_limit hx hy
  rw [hlimit]
  rw [← hvalue, abs_signed, abs_of_nonneg (written_nonneg n g)] at h
  exact limit_eq_overflow h

/-- A sum of finite numbers is finite or out of range. -/
theorem add_cases {v w : ℚ} (hx : x.value? = some v) (hy : y.value? = some w) :
    (∃ d r, x.add y = .ok d ∧ d.value? = some r) ∨ x.add y = .error .overflow := by
  obtain ⟨s, n, g, hlimit, -⟩ := exists_add_eq_limit hx hy
  rw [hlimit]
  exact limit_cases s n g

theorem value?_of_nanOperand? (h : nanOperand? x y = some (.ok d)) : d.value? = none := by
  unfold nanOperand? at h
  split at h <;> simp only [Option.some.injEq, Except.ok.injEq, reduceCtorEq] at h <;>
    subst h <;> rfl

/-- A product with a number that is not finite is not finite, if there is one. -/
theorem value?_mul_eq_none (h : x.mul y = .ok d) (hspecial : x.value? = none ∨ y.value? = none) :
    d.value? = none := by
  unfold mul at h
  cases hnan : nanOperand? x y with
  | some r =>
    rw [hnan] at h
    dsimp only at h
    exact value?_of_nanOperand? (h ▸ hnan)
  | none =>
    rw [hnan] at h
    dsimp only at h
    split at h
    · obtain rfl := Except.ok.inj h
      rfl
    · split at h
      · exact absurd h (by simp)
      · obtain rfl := Except.ok.inj h
        rfl
    · split at h
      · exact absurd h (by simp)
      · obtain rfl := Except.ok.inj h
        rfl
    · exact absurd hspecial (by simp [value?])
    · exact absurd h (by simp)

/-- So is a sum with one. -/
theorem value?_add_eq_none (h : x.add y = .ok d) (hspecial : x.value? = none ∨ y.value? = none) :
    d.value? = none := by
  unfold add at h
  cases hnan : nanOperand? x y with
  | some r =>
    rw [hnan] at h
    dsimp only at h
    exact value?_of_nanOperand? (h ▸ hnan)
  | none =>
    rw [hnan] at h
    dsimp only at h
    split at h
    · split at h
      · obtain rfl := Except.ok.inj h
        rfl
      · exact absurd h (by simp)
    · obtain rfl := Except.ok.inj h
      rfl
    · obtain rfl := Except.ok.inj h
      rfl
    · exact absurd hspecial (by simp [value?])
    · exact absurd h (by simp)

end

end Decimal

end StillVideo
