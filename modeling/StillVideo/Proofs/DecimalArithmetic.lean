import StillVideo.Proofs.ShortDecimals

/-!
# Exact decimal arithmetic

Decimals keep 28 digits. A product, a sum or a difference whose exact value has no more of them is
that value (`Decimal.value?_mul`, `Decimal.value?_add`, `Decimal.value?_sub`): rounding drops zeros
only, and a summand is never too small to be seen.
-/

namespace StillVideo

attribute [local instance (2000)] instPowNat

/-! ## Signs and digits -/

theorem signed_mul (s t : Bool) (v w : ℚ) : signed (s != t) (v * w) = signed s v * signed t w := by
  cases s <;> cases t <;> simp [signed]

theorem signed_zero (s : Bool) : signed s 0 = 0 := by
  cases s <;> simp [signed]

theorem signed_not (s : Bool) (v : ℚ) : signed (!s) v = -signed s v := by
  cases s <;> simp [signed]

theorem signed_add (s : Bool) (v w : ℚ) : signed s (v + w) = signed s v + signed s w := by
  cases s
  · rfl
  · exact neg_add v w

/-- Numbers of different signs are subtracted. -/
theorem signed_add_of_ne {s t : Bool} (h : ¬ s = t) (v w : ℚ) :
    signed s v + signed t w = signed s (v - w) := by
  cases s <;> cases t <;> simp [signed] at h ⊢
  all_goals ring

theorem abs_signed (s : Bool) (v : ℚ) : |signed s v| = |v| := by
  cases s
  · rfl
  · exact abs_neg v

theorem written_zero (e : Int) : written 0 e = 0 := written_eq_zero.mpr rfl

theorem written_mul (c d : Nat) (e f : Int) :
    written c e * written d f = written (c * d) (e + f) := by
  unfold written
  rw [zpow_add₀ (by norm_num)]
  push_cast
  ring

theorem written_add (c d : Nat) (e : Int) : written c e + written d e = written (c + d) e := by
  unfold written
  push_cast
  ring

theorem written_mul_pow (c : Nat) {e f : Int} (h : f ≤ e) :
    written (c * 10 ^ (e - f).toNat) f = written c e := by
  obtain ⟨k, hk⟩ := Int.eq_ofNat_of_zero_le (Int.sub_nonneg_of_le h)
  obtain rfl : f = e - k := by omega
  rw [hk]
  exact written_shift c k e

theorem written_sub {c d : Nat} (h : d ≤ c) (e : Int) :
    written (c - d) e = written c e - written d e := by
  rw [eq_sub_iff_add_eq, written_add, Nat.sub_add_cancel h]

/-- Written numbers of one scale are compared by their digits. -/
theorem written_inj {c d : Nat} {e : Int} : written c e = written d e ↔ c = d := by
  unfold written
  rw [mul_left_inj' (zpow_ne_zero _ (by norm_num)), Nat.cast_inj]

/-- A coarser scale can be refined. -/
theorem exists_written_eq (c : Nat) {e g : Int} (h : g ≤ e) :
    ∃ k : Nat, e - k = g ∧ written c e = written (c * 10 ^ k) g := by
  obtain ⟨k, hk⟩ := Int.eq_ofNat_of_zero_le (Int.sub_nonneg_of_le h)
  obtain rfl : g = e - k := by omega
  exact ⟨k, rfl, (written_shift c k e).symm⟩

namespace Decimal

/-- The number can be written with as many digits as a result keeps, at a scale that results
have. -/
def Fits (v : ℚ) : Prop := ∃ c e, c < 10 ^ precision ∧ minScale ≤ e ∧ |v| = written c e

theorem fits_zero : Fits 0 :=
  ⟨0, 0, Nat.pow_pos (by decide), by decide, by rw [written_zero, abs_zero]⟩

theorem fits_signed {s : Bool} {v : ℚ} : Fits (signed s v) ↔ Fits v := by
  unfold Fits
  rw [abs_signed]

theorem roundDiv_mul (k : Nat) {d : Nat} (hd : 0 < d) : roundDiv (k * d) d = k :=
  roundDiv_eq (by omega) (by omega) (fun _ => by omega) hd

theorem size_mul_pow {c : Nat} (hc : 0 < c) (m : Nat) : size c + m ≤ size (c * 10 ^ m) := by
  have hlen := length_decimalDigits_pos c
  have hle := pow_le_of_lt_length_decimalDigits hc (Nat.sub_lt hlen Nat.one_pos)
  have hlt := lt_pow_length_decimalDigits (c * 10 ^ m)
  have hpow :
      10 ^ ((decimalDigits c).length - 1 + m) < 10 ^ (decimalDigits (c * 10 ^ m)).length := by
    rw [Nat.pow_add]
    exact Nat.lt_of_le_of_lt (Nat.mul_le_mul_right _ hle) hlt
  have := (Nat.pow_lt_pow_iff_right (by decide)).mp hpow
  unfold size
  omega

/-- Digits that end with zeros lose nothing when they are brought to the scale of the first of
them. -/
theorem rescale_mul_pow {r : Nat} (hr : 0 < r) (m : Nat) (scale : Int) :
    rescale (r * 10 ^ m) (scale - m) scale = (r, scale) := by
  have hsize := size_mul_pow hr m
  have hsizePos : 0 < size r := length_decimalDigits_pos r
  have hm : (scale - (scale - m)).toNat = m := by omega
  unfold rescale
  dsimp only
  rw [if_neg (by omega), hm, roundDiv_mul r (Nat.pow_pos (by decide)), if_neg (by omega)]

variable {v w : ℚ}

/-- The digits of a number that fits are kept by the scale that its first digit asks for. -/
theorem rescale_of_fits {c : Nat} {e : Int} (hc : 0 < c) (hfits : Fits (written c e))
    (hscale : e < max ((size c : Int) + e - precision) minScale) :
    ∃ r, rescale c e (max ((size c : Int) + e - precision) minScale) =
        (r, max ((size c : Int) + e - precision) minScale) ∧
      written r (max ((size c : Int) + e - precision) minScale) = written c e := by
  obtain ⟨c', e', hc', hmin, heq⟩ := hfits
  rw [abs_of_nonneg (written_nonneg c e)] at heq
  have hleast : (size c : Int) + e - precision ≤ e' := by
    have hlt : (10 : ℚ) ^ (e + (decimalDigits c).length - 1) < 10 ^ (precision + e') := calc
      (10 : ℚ) ^ (e + (decimalDigits c).length - 1) ≤ written c' e' := heq ▸ le_written hc e
      _ < 10 ^ (precision + e') := by
        have : (c' : ℚ) < 10 ^ precision := by exact_mod_cast hc'
        rw [zpow_add₀ (by norm_num), zpow_natCast]
        exact mul_lt_mul_of_pos_right this (zpow_pos (by norm_num) _)
    have := (zpow_lt_zpow_iff_right₀ (by norm_num)).mp hlt
    unfold size
    omega
  obtain ⟨k, -, hcoarse⟩ := exists_written_eq c' (Int.max_le.mpr ⟨hleast, hmin⟩)
  generalize max ((size c : Int) + e - precision) minScale = scale at *
  obtain ⟨m, hm⟩ := Int.eq_ofNat_of_zero_le (Int.sub_nonneg_of_le (Int.le_of_lt hscale))
  obtain rfl : e = scale - m := by omega
  obtain rfl : c = c' * 10 ^ k * 10 ^ m :=
    written_inj.mp (heq.trans (hcoarse.trans (written_shift _ m scale).symm))
  rw [rescale_mul_pow (Nat.pos_of_mul_pos_right hc), written_shift]
  exact ⟨_, rfl, rfl⟩

/-- The nearest number within the limits is the number itself if it fits. -/
theorem value?_limit {s : Bool} {c : Nat} {e : Int} {d : Decimal} (h : limit s c e = .ok d)
    (hfits : Fits (written c e)) : d.value? = some (signed s (written c e)) := by
  unfold limit at h
  rcases Nat.eq_zero_or_pos c with rfl | hc
  · obtain rfl := Except.ok.inj h
    show some (signed s (written 0 _)) = _
    rw [written_zero, written_zero]
  rw [if_neg (Nat.ne_of_gt hc)] at h
  dsimp only at h
  split at h
  · exact absurd h (by simp)
  · split at h
    · rename_i hscale
      obtain ⟨r, hrescale, hvalue⟩ := rescale_of_fits hc hfits hscale
      rw [hrescale] at h
      dsimp only at h
      split at h
      · exact absurd h (by simp)
      · obtain rfl := Except.ok.inj h
        rw [← hvalue]
        rfl
    · obtain rfl := Except.ok.inj h
      rfl

/-- **Products.** A product that fits is exact. -/
theorem value?_mul {x y d : Decimal} (h : x.mul y = .ok d) (hx : x.value? = some v)
    (hy : y.value? = some w) (hfits : Fits (v * w)) : d.value? = some (v * w) := by
  cases x with
  | nan => exact absurd hx (by simp [value?])
  | infinite => exact absurd hx (by simp [value?])
  | finite s c e =>
    cases y with
    | nan => exact absurd hy (by simp [value?])
    | infinite => exact absurd hy (by simp [value?])
    | finite t c' e' =>
      obtain rfl : signed s (written c e) = v := Option.some.inj hx
      obtain rfl : signed t (written c' e') = w := Option.some.inj hy
      have hlimit : limit (s != t) (c * c') (e + e') = .ok d := h
      rw [← signed_mul, written_mul] at hfits ⊢
      exact value?_limit hlimit (fits_signed.mp hfits)

/-! ## Sums -/

/-- A written number is a multiple of the powers of ten up to that of its last digit. -/
theorem exists_multiple (s : Bool) (c : Nat) {e g : Int} (h : g ≤ e) :
    ∃ n : Int, signed s (written c e) = n * 10 ^ g := by
  obtain ⟨k, -, hk⟩ := exists_written_eq c h
  rw [hk]
  cases s with
  | true => exact ⟨-(c * 10 ^ k : Nat), by simp [signed, written]⟩
  | false => exact ⟨(c * 10 ^ k : Nat), by simp [signed, written]⟩

/-- What is a multiple of a power of ten is zero or at least that power. -/
theorem le_abs_of_multiple {n : Int} {g : Int} (h : (n : ℚ) * 10 ^ g ≠ 0) :
    (10 : ℚ) ^ g ≤ |(n : ℚ) * 10 ^ g| := by
  have hpos : (0 : ℚ) < 10 ^ g := zpow_pos (by norm_num) g
  have hn : n ≠ 0 := by
    rintro rfl
    exact h (by simp)
  have hone : (1 : ℚ) ≤ |(n : ℚ)| := by exact_mod_cast Int.one_le_abs hn
  rw [abs_mul, abs_of_pos hpos]
  exact le_mul_of_one_le_left hpos.le hone

theorem ten_zpow_le {a b : Int} (h : a ≤ b) : (10 : ℚ) ^ a ≤ 10 ^ b :=
  (zpow_le_zpow_iff_right₀ (by norm_num)).mpr h

/-- A sum that fits beside a summand that is not seen is on a coarser scale than this. -/
theorem lt_scale_of_fits {s t : Bool} {c d c' : Nat} {e f e' least : Int} (hc : 0 < c)
    (hc' : c' < 10 ^ precision) (hsize : least + 29 ≤ e + size c - 1)
    (hsmall : f + size d ≤ least)
    (hsum : |signed s (written c e) + signed t (written d f)| = written c' e') : least < e' := by
  by_contra hfine
  have hy : written d f < 10 ^ least := (written_lt d f).trans_le (ten_zpow_le hsmall)
  have hx : 10 ^ (least + 29) ≤ written c e := (ten_zpow_le hsize).trans (le_written hc e)
  -- the sum is no smaller than the larger summand by more than the smaller one
  have habs : written c e - written d f ≤ written c' e' := by
    have := abs_sub_abs_le_abs_sub (signed s (written c e)) (-signed t (written d f))
    rwa [abs_neg, abs_signed, abs_signed, sub_neg_eq_add, hsum,
      abs_of_nonneg (written_nonneg c e), abs_of_nonneg (written_nonneg d f)] at this
  have hupper : written c' e' < 10 ^ (least + 28) := calc
    written c' e' < 10 ^ precision * 10 ^ e' := by
      have : (c' : ℚ) < 10 ^ precision := by exact_mod_cast hc'
      exact mul_lt_mul_of_pos_right this (zpow_pos (by norm_num) _)
    _ = 10 ^ (e' + 28) := by
      rw [zpow_add₀ (by norm_num), mul_comm]
      rfl
    _ ≤ 10 ^ (least + 28) := ten_zpow_le (by omega)
  have hpower : (10 : ℚ) ^ (least + 29) = 10 * 10 ^ (least + 28) := by
    rw [show least + 29 = 1 + (least + 28) by omega, zpow_add₀ (by norm_num), zpow_one]
  have hleast : (10 : ℚ) ^ least ≤ 10 ^ (least + 28) := ten_zpow_le (by omega)
  linarith [written_nonneg d f]

/-- A summand that is not seen beside the other is not part of a sum that fits. -/
theorem le_size_of_fits {s t : Bool} {c d : Nat} {e f : Int} (hc : 0 < c) (hd : 0 < d)
    (hfits : Fits (signed s (written c e) + signed t (written d f))) :
    e + min (-1) ((size c : Int) - precision - 2) ≤ (size d : Int) + f - 1 := by
  by_contra hlt
  have hprecision : (precision : Int) = 28 := rfl
  obtain ⟨least, he, hsize, hsmall⟩ : ∃ least : Int, least + 1 ≤ e ∧
      least + 29 ≤ e + size c - 1 ∧ f + size d ≤ least :=
    ⟨e + min (-1) ((size c : Int) - precision - 2), by omega, by omega, by omega⟩
  obtain ⟨c', e', hc', -, hsum⟩ := hfits
  have hcoarse := lt_scale_of_fits hc hc' hsize hsmall hsum
  -- so the unseen summand is a multiple of a power of ten that exceeds it
  obtain ⟨m, hm⟩ : ∃ m : Int, signed s (written c e) + signed t (written d f) =
      m * 10 ^ (least + 1) := by
    rcases (abs_eq (written_nonneg c' e')).mp hsum with h | h
    · rw [h]
      exact exists_multiple false c' hcoarse
    · rw [h]
      exact exists_multiple true c' hcoarse
  obtain ⟨n, hn⟩ := exists_multiple s c he
  have hmultiple : signed t (written d f) = (m - n : Int) * 10 ^ (least + 1) := by
    rw [Int.cast_sub, sub_mul, ← hm, ← hn, add_sub_cancel_left]
  have hpos : 0 < written d f := lt_of_le_of_ne (written_nonneg d f) fun h =>
    Nat.ne_of_gt hd (written_eq_zero.mp h.symm)
  have hlarge : (10 : ℚ) ^ (least + 1) ≤ written d f := by
    rw [← abs_of_pos hpos, ← abs_signed t, hmultiple]
    refine le_abs_of_multiple ?_
    rw [← hmultiple, ← abs_pos, abs_signed, abs_pos]
    exact hpos.ne'
  have hsmall' : f + size d ≤ least + 1 := by omega
  exact absurd ((written_lt d f).trans_le (ten_zpow_le hsmall')) (not_lt.mpr hlarge)

theorem shift_eq {c d : Nat} {e f : Int}
    (h : e + min (-1) ((size c : Int) - precision - 2) ≤ (size d : Int) + f - 1) :
    align.shift c e d f = (c * 10 ^ (e - f).toNat, d, f) := by
  unfold align.shift
  dsimp only
  rw [if_neg (Int.not_lt.mpr h)]

/-- A summand on the scale of the other, which is not seen beside it or is what it was. -/
theorem shift_written {c d : Nat} {e f : Int} (hc : 0 < c) (hle : f ≤ e) :
    ∃ c' d' g, align.shift c e d f = (c', d', g) ∧ written c' g = written c e ∧
      written d' g ≤ max (written c e) (written d f) ∧
      (e + min (-1) ((size c : Int) - precision - 2) ≤ (size d : Int) + f - 1 →
        written d' g = written d f) := by
  by_cases hseen : e + min (-1) ((size c : Int) - precision - 2) ≤ (size d : Int) + f - 1
  · exact ⟨_, _, _, shift_eq hseen, written_mul_pow c hle, le_max_right _ _, fun _ => rfl⟩
  · have hleast : e + min (-1) ((size c : Int) - precision - 2) ≤ e := by omega
    refine ⟨c * 10 ^ (e - (e + min (-1) ((size c : Int) - precision - 2))).toNat, 1,
      e + min (-1) ((size c : Int) - precision - 2), ?_, written_mul_pow c hleast,
      le_max_of_le_left ?_, fun h => absurd h hseen⟩
    · unfold align.shift
      dsimp only
      rw [if_pos (Int.not_le.mp hseen)]
    · have hone : (1 : ℚ) ≤ c := by exact_mod_cast hc
      unfold written
      rw [Nat.cast_one, one_mul]
      exact (ten_zpow_le hleast).trans
        (le_mul_of_one_le_left (zpow_nonneg (by norm_num) e) hone)

/-- Two summands on one scale are no larger than the larger of them, and what they were if their sum
fits. -/
theorem align_written {s t : Bool} {c d : Nat} {e f : Int} (hc : 0 < c) (hd : 0 < d) :
    ∃ c' d' g, align c e d f = (c', d', g) ∧
      written c' g ≤ max (written c e) (written d f) ∧
      written d' g ≤ max (written c e) (written d f) ∧
      (Fits (signed s (written c e) + signed t (written d f)) →
        written c' g = written c e ∧ written d' g = written d f) := by
  unfold align
  split
  · rename_i hlt
    obtain ⟨d', c', g, hshift, hd', hc', hseen⟩ := shift_written (d := c) hd (Int.le_of_lt hlt)
    rw [hshift]
    refine ⟨c', d', g, rfl, max_comm (written c e) _ ▸ hc', hd' ▸ le_max_right _ _, fun hfits => ?_⟩
    rw [add_comm] at hfits
    exact ⟨hseen (le_size_of_fits hd hc hfits), hd'⟩
  · rename_i hge
    obtain ⟨c', d', g, hshift, hc', hd', hseen⟩ := shift_written (d := d) hc (Int.not_lt.mp hge)
    rw [hshift]
    exact ⟨c', d', g, rfl, hc' ▸ le_max_left _ _, hd', fun hfits =>
      ⟨hc', hseen (le_size_of_fits hc hd hfits)⟩⟩

theorem addNonzero_eq_limit {s t : Bool} {c d : Nat} {e f : Int} (hc : 0 < c) (hd : 0 < d) :
    ∃ r n g, addNonzero s c e t d f = limit r n g ∧
      written n g ≤ 2 * max (written c e) (written d f) ∧
      (Fits (signed s (written c e) + signed t (written d f)) →
        signed r (written n g) = signed s (written c e) + signed t (written d f)) := by
  obtain ⟨a, b, g, halign, ha, hb, hexact⟩ :=
    align_written (s := s) (t := t) (e := e) (f := f) hc hd
  have ha' := written_nonneg a g
  have hb' := written_nonneg b g
  unfold addNonzero
  rw [halign]
  dsimp only
  split
  · rename_i hst
    subst hst
    refine ⟨s, a + b, g, rfl, ?_, fun hfits => ?_⟩
    · rw [← written_add]
      linarith
    · obtain ⟨hca, hdb⟩ := hexact hfits
      rw [← written_add, signed_add, hca, hdb]
  · rename_i hst
    split
    · rename_i hab
      subst hab
      refine ⟨false, 0, min e f, rfl, ?_, fun hfits => ?_⟩
      · rw [written_zero]
        linarith
      · obtain ⟨hca, hdb⟩ := hexact hfits
        rw [written_zero, signed_zero, ← hca, ← hdb, signed_add_of_ne hst, sub_self, signed_zero]
    · split
      · rename_i hlt
        refine ⟨t, b - a, g, rfl, ?_, fun hfits => ?_⟩
        · rw [written_sub (Nat.le_of_lt hlt)]
          linarith
        · obtain ⟨hca, hdb⟩ := hexact hfits
          rw [written_sub (Nat.le_of_lt hlt), add_comm, signed_add_of_ne (Ne.symm hst), hca, hdb]
      · rename_i hge
        refine ⟨s, a - b, g, rfl, ?_, fun hfits => ?_⟩
        · rw [written_sub (Nat.not_lt.mp hge)]
          linarith
        · obtain ⟨hca, hdb⟩ := hexact hfits
          rw [written_sub (Nat.not_lt.mp hge), signed_add_of_ne hst, hca, hdb]

theorem addZero_eq_limit (t : Bool) (c : Nat) (f z : Int) :
    ∃ n g, addZero t c f z = limit t n g ∧ written n g = written c f := by
  unfold addZero
  dsimp only
  split
  · rename_i hscale
    generalize max z (f - precision - 1) = scale at *
    exact ⟨_, _, rfl, written_mul_pow c hscale⟩
  · exact ⟨_, _, rfl, rfl⟩

/-- A sum is rounded once, and exactly the sum if that fits. -/
theorem add_eq_limit (s t : Bool) (c d : Nat) (e f : Int) :
    ∃ r n g, (finite s c e).add (finite t d f) = limit r n g ∧
      written n g ≤ 2 * max (written c e) (written d f) ∧
      (Fits (signed s (written c e) + signed t (written d f)) →
        signed r (written n g) = signed s (written c e) + signed t (written d f)) := by
  have hsum : (finite s c e).add (finite t d f) = if c = 0 ∧ d = 0 then limit (s && t) 0 (min e f)
      else if c = 0 then addZero t d f e
      else if d = 0 then addZero s c e f
      else addNonzero s c e t d f := rfl
  have hc' := written_nonneg c e
  have hd' := written_nonneg d f
  rw [hsum]
  split
  · rename_i hzero
    obtain ⟨rfl, rfl⟩ := hzero
    refine ⟨_, _, _, rfl, ?_, fun _ => ?_⟩
    · rw [written_zero, written_zero, written_zero, max_self, mul_zero]
    · rw [written_zero, written_zero, written_zero, signed_zero, signed_zero, signed_zero, add_zero]
  · split
    · rename_i hzero
      subst hzero
      obtain ⟨n, g, hlimit, hvalue⟩ := addZero_eq_limit t d f e
      refine ⟨t, n, g, hlimit, ?_, fun _ => ?_⟩
      · rw [hvalue]
        linarith [le_max_right (written 0 e) (written d f)]
      · rw [hvalue, written_zero, signed_zero, zero_add]
    · split
      · rename_i hzero
        subst hzero
        obtain ⟨n, g, hlimit, hvalue⟩ := addZero_eq_limit s c e f
        refine ⟨s, n, g, hlimit, ?_, fun _ => ?_⟩
        · rw [hvalue]
          linarith [le_max_left (written c e) (written 0 f)]
        · rw [hvalue, written_zero, signed_zero, add_zero]
      · rename_i hc hd
        exact addNonzero_eq_limit (Nat.pos_of_ne_zero hc) (Nat.pos_of_ne_zero hd)

/-- **Sums.** A sum that fits is exact. -/
theorem value?_add {x y d : Decimal} (h : x.add y = .ok d) (hx : x.value? = some v)
    (hy : y.value? = some w) (hfits : Fits (v + w)) : d.value? = some (v + w) := by
  cases x with
  | nan => exact absurd hx (by simp [value?])
  | infinite => exact absurd hx (by simp [value?])
  | finite s c e =>
    cases y with
    | nan => exact absurd hy (by simp [value?])
    | infinite => exact absurd hy (by simp [value?])
    | finite t c' e' =>
      obtain rfl : signed s (written c e) = v := Option.some.inj hx
      obtain rfl : signed t (written c' e') = w := Option.some.inj hy
      obtain ⟨r, n, g, hlimit, -, hexact⟩ := add_eq_limit s t c c' e e'
      rw [hlimit] at h
      have hsum := hexact hfits
      rw [← hsum] at hfits ⊢
      exact value?_limit h (fits_signed.mp hfits)

theorem value?_negate {x : Decimal} (hx : x.value? = some v) : x.negate.value? = some (-v) := by
  cases x with
  | nan => exact absurd hx (by simp [value?])
  | infinite => exact absurd hx (by simp [value?])
  | finite s c e =>
    obtain rfl := Option.some.inj hx
    exact congrArg some (signed_not s _)

/-- **Differences.** A difference that fits is exact. -/
theorem value?_sub {x y d : Decimal} (h : x.sub y = .ok d) (hx : x.value? = some v)
    (hy : y.value? = some w) (hfits : Fits (v - w)) : d.value? = some (v - w) := by
  rw [sub_eq_add_neg] at hfits ⊢
  exact value?_add h hx (value?_negate hy) hfits

end Decimal

end StillVideo
