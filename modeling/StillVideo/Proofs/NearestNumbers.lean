import Mathlib.Algebra.Order.Field.Power
import Mathlib.Algebra.Order.Field.Rat
import Mathlib.Tactic.FieldSimp
import Mathlib.Tactic.GCongr
import Mathlib.Tactic.NormNum
import Mathlib.Tactic.Positivity
import StillVideo.Proofs.RealBounds

/-!
# Nearest numbers

What a quotient rounds to is within reach of it (`reaches_roundUnits`), so rounding moves a quotient
by at most half the spacing of the result (`abs_sub_roundUnits_le`). Digits with an exponent write a
rational number (`written`); as a numeral they read as a magnitude near it (`exists_ofNumeral`), and
as the one that they round to where magnitudes have all their digits (`exists_roundsTo`).
-/

namespace StillVideo

attribute [local instance (2000)] instPowNat

/-- A rounded quotient is nearest: at most half away, and less if it is odd. -/
theorem roundDiv_nearest (n : Nat) {d : Nat} (hd : 0 < d) :
    2 * (roundDiv n d * d) ≤ 2 * n + d ∧ 2 * n ≤ 2 * (roundDiv n d * d) + d ∧
      (roundDiv n d % 2 = 1 →
        2 * (roundDiv n d * d) < 2 * n + d ∧ 2 * n < 2 * (roundDiv n d * d) + d) := by
  have hn : d * (n / d) + n % d = n := Nat.div_add_mod n d
  have hr : n % d < d := Nat.mod_lt n hd
  rw [Nat.mul_comm d] at hn
  unfold roundDiv
  dsimp only
  generalize n / d = q at *
  generalize n % d = r at *
  split_ifs
  · omega
  · rw [Nat.add_mul]
    omega
  · rcases Nat.mod_two_eq_zero_or_one q with hq | hq
    · rw [hq, Nat.add_zero]
      omega
    · rw [hq, Nat.add_mul]
      omega

namespace Binary64

/-- What is near enough is within reach. -/
theorem reaches_of_distance {u n d : Nat} (hlow : 4 * (u * d) ≤ 4 * n + reachBelow u * d)
    (hhigh : 4 * n ≤ 4 * (u * d) + 2 * (spacing u * d))
    (hodd : u / spacing u % 2 = 1 → 4 * (u * d) < 4 * n + reachBelow u * d ∧
      4 * n < 4 * (u * d) + 2 * (spacing u * d)) : Reaches u n d := by
  have hbelow := Nat.mul_le_mul_right d (reachBelow_le u)
  unfold Reaches
  simp only [Nat.sub_mul, Nat.add_mul, Nat.mul_assoc] at *
  rcases Nat.eq_zero_or_pos u with rfl | hu
  · simp only [Nat.zero_div, Nat.zero_mul, Nat.mul_zero, Nat.zero_mod, true_and] at *
    omega
  · have := Nat.mul_le_mul_right d (spacing_le hu)
    omega

section Steps

variable {k j : Nat} (hlow : j = 0 ∨ 2 ^ 52 ≤ k)
include hlow

/-- Multiples of a power of two with 53 binary digits have this power as their spacing. -/
theorem spacing_mul_two_pow (hk : k < 2 ^ 53) : spacing (k * 2 ^ j) = 2 ^ j := by
  refine spacing_eq (hlow.imp_right fun h => ?_) ?_
  · rw [Nat.pow_add]
    exact Nat.mul_le_mul_right _ h
  · rw [Nat.pow_add]
    exact (Nat.mul_lt_mul_right (Nat.two_pow_pos j)).mpr hk

/-- Only the least of them has less reach below. -/
theorem reachBelow_mul_two_pow (hk : k < 2 ^ 53) : reachBelow (k * 2 ^ j) = 2 * 2 ^ j ∨
    reachBelow (k * 2 ^ j) = 2 ^ j ∧ k = 2 ^ 52 ∧ j ≠ 0 := by
  unfold reachBelow
  rw [spacing_mul_two_pow hlow hk]
  split_ifs with hpow
  · obtain ⟨hu, hlog⟩ := hpow
    have hpos : k * 2 ^ j ≠ 0 := by
      rw [hu]
      exact Nat.ne_of_gt (Nat.two_pow_pos _)
    have hupper : (k * 2 ^ j).log2 < 53 + j := by
      rw [Nat.log2_lt hpos, Nat.pow_add]
      exact (Nat.mul_lt_mul_right (Nat.two_pow_pos j)).mpr hk
    have hj : j ≠ 0 := by omega
    have hlower : 52 + j ≤ (k * 2 ^ j).log2 := by
      rw [Nat.le_log2 hpos, Nat.pow_add]
      exact Nat.mul_le_mul_right _ (hlow.resolve_left hj)
    rw [show (k * 2 ^ j).log2 = 52 + j by omega, Nat.pow_add] at hu
    exact .inr ⟨rfl, Nat.eq_of_mul_eq_mul_right (Nat.two_pow_pos j) hu, hj⟩
  · exact .inl rfl

end Steps

/-- The power of two above them has twice that spacing. -/
theorem spacing_two_pow (j : Nat) : spacing (2 ^ 53 * 2 ^ j) = 2 * 2 ^ j := by
  rw [← Nat.pow_add, ← Nat.pow_succ']
  unfold spacing
  rw [Nat.log2_two_pow]
  congr 1
  omega

theorem reachBelow_two_pow (j : Nat) : reachBelow (2 ^ 53 * 2 ^ j) = 2 * 2 ^ j := by
  unfold reachBelow
  rw [spacing_two_pow, ← Nat.pow_add, Nat.log2_two_pow, if_pos ⟨rfl, by omega⟩]

/-- A quotient lies within reach of what it rounds to. -/
theorem reaches_roundUnits (n : Nat) {d : Nat} (hd : 0 < d) : Reaches (roundUnits n d) n d := by
  obtain ⟨j, hs, hlow, hhigh⟩ := exists_spacing (n / d)
  have hstep : 0 < d * spacing (n / d) := Nat.mul_pos hd (spacing_pos _)
  obtain ⟨hl, hh, hodd⟩ := roundDiv_nearest n hstep
  have hround : roundUnits n d = roundDiv n (d * spacing (n / d)) * spacing (n / d) := rfl
  have hbelow : n < 2 ^ 53 * (d * spacing (n / d)) := by
    rw [hs, Nat.mul_comm d, ← Nat.mul_assoc, ← Nat.pow_add]
    exact (Nat.div_lt_iff_lt_mul hd).mp hhigh
  have habove : j = 0 ∨ 2 ^ 52 * (d * spacing (n / d)) ≤ n := by
    refine hlow.imp_right fun h => ?_
    rw [hs, Nat.mul_comm d, ← Nat.mul_assoc, ← Nat.pow_add]
    exact (Nat.le_div_iff_mul_le hd).mp h
  have hk : roundDiv n (d * spacing (n / d)) ≤ 2 ^ 53 := roundDiv_le hstep (Nat.le_of_lt hbelow)
  have hk' : j = 0 ∨ 2 ^ 52 ≤ roundDiv n (d * spacing (n / d)) :=
    habove.imp_right (le_roundDiv hstep)
  rw [hround]
  rw [Nat.mul_comm d] at *
  generalize roundDiv n (spacing (n / d) * d) = k at *
  rw [hs] at *
  have hassoc : k * 2 ^ j * d = k * (2 ^ j * d) := Nat.mul_assoc ..
  rcases Nat.lt_or_eq_of_le hk with hlt | rfl
  · -- fewer than 53 binary digits: the spacing is that of the quotient
    have hquotient : k * 2 ^ j / 2 ^ j = k := Nat.mul_div_cancel k (Nat.two_pow_pos j)
    have hreach : reachBelow (k * 2 ^ j) * d = 2 * (2 ^ j * d) ∨
        reachBelow (k * 2 ^ j) * d = 2 ^ j * d ∧ k * (2 ^ j * d) ≤ n := by
      rcases reachBelow_mul_two_pow hk' hlt with h | ⟨h, rfl, hj⟩
      · exact .inl (by rw [h, Nat.mul_assoc])
      · exact .inr ⟨by rw [h], habove.resolve_left hj⟩
    refine reaches_of_distance ?_ ?_ ?_
    · omega
    · rw [spacing_mul_two_pow hk' hlt]
      omega
    · rw [spacing_mul_two_pow hk' hlt, hquotient]
      omega
  · -- the power of two above, where the spacing is twice as wide
    have hquotient : 2 ^ 53 * 2 ^ j / (2 * 2 ^ j) = 2 ^ 52 := by
      rw [Nat.mul_div_mul_right _ _ (Nat.two_pow_pos j)]
      rfl
    refine reaches_of_distance ?_ ?_ ?_
    · rw [reachBelow_two_pow, hassoc, Nat.mul_assoc 2]
      omega
    · rw [spacing_two_pow, hassoc, Nat.mul_assoc 2]
      omega
    · rw [spacing_two_pow, hquotient]
      exact fun h => absurd h (by decide)

/-! ## Distances -/

/-- A quotient is at most half the spacing away from what it rounds to. -/
theorem Reaches.abs_sub_le {u n d : Nat} (hd : 0 < d) (h : Reaches u n d) :
    |(n : ℚ) / d - u| ≤ (spacing u : ℚ) / 2 := by
  obtain ⟨hlow, hhigh⟩ := h.distance
  have hd' : (0 : ℚ) < d := by exact_mod_cast hd
  have hlow' : 2 * ((u : ℚ) * d) ≤ 2 * n + spacing u * d := by exact_mod_cast hlow
  have hhigh' : 2 * (n : ℚ) ≤ 2 * (u * d) + spacing u * d := by exact_mod_cast hhigh
  have hn : (n : ℚ) = n / d * d := (div_mul_cancel₀ _ (ne_of_gt hd')).symm
  rw [abs_le]
  constructor
  · refine le_of_mul_le_mul_right ?_ hd'
    linarith
  · refine le_of_mul_le_mul_right ?_ hd'
    linarith

theorem abs_sub_roundUnits_le (n : Nat) {d : Nat} (hd : 0 < d) :
    |(n : ℚ) / d - roundUnits n d| ≤ (spacing (roundUnits n d) : ℚ) / 2 :=
  (reaches_roundUnits n hd).abs_sub_le hd

/-- Magnitudes have 53 binary digits, unless they are spaced by single units. -/
theorem spacing_le_div (u : Nat) : (spacing u : ℚ) ≤ u / 2 ^ 52 + 1 := by
  obtain ⟨j, hs, hlow, -⟩ := exists_spacing u
  have hle : 2 ^ 52 * spacing u ≤ u + 2 ^ 52 := by
    rw [hs]
    rcases hlow with rfl | hlow
    · omega
    · rw [← Nat.pow_add]
      omega
  have hle' : (2 : ℚ) ^ 52 * spacing u ≤ u + 2 ^ 52 := by exact_mod_cast hle
  linarith

end Binary64

/-! ## Written numbers -/

/-- The number that digits with an exponent write. -/
def written (c : Nat) (e : Int) : ℚ := c * 10 ^ e

theorem written_nonneg (c : Nat) (e : Int) : 0 ≤ written c e := by
  unfold written
  positivity

theorem written_eq_zero {c : Nat} {e : Int} : written c e = 0 ↔ c = 0 := by
  unfold written
  rw [mul_eq_zero, Nat.cast_eq_zero, or_iff_left (zpow_ne_zero _ (by norm_num))]

theorem written_eq_div (c : Nat) (e : Int) :
    written c e = (c * 10 ^ e.toNat : Nat) / (10 ^ (-e).toNat : Nat) := by
  have hexp : e = (e.toNat : Int) - ((-e).toNat : Int) := by omega
  unfold written
  conv_lhs => rw [hexp, zpow_sub₀ (by norm_num), zpow_natCast, zpow_natCast]
  push_cast
  ring

/-- Zeros at the end of the digits change the exponent. -/
theorem written_shift (c k : Nat) (e : Int) : written (c * 10 ^ k) (e - k) = written c e := by
  unfold written
  rw [zpow_sub₀ (by norm_num), zpow_natCast]
  push_cast
  field_simp

/-- Digits stand below the power of ten that has one digit more. -/
theorem written_lt (c : Nat) (e : Int) :
    written c e < 10 ^ (e + (decimalDigits c).length) := by
  have hc : (c : ℚ) < 10 ^ (decimalDigits c).length := by
    exact_mod_cast lt_pow_length_decimalDigits c
  unfold written
  rw [zpow_add₀ (by norm_num), zpow_natCast, mul_comm]
  gcongr

theorem le_written {c : Nat} (hc : 0 < c) (e : Int) :
    10 ^ (e + (decimalDigits c).length - 1) ≤ written c e := by
  have hlen := length_decimalDigits_pos c
  have hle : (10 : ℚ) ^ ((decimalDigits c).length - 1) ≤ c := by
    exact_mod_cast pow_le_of_lt_length_decimalDigits hc
      (Nat.sub_lt hlen Nat.one_pos)
  have hexp : e + (decimalDigits c).length - 1 = e + ((decimalDigits c).length - 1 : Nat) := by
    omega
  unfold written
  rw [hexp, zpow_add₀ (by norm_num), zpow_natCast, mul_comm]
  gcongr

namespace Binary64

/-- Digits that round to a magnitude write a number at most half the spacing away from it. -/
theorem abs_written_sub_le {u c : Nat} {e : Int} (h : roundsTo u c e = true) :
    |written c e * one - u| ≤ (spacing u : ℚ) / 2 := by
  have hdistance := (roundsTo_iff.mp h).abs_sub_le (Nat.pow_pos (by decide))
  have heq : written c e * one =
      ((c * one * 10 ^ e.toNat : Nat) : ℚ) / ((10 ^ (-e).toNat : Nat) : ℚ) := by
    rw [written_eq_div]
    push_cast
    ring
  rwa [heq]

theorem roundsTo_roundUnits (c : Nat) (e : Int) :
    roundsTo (roundUnits (c * one * 10 ^ e.toNat) (10 ^ (-e).toNat)) c e = true :=
  roundsTo_iff.mpr (reaches_roundUnits _ (Nat.pow_pos (by decide)))

/-! ## Numerals within range -/

/-- What is not far above `10 ^ 308` is not out of range. -/
theorem lt_bound {r : Nat} {v : ℚ} (hv : v ≤ 10 ^ 308) (hr : (r : ℚ) ≤ 5 / 4 * (v * one) + 600) :
    r < bound := by
  have htop : ((4 * 10 ^ 308 : Nat) : ℚ) ≤ (3 * 2 ^ wholePlaces : Nat) :=
    Nat.cast_le.mpr four_mul_ten_pow_le
  rw [Nat.cast_mul, Nat.cast_mul, Nat.cast_pow, Nat.cast_pow] at htop
  have hbound : (bound : ℚ) = (2 : Nat) ^ wholePlaces * one := by
    rw [bound_eq, Nat.cast_mul, Nat.cast_pow]
  have hlarge : (10000 : ℚ) ≤ bound := by
    have : 2 ^ 14 ≤ bound := Nat.pow_le_pow_right (by decide) (by decide)
    exact_mod_cast Nat.le_trans (by decide) this
  have hone : (0 : ℚ) ≤ one := Nat.cast_nonneg one
  have hscaled := mul_le_mul_of_nonneg_right hv hone
  have htop' := mul_le_mul_of_nonneg_right htop hone
  have hlt : (r : ℚ) < bound := by
    rw [mul_assoc, mul_assoc, ← hbound, Nat.cast_ofNat, Nat.cast_ofNat, Nat.cast_ofNat] at htop'
    generalize (10 : ℚ) ^ 308 = top at *
    linarith
  exact_mod_cast hlt

section

variable {c : Nat} {e : Int}

theorem size_le (hc : 0 < c) (h : written c e ≤ 10 ^ 308) :
    e + (decimalDigits c).length ≤ 309 := by
  have hle : (10 : ℚ) ^ (e + (decimalDigits c).length - 1) ≤ 10 ^ (308 : ℤ) :=
    (le_written hc e).trans h
  have := (zpow_le_zpow_iff_right₀ (by norm_num)).mp hle
  omega

theorem le_size (h : 1 / 2 ≤ written c e * one) : -330 ≤ e + (decimalDigits c).length := by
  by_contra hlt
  have hplaces : pointPlaces = 330 := rfl
  have hone : 2 * (one : ℚ) ≤ 10 ^ pointPlaces := by exact_mod_cast two_mul_one_le
  have hpos : (0 : ℚ) < one := Nat.cast_pos.mpr one_pos
  have hsmall : written c e < 10 ^ (-pointPlaces : ℤ) := by
    refine (written_lt c e).trans_le ?_
    exact (zpow_le_zpow_iff_right₀ (by norm_num)).mpr (by omega)
  have hten : (10 : ℚ) ^ (-pointPlaces : ℤ) * 10 ^ pointPlaces = 1 := by
    rw [← zpow_natCast, ← zpow_add₀ (by norm_num), neg_add_cancel, zpow_zero]
  have hnonneg : (0 : ℚ) ≤ 10 ^ (-pointPlaces : ℤ) := zpow_nonneg (by norm_num) _
  have hscaled := mul_lt_mul_of_pos_right hsmall hpos
  have hhalf := (mul_le_mul_of_nonneg_left hone hnonneg).trans_eq hten
  linarith

/-- A numeral of a number of at most `10 ^ 308` is not out of range. -/
theorem representable_roundUnits_of_le (h : written c e ≤ 10 ^ 308) :
    Representable (roundUnits (c * one * 10 ^ e.toNat) (10 ^ (-e).toNat)) := by
  have hnear := (abs_le.mp (abs_written_sub_le (roundsTo_roundUnits c e))).1
  have hspacing := spacing_le_div (roundUnits (c * one * 10 ^ e.toNat) (10 ^ (-e).toNat))
  have hnonneg := mul_nonneg (written_nonneg c e) (Nat.cast_nonneg one)
  refine representable_roundUnits (Nat.pow_pos (by decide)) (lt_bound h ?_)
  linarith

/-- A numeral within range reads as a magnitude that is at most half the spacing away. -/
theorem exists_ofNumeral (h : written c e ≤ 10 ^ 308) (negative : Bool) :
    ∃ u hu, ofNumeral (.finite negative c e) = .finite negative u hu ∧ (c = 0 → u = 0) ∧
      |written c e * one - u| ≤ (spacing u : ℚ) / 2 := by
  by_cases hrange : 0 < c ∧ -330 ≤ e + (decimalDigits c).length
  · obtain ⟨hc, hlow⟩ := hrange
    have hrep := representable_roundUnits_of_le h
    refine ⟨_, hrep, ?_, fun hzero => absurd hzero (Nat.ne_of_gt hc),
      abs_written_sub_le (roundsTo_roundUnits c e)⟩
    rw [ofNumeral_eq_ofUnits hc hlow (by have := size_le hc h; omega)]
    exact dif_pos hrep
  -- no digits at all, or so small that they are nearest to zero
  have hzero : c = 0 ∨ e + (decimalDigits c).length < -330 := by omega
  have hread : ofNumeral (.finite negative c e) = ofUnits negative 0 := by
    unfold decimalDigits at hzero
    simp only [ofNumeral]
    split_ifs
    · rfl
    · omega
    · rfl
    all_goals omega
  have hhalf : written c e * one < 1 / 2 := by
    rcases hzero with rfl | hlow
    · rw [written_eq_zero.mpr rfl, zero_mul]
      norm_num
    · exact not_le.mp fun hle => Int.not_le.mpr hlow (le_size hle)
  refine ⟨0, representable_zero, hread.trans (dif_pos representable_zero), fun _ => rfl, ?_⟩
  have hone : spacing 0 = 1 := rfl
  have hnonneg := mul_nonneg (written_nonneg c e) (Nat.cast_nonneg one)
  rw [hone, Nat.cast_zero, sub_zero, abs_of_nonneg hnonneg, Nat.cast_one]
  exact hhalf.le

/-- Where magnitudes have all their digits a numeral reads as the one that it rounds to. -/
theorem exists_roundsTo (hlow : 2 ^ 52 ≤ written c e * one) (h : written c e ≤ 10 ^ 308)
    (negative : Bool) : ∃ u hu, ofNumeral (.finite negative c e) = .finite negative u hu ∧
      2 ^ 52 ≤ u ∧ roundsTo u c e = true := by
  have hten : 0 < 10 ^ (-e).toNat := Nat.pow_pos (by decide)
  have hten' : (0 : ℚ) < (10 ^ (-e).toNat : Nat) := by exact_mod_cast hten
  have hrep := representable_roundUnits_of_le h
  have hfull : 2 ^ 52 * 10 ^ (-e).toNat ≤ c * one * 10 ^ e.toNat := by
    rw [written_eq_div, div_mul_eq_mul_div, le_div_iff₀ hten'] at hlow
    rw [Nat.mul_right_comm]
    exact_mod_cast hlow
  have hc : 0 < c := by
    rcases Nat.eq_zero_or_pos c with rfl | hc
    · rw [written_eq_zero.mpr rfl, zero_mul] at hlow
      norm_num at hlow
    · exact hc
  refine ⟨_, hrep, ?_, le_roundUnits (by decide) hten hfull, roundsTo_roundUnits c e⟩
  rw [ofNumeral_eq_ofUnits hc (le_size (by linarith)) (by have := size_le hc h; omega)]
  exact dif_pos hrep

end

end Binary64

end StillVideo
