import Mathlib.Algebra.Order.Floor.Ring
import Mathlib.Data.Rat.Floor
import StillVideo.Proofs.ShortDecimals

/-!
# Whole milliseconds

A start is multiplied by a thousand and loses its fraction, both in floating numbers. Of a start
with at most fifteen digits this gives the whole part of the exact product where the product has a
fraction; a whole number of milliseconds it meets or misses by one (`exists_milliseconds`).
-/

namespace StillVideo

attribute [local instance (2000)] instPowNat

namespace Binary64

attribute [local irreducible] one bound

/-- A thousandfold short number is whole, or has at most fifteen digits and some of them behind the
point. -/
theorem thousandfold_cases {v : ℚ} (hv : IsShort v) :
    (∃ n : ℕ, 1000 * v = n) ∨ ∃ c E : ℕ, c < 10 ^ 15 ∧ 1000 * v * 10 ^ E = c := by
  obtain ⟨c, e, hc, rfl⟩ := hv
  have hthousand : 1000 * written c e = c * 10 ^ (e + 3) := by
    unfold written
    rw [zpow_add₀ (by norm_num)]
    norm_num
    ring
  rw [hthousand]
  rcases Int.le_total 0 (e + 3) with he | he
  · obtain ⟨k, hk⟩ := Int.eq_ofNat_of_zero_le he
    refine .inl ⟨c * 10 ^ k, ?_⟩
    rw [hk, zpow_natCast]
    push_cast
    rfl
  · obtain ⟨k, hk⟩ := Int.eq_ofNat_of_zero_le (Int.neg_nonneg_of_nonpos he)
    refine .inr ⟨c, k, hc, ?_⟩
    rw [show e + 3 = -(k : Int) by omega, zpow_neg, zpow_natCast]
    field_simp

/-- With `E` places behind the point a number that is not `n` is not nearer to it than the last of
them. -/
theorem one_le_gap {t : ℚ} {c E n : ℕ} (h : t * 10 ^ E = c) (hne : t ≠ n) :
    1 ≤ |t - n| * 10 ^ E := by
  have hpos : (0 : ℚ) < 10 ^ E := by positivity
  have hscaled : |t - n| * 10 ^ E = |((c : Int) - n * 10 ^ E : Int)| := by
    push_cast
    rw [← h, ← sub_mul, abs_mul, abs_of_pos hpos]
  have hzero : (c : Int) - n * 10 ^ E ≠ 0 := by
    intro hzero
    have hmul : (t - n) * 10 ^ E = 0 := by
      rw [sub_mul, h]
      exact_mod_cast hzero
    exact (mul_eq_zero.mp hmul).elim (fun h => hne (sub_eq_zero.mp h)) hpos.ne'
  rw [hscaled]
  exact_mod_cast Int.one_le_abs hzero

/-- A thousandfold product is as near to the product of what was rounded. -/
theorem abs_thousandfold_sub_le {u : Nat} {v : ℚ} (hv : 0 ≤ v)
    (h : |v * one - u| ≤ (spacing u : ℚ) / 2) :
    |(roundUnits (u * (1000 * one)) one : ℚ) - 1000 * v * one| ≤
      1000 * v * one / 2 ^ 51 + 600 := by
  have hround := abs_sub_roundUnits_le (u * (1000 * one)) one_pos
  have hspacing := spacing_le_div u
  have hspacing' := spacing_le_div (roundUnits (u * (1000 * one)) one)
  have hpos : (0 : ℚ) < one := Nat.cast_pos.mpr one_pos
  have hquot : ((u * (1000 * one) : Nat) : ℚ) / one = 1000 * u := by
    push_cast
    field_simp
  rw [hquot] at hround
  generalize roundUnits (u * (1000 * one)) one = r at *
  have hnonneg : 0 ≤ v * one := mul_nonneg hv hpos.le
  rw [mul_assoc 1000]
  generalize v * (one : ℚ) = t at *
  rw [abs_le] at *
  constructor <;> linarith

section

variable {r : Nat} {t : ℚ}

theorem ten_pow_le_one : (10 : ℚ) ^ 20 ≤ one := by
  have : 10 ^ 20 ≤ one := calc
    10 ^ 20 ≤ 2 ^ 67 := by decide
    _ ≤ 2 ^ unitPlaces := Nat.pow_le_pow_right (by decide) (by decide)
    _ = one := by rw [one]
  exact_mod_cast this

/-- A whole number of milliseconds is met, or missed by one. -/
theorem div_one_of_whole {n : ℕ} (hn : n < 10 ^ 15)
    (h : |(r : ℚ) - n * one| ≤ n * one / 2 ^ 51 + 600) : r / one = n ∨ r / one + 1 = n := by
  have hone := ten_pow_le_one
  have hn' : (n : ℚ) * one ≤ 10 ^ 15 * one := by
    have : n * one ≤ 10 ^ 15 * one := Nat.mul_le_mul_right _ (Nat.le_of_lt hn)
    exact_mod_cast this
  rw [abs_le] at h
  have hhigh : (r : ℚ) < (n + 1) * one := by linarith
  have hlow : (n : ℚ) * one < r + one := by linarith
  have hhigh' : r < (n + 1) * one := by exact_mod_cast hhigh
  have hlow' : n * one < r + one := by exact_mod_cast hlow
  have hle := (Nat.div_lt_iff_lt_mul one_pos).mpr hhigh'
  have hge : n - 1 ≤ r / one := by
    rw [Nat.le_div_iff_mul_le one_pos, Nat.sub_mul]
    omega
  omega

section Fraction

variable {c E n : ℕ} (hc : c < 10 ^ 15) (hplaces : t * 10 ^ E = c) (hlow : (n : ℚ) < t)
  (h : |(r : ℚ) - t * one| ≤ t * one / 2 ^ 51 + 600)
include hc hplaces hlow h

/-- With few places the next whole numbers are farther away than rounding leads. -/
theorem between_of_fewPlaces (hE : E ≤ 15) (hhigh : t < n + 1) :
    (n : ℚ) * one ≤ r ∧ (r : ℚ) < (n + 1) * one := by
  have hone := ten_pow_le_one
  have hpos : (0 : ℚ) < one := Nat.cast_pos.mpr one_pos
  have hgap := one_le_gap hplaces hlow.ne'
  have hgap' := one_le_gap (n := n + 1) hplaces (by push_cast; exact hhigh.ne)
  rw [abs_of_pos (by linarith)] at hgap
  rw [abs_of_neg (by push_cast; linarith)] at hgap'
  push_cast at hgap'
  have hten : (10 : ℚ) ^ E ≤ 10 ^ 15 := pow_le_pow_right₀ (by norm_num) hE
  have hE' : (0 : ℚ) < 10 ^ E := by positivity
  have hc' : (c : ℚ) < 10 ^ 15 := by exact_mod_cast hc
  have hscaled : t * 10 ^ E * one < 10 ^ 15 * one := by
    rw [hplaces]
    exact mul_lt_mul_of_pos_right hc' hpos
  have hgapOne := mul_le_mul_of_nonneg_right hgap hpos.le
  have hgapOne' := mul_le_mul_of_nonneg_right hgap' hpos.le
  rw [abs_le] at h
  have hnear := mul_le_mul_of_nonneg_right h.1 hE'.le
  have hnear' := mul_le_mul_of_nonneg_right h.2 hE'.le
  constructor
  · refine le_of_mul_le_mul_right ?_ hE'
    linarith
  · refine lt_of_mul_lt_mul_right ?_ hE'.le
    linarith

/-- Many places leave no digit before the point. -/
theorem between_of_manyPlaces (hE : 15 < E) (ht : 0 ≤ t) :
    (n : ℚ) * one ≤ r ∧ (r : ℚ) < (n + 1) * one := by
  have hone := ten_pow_le_one
  have hpos : (0 : ℚ) < one := Nat.cast_pos.mpr one_pos
  have hten : (10 : ℚ) ^ 16 ≤ 10 ^ E := pow_le_pow_right₀ (by norm_num) hE
  have hc' : (c : ℚ) < 10 ^ 15 := by exact_mod_cast hc
  have hsmall : t < 1 / 10 := by
    have := mul_le_mul_of_nonneg_left hten ht
    linarith
  obtain rfl : n = 0 := by
    have hn : (n : ℚ) < (1 : ℕ) := by
      push_cast
      linarith
    have := Nat.cast_lt.mp hn
    omega
  have hscaled : t * one < 1 / 10 * one := mul_lt_mul_of_pos_right hsmall hpos
  have hr : (0 : ℚ) ≤ r := Nat.cast_nonneg r
  rw [abs_le] at h
  push_cast
  constructor <;> linarith

/-- A number of milliseconds that is not whole loses its fraction and nothing else. -/
theorem div_one_of_fraction (ht : 0 ≤ t) (hhigh : t < n + 1) : r / one = n := by
  obtain ⟨hbelow, habove⟩ : (n : ℚ) * one ≤ r ∧ (r : ℚ) < (n + 1) * one := by
    rcases Nat.lt_or_ge 15 E with hE | hE
    · exact between_of_manyPlaces hc hplaces hlow h hE ht
    · exact between_of_fewPlaces hc hplaces hlow h hE hhigh
  have hbelow' : n * one ≤ r := by exact_mod_cast hbelow
  have habove' : r < (n + 1) * one := by exact_mod_cast habove
  have := (Nat.div_lt_iff_lt_mul one_pos).mpr habove'
  have := (Nat.le_div_iff_mul_le one_pos).mpr hbelow'
  omega

end Fraction

/-- A thousandfold magnitude. -/
theorem mul_thousand {s : Bool} {u : Nat} (hu : Representable u) :
    finite s u hu * 1000 = ofUnits s (roundUnits (u * (1000 * one)) one) := by
  rw [thousand_eq]
  show mul _ _ = _
  unfold mul
  dsimp only
  rw [Bool.bne_false]
  rfl

/-- Dropping a fraction moves a number by less than one. -/
theorem abs_div_one_sub_le (h : |(r : ℚ) - t * one| ≤ t * one / 2 ^ 51 + 600) :
    |((r / one : Nat) : ℚ) - t| ≤ t / 2 ^ 51 + 2 := by
  have hone := ten_pow_le_one
  have hpos : (0 : ℚ) < one := Nat.cast_pos.mpr one_pos
  have hlow : ((r / one : Nat) : ℚ) * one ≤ r := by exact_mod_cast Nat.div_mul_le_self r one
  have hhigh : (r : ℚ) < ((r / one : Nat) + 1) * one := by
    have : r < (r / one + 1) * one := by
      rw [Nat.mul_comm]
      exact Nat.lt_mul_div_succ r one_pos
    exact_mod_cast this
  rw [abs_le] at *
  constructor
  · refine le_of_mul_le_mul_right ?_ hpos
    linarith
  · refine le_of_mul_le_mul_right ?_ hpos
    linarith

end

/-- **Delays.** A thousandfold start loses its fraction and nothing else if the exact product has
one. A product that is whole is met, or missed by one where the start has been rounded down. -/
theorem exists_milliseconds {s : Bool} {u : Nat} {v : ℚ} (hu : Representable u)
    (hs : s = true → u = 0) (hshort : IsShort v) (hrange : 1000 * v ≤ 10 ^ 308)
    (h : |v * one - u| ≤ (spacing u : ℚ) / 2) :
    ∃ n : ℕ, wholeOfReal (finite s u hu * 1000) = .ok (n : Int) ∧
      |(n : ℚ) - 1000 * v| ≤ 1000 * v / 2 ^ 51 + 2 ∧
      ((∀ m : ℕ, 1000 * v ≠ m) → (n : Int) = ⌊1000 * v⌋) ∧
      ∀ m : ℕ, m < 10 ^ 15 → 1000 * v = m → (n = m ∨ n + 1 = m) ∧ (v * one ≤ u → n = m) := by
  have hv := hshort.nonneg
  have hnear := abs_thousandfold_sub_le hv h
  have hthousand : 0 ≤ 1000 * v := by linarith
  have hpos : (0 : ℚ) < one := Nat.cast_pos.mpr one_pos
  have hrep : Representable (roundUnits (u * (1000 * one)) one) := by
    refine representable_roundUnits one_pos (lt_bound hrange ?_)
    have := (abs_le.mp hnear).2
    have := mul_nonneg hthousand hpos.le
    linarith
  have hsign : s = true → roundUnits (u * (1000 * one)) one = 0 := fun hs' =>
    Nat.le_zero.mp (roundUnits_le (Nat.zero_mod _) one_pos
      (Nat.le_of_eq (by rw [hs hs', Nat.zero_mul, Nat.zero_mul])))
  have hreached : ∀ m : ℕ, m < 10 ^ 15 → 1000 * v = m → v * one ≤ u →
      m * one ≤ roundUnits (u * (1000 * one)) one := by
    intro m hm hwhole hle
    have hunits : (m * one : ℚ) ≤ u * 1000 := by
      rw [← hwhole]
      linarith
    have hunits' : m * one ≤ u * 1000 := by exact_mod_cast hunits
    refine le_roundUnits (representable_mul_one (Nat.lt_trans hm (by decide))).2 one_pos ?_
    rw [← Nat.mul_assoc]
    exact Nat.mul_le_mul_right one hunits'
  rw [mul_thousand, ofUnits, dif_pos hrep]
  generalize roundUnits (u * (1000 * one)) one = r at *
  refine ⟨r / one, ?_, abs_div_one_sub_le hnear, fun hfraction => ?_,
    fun m hm hwhole => ?_⟩
  · cases s with
    | true => simp [wholeOfReal, truncate?, hsign rfl]
    | false => rfl
  · obtain ⟨n, hn⟩ | ⟨c, E, hc, hplaces⟩ := thousandfold_cases hshort
    · exact absurd hn (hfraction n)
    · obtain ⟨n, hn⟩ := Int.eq_ofNat_of_zero_le (Int.floor_nonneg.mpr hthousand)
      have hfloor := Int.floor_le (1000 * v)
      have hfloor' := Int.lt_floor_add_one (1000 * v)
      rw [hn, Int.cast_natCast] at hfloor hfloor'
      have hlow := lt_of_le_of_ne hfloor (hfraction n).symm
      rw [hn, div_one_of_fraction hc hplaces hlow hnear hthousand hfloor']
  · have hmet : r / one = m ∨ r / one + 1 = m := by
      rw [hwhole] at hnear
      exact div_one_of_whole hm hnear
    refine ⟨hmet, fun hle => ?_⟩
    have := (Nat.le_div_iff_mul_le one_pos).mpr (hreached m hm hwhole hle)
    omega

end Binary64

end StillVideo
