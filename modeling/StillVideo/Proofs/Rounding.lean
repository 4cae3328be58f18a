import Mathlib.Tactic.Ring
import Mathlib.Tactic.Linarith
import StillVideo.Number.Shortest
import StillVideo.Number.Numeral

/-!
# Rounding of floating numbers

A quotient rounds to a magnitude of the format exactly where `roundsTo` says so: within half the
spacing, or within a quarter below a power of two, where the spacing changes (`roundUnits_eq`). So a
numeral that rounds to a magnitude reads as it (`ofNumeral_eq`), whatever zeros its digits end with
(`roundsTo_shift`).
-/

namespace StillVideo

attribute [local instance (2000)] instPowNat

namespace Binary64

/-! ## Powers of ten beside the format -/

theorem two_mul_two_pow_le : 2 * 2 ^ wholePlaces ≤ 10 ^ 310 := by decide +kernel

theorem four_mul_ten_pow_le : 4 * 10 ^ 308 ≤ 3 * 2 ^ wholePlaces := by decide +kernel

theorem two_mul_one_le : 2 * one ≤ 10 ^ pointPlaces := by decide +kernel

theorem one_le_zero : (1 : Binary64).le 0 = false := by decide +kernel

end Binary64

/-! ## The nearest whole number -/

/-- The nearest whole number is the one at most half away, an odd one less than half. -/
theorem roundDiv_eq {n d k : Nat} (hlow : 2 * (k * d) ≤ 2 * n + d) (hhigh : 2 * n ≤ 2 * (k * d) + d)
    (hodd : k % 2 = 1 → 2 * (k * d) < 2 * n + d ∧ 2 * n < 2 * (k * d) + d) (hd : 0 < d) :
    roundDiv n d = k := by
  have hn : d * (n / d) + n % d = n := Nat.div_add_mod n d
  have hr : n % d < d := Nat.mod_lt n hd
  unfold roundDiv
  generalize n / d = q at *
  generalize n % d = r at *
  have hle : q ≤ k := by
    by_contra hlt
    have : (k + 1) * d ≤ q * d := Nat.mul_le_mul_right d (by omega)
    rw [Nat.add_mul] at this
    rw [Nat.mul_comm d q] at hn
    omega
  have hge : k ≤ q + 1 := by
    by_contra hlt
    have : (q + 2) * d ≤ k * d := Nat.mul_le_mul_right d (by omega)
    rw [Nat.add_mul] at this
    rw [Nat.mul_comm d q] at hn
    omega
  rw [Nat.mul_comm d q] at hn
  dsimp only
  rcases Nat.lt_or_ge q k with hlt | hge'
  · obtain rfl : k = q + 1 := by omega
    rw [Nat.add_mul] at hlow hhigh hodd
    split_ifs <;> omega
  · obtain rfl : k = q := by omega
    split_ifs <;> omega

/-! ## Digits -/

theorem length_decimalDigits_le_iff {n k : Nat} (hk : 0 < k) :
    (decimalDigits n).length ≤ k ↔ n < 10 ^ k :=
  Nat.length_toDigits_le_iff (by decide) hk

theorem length_decimalDigits_pos (n : Nat) : 0 < (decimalDigits n).length :=
  Nat.length_toDigits_pos

theorem lt_pow_length_decimalDigits (n : Nat) : n < 10 ^ (decimalDigits n).length :=
  (length_decimalDigits_le_iff (length_decimalDigits_pos n)).mp (Nat.le_refl _)

theorem pow_le_of_lt_length_decimalDigits {n k : Nat} (hn : 0 < n)
    (h : k < (decimalDigits n).length) : 10 ^ k ≤ n := by
  rcases Nat.eq_zero_or_pos k with rfl | hk
  · exact hn
  · have := (length_decimalDigits_le_iff (n := n) hk).not.mp (Nat.not_le_of_lt h)
    exact Nat.le_of_not_lt this

namespace Binary64

theorem spacing_eq {q j : Nat} (hlow : j = 0 ∨ 2 ^ (52 + j) ≤ q) (hhigh : q < 2 ^ (53 + j)) :
    spacing q = 2 ^ j := by
  have hlog : q.log2 - 52 = j := by
    rcases Nat.eq_zero_or_pos q with rfl | hq
    · rcases hlow with rfl | h
      · rfl
      · exact absurd h (Nat.not_le_of_lt (Nat.two_pow_pos _))
    · have hlt : q.log2 < 53 + j := (Nat.log2_lt (Nat.ne_of_gt hq)).mpr hhigh
      rcases hlow with rfl | h
      · omega
      · have := (Nat.le_log2 (Nat.ne_of_gt hq)).mpr h
        omega
  unfold spacing
  rw [hlog]

/-- The spacing is a power of two: magnitudes have 53 binary digits, and those with fewer are not
spaced wider than the units. -/
theorem exists_spacing (u : Nat) :
    ∃ j, spacing u = 2 ^ j ∧ (j = 0 ∨ 2 ^ (52 + j) ≤ u) ∧ u < 2 ^ (53 + j) := by
  refine ⟨u.log2 - 52, rfl, ?_, ?_⟩
  · rcases Nat.lt_or_ge 52 u.log2 with h | h
    · refine .inr ?_
      rw [Nat.add_sub_cancel' (Nat.le_of_lt h)]
      exact Nat.log2_self_le (by rintro rfl; exact absurd h (by decide))
    · exact .inl (Nat.sub_eq_zero_of_le h)
  · exact Nat.lt_of_lt_of_le Nat.lt_log2_self (Nat.pow_le_pow_right (by decide) (by omega))

theorem spacing_pos (u : Nat) : 0 < spacing u := Nat.two_pow_pos _

/-! ## What rounds to a magnitude -/

/-- Four times the distance below `u` from where on values round to `u`: half the spacing, but only
half of that at a power of two, where the spacing changes. -/
def reachBelow (u : Nat) : Nat :=
  if u = 2 ^ u.log2 ∧ 52 < u.log2 then spacing u else 2 * spacing u

/-- `n / d` lies within reach of `u`; on the border it belongs to an even significand. -/
def Reaches (u n d : Nat) : Prop :=
  (4 * u - reachBelow u) * d < 4 * n ∧ 4 * n < (4 * u + 2 * spacing u) * d ∨
    u / spacing u % 2 = 0 ∧
      (4 * n = (4 * u - reachBelow u) * d ∨ 4 * n = (4 * u + 2 * spacing u) * d)

theorem roundsTo_iff {u d : Nat} {e : Int} :
    roundsTo u d e = true ↔ Reaches u (d * one * 10 ^ e.toNat) (10 ^ (-e).toNat) := by
  unfold roundsTo Reaches reachBelow
  simp only [Bool.or_eq_true, Bool.and_eq_true, decide_eq_true_eq, beq_iff_eq, Nat.mul_assoc]

theorem reachBelow_le (u : Nat) : reachBelow u ≤ 2 * spacing u := by
  unfold reachBelow
  split <;> omega

namespace Reaches

variable {u n d : Nat} (h : Reaches u n d)
include h

/-- A value within reach of a magnitude is at most half the spacing away, and less if the
significand is odd. -/
theorem distance : 2 * (u * d) ≤ 2 * n + spacing u * d ∧ 2 * n ≤ 2 * (u * d) + spacing u * d := by
  have hle := Nat.mul_le_mul_right d (reachBelow_le u)
  have hsub : 4 * (u * d) - reachBelow u * d ≤ 4 * n ∧
      4 * n ≤ 4 * (u * d) + 2 * (spacing u * d) := by
    rcases h with ⟨hl, hh⟩ | ⟨-, h | h⟩
    all_goals simp only [Nat.sub_mul, Nat.add_mul, Nat.mul_assoc] at *
    all_goals omega
  rw [Nat.mul_assoc] at hle
  omega

/-- An odd significand is strictly nearer than half the spacing. -/
theorem distance_of_odd (hodd : u / spacing u % 2 = 1) :
    2 * (u * d) < 2 * n + spacing u * d ∧ 2 * n < 2 * (u * d) + spacing u * d := by
  have hle := Nat.mul_le_mul_right d (reachBelow_le u)
  have hsub : (4 * u - reachBelow u) * d < 4 * n ∧ 4 * n < (4 * u + 2 * spacing u) * d := by
    rcases h with h | ⟨heven, -⟩
    · exact h
    · omega
  simp only [Nat.sub_mul, Nat.add_mul, Nat.mul_assoc] at hsub hle
  omega

/-- At a power of two values are no farther below than a quarter of the spacing. -/
theorem distance_of_two_pow (hu : u = 2 ^ u.log2) (hlog : 52 < u.log2) :
    4 * (u * d) ≤ 4 * n + spacing u * d := by
  have hreach : reachBelow u = spacing u := if_pos ⟨hu, hlog⟩
  unfold Reaches at h
  rw [hreach] at h
  have hsub : 4 * (u * d) - spacing u * d ≤ 4 * n := by
    rcases h with ⟨hl, -⟩ | ⟨-, h | h⟩
    all_goals simp only [Nat.sub_mul, Nat.add_mul, Nat.mul_assoc] at *
    all_goals omega
  omega

end Reaches

/-- A quotient at most half the spacing at its own place away from a multiple of that spacing rounds
to it. -/
theorem roundUnits_of_spacing {u n d k s : Nat} (hs : spacing (n / d) = s) (hu : u = k * s)
    (hlow : 2 * (u * d) ≤ 2 * n + s * d) (hhigh : 2 * n ≤ 2 * (u * d) + s * d)
    (hodd : k % 2 = 1 → 2 * (u * d) < 2 * n + s * d ∧ 2 * n < 2 * (u * d) + s * d) (hd : 0 < d) :
    roundUnits n d = u := by
  have hspos : 0 < s := hs ▸ spacing_pos _
  have hmul : k * (d * s) = u * d := by rw [hu]; ring
  unfold roundUnits
  rw [hs]
  dsimp only
  rw [roundDiv_eq (k := k) _ _ _ (Nat.mul_pos hd hspos), hu]
  all_goals rw [hmul, Nat.mul_comm d s]
  · exact hlow
  · exact hhigh
  · exact hodd

/-- Below a power of two the spacing is half as wide, and a quotient no farther than half of that
still rounds to the power. -/
theorem roundUnits_below_two_pow {n d j : Nat} (hlow : 2 ^ (54 + j) * d ≤ 2 * n + 2 ^ j * d)
    (hhigh : n < 2 ^ (53 + j) * d) (hd : 0 < d) : roundUnits n d = 2 ^ (53 + j) := by
  have h52 : 2 ^ (52 + j) * d = 2 ^ 52 * (2 ^ j * d) := by rw [Nat.pow_add, Nat.mul_assoc]
  have h53 : 2 ^ (53 + j) * d = 2 ^ 53 * (2 ^ j * d) := by rw [Nat.pow_add, Nat.mul_assoc]
  have h54 : 2 ^ (54 + j) * d = 2 ^ 54 * (2 ^ j * d) := by rw [Nat.pow_add, Nat.mul_assoc]
  have hspacing : spacing (n / d) = 2 ^ j := by
    refine spacing_eq (.inr ?_) ((Nat.div_lt_iff_lt_mul hd).mpr hhigh)
    rw [Nat.le_div_iff_mul_le hd]
    omega
  refine roundUnits_of_spacing (k := 2 ^ 53) hspacing (Nat.pow_add 2 53 j) ?_ ?_ ?_ hd
  · omega
  · omega
  · exact fun hodd => absurd hodd (by decide)

/-- A quotient within reach of a magnitude rounds to it. -/
theorem roundUnits_eq {u n d : Nat} (hu : u % spacing u = 0) (hd : 0 < d) (h : Reaches u n d) :
    roundUnits n d = u := by
  obtain ⟨j, hs, hlow, hhigh⟩ := exists_spacing u
  obtain ⟨hl, hh⟩ := h.distance
  have hodd := h.distance_of_odd
  obtain ⟨k, hk⟩ := Nat.dvd_of_mod_eq_zero hu
  rw [Nat.mul_comm] at hk
  rw [Nat.div_eq_of_eq_mul_left (spacing_pos u) hk] at hodd
  have hpow : ∀ i, 2 ^ (i + j) = 2 ^ i * spacing u := fun i => by rw [hs, Nat.pow_add]
  have hsd : 0 < spacing u * d := Nat.mul_pos (spacing_pos u) hd
  have hud : u * d = k * (spacing u * d) := by rw [← Nat.mul_assoc, ← hk]
  -- the next multiple of the spacing is not beyond the digits of the format
  have hkpow : k + 1 ≤ 2 ^ 53 := by
    rw [hk, hpow] at hhigh
    exact Nat.lt_of_mul_lt_mul_right hhigh
  have hnext : (k + 1) * (spacing u * d) ≤ 2 ^ 53 * (spacing u * d) := Nat.mul_le_mul_right _ hkpow
  have hquot : n / d < 2 ^ (53 + j) := by
    rw [Nat.div_lt_iff_lt_mul hd, hpow, Nat.mul_assoc]
    rw [Nat.add_mul] at hnext
    omega
  by_cases hq : j = 0 ∨ 2 ^ (52 + j) ≤ n / d
  · have hspacing : spacing (n / d) = spacing u := by rw [spacing_eq hq hquot, hs]
    exact roundUnits_of_spacing hspacing hk hl hh hodd hd
  -- the quotient lies below the least magnitude of this spacing, which `u` then is
  obtain ⟨hj, hlt⟩ := not_or.mp hq
  have hle : 2 ^ 52 ≤ k := by
    have := hlow.resolve_left hj
    rw [hk, hpow] at this
    exact Nat.le_of_mul_le_mul_right this (spacing_pos u)
  rw [Nat.not_le, Nat.div_lt_iff_lt_mul hd, hpow, Nat.mul_assoc] at hlt
  have hkeq : k = 2 ^ 52 := by
    by_contra hne
    have : (2 ^ 52 + 1) * (spacing u * d) ≤ k * (spacing u * d) :=
      Nat.mul_le_mul_right _ (by omega)
    rw [Nat.add_mul] at this
    omega
  obtain ⟨i, rfl⟩ := Nat.exists_eq_succ_of_ne_zero hj
  have hupow : u = 2 ^ (53 + i) := by
    rw [hk, hkeq, hs, ← Nat.pow_add]
    congr 1
    omega
  have hlog : u.log2 = 53 + i := by rw [hupow, Nat.log2_two_pow]
  have hfour := h.distance_of_two_pow (by rw [hlog, ← hupow]) (by omega)
  rw [hud, hkeq] at hfour
  rw [hupow]
  have hsi : spacing u * d = 2 * (2 ^ i * d) := by rw [hs, Nat.pow_succ]; ring
  refine roundUnits_below_two_pow ?_ ?_ hd
  · rw [Nat.pow_add, Nat.mul_assoc]
    omega
  · rw [Nat.pow_add, Nat.mul_assoc]
    omega

theorem reaches_mul_right {u n d c : Nat} (hc : 0 < c) :
    Reaches u (n * c) (d * c) ↔ Reaches u n d := by
  unfold Reaches
  simp only [← Nat.mul_assoc, Nat.mul_lt_mul_right hc, Nat.mul_right_cancel_iff hc]

/-- Reach is a property of the quotient. -/
theorem reaches_congr {u n d n' d' : Nat} (hd : 0 < d) (hd' : 0 < d') (h : n * d' = n' * d) :
    Reaches u n d ↔ Reaches u n' d' := by
  rw [← reaches_mul_right hd', ← reaches_mul_right (n := n') hd, h, Nat.mul_comm d d']

/-- Zeros at the end of the digits do not change what they round to. -/
theorem roundsTo_shift (u d k : Nat) (e : Int) :
    roundsTo u (d * 10 ^ k) (e - k) = true ↔ roundsTo u d e = true := by
  rw [roundsTo_iff, roundsTo_iff]
  have hten : ∀ i, 0 < 10 ^ i := fun i => Nat.pow_pos (by decide)
  refine reaches_congr (hten _) (hten _) ?_
  have hexp : k + (e - k).toNat + (-e).toNat = e.toNat + (-(e - k)).toNat := by omega
  calc d * 10 ^ k * one * 10 ^ (e - k).toNat * 10 ^ (-e).toNat
      = d * one * 10 ^ (k + (e - k).toNat + (-e).toNat) := by rw [Nat.pow_add, Nat.pow_add]; ring
    _ = d * one * 10 ^ e.toNat * 10 ^ (-(e - k)).toNat := by rw [hexp, Nat.pow_add]; ring

theorem spacing_le {u : Nat} (hu : 0 < u) : spacing u ≤ u := by
  obtain ⟨j, hs, hlow, -⟩ := exists_spacing u
  rw [hs]
  rcases hlow with rfl | hlow
  · exact hu
  · exact Nat.le_trans (Nat.pow_le_pow_right (by decide) (by omega)) hlow

namespace Reaches

variable {u n d : Nat} (hu : 0 < u) (h : Reaches u n d)
include hu h

theorem half_le : u * d ≤ 2 * n := by
  have := Nat.mul_le_mul_right d (spacing_le hu)
  have := h.distance
  omega

theorem le_double : n ≤ 2 * (u * d) := by
  have := Nat.mul_le_mul_right d (spacing_le hu)
  have := h.distance
  omega

end Reaches

/-! ## Reading a numeral -/

theorem one_pos : 0 < one := Nat.two_pow_pos _

theorem bound_eq : bound = 2 ^ wholePlaces * one := by
  unfold bound one
  rw [Nat.pow_add, Nat.mul_comm]

/-- A finite magnitude is less than a power of ten that exceeds all of them. -/
theorem length_le_of_reaches {u d p m a : Nat} (hu : u < bound) (hd : 0 < d)
    (ha : 2 * 2 ^ wholePlaces ≤ 10 ^ a) (h : d * one * 10 ^ p ≤ 2 * (u * 10 ^ m)) :
    (decimalDigits d).length + p ≤ a + m := by
  by_contra hlt
  have hdigits : 10 ^ ((decimalDigits d).length - 1) ≤ d :=
    pow_le_of_lt_length_decimalDigits hd (by have := length_decimalDigits_pos d; omega)
  have hten : 10 ^ (a + m) ≤ d * 10 ^ p := calc
    10 ^ (a + m) ≤ 10 ^ ((decimalDigits d).length - 1 + p) :=
      Nat.pow_le_pow_right (by decide) (by omega)
    _ = 10 ^ ((decimalDigits d).length - 1) * 10 ^ p := Nat.pow_add ..
    _ ≤ d * 10 ^ p := Nat.mul_le_mul_right _ hdigits
  have hbound : u * 10 ^ m < 2 ^ wholePlaces * one * 10 ^ m := by
    rw [← bound_eq]
    exact (Nat.mul_lt_mul_right (Nat.pow_pos (by decide))).mpr hu
  have hlarge : 10 ^ a * (one * 10 ^ m) < 2 * 2 ^ wholePlaces * (one * 10 ^ m) := calc
    10 ^ a * (one * 10 ^ m) = one * 10 ^ (a + m) := by rw [Nat.pow_add]; ring
    _ ≤ one * (d * 10 ^ p) := Nat.mul_le_mul_left _ hten
    _ = d * one * 10 ^ p := by ring
    _ ≤ 2 * (u * 10 ^ m) := h
    _ < 2 * (2 ^ wholePlaces * one * 10 ^ m) := (Nat.mul_lt_mul_left (by decide)).mpr hbound
    _ = 2 * 2 ^ wholePlaces * (one * 10 ^ m) := by simp only [Nat.mul_assoc]
  exact Nat.not_lt_of_le ha (Nat.lt_of_mul_lt_mul_right hlarge)

/-- A magnitude that is not zero exceeds a power of ten that is less than all of them. -/
theorem lt_length_of_reaches {u d p m a : Nat} (hu : 0 < u) (ha : 2 * one ≤ 10 ^ a)
    (h : u * 10 ^ m ≤ 2 * (d * one * 10 ^ p)) : m < (decimalDigits d).length + p + a := by
  by_contra hge
  have htwo : 0 < 2 * one := Nat.mul_pos (by decide) one_pos
  have hsmall : 10 ^ a * 10 ^ ((decimalDigits d).length + p) <
      2 * one * 10 ^ ((decimalDigits d).length + p) := calc
    10 ^ a * 10 ^ ((decimalDigits d).length + p) ≤ 10 ^ m := by
      rw [← Nat.pow_add]
      exact Nat.pow_le_pow_right (by decide) (by omega)
    _ ≤ u * 10 ^ m := Nat.le_mul_of_pos_left _ hu
    _ ≤ 2 * (d * one * 10 ^ p) := h
    _ = d * (2 * one * 10 ^ p) := by ring
    _ < 10 ^ (decimalDigits d).length * (2 * one * 10 ^ p) :=
      (Nat.mul_lt_mul_right (Nat.mul_pos htwo (Nat.pow_pos (by decide)))).mpr
        (lt_pow_length_decimalDigits d)
    _ = 2 * one * 10 ^ ((decimalDigits d).length + p) := by rw [Nat.pow_add]; ring
  exact Nat.not_lt_of_le ha (Nat.lt_of_mul_lt_mul_right hsmall)

theorem pos_of_roundsTo {u d : Nat} {e : Int} (hu : 0 < u) (h : roundsTo u d e = true) : 0 < d := by
  have hhalf := (roundsTo_iff.mp h).half_le hu
  have hscaled : 0 < u * 10 ^ (-e).toNat := Nat.mul_pos hu (Nat.pow_pos (by decide))
  rcases Nat.eq_zero_or_pos d with rfl | hd
  · rw [Nat.zero_mul, Nat.zero_mul] at hhalf
    omega
  · exact hd

/-- A numeral whose exponent is not out of bounds is rounded once. -/
theorem ofNumeral_eq_ofUnits {d : Nat} {e : Int} (hd : 0 < d)
    (hlow : -330 ≤ e + (decimalDigits d).length) (hhigh : e + (decimalDigits d).length ≤ 310)
    (negative : Bool) : ofNumeral (.finite negative d e) =
      ofUnits negative (roundUnits (d * one * 10 ^ e.toNat) (10 ^ (-e).toNat)) := by
  unfold decimalDigits at hlow hhigh
  unfold ofNumeral
  dsimp only
  rw [if_neg (Nat.ne_of_gt hd), if_neg (by omega), if_neg (by omega)]
  by_cases he : 0 ≤ e
  · rw [if_pos he, ofQuotient, ofUnitQuotient,
      show one * (d * 10 ^ e.toNat) = d * one * 10 ^ e.toNat by ring,
      show (-e).toNat = 0 by omega, Nat.pow_zero]
  · rw [if_neg he, ofQuotient, ofUnitQuotient, Nat.mul_comm one, show e.toNat = 0 by omega,
      Nat.pow_zero, Nat.mul_one]

/-- A numeral that rounds to a magnitude reads as this magnitude: its exponent is not out of
bounds, for the magnitude is neither zero nor an infinity. -/
theorem ofNumeral_eq {u d : Nat} {e : Int} (hu : 0 < u) (hrep : Representable u)
    (h : roundsTo u d e = true) (negative : Bool) :
    ofNumeral (.finite negative d e) = .finite negative u hrep := by
  have hreach := roundsTo_iff.mp h
  have hd := pos_of_roundsTo hu h
  have hhigh := length_le_of_reaches hrep.1 hd two_mul_two_pow_le (hreach.le_double hu)
  have hlow := lt_length_of_reaches hu two_mul_one_le (hreach.half_le hu)
  have hplaces : pointPlaces = 330 := rfl
  rw [ofNumeral_eq_ofUnits hd (by omega) (by omega),
    roundUnits_eq hrep.2 (Nat.pow_pos (by decide)) hreach]
  exact dif_pos hrep

/-! ## Natural numbers -/

theorem ofUnits_zero : ofUnits false 0 = zero := dif_pos representable_zero

theorem ofNat_zero : ofNat 0 = zero := by
  have hround : roundUnits (one * 0) 1 = 0 := by
    unfold roundUnits roundDiv
    simp
  unfold ofNat ofQuotient ofUnitQuotient
  rw [hround]
  exact ofUnits_zero

/-- No natural number is below zero, not even one out of range. -/
theorem ofNat_lt_zero (n : Nat) : (ofNat n).lt 0 = false := by
  have hzero : (0 : Binary64) = zero := ofNat_zero
  rw [hzero]
  unfold ofNat ofQuotient ofUnitQuotient ofUnits
  by_cases h : Representable (roundUnits (one * n) 1)
  · rw [dif_pos h]
    simp [lt, rank, signedUnits, zero]
  · rw [dif_neg h]
    rfl

theorem one_lt_zero : (1 : Binary64).lt 0 = false := ofNat_lt_zero 1

end Binary64

end StillVideo
