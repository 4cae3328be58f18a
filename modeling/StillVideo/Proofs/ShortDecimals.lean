import StillVideo.Number.Decimal
import StillVideo.Proofs.NearestNumbers
import StillVideo.Proofs.NumberReading

/-!
# Short decimals

Magnitudes of full precision tell all numbers of at most fifteen digits apart: on a grid wider than
the spacing only one multiple rounds to a magnitude (`eq_of_roundsTo`), so the digits that are
chosen for it are those that were rounded, up to zeros at their end (`exists_shortest_eq`). A number
of a graph therefore denotes a short decimal exactly where it is what the decimal reads as
(`denoted?_graphNumber_eq_iff`).
-/

namespace StillVideo

attribute [local instance (2000)] instPowNat

namespace Binary64

variable {u d g : Nat} {e : Int}

/-- A multiple of a grid that rounds to a magnitude is a neighbour of it, the only one that does, if
the grid is wider than the spacing. -/
theorem neighbour_of_roundsTo (hwide : spacing u * 10 ^ (-e).toNat < one * 10 ^ e.toNat)
    (h : roundsTo u d e = true) : d = gridFloor u e ∨ d = gridFloor u e + 1 := by
  obtain ⟨hlow, hhigh⟩ := (roundsTo_iff.mp h).distance
  have hgrid : 0 < one * 10 ^ e.toNat := Nat.mul_pos one_pos (Nat.pow_pos (by decide))
  have hfloor := Nat.div_add_mod (u * 10 ^ (-e).toNat) (one * 10 ^ e.toNat)
  have hmod := Nat.mod_lt (u * 10 ^ (-e).toNat) hgrid
  rw [← gridFloor, Nat.mul_comm] at hfloor
  rw [Nat.mul_assoc d] at hlow hhigh
  generalize one * 10 ^ e.toNat = G at *
  generalize gridFloor u e = f at *
  have hle : d ≤ f + 1 := by
    by_contra hlt
    have := Nat.mul_le_mul_right G (show f + 2 ≤ d by omega)
    rw [Nat.add_mul] at this
    omega
  have hge : f ≤ d := by
    by_contra hlt
    have := Nat.mul_le_mul_right G (show d + 1 ≤ f by omega)
    rw [Nat.add_mul] at this
    omega
  omega

theorem eq_of_roundsTo {d' : Nat} (hwide : spacing u * 10 ^ (-e).toNat < one * 10 ^ e.toNat)
    (h : roundsTo u d e = true) (h' : roundsTo u d' e = true) : d = d' := by
  obtain ⟨hlow, hhigh⟩ := (roundsTo_iff.mp h).distance
  obtain ⟨hlow', hhigh'⟩ := (roundsTo_iff.mp h').distance
  rw [Nat.mul_assoc d] at hlow hhigh
  rw [Nat.mul_assoc d'] at hlow' hhigh'
  generalize one * 10 ^ e.toNat = G at *
  have hle : ∀ {a b : Nat},
      2 * (a * G) ≤ 2 * (b * G) + 2 * (spacing u * 10 ^ (-e).toNat) → a ≤ b := by
    intro a b hab
    by_contra hlt
    have := Nat.mul_le_mul_right G (show b + 1 ≤ a by omega)
    rw [Nat.add_mul] at this
    omega
  exact Nat.le_antisymm (hle (by omega)) (hle (by omega))

theorem onGrid?_eq_some (hwide : spacing u * 10 ^ (-e).toNat < one * 10 ^ e.toNat)
    (h : roundsTo u d e = true) : onGrid? u e = some d := by
  have honly : ∀ d', d' ≠ d → roundsTo u d' e = false := fun d' hne =>
    Bool.eq_false_iff.mpr fun h' => hne (eq_of_roundsTo hwide h' h)
  unfold onGrid?
  dsimp only
  rcases neighbour_of_roundsTo hwide h with rfl | rfl
  · rw [h, honly _ (by omega)]
    rfl
  · rw [h, honly _ (by omega)]
    rfl

/-- A multiple of a grid that rounds to a magnitude is what is chosen for it, if the grid is wider
than the spacing and among those that are tried. -/
theorem shortestFrom_eq {n : Nat} {g : Int}
    (hwide : spacing u * 10 ^ (-g).toNat < one * 10 ^ g.toNat) (h : roundsTo u d g = true)
    (hg : g ≤ e) (hn : e < g + n) :
    ∃ k : Nat, (shortestFrom u n e).2 = g + k ∧ d = (shortestFrom u n e).1 * 10 ^ k := by
  induction n generalizing e with
  | zero => omega
  | succ n ih =>
    rw [shortestFrom]
    cases hgrid : onGrid? u e with
    | some d' =>
      have hround := roundsTo_of_onGrid? hgrid
      obtain ⟨k, hk⟩ := Int.eq_ofNat_of_zero_le (Int.sub_nonneg_of_le hg)
      obtain rfl : e = g + k := by omega
      rw [← roundsTo_shift u d' k, Int.add_sub_cancel] at hround
      exact ⟨k, rfl, eq_of_roundsTo hwide h hround⟩
    | none =>
      have hne : e ≠ g := by
        rintro rfl
        rw [onGrid?_eq_some hwide h] at hgrid
        exact absurd hgrid (by simp)
      exact ih (by omega) (by omega)

/-- The first digit of a magnitude stands where its decimal point says. -/
theorem lt_of_decimalPoint {len : Nat} (h : decimalPoint u = len + 1 - pointPlaces) :
    u * 10 ^ pointPlaces < one * 10 ^ (len + 1) := by
  have hlen : (decimalDigits (u * 10 ^ pointPlaces / one)).length = len + 1 := by
    unfold decimalPoint at h
    omega
  have hlt := lt_pow_length_decimalDigits (u * 10 ^ pointPlaces / one)
  rwa [hlen, Nat.div_lt_iff_lt_mul one_pos, Nat.mul_comm (10 ^ (len + 1))] at hlt

/-- Fifteen digits that round to a magnitude of full precision are on a grid wider than its
spacing. -/
theorem wide_of_roundsTo (hfull : 2 ^ 52 ≤ u) (hd : d < 10 ^ 15) (h : roundsTo u d e = true) :
    spacing u * 10 ^ (-e).toNat < one * 10 ^ e.toNat := by
  have hhalf := (roundsTo_iff.mp h).half_le (Nat.lt_of_lt_of_le (by decide) hfull)
  obtain ⟨j, hs, hlow, -⟩ := exists_spacing u
  have hspacing : 2 ^ 52 * spacing u ≤ u := by
    rw [hs, ← Nat.pow_add]
    rcases hlow with rfl | hlow
    · exact hfull
    · exact hlow
  have hgrid : 0 < one * 10 ^ e.toNat := Nat.mul_pos one_pos (Nat.pow_pos (by decide))
  have hscaled := Nat.mul_le_mul_right (10 ^ (-e).toNat) hspacing
  have hdigits := (Nat.mul_lt_mul_right hgrid).mpr hd
  rw [Nat.mul_assoc] at hhalf hscaled
  omega

theorem le_of_pow_lt {a b : Nat} (h : 10 ^ a < 2 * 10 ^ b) : a ≤ b := by
  by_contra hlt
  have := Nat.pow_le_pow_right (n := 10) (by decide) (show b + 1 ≤ a by omega)
  rw [Nat.pow_succ] at this
  omega

/-- Fifteen digits that round to a magnitude of full precision are on one of the grids that are
tried. -/
theorem grid_of_roundsTo (hu : 0 < u) (hlow : 10 ^ 14 ≤ d) (hhigh : d < 10 ^ 15)
    (h : roundsTo u d e = true) : e ≤ decimalPoint u - 1 ∧ decimalPoint u - 1 < e + (18 : Nat) := by
  obtain ⟨len, hpoint, hle⟩ := exists_decimalPoint hu
  have hlt := lt_of_decimalPoint hpoint
  have hhalf := (roundsTo_iff.mp h).half_le hu
  have hdouble := (roundsTo_iff.mp h).le_double hu
  have hten : ∀ i, 0 < 10 ^ i := fun i => Nat.pow_pos (by decide)
  have hfirst : 14 + e.toNat + pointPlaces ≤ len + 1 + (-e).toNat := by
    refine le_of_pow_lt (Nat.lt_of_mul_lt_mul_left (a := one) ?_)
    calc one * 10 ^ (14 + e.toNat + pointPlaces)
        = 10 ^ 14 * (one * 10 ^ e.toNat) * 10 ^ pointPlaces := by
          rw [Nat.pow_add, Nat.pow_add]; ring
      _ ≤ d * (one * 10 ^ e.toNat) * 10 ^ pointPlaces :=
          Nat.mul_le_mul_right _ (Nat.mul_le_mul_right _ hlow)
      _ ≤ 2 * (u * 10 ^ (-e).toNat) * 10 ^ pointPlaces := by
          rw [← Nat.mul_assoc d]
          exact Nat.mul_le_mul_right _ hdouble
      _ = 2 * 10 ^ (-e).toNat * (u * 10 ^ pointPlaces) := by ring
      _ < 2 * 10 ^ (-e).toNat * (one * 10 ^ (len + 1)) :=
          (Nat.mul_lt_mul_left (Nat.mul_pos (by decide) (hten _))).mpr hlt
      _ = one * (2 * 10 ^ (len + 1 + (-e).toNat)) := by rw [Nat.pow_add _ (len + 1)]; ring
  have hlast : len + (-e).toNat ≤ 15 + e.toNat + pointPlaces := by
    refine le_of_pow_lt (Nat.lt_of_mul_lt_mul_left (a := one) ?_)
    calc one * 10 ^ (len + (-e).toNat)
        = one * 10 ^ len * 10 ^ (-e).toNat := by rw [Nat.pow_add]; ring
      _ ≤ u * 10 ^ pointPlaces * 10 ^ (-e).toNat := Nat.mul_le_mul_right _ hle
      _ = u * 10 ^ (-e).toNat * 10 ^ pointPlaces := by ring
      _ ≤ 2 * (d * one * 10 ^ e.toNat) * 10 ^ pointPlaces := Nat.mul_le_mul_right _ hhalf
      _ = d * (2 * one * 10 ^ e.toNat * 10 ^ pointPlaces) := by ring
      _ < 10 ^ 15 * (2 * one * 10 ^ e.toNat * 10 ^ pointPlaces) :=
          (Nat.mul_lt_mul_right (Nat.mul_pos (Nat.mul_pos (Nat.mul_pos (by decide) one_pos)
            (hten _)) (hten _))).mpr hhigh
      _ = one * (2 * 10 ^ (15 + e.toNat + pointPlaces)) := by
          rw [Nat.pow_add, Nat.pow_add]; ring
  have hplaces : pointPlaces = 330 := rfl
  omega

/-- With zeros at their end fewer digits become fifteen. -/
theorem exists_scaled (hpos : 0 < d) (hd : d < 10 ^ 15) :
    ∃ i, 10 ^ 14 ≤ d * 10 ^ i ∧ d * 10 ^ i < 10 ^ 15 := by
  have hlen := length_decimalDigits_pos d
  have hle := (length_decimalDigits_le_iff (n := d) (k := 15) (by decide)).mpr hd
  refine ⟨15 - (decimalDigits d).length, ?_, ?_⟩
  · calc 10 ^ 14 = 10 ^ ((decimalDigits d).length - 1) * 10 ^ (15 - (decimalDigits d).length) := by
          rw [← Nat.pow_add]
          congr 1
          omega
      _ ≤ _ := Nat.mul_le_mul_right _ (pow_le_of_lt_length_decimalDigits hpos (by omega))
  · calc d * 10 ^ (15 - (decimalDigits d).length)
        < 10 ^ (decimalDigits d).length * 10 ^ (15 - (decimalDigits d).length) :=
          (Nat.mul_lt_mul_right (Nat.pow_pos (by decide))).mpr (lt_pow_length_decimalDigits d)
      _ = 10 ^ 15 := by
          rw [← Nat.pow_add]
          congr 1
          omega

/-- **Short decimals.** At most fifteen digits that round to a magnitude of full precision are the
shortest digits of it, except for zeros at their end. -/
theorem exists_shortest_eq (hfull : 2 ^ 52 ≤ u) (hd : d < 10 ^ 15) (h : roundsTo u d e = true) :
    ∃ i k : Nat, (shortest u).2 + i = e + k ∧ d * 10 ^ i = (shortest u).1 * 10 ^ k := by
  have hu : 0 < u := Nat.lt_of_lt_of_le (by decide) hfull
  obtain ⟨i, hlow, hhigh⟩ := exists_scaled (pos_of_roundsTo hu h) hd
  have hshift := (roundsTo_shift u d i e).mpr h
  obtain ⟨hg, hn⟩ := grid_of_roundsTo hu hlow hhigh hshift
  obtain ⟨k, hk, hdigits⟩ :=
    shortestFrom_eq (n := 18) (wide_of_roundsTo hfull hhigh hshift) hshift hg hn
  refine ⟨i, k, ?_, hdigits⟩
  unfold shortest
  omega

end Binary64

/-! ## Values -/

/-- A number with the sign in front of it. -/
def signed (negative : Bool) (v : ℚ) : ℚ := if negative then -v else v

/-- The number that a numeral writes. -/
def Numeral.value? : Numeral → Option ℚ
  | .finite negative c e => some (signed negative (written c e))
  | _ => none

/-- The number that a decimal is. -/
def Decimal.value? : Decimal → Option ℚ
  | .finite negative c e => some (signed negative (written c e))
  | _ => none

/-- The number that a floating number is; zero for one that is not finite. -/
def Binary64.value (x : Binary64) : ℚ := x.signedUnits / one

/-- The number that a text denotes, exactly. -/
def denoted? (s : String) : Option ℚ := (Numeral.read? s.toList).bind Numeral.value?

/-- The number can be written with at most fifteen digits. -/
def IsShort (v : ℚ) : Prop := ∃ c e, c < 10 ^ 15 ∧ written c e = v

/-- Zero, or a number from the least magnitude that has all its digits up to `10 ^ 308`. -/
def IsOrdinary (v : ℚ) : Prop := v = 0 ∨ 2 ^ (-1022 : ℤ) ≤ v ∧ v ≤ 10 ^ 308

theorem IsShort.nonneg {v : ℚ} (h : IsShort v) : 0 ≤ v := by
  obtain ⟨c, e, -, rfl⟩ := h
  exact written_nonneg c e

theorem IsOrdinary.nonneg {v : ℚ} (h : IsOrdinary v) : 0 ≤ v := by
  rcases h with rfl | ⟨hlow, -⟩
  · exact le_refl 0
  · exact (zpow_nonneg (by norm_num) _).trans hlow

theorem IsOrdinary.le {v : ℚ} (h : IsOrdinary v) : v ≤ 10 ^ 308 := by
  rcases h with rfl | ⟨-, hhigh⟩
  · positivity
  · exact hhigh

theorem exists_of_value? {d : Decimal} {v : ℚ} (h : d.value? = some v) (hv : 0 ≤ v) :
    ∃ negative c e, d = .finite negative c e ∧ (negative = true → c = 0) ∧ written c e = v := by
  cases d with
  | nan => exact absurd h (by simp [Decimal.value?])
  | infinite => exact absurd h (by simp [Decimal.value?])
  | finite negative c e =>
    have hvalue : signed negative (written c e) = v := Option.some.inj h
    cases negative with
    | false => exact ⟨false, c, e, rfl, fun hs => absurd hs Bool.false_ne_true, hvalue⟩
    | true =>
      have hneg : -written c e = v := hvalue
      have hzero : written c e = 0 := by
        have := written_nonneg c e
        linarith
      exact ⟨true, c, e, rfl, fun _ => written_eq_zero.mp hzero, by linarith⟩

namespace Binary64

theorem value_finite {s : Bool} {u : Nat} (hu : Representable u) (hs : s = true → u = 0) :
    value (.finite s u hu) * one = u := by
  have hone : (one : ℚ) ≠ 0 := by exact_mod_cast one_pos.ne'
  have hunits : ((signedUnits (.finite s u hu) : Int) : ℚ) = u := by
    cases s with
    | true =>
      obtain rfl := hs rfl
      simp [signedUnits]
    | false => simp [signedUnits]
  unfold value
  rw [hunits, div_mul_cancel₀ _ hone]

/-! ## Numbers in graphs -/

/-- Rounding is a matter of the number that digits write. -/
theorem roundsTo_congr {u c c' : Nat} {e e' : Int} (h : written c e = written c' e') :
    roundsTo u c e = true ↔ roundsTo u c' e' = true := by
  have hten : ∀ i : Nat, 0 < 10 ^ i := fun i => Nat.pow_pos (by decide)
  have hten' : ∀ i : Nat, ((10 ^ i : Nat) : ℚ) ≠ 0 := fun i => by exact_mod_cast (hten i).ne'
  rw [written_eq_div, written_eq_div, div_eq_div_iff (hten' _) (hten' _)] at h
  have hnat : c * 10 ^ e.toNat * 10 ^ (-e').toNat = c' * 10 ^ e'.toNat * 10 ^ (-e).toNat := by
    exact_mod_cast h
  rw [roundsTo_iff, roundsTo_iff]
  refine reaches_congr (hten _) (hten _) ?_
  rw [Nat.mul_right_comm c, Nat.mul_right_comm c', Nat.mul_right_comm _ one, hnat,
    Nat.mul_right_comm _ one]

/-- The text of a number in a graph denotes its shortest digits. -/
theorem denoted?_graphNumber {u : Nat} (hu : 0 < u) (hrep : Representable u) (negative : Bool) :
    denoted? (graphNumber (.finite negative u hrep)) =
      some (signed negative (written (shortest u).1 (shortest u).2)) := by
  obtain ⟨m, n, k, hdigits, hread⟩ := exists_read?_graphNumber hu hrep negative
  have hvalue : written (shortest u).1 (shortest u).2 =
      written (m * 10 ^ k) ((shortest u).2 + n - k) := by
    rw [written_shift, hdigits, ← written_shift m n, Int.add_sub_cancel]
  unfold denoted?
  rw [hread, hvalue]
  rfl

theorem denoted?_graphNumber_zero (negative : Bool) (hrep : Representable 0) :
    denoted? (graphNumber (.finite negative 0 hrep)) = some 0 := by
  rw [graphNumber_zero]
  show some (signed false (written 0 0)) = some 0
  simp [signed, written]

/-- **Short decimals.** Fifteen digits that round to a magnitude of full precision are what its text
denotes. -/
theorem written_shortest {u c : Nat} {e : Int} (hfull : 2 ^ 52 ≤ u) (hc : c < 10 ^ 15)
    (h : roundsTo u c e = true) : written (shortest u).1 (shortest u).2 = written c e := by
  obtain ⟨i, k, hexp, hdigits⟩ := exists_shortest_eq hfull hc h
  rw [← written_shift c i, hdigits, ← written_shift (shortest u).1 k]
  congr 1
  omega

theorem full_of_le {v : ℚ} (h : 2 ^ (-1022 : ℤ) ≤ v) : 2 ^ 52 ≤ v * one := by
  have hone : (one : ℚ) = 2 ^ (1074 : ℤ) := by
    rw [one, Nat.cast_pow]
    exact (zpow_natCast 2 unitPlaces).symm
  calc (2 : ℚ) ^ 52 = 2 ^ (-1022 : ℤ) * one := by
        rw [hone, ← zpow_add₀ (by norm_num)]
        norm_num
    _ ≤ v * one := mul_le_mul_of_nonneg_right h (Nat.cast_nonneg one)

theorem unsignedZero_zero (negative : Bool) (hrep : Representable 0) :
    unsignedZero (.finite negative 0 hrep) = zero := by
  unfold unsignedZero
  exact if_pos rfl

theorem unsignedZero_of_pos {u : Nat} (hu : 0 < u) {negative : Bool} {hrep : Representable u} :
    unsignedZero (.finite negative u hrep) = .finite negative u hrep := by
  unfold unsignedZero
  exact if_neg (Nat.ne_of_gt hu)

/-- **Exact texts.** A number that is not negative denotes a short decimal exactly where it is what
the decimal reads as. -/
theorem denoted?_graphNumber_eq_iff {s : Bool} {u c : Nat} {e : Int} (hrep : Representable u)
    (hs : s = true → u = 0) (hshort : IsShort (written c e)) (hrange : IsOrdinary (written c e)) :
    denoted? (graphNumber (.finite s u hrep)) = some (written c e) ↔
      ofNumeral (.finite false c e) = unsignedZero (.finite s u hrep) := by
  rcases Nat.eq_zero_or_pos u with rfl | hu
  · rw [denoted?_graphNumber_zero, unsignedZero_zero]
    constructor
    · intro h
      obtain rfl := written_eq_zero.mp (Option.some.inj h).symm
      rw [ofNumeral]
      exact (if_pos rfl).trans ofUnits_zero
    · intro h
      rcases hrange with hzero | ⟨hlow, hhigh⟩
      · rw [hzero]
      · obtain ⟨u, hu, hread, hfull, -⟩ := exists_roundsTo (full_of_le hlow) hhigh false
        rw [hread] at h
        injection h with _ hzero
        omega
  · obtain rfl : s = false := Bool.eq_false_iff.mpr fun h => Nat.ne_of_gt hu (hs h)
    rw [denoted?_graphNumber hu, unsignedZero_of_pos hu]
    constructor
    · intro h
      have hvalue : written (shortest u).1 (shortest u).2 = written c e := Option.some.inj h
      exact ofNumeral_eq hu hrep ((roundsTo_congr hvalue).mp (roundsTo_shortest hu)) false
    · intro h
      rcases hrange with hzero | ⟨hlow, hhigh⟩
      · obtain rfl := written_eq_zero.mp hzero
        rw [ofNumeral, if_pos rfl, ofUnits_zero] at h
        injection h with _ hzero
        omega
      · obtain ⟨u', hu', hread, hfull, hround⟩ := exists_roundsTo (full_of_le hlow) hhigh false
        rw [hread] at h
        injection h with _ hunits
        subst hunits
        obtain ⟨c', e', hc, hvalue⟩ := hshort
        have hround' := (roundsTo_congr hvalue.symm).mp hround
        rw [← hvalue, ← written_shortest hfull hc hround']
        rfl

end Binary64

end StillVideo
