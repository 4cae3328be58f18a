import StillVideo.Proofs.DecimalRange
import StillVideo.Proofs.RealTexts
import StillVideo.Proofs.WholeTexts

/-!
# Fewest digits

No decimal with fewer digits than the shortest ones rounds to a magnitude
(`length_significant_shortest_le`). What rounds to a magnitude has no gaps (`IsReached.between`), so
a grid on which neither neighbour of the magnitude serves has nothing that does, and the first grid
that serves is the coarsest of all.
-/

namespace StillVideo

attribute [local instance (2000)] instPowNat

/-! ## Significant digits -/

/-- The digits of a number without the zeros at their end. -/
def significant (m : Nat) : List Char := Binary64.magnitudeText.trimZeros (decimalDigits m)

theorem length_significant_le (m : Nat) : (significant m).length ≤ (decimalDigits m).length := by
  unfold significant Binary64.magnitudeText.trimZeros
  rw [List.length_reverse]
  exact (List.dropWhile_sublist _).length_le.trans (List.length_reverse).le

theorem significant_mul_pow {m : Nat} (hm : 0 < m) (k : Nat) :
    significant (m * 10 ^ k) = significant m := by
  unfold significant Binary64.magnitudeText.trimZeros
  rw [decimalDigits_mul_pow hm, List.reverse_append, List.reverse_replicate,
    List.dropWhile_append_of_pos]
  intro c hc
  rw [(List.mem_replicate.mp hc).2]
  rfl

/-- A number up to `10 ^ n` has at most `n` significant digits. -/
theorem length_significant_le_of_le {m n : Nat} (hn : 0 < n) (h : m ≤ 10 ^ n) :
    (significant m).length ≤ n := by
  rcases Nat.lt_or_eq_of_le h with hlt | rfl
  · exact (length_significant_le m).trans ((length_decimalDigits_le_iff hn).mpr hlt)
  · rw [← Nat.one_mul (10 ^ n), significant_mul_pow Nat.one_pos]
    exact (length_significant_le 1).trans hn

/-- The significant digits are those of a number, times a power of ten. -/
theorem exists_significant {c : Nat} (hc : 0 < c) :
    ∃ m k, c = m * 10 ^ k ∧ significant c = decimalDigits m := by
  have hvalue : digitsValue (decimalDigits c) ≠ 0 := by
    rw [digitsValue_decimalDigits]
    exact Nat.ne_of_gt hc
  obtain ⟨front, last, k, -, htrim, hdigits⟩ := Binary64.exists_trimZeros hvalue
  have hsplit : c = digitsValue (front ++ [last]) * 10 ^ k := by
    have := congrArg digitsValue hdigits
    rwa [digitsValue_decimalDigits, digitsValue_append, digitsValue_zeros, List.length_replicate,
      Nat.add_zero] at this
  have hpos : 0 < digitsValue (front ++ [last]) := by
    refine Nat.pos_of_ne_zero fun hzero => Nat.ne_of_gt hc ?_
    rw [hsplit, hzero, Nat.zero_mul]
  refine ⟨_, k, hsplit, ?_⟩
  rw [hsplit, decimalDigits_mul_pow hpos] at hdigits
  exact htrim.trans (List.append_cancel_right hdigits).symm

namespace Binary64

attribute [local irreducible] one bound

/-! ## What rounds to a magnitude -/

/-- So many units round to a magnitude. -/
def IsReached (u : Nat) (v : ℚ) : Prop :=
  ((4 * u - reachBelow u : Nat) : ℚ) < 4 * v ∧ 4 * v < (4 * u + 2 * spacing u : Nat) ∨
    u / spacing u % 2 = 0 ∧
      (4 * v = (4 * u - reachBelow u : Nat) ∨ 4 * v = (4 * u + 2 * spacing u : Nat))

variable {u c d : Nat} {e g : Int} {v w : ℚ}

theorem reaches_iff_isReached {n : Nat} (hd : 0 < d) : Reaches u n d ↔ IsReached u (n / d) := by
  have hd' : (0 : ℚ) < d := Nat.cast_pos.mpr hd
  have hscale : (4 : ℚ) * (n / d) = (4 * n : Nat) / d := by push_cast; ring
  unfold Reaches IsReached
  rw [hscale, lt_div_iff₀ hd', div_lt_iff₀ hd', div_eq_iff hd'.ne', div_eq_iff hd'.ne']
  norm_cast

theorem roundsTo_iff_isReached : roundsTo u c e = true ↔ IsReached u (written c e * one) := by
  have hunits : written c e * one =
      ((c * one * 10 ^ e.toNat : Nat) : ℚ) / ((10 ^ (-e).toNat : Nat) : ℚ) := by
    rw [written_eq_div]
    push_cast
    ring
  rw [roundsTo_iff, reaches_iff_isReached (Nat.pow_pos (by decide)), hunits]

/-- What lies between a magnitude and something that rounds to it rounds to it as well. -/
theorem IsReached.between (hu : 0 < u) (h : IsReached u v) (hw : v ≤ w ∧ w ≤ u ∨ u ≤ w ∧ w ≤ v) :
    IsReached u w := by
  have hspacing := spacing_pos u
  have hbelow : ((4 * u - reachBelow u : Nat) : ℚ) < 4 * u := by
    have := spacing_le_reachBelow u
    exact_mod_cast (show 4 * u - reachBelow u < 4 * u by omega)
  have habove : 4 * (u : ℚ) < (4 * u + 2 * spacing u : Nat) := by
    exact_mod_cast (show 4 * u < 4 * u + 2 * spacing u by omega)
  unfold IsReached at *
  generalize ((4 * u - reachBelow u : Nat) : ℚ) = low at *
  generalize ((4 * u + 2 * spacing u : Nat) : ℚ) = high at *
  rcases h with ⟨hlow, hhigh⟩ | ⟨heven, heq | heq⟩
  · refine .inl ?_
    rcases hw with hw | hw <;> constructor <;> linarith
  · rcases hw with hw | hw
    · rcases hw.1.eq_or_lt with rfl | hlt
      · exact .inr ⟨heven, .inl heq⟩
      · exact .inl ⟨by linarith, by linarith⟩
    · linarith
  · rcases hw with hw | hw
    · linarith
    · rcases hw.2.eq_or_lt with rfl | hlt
      · exact .inr ⟨heven, .inr heq⟩
      · exact .inl ⟨by linarith, by linarith⟩

theorem roundsTo_between (hu : 0 < u) (h : roundsTo u c e = true)
    (hd : written c e ≤ written d g ∧ written d g * one ≤ u ∨
      (u : ℚ) ≤ written d g * one ∧ written d g ≤ written c e) : roundsTo u d g = true := by
  have hone : (0 : ℚ) < one := Nat.cast_pos.mpr one_pos
  rw [roundsTo_iff_isReached] at h ⊢
  refine h.between hu ?_
  rcases hd with ⟨hle, hu⟩ | ⟨hu, hle⟩
  · exact .inl ⟨mul_le_mul_of_nonneg_right hle hone.le, hu⟩
  · exact .inr ⟨hu, mul_le_mul_of_nonneg_right hle hone.le⟩

/-! ## Grids -/

/-- A magnitude lies between its two neighbours on a grid. -/
theorem gridFloor_bounds (u : Nat) (e : Int) :
    written (gridFloor u e) e * one ≤ u ∧ (u : ℚ) < written (gridFloor u e + 1) e * one := by
  have hgrid : 0 < one * 10 ^ e.toNat := Nat.mul_pos one_pos (Nat.pow_pos (by decide))
  have hten : (0 : ℚ) < (10 ^ (-e).toNat : Nat) := Nat.cast_pos.mpr (Nat.pow_pos (by decide))
  have hlow : gridFloor u e * 10 ^ e.toNat * one ≤ u * 10 ^ (-e).toNat := by
    have := Nat.div_mul_le_self (u * 10 ^ (-e).toNat) (one * 10 ^ e.toNat)
    rwa [← gridFloor, Nat.mul_comm one, ← Nat.mul_assoc] at this
  have hhigh : u * 10 ^ (-e).toNat < (gridFloor u e + 1) * 10 ^ e.toNat * one := by
    have := Nat.lt_div_mul_add hgrid (a := u * 10 ^ (-e).toNat)
    rwa [← gridFloor, ← Nat.succ_mul, Nat.mul_comm one, ← Nat.mul_assoc] at this
  constructor
  · rw [written_eq_div, div_mul_eq_mul_div, div_le_iff₀ hten]
    exact_mod_cast hlow
  · rw [written_eq_div, div_mul_eq_mul_div, lt_div_iff₀ hten]
    exact_mod_cast hhigh

theorem neighbour?_eq_none {floorServes nextServes : Bool} {floor nearest : Nat}
    (h : neighbour? floorServes nextServes floor nearest = none) :
    floorServes = false ∧ nextServes = false := by
  cases floorServes <;> cases nextServes <;> simp [neighbour?] at h ⊢

/-- Where neither neighbour serves nothing on the grid does. -/
theorem roundsTo_of_onGrid?_none (hu : 0 < u) (h : onGrid? u e = none) (c : Nat) :
    roundsTo u c e = false := by
  obtain ⟨hfloor, hnext⟩ := neighbour?_eq_none h
  obtain ⟨hlow, hhigh⟩ := gridFloor_bounds u e
  rw [← Bool.not_eq_true]
  intro hserves
  rcases Nat.lt_or_ge (gridFloor u e) c with hlt | hle
  · have hbetween := roundsTo_between (g := e) hu hserves
      (.inr ⟨hhigh.le, Decimal.written_le_written.mpr hlt⟩)
    rw [hnext] at hbetween
    exact Bool.false_ne_true hbetween
  · have hbetween := roundsTo_between (g := e) hu hserves
      (.inl ⟨Decimal.written_le_written.mpr hle, hlow⟩)
    rw [hfloor] at hbetween
    exact Bool.false_ne_true hbetween

theorem le_gridFloor_of_onGrid? (h : onGrid? u e = some d) : d ≤ gridFloor u e + 1 := by
  unfold onGrid? at h
  rcases neighbour?_eq_some h (roundDiv_cases _ _) with ⟨-, rfl⟩ | ⟨-, rfl⟩ <;> omega

/-- The digits are a neighbour on their grid, and nothing on a coarser one would have served. -/
theorem shortestFrom_coarsest (hu : 0 < u) (n : Nat) (e : Int) :
    (shortestFrom u n e).1 ≤ gridFloor u (shortestFrom u n e).2 + 1 ∧
      ∀ g, (shortestFrom u n e).2 < g → g ≤ e → ∀ c, roundsTo u c g = false := by
  induction n generalizing e with
  | zero => exact ⟨Nat.le_succ _, fun g hlow hhigh => absurd hhigh (Int.not_le.mpr hlow)⟩
  | succ n ih =>
    rw [shortestFrom]
    cases hgrid : onGrid? u e with
    | some d =>
      exact ⟨le_gridFloor_of_onGrid? hgrid, fun g hlow hhigh => absurd hhigh (Int.not_le.mpr hlow)⟩
    | none =>
      obtain ⟨hnear, hcoarse⟩ := ih (e - 1)
      refine ⟨hnear, fun g hlow hhigh c => ?_⟩
      rcases Int.lt_or_eq_of_le hhigh with hlt | rfl
      · exact hcoarse g hlow (by omega) c
      · exact roundsTo_of_onGrid?_none hu hgrid c

/-! ## The first digit -/

/-- A magnitude has its first digit just before its decimal point. -/
theorem decimalPoint_bounds (hu : 0 < u) :
    written 1 (decimalPoint u - 1) * one ≤ u ∧
      (u : ℚ) < written 10 (decimalPoint u - 1) * one := by
  obtain ⟨len, hpoint, hlow⟩ := exists_decimalPoint hu
  have hhigh := lt_of_decimalPoint hpoint
  have hten : (0 : ℚ) < (10 : ℚ) ^ pointPlaces := by positivity
  have hfirst : (10 : ℚ) ^ (decimalPoint u - 1) = 10 ^ len / 10 ^ pointPlaces := by
    rw [hpoint, show (len : Int) + 1 - pointPlaces - 1 = len - pointPlaces by omega,
      zpow_sub₀ (by norm_num), zpow_natCast, zpow_natCast]
  unfold written
  rw [hfirst]
  constructor
  · rw [Nat.cast_one, one_mul, div_mul_eq_mul_div, div_le_iff₀ hten, mul_comm ((10 : ℚ) ^ len)]
    exact_mod_cast hlow
  · rw [mul_div_assoc', div_mul_eq_mul_div, lt_div_iff₀ hten, mul_comm _ (one : ℚ),
      Nat.cast_ofNat, ← pow_succ']
    exact_mod_cast hhigh

/-- A neighbour on a grid has as many digits as places from the first digit to the grid. -/
theorem gridFloor_lt (hu : 0 < u) (hg : g < decimalPoint u) :
    gridFloor u g < 10 ^ (decimalPoint u - g).toNat := by
  have hone : (0 : ℚ) < one := Nat.cast_pos.mpr one_pos
  have hlt := (gridFloor_bounds u g).1.trans_lt (decimalPoint_bounds hu).2
  have hten : written 10 (decimalPoint u - 1) = written (10 ^ (decimalPoint u - g).toNat) g := by
    rw [Decimal.written_pow hg.le]
    unfold written
    rw [Nat.cast_ofNat, ← zpow_one_add₀ (by norm_num)]
    congr 1
    omega
  rw [hten] at hlt
  by_contra hle
  exact absurd (Decimal.written_le_written.mpr (Nat.not_lt.mp hle))
    (not_le.mpr (lt_of_mul_lt_mul_right hlt hone.le))

/-- What rounds to a magnitude with fewer digits than a grid has room for shows that something on a
coarser grid rounds to it. -/
theorem exists_coarser (hu : 0 < u) (h : roundsTo u c e = true)
    (hlen : (decimalDigits c).length < decimalPoint u - g) :
    ∃ g' d, g < g' ∧ g' ≤ decimalPoint u - 1 ∧ roundsTo u d g' = true := by
  have hc := pos_of_roundsTo hu h
  have hone : (0 : ℚ) < one := Nat.cast_pos.mpr one_pos
  have hdigits := length_decimalDigits_pos c
  obtain ⟨hlow, hhigh⟩ := decimalPoint_bounds hu
  have hcoarsest : g < decimalPoint u - 1 := by omega
  -- beyond the powers of ten around the magnitude these powers do as well
  rcases lt_or_ge (written c e) (written 1 (decimalPoint u - 1)) with hbelow | hfrom
  · exact ⟨_, 1, hcoarsest, le_rfl, roundsTo_between hu h (.inl ⟨hbelow.le, hlow⟩)⟩
  rcases lt_or_ge (written 10 (decimalPoint u - 1)) (written c e) with habove | hto
  · exact ⟨_, 10, hcoarsest, le_rfl, roundsTo_between hu h (.inr ⟨hhigh.le, habove.le⟩)⟩
  rcases lt_or_ge (decimalPoint u - 1) e with hlarge | hsmall
  · refine ⟨_, c * 10 ^ (e - (decimalPoint u - 1)).toNat, hcoarsest, le_rfl, ?_⟩
    rw [roundsTo_iff_isReached, written_mul_pow c hlarge.le, ← roundsTo_iff_isReached]
    exact h
  · refine ⟨e, c, ?_, hsmall, h⟩
    have hfirst : (10 : ℚ) ^ (decimalPoint u - 1) < 10 ^ (e + (decimalDigits c).length) := by
      calc (10 : ℚ) ^ (decimalPoint u - 1) = written 1 (decimalPoint u - 1) := by
            unfold written
            rw [Nat.cast_one, one_mul]
        _ ≤ written c e := hfrom
        _ < 10 ^ (e + (decimalDigits c).length) := written_lt c e
    have := (zpow_lt_zpow_iff_right₀ (by norm_num)).mp hfirst
    omega

/-- Nothing with fewer digits than the shortest ones rounds to a magnitude. -/
theorem length_significant_shortest (hu : 0 < u) (h : roundsTo u c e = true) :
    (significant (shortest u).1).length ≤ (decimalDigits c).length := by
  by_contra hfewer
  have hcoarse := shortestFrom_coarsest hu 18 (decimalPoint u - 1)
  have hexponent := exponent_shortestFrom u 18 (decimalPoint u - 1)
  change (shortest u).1 ≤ gridFloor u (shortest u).2 + 1 ∧
    ∀ g, (shortest u).2 < g → g ≤ decimalPoint u - 1 → ∀ c, roundsTo u c g = false at hcoarse
  change _ ≤ (shortest u).2 ∧ (shortest u).2 ≤ decimalPoint u - 1 at hexponent
  have hfloor := gridFloor_lt hu (show (shortest u).2 < decimalPoint u by omega)
  have hroom := length_significant_le_of_le (m := (shortest u).1)
    (n := (decimalPoint u - (shortest u).2).toNat) (by omega) (by omega)
  obtain ⟨g, d, hlow, hhigh, hserves⟩ := exists_coarser hu h
    (show ((decimalDigits c).length : Int) < decimalPoint u - (shortest u).2 by omega)
  rw [hcoarse.2 g hlow hhigh d] at hserves
  exact Bool.false_ne_true hserves

/-- **Fewest digits.** Nothing with fewer significant digits than the shortest ones rounds to a
magnitude. -/
theorem length_significant_shortest_le (hu : 0 < u) (h : roundsTo u c e = true) :
    (significant (shortest u).1).length ≤ (significant c).length := by
  obtain ⟨m, k, rfl, hsignificant⟩ := exists_significant (pos_of_roundsTo hu h)
  rw [hsignificant]
  have hshift := roundsTo_shift u m k (e + k)
  rw [Int.add_sub_cancel] at hshift
  exact length_significant_shortest hu (hshift.mp h)

end Binary64

end StillVideo
