import StillVideo.Proofs.NumeralGrammar
import StillVideo.Proofs.ShortDecimals

/-!
# The texts of floating numbers

The text of a finite number is a numeral, positional or with an exponent, and far from the limits of
what can be written down as a decimal (`exists_writes_text`). The other texts are words, so a
floating number is finite exactly if the decimal of its text is (`exists_decimal_text`).
-/

namespace StillVideo

attribute [local instance (2000)] instPowNat

/-! ## Digits -/

theorem digitsValue_lt {cs : List Char} (h : AreDigits cs) : digitsValue cs < 10 ^ cs.length := by
  induction cs using List.reverseRecOn with
  | nil => decide
  | append_singleton cs c ih =>
    have hcs := ih fun d hd => h d (List.mem_append_left _ hd)
    have hdigit : digitsValue [c] < 10 := by
      have hall : "0123456789".toList.all fun c => digitsValue [c] < 10 := by decide
      have hmem := mem_of_isPlainDigit (h c (List.mem_append_right _ List.mem_cons_self))
      simpa using List.all_eq_true.mp hall c hmem
    rw [digitsValue_append, List.length_append, List.length_singleton, Nat.pow_one, Nat.pow_succ]
    omega

/-- A mantissa has no more digits than characters, and no more places than digits. -/
theorem IsMantissa.bounds {cs digits : List Char} {places : Nat} (h : IsMantissa cs digits places) :
    AreDigits digits ∧ digits.length ≤ cs.length ∧ places ≤ digits.length := by
  cases h with
  | whole hdigits => exact ⟨hdigits, Nat.le_refl _, Nat.zero_le _⟩
  | point hwhole hfraction =>
    refine ⟨hwhole.append hfraction, ?_, ?_⟩
    · simp
    · simp

theorem writable_of_bounds {c n : Nat} {e : Int} (hn : 0 < n) (hc : c < 10 ^ n)
    (hlow : Decimal.minWritten ≤ e) (hhigh : e + n ≤ Decimal.maxWritten) :
    Decimal.writable c e = true := by
  have hsize := (length_decimalDigits_le_iff hn).mpr hc
  unfold Decimal.writable Decimal.size
  rw [Bool.and_eq_true, decide_eq_true_eq, decide_eq_true_eq]
  refine ⟨hlow, ?_⟩
  split <;> omega

namespace Binary64

/-! ## Digits laid out -/

section

variable {digits : List Char} (hdigits : AreDigits digits) (hne : digits ≠ []) (point : Int)
include hdigits hne

theorem isMantissa_positional : ∃ row places, IsMantissa (positional digits point) row places ∧
    (positional digits point).length ≤ digits.length + point.natAbs + 2 := by
  have hlen : 0 < digits.length := List.length_pos_iff.mpr hne
  unfold positional
  split
  · refine ⟨_, _, .point (show AreDigits ['0'] from areDigits_zeros 1)
      ((areDigits_zeros (-point).toNat).append hdigits) (List.cons_ne_nil _ _), ?_⟩
    simp
    omega
  · dsimp only
    split
    · refine ⟨_, _, .point (hdigits.append (areDigits_zeros _)) (areDigits_zeros 1) (by simp), ?_⟩
      simp
      omega
    · have hwhole : AreDigits (digits.take point.toNat) := fun c hc =>
        hdigits c (List.mem_of_mem_take hc)
      have hfraction : AreDigits (digits.drop point.toNat) := fun c hc =>
        hdigits c (List.mem_of_mem_drop hc)
      refine ⟨_, _, .point hwhole hfraction ?_, ?_⟩
      · rwa [List.take_append_drop]
      · simp
        omega

theorem exists_scientific : ∃ mantissa row places,
    scientific digits point = mantissa ++ exponentText (point - 1) ∧
      IsMantissa mantissa row places ∧ mantissa.length ≤ digits.length + 1 := by
  match digits, hdigits, hne with
  | [d], hdigits, hne => exact ⟨_, _, _, rfl, .whole hdigits hne, by simp⟩
  | d :: d' :: rest, hdigits, hne =>
    obtain ⟨hd, hrest⟩ := List.forall_mem_cons.mp hdigits
    have hwhole : AreDigits [d] := List.forall_mem_singleton.mpr hd
    exact ⟨_, _, _, rfl, .point hwhole hrest
      (List.cons_ne_nil _ _), by simp⟩

/-- Digits laid out are a numeral of about as many digits, with an exponent about as large. -/
theorem writes_layout {sign : List Char} {negative : Bool} (hsign : IsSign sign negative) :
    ∃ c e, Numeral.Writes (sign ++ layout digits point) (.finite negative c e) ∧
      c < 10 ^ (digits.length + point.natAbs + 2) ∧
      e.natAbs ≤ digits.length + 2 * point.natAbs + 3 := by
  have value : ∀ {cs row : List Char} {places : Nat}, IsMantissa cs row places →
      cs.length ≤ digits.length + point.natAbs + 2 →
      digitsValue row < 10 ^ (digits.length + point.natAbs + 2) ∧
        places ≤ digits.length + point.natAbs + 2 := by
    intro cs row places hmantissa hlength
    obtain ⟨hrow, hrowLength, hplaces⟩ := hmantissa.bounds
    exact ⟨Nat.lt_of_lt_of_le (digitsValue_lt hrow)
      (Nat.pow_le_pow_right (by decide) (by omega)), by omega⟩
  unfold layout
  split
  · obtain ⟨row, places, hmantissa, hlength⟩ := isMantissa_positional hdigits hne point
    obtain ⟨hvalue, hplaces⟩ := value hmantissa hlength
    have hwrites := Numeral.Writes.finite hsign hmantissa .none
    rw [List.append_nil] at hwrites
    exact ⟨_, _, hwrites, hvalue, by omega⟩
  · obtain ⟨mantissa, row, places, htext, hmantissa, hlength⟩ :=
      exists_scientific hdigits hne point
    obtain ⟨hvalue, hplaces⟩ := value hmantissa (by omega)
    have hexponent := Numeral.readExponent?_iff.mp (readExponent?_exponentText (point - 1))
    rw [htext]
    exact ⟨_, _, .finite hsign hmantissa hexponent, hvalue, by omega⟩

end

/-! ## Shortest digits -/

theorem exponent_shortestFrom (u n : Nat) (e : Int) :
    e - n ≤ (shortestFrom u n e).2 ∧ (shortestFrom u n e).2 ≤ e := by
  induction n generalizing e with
  | zero =>
    unfold shortestFrom
    constructor <;> simp
  | succ n ih =>
    obtain ⟨hlow, hhigh⟩ := ih (e - 1)
    unfold shortestFrom
    cases onGrid? u e with
    | none =>
      show e - (n + 1 : Nat) ≤ (shortestFrom u n (e - 1)).2 ∧ (shortestFrom u n (e - 1)).2 ≤ e
      omega
    | some d =>
      show e - (n + 1 : Nat) ≤ e ∧ e ≤ e
      omega

theorem two_mul_bound_le : 2 * bound ≤ 10 ^ 310 * one := by
  rw [bound_eq, ← Nat.mul_assoc]
  exact Nat.mul_le_mul_right one two_mul_two_pow_le

theorem decimalPoint_le {u : Nat} (hu : u < bound) : decimalPoint u ≤ 310 := by
  have hlt : u * 10 ^ pointPlaces / one < 10 ^ (310 + pointPlaces) := by
    refine (Nat.div_lt_iff_lt_mul one_pos).mpr ?_
    calc u * 10 ^ pointPlaces < bound * 10 ^ pointPlaces :=
          (Nat.mul_lt_mul_right (Nat.pow_pos (by decide))).mpr hu
      _ ≤ 2 * bound * 10 ^ pointPlaces :=
          Nat.mul_le_mul_right _ (Nat.le_mul_of_pos_left _ (by decide))
      _ ≤ 10 ^ 310 * one * 10 ^ pointPlaces := Nat.mul_le_mul_right _ two_mul_bound_le
      _ = 10 ^ (310 + pointPlaces) * one := by rw [Nat.pow_add, Nat.mul_right_comm]
  have hlength := (length_decimalDigits_le_iff (by decide)).mpr hlt
  have hplaces : pointPlaces = 330 := rfl
  unfold decimalPoint
  omega

/-- The shortest digits of a magnitude are not many, and neither is their point far away. -/
theorem shortest_bounds {u : Nat} (hu : 0 < u) (hbound : u < bound) :
    0 < (shortest u).1 ∧ (decimalDigits (shortest u).1).length ≤ 1000 ∧
      ((shortest u).2 + (decimalDigits (shortest u).1).length).natAbs ≤ 1000 := by
  have hround := roundsTo_shortest hu
  have hpos := pos_of_roundsTo hu hround
  have hnear := (abs_le.mp (abs_written_sub_le hround)).2
  have hspacing := spacing_le_div u
  have hone : (0 : ℚ) < one := Nat.cast_pos.mpr one_pos
  have hu' : (u : ℚ) + 1 ≤ bound := by exact_mod_cast hbound
  have hdouble : written (shortest u).1 (shortest u).2 * one ≤ 2 * bound := by linarith
  have htop : 2 * (bound : ℚ) ≤ 10 ^ 310 * one := by exact_mod_cast two_mul_bound_le
  have hle : written (shortest u).1 (shortest u).2 ≤ 10 ^ (310 : ℤ) :=
    le_of_mul_le_mul_right (hdouble.trans htop) hone
  have hlength := (zpow_le_zpow_iff_right₀ (by norm_num)).mp ((le_written hpos _).trans hle)
  obtain ⟨hlow, hhigh⟩ := exponent_shortestFrom u 18 (decimalPoint u - 1)
  have hpoint : -(330 : Int) ≤ decimalPoint u := by
    have hplaces : pointPlaces = 330 := rfl
    unfold decimalPoint
    omega
  have hpoint' := decimalPoint_le hbound
  change decimalPoint u - 1 - (18 : Nat) ≤ (shortest u).2 at hlow
  change (shortest u).2 ≤ decimalPoint u - 1 at hhigh
  omega

theorem writes_magnitudeText {u : Nat} (hbound : u < bound) {sign : List Char} {negative : Bool}
    (hsign : IsSign sign negative) : ∃ c e,
      Numeral.Writes (sign ++ magnitudeText u) (.finite negative c e) ∧
        Decimal.writable c e = true := by
  rcases Nat.eq_zero_or_pos u with rfl | hu
  · rw [magnitudeText_zero]
    have hzero : IsMantissa ['0', '.', '0'] ['0', '0'] 1 :=
      .point (areDigits_zeros 1) (areDigits_zeros 1) (List.cons_ne_nil _ _)
    have hwrites := Numeral.Writes.finite hsign hzero .none
    rw [List.append_nil] at hwrites
    exact ⟨_, _, hwrites, by decide⟩
  obtain ⟨hpos, hlength, hpoint⟩ := shortest_bounds hu hbound
  rw [magnitudeText_of_ne_zero (Nat.ne_of_gt hu)]
  have hvalue : digitsValue (decimalDigits (shortest u).1) ≠ 0 := by
    rw [digitsValue_decimalDigits]
    exact Nat.ne_of_gt hpos
  obtain ⟨front, last, n, -, htrim, hdigits⟩ := exists_trimZeros hvalue
  have hrow : AreDigits (front ++ [last]) := fun c hc =>
    areDigits_decimalDigits _ c (hdigits ▸ List.mem_append_left _ hc)
  have hrowLength : (front ++ [last]).length ≤ 1000 := by
    have := congrArg List.length hdigits
    rw [List.length_append] at this
    omega
  rw [htrim]
  obtain ⟨c, e, hwrites, hc, he⟩ := writes_layout hrow (by simp)
    ((shortest u).2 + (decimalDigits (shortest u).1).length) hsign
  have hlow : Decimal.minWritten ≤ -3003 := by decide
  have hhigh : 3003 + 2002 ≤ Decimal.maxWritten := by decide
  exact ⟨c, e, hwrites, writable_of_bounds (by omega) hc (by omega) (by omega)⟩

/-- The text of a finite number is a numeral that can be written down as a decimal. -/
theorem exists_writes_text {x : Binary64} (h : x.isFinite = true) : ∃ negative c e,
    Numeral.Writes x.text.toList (.finite negative c e) ∧ Decimal.writable c e = true := by
  cases x with
  | nan => exact absurd h Bool.false_ne_true
  | infinite s => exact absurd h Bool.false_ne_true
  | finite s u hu =>
    cases s with
    | true =>
      obtain ⟨c, e, hwrites, hlimits⟩ := writes_magnitudeText hu.1 .minus
      exact ⟨true, c, e, by rwa [text, String.toList_ofList], hlimits⟩
    | false =>
      obtain ⟨c, e, hwrites, hlimits⟩ := writes_magnitudeText hu.1 .none
      exact ⟨false, c, e, by rwa [text, String.toList_ofList], hlimits⟩

/-- **Texts of floating numbers.** Each is read as a decimal, which is finite if the number is. -/
theorem exists_decimal_text (x : Binary64) :
    ∃ d, Decimal.Writes (Decimal.bare x.text.toList) d ∧ d.value?.isSome = x.isFinite := by
  cases hx : x.isFinite with
  | true =>
    obtain ⟨negative, c, e, hwrites, hlimits⟩ := exists_writes_text hx
    rw [Decimal.bare_of_mem_characters (Numeral.mem_characters hwrites)]
    exact ⟨_, .finite hwrites hlimits, rfl⟩
  | false =>
    cases x with
    | finite s u hu => exact absurd hx Bool.noConfusion
    | nan => exact ⟨.nan false false 0, Decimal.read?_iff.mp (by decide), rfl⟩
    | infinite s =>
      cases s with
      | true => exact ⟨.infinite true, Decimal.read?_iff.mp (by decide), rfl⟩
      | false => exact ⟨.infinite false, Decimal.read?_iff.mp (by decide), rfl⟩

end Binary64

end StillVideo
