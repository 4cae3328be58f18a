import StillVideo.Proofs.Rounding

/-!
# Bounds of floating numbers

Rounding does not pass a magnitude of the format (`le_roundUnits`, `roundUnits_le`), and what it
gives is such a magnitude unless it is out of range (`representable_roundUnits`). So a whole number
of at most 53 binary digits stays as it is (`ofNat_eq`), and whole numbers are added and multiplied
exactly in this range (`ofNat_add`, `ofNat_mul`). A sum of numbers that are not negative is at least
each of them, and products and quotients of numbers between zero and a bound have bounds themselves
(`AtMost`).
-/

namespace StillVideo

attribute [local instance (2000)] instPowNat

theorem le_roundDiv {n d k : Nat} (hd : 0 < d) (h : k * d ≤ n) : k ≤ roundDiv n d := by
  have hq : k ≤ n / d := (Nat.le_div_iff_mul_le hd).mpr h
  unfold roundDiv
  dsimp only
  split_ifs <;> omega

theorem roundDiv_le {n d k : Nat} (hd : 0 < d) (h : n ≤ k * d) : roundDiv n d ≤ k := by
  have hn := Nat.div_add_mod n d
  have hr := Nat.mod_lt n hd
  have hq : n / d ≤ k := Nat.div_le_of_le_mul (by rwa [Nat.mul_comm] at h)
  rcases Nat.lt_or_eq_of_le hq with hlt | heq
  · unfold roundDiv
    dsimp only
    split_ifs <;> omega
  · rw [heq, Nat.mul_comm] at hn
    unfold roundDiv
    dsimp only
    rw [if_pos (by omega)]
    exact hq

namespace Binary64

/-! ## Bounds of rounding -/

theorem spacing_dvd_of_le {u v : Nat} (h : u ≤ v) : spacing u ∣ spacing v := by
  unfold spacing
  refine Nat.pow_dvd_pow 2 (Nat.sub_le_sub_right ?_ 52)
  rcases Nat.eq_zero_or_pos u with rfl | hu
  · exact Nat.zero_le _
  · exact (Nat.le_log2 (Nat.ne_of_gt (Nat.lt_of_lt_of_le hu h))).mpr
      (Nat.le_trans (Nat.log2_self_le (Nat.ne_of_gt hu)) h)

/-- What is at least a magnitude rounds to at least this magnitude. -/
theorem le_roundUnits {u n d : Nat} (hu : u % spacing u = 0) (hd : 0 < d) (h : u * d ≤ n) :
    u ≤ roundUnits n d := by
  have hle : u ≤ n / d := (Nat.le_div_iff_mul_le hd).mpr h
  have hspos := spacing_pos (n / d)
  have hdvd : ∀ k, k * spacing (n / d) ≤ n / d → k * spacing (n / d) ≤ roundUnits n d := by
    intro k hk
    refine Nat.mul_le_mul_right _ (le_roundDiv (Nat.mul_pos hd hspos) ?_)
    have := (Nat.le_div_iff_mul_le hd).mp hk
    rwa [Nat.mul_comm d, ← Nat.mul_assoc]
  by_cases hmul : spacing (n / d) ∣ u
  · obtain ⟨k, hk⟩ := hmul
    rw [Nat.mul_comm] at hk
    rw [hk] at hle ⊢
    exact hdvd k hle
  -- the spacing has grown between `u` and the quotient, past a power of two
  obtain ⟨i, hsu, -, hlt⟩ := exists_spacing u
  obtain ⟨j, hsn, hlow, -⟩ := exists_spacing (n / d)
  have hij : i < j := by
    by_contra hge
    refine hmul (Nat.dvd_trans ?_ (Nat.dvd_of_mod_eq_zero hu))
    rw [hsu, hsn]
    exact Nat.pow_dvd_pow 2 (Nat.le_of_not_lt hge)
  have hpow : 2 ^ (52 + j) = 2 ^ 52 * spacing (n / d) := by rw [hsn, Nat.pow_add]
  have hquot : 2 ^ 52 * spacing (n / d) ≤ n / d := by
    rw [← hpow]
    exact hlow.resolve_left (by omega)
  calc u ≤ 2 ^ (53 + i) := Nat.le_of_lt hlt
    _ ≤ 2 ^ (52 + j) := Nat.pow_le_pow_right (by decide) (by omega)
    _ = 2 ^ 52 * spacing (n / d) := hpow
    _ ≤ roundUnits n d := hdvd _ hquot

/-- What is at most a magnitude rounds to at most this magnitude. -/
theorem roundUnits_le {u n d : Nat} (hu : u % spacing u = 0) (hd : 0 < d) (h : n ≤ u * d) :
    roundUnits n d ≤ u := by
  have hle : n / d ≤ u := Nat.div_le_of_le_mul (by rwa [Nat.mul_comm] at h)
  obtain ⟨k, hk⟩ := Nat.dvd_trans (spacing_dvd_of_le hle) (Nat.dvd_of_mod_eq_zero hu)
  rw [Nat.mul_comm] at hk
  have hround : roundDiv n (d * spacing (n / d)) ≤ k := by
    refine roundDiv_le (Nat.mul_pos hd (spacing_pos _)) ?_
    rw [Nat.mul_comm d, ← Nat.mul_assoc, ← hk]
    exact h
  unfold roundUnits
  dsimp only
  rw [hk]
  exact Nat.mul_le_mul_right _ hround

/-- A magnitude is what it rounds to, as a quotient by any number. -/
theorem roundUnits_mul_right {u d : Nat} (hu : u % spacing u = 0) (hd : 0 < d) :
    roundUnits (u * d) d = u :=
  Nat.le_antisymm (roundUnits_le hu hd (Nat.le_refl _)) (le_roundUnits hu hd (Nat.le_refl _))

theorem roundUnits_self {u : Nat} (hu : u % spacing u = 0) : roundUnits u 1 = u := by
  have hround := roundUnits_mul_right hu Nat.one_pos
  rwa [Nat.mul_one] at hround

/-- Rounding gives a magnitude, unless it is out of range. -/
theorem representable_roundUnits {n d : Nat} (hd : 0 < d) (h : roundUnits n d < bound) :
    Representable (roundUnits n d) := by
  refine ⟨h, ?_⟩
  obtain ⟨j, hs, -, hhigh⟩ := exists_spacing (n / d)
  have hpow : 2 ^ (53 + j) = 2 ^ 53 * spacing (n / d) := by rw [hs, Nat.pow_add]
  have hk : roundDiv n (d * spacing (n / d)) ≤ 2 ^ 53 := by
    refine roundDiv_le (Nat.mul_pos hd (spacing_pos _)) (Nat.le_of_lt ?_)
    rw [Nat.mul_comm d, ← Nat.mul_assoc, ← hpow]
    exact (Nat.div_lt_iff_lt_mul hd).mp hhigh
  have hround : roundUnits n d = roundDiv n (d * spacing (n / d)) * spacing (n / d) := rfl
  refine Nat.mod_eq_zero_of_dvd ?_
  rcases Nat.lt_or_eq_of_le hk with hlt | heq
  · -- fewer than 53 binary digits: the spacing is that of the quotient at most
    have hsmall : roundUnits n d < 2 ^ (53 + j) := by
      rw [hround, hpow]
      exact (Nat.mul_lt_mul_right (spacing_pos _)).mpr hlt
    refine Nat.dvd_trans ?_ (Dvd.intro_left _ hround.symm)
    rw [hs]
    unfold spacing
    refine Nat.pow_dvd_pow 2 ?_
    rcases Nat.eq_zero_or_pos (roundUnits n d) with hzero | hpos
    · rw [hzero]
      exact Nat.zero_le _
    · have := (Nat.log2_lt (Nat.ne_of_gt hpos)).mpr hsmall
      omega
  · -- the power of two above
    rw [heq, ← hpow] at hround
    rw [hround]
    unfold spacing
    rw [Nat.log2_two_pow]
    exact Nat.pow_dvd_pow 2 (by omega)

/-! ## Signs -/

theorem zero_eq : (0 : Binary64) = zero := ofNat_zero

theorem isFinite_zero : isFinite 0 = true := by
  rw [zero_eq]
  rfl

/-- A number that is not below zero: no number at all, the infinity, or a magnitude; only zero may
have the other sign. -/
theorem cases_of_not_lt_zero {x : Binary64} (h : x.lt 0 = false) :
    x = .nan ∨ x = .infinite false ∨
      ∃ s u hu, x = .finite s u hu ∧ (s = true → u = 0) := by
  rw [zero_eq] at h
  cases x with
  | nan => exact .inl rfl
  | infinite s =>
    cases s with
    | true => exact absurd h (by decide)
    | false => exact .inr (.inl rfl)
  | finite s u hu =>
    refine .inr (.inr ⟨s, u, hu, rfl, ?_⟩)
    rintro rfl
    simpa [lt, rank, signedUnits, zero] using h

/-- A number that is not zero or below: no number at all, the infinity, or a magnitude. -/
theorem cases_of_not_le_zero {x : Binary64} (h : x.le 0 = false) :
    x = .nan ∨ x = .infinite false ∨ ∃ u hu, x = .finite false u hu ∧ 0 < u := by
  rw [zero_eq] at h
  cases x with
  | nan => exact .inl rfl
  | infinite s =>
    cases s with
    | true => exact absurd h (by decide)
    | false => exact .inr (.inl rfl)
  | finite s u hu =>
    refine .inr (.inr ?_)
    cases s with
    | true =>
      exfalso
      simp only [le, lt, eq, rank, signedUnits, zero, Bool.or_eq_false_iff] at h
      simp at h
    | false =>
      refine ⟨u, hu, rfl, Nat.pos_of_ne_zero ?_⟩
      rintro rfl
      simp [le, lt, eq, rank, signedUnits, zero] at h

theorem finite_lt_finite {u v : Nat} (hu : Representable u) (hv : Representable v) :
    lt (finite false u hu) (finite false v hv) = decide (u < v) := by
  simp only [lt, rank, signedUnits, lt_irrefl, decide_false, Bool.false_or, beq_self_eq_true,
    Bool.true_and, Nat.cast_lt]

theorem finite_not_lt_negative {u v : Nat} (hu : Representable u) (hv : Representable v) :
    lt (finite false u hu) (finite true v hv) = false := by
  have hnot : ¬ (u : Int) < -(v : Int) := by omega
  simp only [lt, rank, signedUnits, lt_irrefl, decide_false, Bool.false_or, beq_self_eq_true,
    Bool.true_and, decide_eq_false hnot]

theorem negative_lt_finite {u v : Nat} (hu : Representable u) (hv : Representable v)
    (hpos : 0 < v) : lt (finite true u hu) (finite false v hv) = true := by
  have hlt : -(u : Int) < (v : Int) := by omega
  simp only [lt, rank, signedUnits, lt_irrefl, decide_false, Bool.false_or, beq_self_eq_true,
    Bool.true_and, decide_eq_true hlt]

theorem finite_not_lt_zero {s : Bool} {u : Nat} (hu : Representable u) (hs : s = true → u = 0) :
    (finite s u hu).lt 0 = false := by
  rw [zero_eq]
  cases s with
  | true =>
    obtain rfl := hs rfl
    simp [lt, rank, signedUnits, zero]
  | false => simp [lt, rank, signedUnits, zero]

theorem ofUnits_false_cases (r : Nat) :
    ofUnits false r = .infinite false ∨ ∃ h, ofUnits false r = .finite false r h := by
  unfold ofUnits
  by_cases h : Representable r
  · exact .inr ⟨h, dif_pos h⟩
  · exact .inl (dif_neg h)

/-! ## Sums and quotients -/

/-- A sum of magnitudes, the first of which may be a zero with a sign, is rounded once. -/
theorem finite_add_finite_eq {s : Bool} {u v : Nat} (hu : Representable u) (hv : Representable v)
    (hs : s = true → u = 0) :
    finite s u hu + finite false v hv = ofUnits false (roundUnits (u + v) 1) := by
  have hsum : (finite s u hu).signedUnits + (finite false v hv).signedUnits =
      ((u + v : Nat) : Int) := by
    cases s with
    | true =>
      obtain rfl := hs rfl
      simp [signedUnits]
    | false => simp [signedUnits]
  show add _ _ = _
  unfold add
  dsimp only
  rw [hsum]
  rcases Nat.eq_zero_or_pos (u + v) with hzero | hpos
  · rw [hzero, roundUnits_self representable_zero.2, Bool.and_false]
    exact if_pos Nat.cast_zero
  · rw [if_neg (by omega), decide_eq_false (by omega), Int.natAbs_natCast]
    rfl

/-- A sum is at least each of its summands. -/
theorem finite_add_finite {s : Bool} {u v : Nat} (hu : Representable u) (hv : Representable v)
    (hs : s = true → u = 0) :
    ∃ r, u ≤ r ∧ v ≤ r ∧ finite s u hu + finite false v hv = ofUnits false r :=
  ⟨roundUnits (u + v) 1, le_roundUnits hu.2 (by decide) (by omega),
    le_roundUnits hv.2 (by decide) (by omega), finite_add_finite_eq hu hv hs⟩

/-! ## Whole numbers -/

theorem representable_mul_one {n : Nat} (hn : n < 2 ^ 53) : Representable (n * one) := by
  have hlt : n * one < 2 ^ 53 * one := (Nat.mul_lt_mul_right one_pos).mpr hn
  have hpow : 2 ^ 53 * one = 2 ^ (53 + unitPlaces) := by
    unfold one
    rw [Nat.pow_add]
  have hbound : 2 ^ (53 + unitPlaces) ≤ bound := Nat.pow_le_pow_right (by decide) (by decide)
  refine ⟨Nat.lt_of_lt_of_le (hpow ▸ hlt) hbound, Nat.mod_eq_zero_of_dvd ?_⟩
  obtain ⟨j, hs, hlow, -⟩ := exists_spacing (n * one)
  rw [hs]
  refine Nat.dvd_mul_left_of_dvd (Nat.pow_dvd_pow 2 ?_) n
  rcases hlow with rfl | hlow
  · exact Nat.zero_le _
  · have := (Nat.pow_lt_pow_iff_right (by decide)).mp
      (Nat.lt_of_lt_of_eq (Nat.lt_of_le_of_lt hlow hlt) hpow)
    omega

theorem roundUnits_one_mul {n : Nat} (hn : n < 2 ^ 53) : roundUnits (one * n) 1 = n * one := by
  rw [Nat.mul_comm]
  exact roundUnits_self (representable_mul_one hn).2

/-- A whole number of at most 53 binary digits is a floating number. -/
theorem ofNat_eq {n : Nat} (hn : n < 2 ^ 53) :
    ofNat n = .finite false (n * one) (representable_mul_one hn) := by
  unfold ofNat ofQuotient ofUnitQuotient
  rw [roundUnits_one_mul hn]
  exact dif_pos (representable_mul_one hn)

/-- Whole numbers add up exactly while the sum has at most 53 binary digits. -/
theorem ofNat_add {m n : Nat} (h : m + n < 2 ^ 53) : ofNat m + ofNat n = ofNat (m + n) := by
  rw [ofNat_eq (Nat.lt_of_le_of_lt (Nat.le_add_right m n) h),
    ofNat_eq (Nat.lt_of_le_of_lt (Nat.le_add_left n m) h), ofNat_eq h,
    finite_add_finite_eq _ _ Bool.noConfusion, ← Nat.add_mul,
    roundUnits_self (representable_mul_one h).2]
  exact dif_pos (representable_mul_one h)

theorem ofNat_mul {m n : Nat} (hm : m < 2 ^ 53) (hn : n < 2 ^ 53) (h : m * n < 2 ^ 53) :
    ofNat m * ofNat n = ofNat (m * n) := by
  rw [ofNat_eq hm, ofNat_eq hn, ofNat_eq h]
  have hround : roundUnits (m * one * (n * one)) one = m * n * one := by
    rw [← Nat.mul_assoc, Nat.mul_right_comm m]
    exact roundUnits_mul_right (representable_mul_one h).2 one_pos
  show mul _ _ = _
  unfold mul ofUnitQuotient ofUnits
  dsimp only
  rw [hround, dif_pos (representable_mul_one h), bne_self_eq_false]

theorem representable_one : Representable one :=
  Nat.one_mul one ▸ representable_mul_one (n := 1) (by decide)

theorem representable_hundred : Representable (100 * one) := representable_mul_one (by decide)

theorem representable_thousand : Representable (1000 * one) := representable_mul_one (by decide)

theorem one_eq : (1 : Binary64) = .finite false one representable_one :=
  (ofNat_eq (n := 1) (by decide)).trans (by simp only [Nat.one_mul])

theorem hundred_eq : (100 : Binary64) = .finite false (100 * one) representable_hundred :=
  ofNat_eq (n := 100) (by decide)

theorem thousand_eq : (1000 : Binary64) = .finite false (1000 * one) representable_thousand :=
  ofNat_eq (n := 1000) (by decide)

theorem isFinite_ofInt {i : Int} (h : i.natAbs < 2 ^ 53) : (ofInt i).isFinite = true := by
  unfold ofInt ofQuotient ofUnitQuotient ofUnits
  rw [roundUnits_one_mul h, dif_pos (representable_mul_one h)]
  rfl

/-! ## Numbers between zero and a bound -/

/-- A finite number from zero to `b` units; only zero may have the other sign. -/
def AtMost (x : Binary64) (b : Nat) : Prop :=
  ∃ s u hu, x = finite s u hu ∧ (s = true → u = 0) ∧ u ≤ b

/-- Such a number is finite, not below zero, and not above the bound. -/
theorem atMost_iff {x : Binary64} {b : Nat} (hb : Representable b) :
    x.AtMost b ↔ x.isFinite = true ∧ x.lt 0 = false ∧ lt (finite false b hb) x = false := by
  constructor
  · rintro ⟨s, u, hu, rfl, hs, hle⟩
    refine ⟨rfl, finite_not_lt_zero hu hs, ?_⟩
    cases s with
    | true => exact finite_not_lt_negative hb hu
    | false => rw [finite_lt_finite, decide_eq_false (Nat.not_lt.mpr hle)]
  · rintro ⟨hfinite, hlow, hhigh⟩
    rcases cases_of_not_lt_zero hlow with rfl | rfl | ⟨s, u, hu, rfl, hs⟩
    · exact absurd hfinite Bool.false_ne_true
    · exact absurd hfinite Bool.false_ne_true
    · refine ⟨s, u, hu, rfl, hs, ?_⟩
      cases s with
      | true => rw [hs rfl]; exact Nat.zero_le _
      | false =>
        rw [finite_lt_finite, decide_eq_false_iff_not] at hhigh
        exact Nat.le_of_not_lt hhigh

/-- A quotient of at most a magnitude rounds to a number of at most this magnitude. -/
theorem atMost_ofUnitQuotient {s : Bool} {n d c : Nat} (hs : s = true → n = 0)
    (hc : Representable c) (hd : 0 < d) (h : n ≤ c * d) : (ofUnitQuotient s n d).AtMost c := by
  have hround := roundUnits_le hc.2 hd h
  have hrep := representable_roundUnits hd (Nat.lt_of_le_of_lt hround hc.1)
  refine ⟨s, roundUnits n d, hrep, ?_, fun hs' => ?_, hround⟩
  · unfold ofUnitQuotient ofUnits
    rw [dif_pos hrep]
  · exact Nat.le_zero.mp (roundUnits_le (Nat.zero_mod _) hd (by rw [hs hs']; exact Nat.zero_le _))

section

variable {x y : Binary64} {a b c : Nat}

theorem AtMost.mul (hx : x.AtMost a) (hy : y.AtMost b) (hc : Representable c)
    (h : a * b ≤ c * one) : (x * y).AtMost c := by
  obtain ⟨s, u, hu, rfl, hs, hua⟩ := hx
  obtain ⟨t, v, hv, rfl, ht, hvb⟩ := hy
  have hproduct : finite s u hu * finite t v hv = ofUnitQuotient (s != t) (u * v) one := by
    show Binary64.mul _ _ = _
    unfold Binary64.mul
    rfl
  rw [hproduct]
  refine atMost_ofUnitQuotient (fun hst => ?_) hc one_pos
    (Nat.le_trans (Nat.mul_le_mul hua hvb) h)
  cases s with
  | true => rw [hs rfl, Nat.zero_mul]
  | false => rw [ht (by simpa using hst), Nat.mul_zero]

theorem AtMost.div (hx : x.AtMost a) {v : Nat} {hv : Representable v} (hvpos : 0 < v)
    (hc : Representable c) (h : one * a ≤ c * v) : (x / finite false v hv).AtMost c := by
  obtain ⟨s, u, hu, rfl, hs, hua⟩ := hx
  have hquotient : finite s u hu / finite false v hv = ofUnitQuotient s (one * u) v := by
    show Binary64.div _ _ = _
    unfold Binary64.div
    dsimp only
    rw [if_neg (Nat.ne_of_gt hvpos), Bool.bne_false]
  rw [hquotient]
  refine atMost_ofUnitQuotient (fun hst => by rw [hs hst, Nat.mul_zero]) hc hvpos ?_
  exact Nat.le_trans (Nat.mul_le_mul_left one hua) h

/-- The nearest whole number of at most `k` is one of at most `k`. -/
theorem AtMost.round {k : Nat} (h : x.AtMost (k * one)) :
    ∃ n : Int, x.round? = some n ∧ 0 ≤ n ∧ n ≤ k := by
  obtain ⟨s, u, hu, rfl, hs, hle⟩ := h
  have hround : roundDiv u one ≤ k := roundDiv_le one_pos hle
  cases s with
  | true =>
    have hzero : roundDiv u one = 0 := by
      rw [hs rfl]
      exact Nat.le_zero.mp (roundDiv_le one_pos (Nat.zero_le _))
    exact ⟨-(roundDiv u one : Nat), rfl, by omega, by omega⟩
  | false => exact ⟨roundDiv u one, rfl, by omega, by omega⟩

end

/-- A number from zero to one. -/
def IsUnit (x : Binary64) : Prop := x.isFinite = true ∧ x.lt 0 = false ∧ lt 1 x = false

/-- The hundredth part of a number from zero to one hundred is a number from zero to one. -/
theorem isUnit_div_hundred {x : Binary64} (hnan : x ≠ .nan) (hlow : x.lt 0 = false)
    (hhigh : lt 100 x = false) : (x / 100).IsUnit := by
  rw [hundred_eq] at hhigh ⊢
  have hfinite : x.isFinite = true := by
    rcases cases_of_not_lt_zero hlow with rfl | rfl | ⟨s, u, hu, rfl, -⟩
    · exact absurd rfl hnan
    · exact absurd hhigh (by decide)
    · rfl
  have hx : x.AtMost (100 * one) := (atMost_iff representable_hundred).mpr ⟨hfinite, hlow, hhigh⟩
  have hquotient : (x / finite false (100 * one) representable_hundred).AtMost one :=
    hx.div (Nat.mul_pos (by decide) one_pos) representable_one (Nat.le_refl _)
  rw [IsUnit, one_eq]
  exact (atMost_iff representable_one).mp hquotient

/-- A finite product of a number that is not negative with a magnitude is not negative. -/
theorem mul_finite {x : Binary64} {v : Nat} {hv : Representable v} (hx : x.lt 0 = false)
    (h : (x * finite false v hv).isFinite = true) : x.isFinite = true ∧
      ∃ s r hr, x * finite false v hv = finite s r hr ∧ (s = true → r = 0) := by
  rcases cases_of_not_lt_zero hx with rfl | rfl | ⟨s, u, hu, rfl, hs⟩
  · exact absurd h Bool.false_ne_true
  · have hproduct : infinite false * finite false v hv =
        if v = 0 then nan else infinite false := rfl
    rw [hproduct] at h
    split at h <;> exact absurd h Bool.false_ne_true
  · refine ⟨rfl, ?_⟩
    have hproduct : finite s u hu * finite false v hv = ofUnits s (roundUnits (u * v) one) := by
      show mul _ _ = _
      unfold mul
      dsimp only
      rw [Bool.bne_false]
      rfl
    rw [hproduct] at h ⊢
    unfold ofUnits at h ⊢
    by_cases hrep : Representable (roundUnits (u * v) one)
    · rw [dif_pos hrep]
      refine ⟨s, _, hrep, rfl, fun hs' => Nat.le_zero.mp ?_⟩
      exact roundUnits_le (Nat.zero_mod _) one_pos (by rw [hs hs']; simp)
    · rw [dif_neg hrep] at h
      exact absurd h Bool.false_ne_true

theorem add_nan (x : Binary64) : x + nan = nan := by
  cases x <;> rfl

theorem nan_div (x : Binary64) : nan / x = nan := rfl

section

variable {x y : Binary64} (hx : x.lt 0 = false) (hy : y.le 0 = false)
include hx hy

/-- A finite sum has finite summands and is at least each of them. -/
theorem add_finite (h : (x + y).isFinite = true) : ∃ s u hu v hv r hr,
    x = finite s u hu ∧ (s = true → u = 0) ∧ y = finite false v hv ∧ 0 < v ∧
      x + y = finite false r hr ∧ u ≤ r ∧ v ≤ r := by
  rcases cases_of_not_le_zero hy with rfl | rfl | ⟨v, hv, rfl, hpos⟩
  · rw [add_nan] at h
    exact absurd h Bool.false_ne_true
  · rcases cases_of_not_lt_zero hx with rfl | rfl | ⟨s, u, hu, rfl, -⟩ <;>
      exact absurd h Bool.false_ne_true
  · rcases cases_of_not_lt_zero hx with rfl | rfl | ⟨s, u, hu, rfl, hs⟩
    · exact absurd h Bool.false_ne_true
    · exact absurd h Bool.false_ne_true
    · obtain ⟨r, hur, hvr, hsum⟩ := finite_add_finite hu hv hs
      rcases ofUnits_false_cases r with hinf | ⟨hr, hfin⟩
      · rw [hsum, hinf] at h
        exact absurd h Bool.false_ne_true
      · exact ⟨s, u, hu, v, hv, r, hr, rfl, hs, rfl, hpos, hsum.trans hfin, hur, hvr⟩

/-- Without a summand that is no number, a sum is finite or the infinity. -/
theorem add_finite_or (hxnan : x ≠ nan) (hynan : y ≠ nan) :
    (x + y).isFinite = true ∨ x + y = infinite false := by
  rcases cases_of_not_le_zero hy with rfl | rfl | ⟨v, hv, rfl, hpos⟩
  · exact absurd rfl hynan
  · rcases cases_of_not_lt_zero hx with rfl | rfl | ⟨s, u, hu, rfl, -⟩
    · exact absurd rfl hxnan
    · exact .inr rfl
    · exact .inr rfl
  · rcases cases_of_not_lt_zero hx with rfl | rfl | ⟨s, u, hu, rfl, hs⟩
    · exact absurd rfl hxnan
    · exact .inr rfl
    · obtain ⟨r, -, -, hsum⟩ := finite_add_finite hu hv hs
      rw [hsum]
      rcases ofUnits_false_cases r with hinf | ⟨hr, hfin⟩
      · exact .inr hinf
      · exact .inl (by rw [hfin]; rfl)

end

/-! ## The order -/

theorem lt_iff {x y : Binary64} : x.lt y = true ↔ ∃ a m b n, x.rank = some (a, m) ∧
    y.rank = some (b, n) ∧ (a < b ∨ a = b ∧ m < n) := by
  unfold lt
  rcases x.rank with _ | ⟨a, m⟩ <;> rcases y.rank with _ | ⟨b, n⟩ <;> simp

theorem not_lt_self (x : Binary64) : x.lt x = false := by
  rw [← Bool.not_eq_true, lt_iff]
  rintro ⟨a, m, b, n, hx, hy, h⟩
  obtain ⟨rfl, rfl⟩ := Prod.mk.inj (Option.some.inj (hx.symm.trans hy))
  omega

theorem lt_of_lt_of_lt {x y z : Binary64} (h : x.lt y = true) (h' : y.lt z = true) :
    x.lt z = true := by
  rw [lt_iff] at *
  obtain ⟨a, m, b, n, hx, hy, hxy⟩ := h
  obtain ⟨b', n', c, k, hy', hz, hyz⟩ := h'
  obtain ⟨rfl, rfl⟩ := Prod.mk.inj (Option.some.inj (hy.symm.trans hy'))
  exact ⟨a, m, c, k, hx, hz, by omega⟩

theorem exists_rank {x : Binary64} (h : x ≠ nan) : ∃ a m, x.rank = some (a, m) := by
  cases x with
  | nan => exact absurd rfl h
  | infinite s => cases s <;> exact ⟨_, _, rfl⟩
  | finite s u hu => exact ⟨_, _, rfl⟩

theorem lt_of_not_lt {x y z : Binary64} (hy : y ≠ nan) (h : x.lt z = true)
    (hyz : y.lt z = false) : x.lt y = true := by
  obtain ⟨b, n, hb⟩ := exists_rank hy
  rw [← Bool.not_eq_true, lt_iff] at hyz
  rw [lt_iff] at *
  obtain ⟨a, m, c, k, hx, hz, hxz⟩ := h
  refine ⟨a, m, b, n, hx, hb, ?_⟩
  by_contra hxy
  exact hyz ⟨b, n, c, k, hb, hz, by omega⟩

theorem ne_nan_of_isFinite {x : Binary64} (h : x.isFinite = true) : x ≠ nan := by
  rintro rfl
  exact Bool.false_ne_true h

theorem le_eq_not_lt {x y : Binary64} (hx : x ≠ nan) (hy : y ≠ nan) :
    x.le y = !y.lt x := by
  obtain ⟨a, m, ha⟩ := exists_rank hx
  obtain ⟨b, n, hb⟩ := exists_rank hy
  unfold le lt eq
  rw [ha, hb, Bool.eq_iff_iff]
  simp only [Bool.or_eq_true, Bool.and_eq_true, decide_eq_true_eq, beq_iff_eq, Prod.mk.injEq,
    Bool.not_eq_true', Bool.or_eq_false_iff, decide_eq_false_iff_not, Bool.and_eq_false_imp]
  omega

theorem ne_nan_of_lt {x y : Binary64} (h : x.lt y = true) : y ≠ nan := by
  rintro rfl
  obtain ⟨_, _, _, _, _, hrank, _⟩ := lt_iff.mp h
  exact absurd hrank (by simp [rank])

end Binary64

end StillVideo
