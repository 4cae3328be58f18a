import StillVideo.Proofs.NearestNumbers

/-!
# Rounding keeps the order

A larger quotient rounds to a magnitude that is at least as large (`roundUnits_mono`): on one
spacing the nearest multiples are in order, and a power of two lies between quotients of different
spacings. So a number that is scaled by a positive quotient and rounded once stays on the same side
of all others (`le_scaled`), which covers products and quotients with a positive number
(`le_mul_finite`, `le_div_finite`).
-/

namespace StillVideo

attribute [local instance (2000)] instPowNat

namespace Binary64

attribute [local irreducible] one bound

/-! ## The order of numbers -/

theorem le_iff {x y : Binary64} : x.le y = true ↔ ∃ a m b n, x.rank = some (a, m) ∧
    y.rank = some (b, n) ∧ (a < b ∨ a = b ∧ m ≤ n) := by
  unfold le lt eq
  rcases x.rank with _ | ⟨a, m⟩ <;> rcases y.rank with _ | ⟨b, n⟩ <;> simp
  omega

theorem le_of_le_of_le {x y z : Binary64} (h : x.le y = true) (h' : y.le z = true) :
    x.le z = true := by
  rw [le_iff] at *
  obtain ⟨a, m, b, n, hx, hy, hxy⟩ := h
  obtain ⟨b', n', c, k, hy', hz, hyz⟩ := h'
  obtain ⟨rfl, rfl⟩ := Prod.mk.inj (Option.some.inj (hy.symm.trans hy'))
  exact ⟨a, m, c, k, hx, hz, by omega⟩

theorem ne_nan_of_le {x y : Binary64} (h : x.le y = true) : x ≠ nan ∧ y ≠ nan := by
  obtain ⟨a, m, b, n, hx, hy, -⟩ := le_iff.mp h
  constructor
  · rintro rfl
    exact absurd hx (by simp [rank])
  · rintro rfl
    exact absurd hy (by simp [rank])

theorem lt_of_le_of_lt {x y z : Binary64} (h : x.le y = true) (h' : y.lt z = true) :
    x.lt z = true := by
  rw [le_iff] at h
  rw [lt_iff] at *
  obtain ⟨a, m, b, n, hx, hy, hxy⟩ := h
  obtain ⟨b', n', c, k, hy', hz, hyz⟩ := h'
  obtain ⟨rfl, rfl⟩ := Prod.mk.inj (Option.some.inj (hy.symm.trans hy'))
  exact ⟨a, m, c, k, hx, hz, by omega⟩

theorem lt_eq_false_of_le {x y : Binary64} (h : x.le y = true) : y.lt x = false := by
  obtain ⟨hx, hy⟩ := ne_nan_of_le h
  rw [le_eq_not_lt hx hy] at h
  simpa using h

theorem le_of_lt_eq_false {x y : Binary64} (hx : x ≠ nan) (hy : y ≠ nan) (h : y.lt x = false) :
    x.le y = true := by
  rw [le_eq_not_lt hx hy, h]
  rfl

theorem infinite_le {x : Binary64} (h : x ≠ nan) : (infinite true).le x = true := by
  cases x with
  | nan => exact absurd rfl h
  | infinite s => cases s <;> rfl
  | finite s u hu => exact le_iff.mpr ⟨-1, 0, 0, _, rfl, rfl, .inl (by decide)⟩

theorem le_infinite {x : Binary64} (h : x ≠ nan) : x.le (infinite false) = true := by
  cases x with
  | nan => exact absurd rfl h
  | infinite s => cases s <;> rfl
  | finite s u hu => exact le_iff.mpr ⟨0, _, 1, 0, rfl, rfl, .inl (by decide)⟩

/-! ## Monotone rounding -/

theorem roundDiv_mono {n m d : Nat} (hd : 0 < d) (h : n ≤ m) : roundDiv n d ≤ roundDiv m d := by
  obtain ⟨hlow, -, -⟩ := roundDiv_nearest n hd
  obtain ⟨-, hhigh, -⟩ := roundDiv_nearest m hd
  by_contra hlt
  have hstep := Nat.mul_le_mul_right d (show roundDiv m d + 1 ≤ roundDiv n d by omega)
  rw [Nat.add_mul] at hstep
  -- the rounded quotients can only be apart if the numerators are in the other order
  obtain rfl : n = m := by omega
  exact hlt (Nat.le_refl _)

theorem roundUnits_mono {n m d : Nat} (hd : 0 < d) (h : n ≤ m) :
    roundUnits n d ≤ roundUnits m d := by
  obtain ⟨j, hs, hlow, hhigh⟩ := exists_spacing (m / d)
  have hquot : n / d ≤ m / d := Nat.div_le_div_right h
  by_cases hsame : j = 0 ∨ 2 ^ (52 + j) ≤ n / d
  · -- both quotients have one spacing
    have hspacing : spacing (n / d) = 2 ^ j :=
      spacing_eq hsame (Nat.lt_of_le_of_lt hquot hhigh)
    unfold roundUnits
    dsimp only
    rw [hspacing, hs]
    exact Nat.mul_le_mul_right _ (roundDiv_mono (Nat.mul_pos hd (Nat.two_pow_pos j)) h)
  · -- a power of two lies between them
    obtain ⟨hj, hlt⟩ := not_or.mp hsame
    have hgrid : 2 ^ (52 + j) % spacing (2 ^ (52 + j)) = 0 := by
      refine Nat.mod_eq_zero_of_dvd ?_
      unfold spacing
      rw [Nat.log2_two_pow]
      exact Nat.pow_dvd_pow 2 (by omega)
    calc roundUnits n d ≤ 2 ^ (52 + j) :=
          roundUnits_le hgrid hd (Nat.le_of_lt ((Nat.div_lt_iff_lt_mul hd).mp (by omega)))
      _ ≤ roundUnits m d :=
          le_roundUnits hgrid hd ((Nat.le_div_iff_mul_le hd).mp (hlow.resolve_left hj))

/-! ## Rounded quotients -/

section

variable {n m d : Nat} (hd : 0 < d)
include hd

/-- A rounded quotient is a magnitude with its sign, or out of range. -/
theorem ofUnitQuotient_cases (s : Bool) (n : Nat) :
    (roundUnits n d < bound ∧ ∃ hu, ofUnitQuotient s n d = finite s (roundUnits n d) hu) ∨
      bound ≤ roundUnits n d ∧ ofUnitQuotient s n d = infinite s := by
  unfold ofUnitQuotient ofUnits
  rcases Nat.lt_or_ge (roundUnits n d) bound with hrange | hrange
  · have hrep := representable_roundUnits hd hrange
    exact .inl ⟨hrange, hrep, dif_pos hrep⟩
  · exact .inr ⟨hrange, dif_neg fun hrep => Nat.not_lt_of_le hrange hrep.1⟩

theorem ofUnitQuotient_ne_nan (s : Bool) (n : Nat) : ofUnitQuotient s n d ≠ nan := by
  rcases ofUnitQuotient_cases hd s n with ⟨-, hu, heq⟩ | ⟨-, heq⟩
  · rw [heq]
    exact Binary64.noConfusion
  · rw [heq]
    exact Binary64.noConfusion

theorem ofUnitQuotient_le (h : n ≤ m) :
    (ofUnitQuotient false n d).le (ofUnitQuotient false m d) = true := by
  have hround := roundUnits_mono hd h
  rcases ofUnitQuotient_cases hd false m with ⟨hrange, hv, hm⟩ | ⟨-, hm⟩
  · rcases ofUnitQuotient_cases hd false n with ⟨-, hu, hn⟩ | ⟨hlarge, -⟩
    · rw [hn, hm]
      exact le_iff.mpr ⟨0, _, 0, _, rfl, rfl, .inr ⟨rfl, Int.ofNat_le.mpr hround⟩⟩
    · omega
  · rw [hm]
    exact le_infinite (ofUnitQuotient_ne_nan hd false n)

theorem ofUnitQuotient_le_of_negative (h : n ≤ m) :
    (ofUnitQuotient true m d).le (ofUnitQuotient true n d) = true := by
  have hround := roundUnits_mono hd h
  rcases ofUnitQuotient_cases hd true m with ⟨hrange, hv, hm⟩ | ⟨-, hm⟩
  · rcases ofUnitQuotient_cases hd true n with ⟨-, hu, hn⟩ | ⟨hlarge, -⟩
    · rw [hn, hm]
      refine le_iff.mpr ⟨0, _, 0, _, rfl, rfl, .inr ⟨rfl, ?_⟩⟩
      simp only [signedUnits]
      omega
    · omega
  · rw [hm]
    exact infinite_le (ofUnitQuotient_ne_nan hd true n)

theorem negative_le_ofUnitQuotient (n m : Nat) :
    (ofUnitQuotient true n d).le (ofUnitQuotient false m d) = true := by
  rcases ofUnitQuotient_cases hd true n with ⟨-, hu, hn⟩ | ⟨-, hn⟩
  · rcases ofUnitQuotient_cases hd false m with ⟨-, hv, hm⟩ | ⟨-, hm⟩
    · rw [hn, hm]
      refine le_iff.mpr ⟨0, _, 0, _, rfl, rfl, .inr ⟨rfl, ?_⟩⟩
      simp only [signedUnits]
      omega
    · rw [hm]
      exact le_infinite (ofUnitQuotient_ne_nan hd true n)
  · rw [hn]
    exact infinite_le (ofUnitQuotient_ne_nan hd false m)

theorem ofUnitQuotient_zero (s : Bool) : ofUnitQuotient s 0 d = finite s 0 representable_zero := by
  have hzero : roundUnits 0 d = 0 :=
    Nat.le_zero.mp (roundUnits_le (Nat.zero_mod _) hd (Nat.zero_le _))
  unfold ofUnitQuotient ofUnits
  rw [hzero]
  exact dif_pos representable_zero

end

/-! ## Scaling -/

/-- The `n / d`-fold of a number, rounded once. -/
def scaled (n d : Nat) : Binary64 → Binary64
  | .nan => .nan
  | .infinite s => .infinite s
  | .finite s u _ => ofUnitQuotient s (n * u) d

theorem scaled_ne_nan {n d : Nat} (hd : 0 < d) {x : Binary64} (h : x ≠ nan) :
    scaled n d x ≠ nan := by
  cases x with
  | nan => exact absurd rfl h
  | infinite s => exact Binary64.noConfusion
  | finite s u hu => exact ofUnitQuotient_ne_nan hd s (n * u)

section

variable {x y : Binary64}

/-- **Scaling.** Numbers that are scaled and rounded stay in order. -/
theorem le_scaled (n : Nat) {d : Nat} (hd : 0 < d) (h : x.le y = true) :
    (scaled n d x).le (scaled n d y) = true := by
  obtain ⟨hxnan, hynan⟩ := ne_nan_of_le h
  obtain ⟨a, k, b, l, hx, hy, horder⟩ := le_iff.mp h
  match x, y with
  | .infinite true, y => exact infinite_le (scaled_ne_nan hd hynan)
  | x, .infinite false => exact le_infinite (scaled_ne_nan hd hxnan)
  | .infinite false, .infinite true => exact absurd h (by decide)
  | .infinite false, .finite t v hv =>
    obtain ⟨rfl, rfl⟩ := Prod.mk.inj (Option.some.inj hx)
    obtain ⟨rfl, -⟩ := Prod.mk.inj (Option.some.inj hy)
    omega
  | .finite s u hu, .infinite true =>
    obtain ⟨rfl, -⟩ := Prod.mk.inj (Option.some.inj hx)
    obtain ⟨rfl, rfl⟩ := Prod.mk.inj (Option.some.inj hy)
    omega
  | .finite s u hu, .finite t v hv =>
    obtain ⟨rfl, rfl⟩ := Prod.mk.inj (Option.some.inj hx)
    obtain ⟨rfl, rfl⟩ := Prod.mk.inj (Option.some.inj hy)
    cases s with
    | true =>
      cases t with
      | true =>
        simp only [signedUnits] at horder
        exact ofUnitQuotient_le_of_negative hd (Nat.mul_le_mul_left n (by omega))
      | false => exact negative_le_ofUnitQuotient hd (n * u) (n * v)
    | false =>
      cases t with
      | true =>
        -- only the two zeros are in this order
        simp only [signedUnits] at horder
        obtain rfl : u = 0 := by omega
        obtain rfl : v = 0 := by omega
        unfold scaled
        dsimp only
        rw [Nat.mul_zero, ofUnitQuotient_zero hd, ofUnitQuotient_zero hd]
        rfl
      | false =>
        simp only [signedUnits] at horder
        exact ofUnitQuotient_le hd (Nat.mul_le_mul_left n (by omega))

theorem mul_finite_eq (x : Binary64) {c : Nat} (hc : Representable c) (hpos : 0 < c) :
    x * finite false c hc = scaled c one x := by
  show mul x _ = _
  cases x with
  | nan => rfl
  | infinite s =>
    unfold mul scaled
    dsimp only
    rw [if_neg (Nat.ne_of_gt hpos), Bool.bne_false]
  | finite s u hu =>
    unfold mul scaled
    dsimp only
    rw [Bool.bne_false, Nat.mul_comm]

theorem div_finite_eq (x : Binary64) {v : Nat} (hv : Representable v) (hpos : 0 < v) :
    x / finite false v hv = scaled one v x := by
  show div x _ = _
  cases x with
  | nan => rfl
  | infinite s =>
    unfold div scaled
    dsimp only
    rw [Bool.bne_false]
  | finite s u hu =>
    unfold div scaled
    dsimp only
    rw [if_neg (Nat.ne_of_gt hpos), Bool.bne_false]

/-- Products with a positive number are in order. -/
theorem le_mul_finite {c : Nat} (hc : Representable c) (hpos : 0 < c) (h : x.le y = true) :
    (x * finite false c hc).le (y * finite false c hc) = true := by
  rw [mul_finite_eq x hc hpos, mul_finite_eq y hc hpos]
  exact le_scaled c one_pos h

/-- Quotients by a positive number are in order. -/
theorem le_div_finite {v : Nat} (hv : Representable v) (hpos : 0 < v) (h : x.le y = true) :
    (x / finite false v hv).le (y / finite false v hv) = true := by
  rw [div_finite_eq x hv hpos, div_finite_eq y hv hpos]
  exact le_scaled one hpos h

end

/-- A positive number is once itself. -/
theorem finite_div_self {v : Nat} (hv : Representable v) (hpos : 0 < v) :
    finite false v hv / finite false v hv = 1 := by
  have hround : roundUnits (one * v) v = one := roundUnits_mul_right representable_one.2 hpos
  rw [div_finite_eq _ hv hpos, one_eq]
  show ofUnits false (roundUnits (one * v) v) = _
  rw [hround]
  exact dif_pos representable_one

end Binary64

end StillVideo
