import StillVideo.Timeline
import StillVideo.Proofs.ShortDecimals

/-!
# The ends of windows

A window ends where a floating sum of its beginning and its length says. The sum denotes a short
decimal exactly where this reads as it (`denoted?_trimEnd_iff`), and the exact end where nothing is
added or nothing is rounded (`denoted?_trimEnd`); it is never far from it
(`exists_denoted?_trimEnd`).
-/

namespace StillVideo

attribute [local instance (2000)] instPowNat

/-! ## The end of a window -/

/-- Every numeral of the number reads as the floating number. -/
def ReadsAs (v : ℚ) (x : Binary64) : Prop :=
  ∀ c e, written c e = v → Binary64.ofNumeral (.finite false c e) = x

namespace Binary64

attribute [local irreducible] one bound

/-- A magnitude denotes a short decimal exactly where the decimal reads as it. -/
theorem denoted?_eq_iff_readsAs {u : Nat} {v : ℚ} (hu : 0 < u) (hrep : Representable u)
    (hshort : IsShort v) (hrange : IsOrdinary v) :
    denoted? (graphNumber (.finite false u hrep)) = some v ↔ ReadsAs v (.finite false u hrep) := by
  have hiff : ∀ c e, written c e = v →
      (denoted? (graphNumber (.finite false u hrep)) = some v ↔
        ofNumeral (.finite false c e) = .finite false u hrep) := by
    rintro c e rfl
    rw [denoted?_graphNumber_eq_iff hrep (fun h => absurd h Bool.false_ne_true) hshort hrange,
      unsignedZero_of_pos hu]
  constructor
  · exact fun h c e hv => (hiff c e hv).mp h
  · intro h
    obtain ⟨c, e, -, hv⟩ := hshort
    exact (hiff c e hv).mpr (h c e hv)

section Sum

variable {u v : Nat} {a l : ℚ} (ha : |a * one - u| ≤ (spacing u : ℚ) / 2)
  (hl : |l * one - v| ≤ (spacing v : ℚ) / 2) (hnonneg : 0 ≤ a) (hlarge : 2 ^ 52 ≤ l * one)
include ha hl hnonneg hlarge

/-- A rounded sum of rounded summands is near the exact sum. -/
theorem abs_roundUnits_add_sub_le :
    |(roundUnits (u + v) 1 : ℚ) - (a + l) * one| +
      (spacing (roundUnits (u + v) 1) : ℚ) / 2 ≤ (a + l) * one / 2 ^ 50 := by
  have hround := abs_sub_roundUnits_le (u + v) Nat.one_pos
  have hu := spacing_le_div u
  have hv := spacing_le_div v
  have hr := spacing_le_div (roundUnits (u + v) 1)
  have hpos : (0 : ℚ) < one := Nat.cast_pos.mpr one_pos
  have hnonneg' : 0 ≤ a * one := mul_nonneg hnonneg hpos.le
  rw [Nat.cast_one, div_one] at hround
  push_cast at hround
  generalize roundUnits (u + v) 1 = r at *
  rw [add_mul]
  generalize a * (one : ℚ) = x at *
  generalize l * (one : ℚ) = y at *
  rw [abs_le] at *
  have habs : |(r : ℚ) - (x + y)| ≤ (x + y) / 2 ^ 50 - (spacing r : ℚ) / 2 := by
    rw [abs_le]
    constructor <;> linarith
  linarith

/-- A sum of at most `10 ^ 308` is not out of range. -/
theorem representable_roundUnits_add (hsum : a + l ≤ 10 ^ 308) :
    Representable (roundUnits (u + v) 1) := by
  have hnear := abs_roundUnits_add_sub_le ha hl hnonneg hlarge
  have hhalf : (0 : ℚ) ≤ (spacing (roundUnits (u + v) 1) : ℚ) / 2 :=
    div_nonneg (Nat.cast_nonneg _) (by norm_num)
  have hupper := (abs_le.mp (le_of_add_le_of_nonneg_left hnear hhalf)).2
  have hone : (0 : ℚ) ≤ one := Nat.cast_nonneg one
  have hpos := mul_nonneg hnonneg hone
  refine representable_roundUnits Nat.one_pos (lt_bound hsum ?_)
  linarith

end Sum

/-- A rounded sum denotes a number near the exact sum. -/
theorem exists_denoted?_sum {u v : Nat} {a l : ℚ} (ha : |a * one - u| ≤ (spacing u : ℚ) / 2)
    (hl : |l * one - v| ≤ (spacing v : ℚ) / 2) (hnonneg : 0 ≤ a) (hlarge : 2 ^ 52 ≤ l * one)
    (hpos : 0 < roundUnits (u + v) 1) (hrep : Representable (roundUnits (u + v) 1)) :
    ∃ w, denoted? (graphNumber (.finite false (roundUnits (u + v) 1) hrep)) = some w ∧
      |w - (a + l)| ≤ (a + l) / 2 ^ 50 := by
  have hnear := abs_roundUnits_add_sub_le ha hl hnonneg hlarge
  have hdigits := abs_written_sub_le (roundsTo_shortest hpos)
  refine ⟨_, denoted?_graphNumber hpos hrep false, ?_⟩
  have hone : (0 : ℚ) < one := Nat.cast_pos.mpr one_pos
  refine le_of_mul_le_mul_right ?_ hone
  generalize roundUnits (u + v) 1 = r at *
  calc |written (shortest r).1 (shortest r).2 - (a + l)| * one
      = |(written (shortest r).1 (shortest r).2 * one - r) + (r - (a + l) * one)| := by
        rw [← abs_of_pos hone, ← abs_mul, abs_of_pos hone]
        congr 1
        ring
    _ ≤ |written (shortest r).1 (shortest r).2 * one - r| + |(r : ℚ) - (a + l) * one| :=
        abs_add_le _ _
    _ ≤ (a + l) * one / 2 ^ 50 := by linarith
    _ = (a + l) / 2 ^ 50 * one := by ring

/-- The rounded sum of magnitudes is what their exact sum reads as. -/
theorem readsAs_sum {u v : Nat} {a l : ℚ} (hu : a * one = u) (hv : l * one = v)
    (hpos : 0 < roundUnits (u + v) 1) (hrep : Representable (roundUnits (u + v) 1)) :
    ReadsAs (a + l) (.finite false (roundUnits (u + v) 1) hrep) := by
  intro c e hvalue
  refine ofNumeral_eq hpos hrep (roundsTo_iff.mpr ?_) false
  refine (reaches_congr (Nat.pow_pos (by decide)) Nat.one_pos ?_).mpr
    (reaches_roundUnits (u + v) Nat.one_pos)
  have hten : ((10 ^ (-e).toNat : Nat) : ℚ) ≠ 0 := by
    exact_mod_cast (Nat.pow_pos (by decide)).ne'
  rw [written_eq_div, div_eq_iff hten] at hvalue
  have hsum : ((c * one * 10 ^ e.toNat * 1 : Nat) : ℚ) = ((u + v) * 10 ^ (-e).toNat : Nat) := by
    have : ((c * one * 10 ^ e.toNat * 1 : Nat) : ℚ) = (c * 10 ^ e.toNat : Nat) * one := by
      push_cast
      ring
    rw [this, hvalue]
    push_cast
    rw [← hu, ← hv]
    ring
  exact_mod_cast hsum

end Binary64

/-! ## Decimals as floating numbers -/

open Binary64

/-- A decimal that is not negative and within range becomes a number near it. -/
theorem exists_of_toBinary? {d : Decimal} {v : ℚ} {x : Binary64} (h : d.toBinary? = some x)
    (hd : d.value? = some v) (hnonneg : 0 ≤ v) (hle : v ≤ 10 ^ 308) :
    ∃ s u hu c e, x = .finite s u hu ∧ (s = true → u = 0) ∧ written c e = v ∧
      ofNumeral (.finite false c e) = x.unsignedZero ∧
      |v * one - u| ≤ (spacing u : ℚ) / 2 := by
  obtain ⟨s, c, e, rfl, hs, rfl⟩ := exists_of_value? hd hnonneg
  obtain ⟨u, hu, hread, hzero, hnear⟩ := exists_ofNumeral hle s
  obtain rfl : ofNumeral (.finite s c e) = x := Option.some.inj h
  refine ⟨s, u, hu, c, e, hread, fun hs' => hzero (hs hs'), rfl, ?_, hnear⟩
  rw [hread]
  cases s with
  | true =>
    obtain rfl := hs rfl
    obtain rfl := hzero rfl
    rw [unsignedZero_zero, ofNumeral]
    exact (if_pos rfl).trans ofUnits_zero
  | false =>
    rw [hread]
    rcases Nat.eq_zero_or_pos u with rfl | hpos
    · rw [unsignedZero_zero]
      rfl
    · rw [unsignedZero_of_pos hpos]

/-- What an ordinary short decimal becomes denotes it. -/
theorem denoted?_of_toBinary? {d : Decimal} {v : ℚ} {x : Binary64} (h : d.toBinary? = some x)
    (hd : d.value? = some v) (hshort : IsShort v) (hrange : IsOrdinary v) :
    denoted? (graphNumber x) = some v := by
  obtain ⟨s, u, hu, c, e, rfl, hs, rfl, hread, -⟩ :=
    exists_of_toBinary? h hd hrange.nonneg hrange.le
  exact (denoted?_graphNumber_eq_iff hu hs hshort hrange).mpr hread

/-- Half the spacing is less than the magnitude itself, so only zero is as near to zero. -/
theorem eq_zero_of_near {u : Nat} (h : |0 * (one : ℚ) - u| ≤ (spacing u : ℚ) / 2) : u = 0 := by
  by_contra hne
  have hpos := Nat.pos_of_ne_zero hne
  have hspacing : (spacing u : ℚ) ≤ u := by exact_mod_cast spacing_le hpos
  have hpos' : (0 : ℚ) < u := by exact_mod_cast hpos
  have := (abs_le.mp h).1
  linarith

/-- The length of a clip is a magnitude, and not a small one if it is ordinary. -/
theorem exists_duration {c : Clip} {d : Decimal} {v : ℚ} (h : d.toBinary? = some c.duration)
    (hd : d.value? = some v) (hrange : IsOrdinary v) :
    ∃ u hu, c.duration = .finite false u hu ∧ 0 < u ∧ 2 ^ (-1022 : ℤ) ≤ v ∧
      |v * one - u| ≤ (spacing u : ℚ) / 2 := by
  obtain ⟨s, u, hu, -, -, heq, -, -, -, hnear⟩ :=
    exists_of_toBinary? h hd hrange.nonneg hrange.le
  have hok := c.duration_ok
  rcases cases_of_not_le_zero hok with h | h | ⟨u', hu', h, hpos⟩
  · exact absurd (heq.symm.trans h) (by simp)
  · exact absurd (heq.symm.trans h) (by simp)
  · injection heq.symm.trans h with _ hunits
    subst hunits
    refine ⟨u, hu, h, hpos, ?_, hnear⟩
    rcases hrange with rfl | ⟨hlow, -⟩
    · exact absurd (eq_zero_of_near hnear) (Nat.ne_of_gt hpos)
    · exact hlow

section Window

variable {c : Clip} {di dl : Decimal} {a l : ℚ} (hi : di.toBinary? = some c.trimIn)
  (hl : dl.toBinary? = some c.duration) (hdi : di.value? = some a) (hdl : dl.value? = some l)
  (ha : IsOrdinary a) (hlength : IsOrdinary l) (hend : a + l ≤ 10 ^ 308)
include hi hl hdi hdl ha hlength hend

/-- The end of a window is a rounded sum. -/
theorem exists_trimEnd : ∃ s u hu v hv r hr, c.trimIn = .finite s u hu ∧ (s = true → u = 0) ∧
    c.duration = .finite false v hv ∧ c.trimEnd = .finite false r hr ∧ 0 < r ∧
    r = roundUnits (u + v) 1 ∧ 2 ^ (-1022 : ℤ) ≤ l ∧
    |a * one - u| ≤ (spacing u : ℚ) / 2 ∧ |l * one - v| ≤ (spacing v : ℚ) / 2 := by
  obtain ⟨s, u, hu, -, -, hin, hs, -, -, hnear⟩ := exists_of_toBinary? hi hdi ha.nonneg ha.le
  obtain ⟨v, hv, hduration, hpos, hlow, hnear'⟩ := exists_duration hl hdl hlength
  have hrep := representable_roundUnits_add hnear hnear' ha.nonneg (full_of_le hlow) hend
  refine ⟨s, u, hu, v, hv, _, hrep, hin, hs, hduration, ?_, ?_, rfl, hlow, hnear, hnear'⟩
  · rw [Clip.trimEnd, hin, hduration, finite_add_finite_eq hu hv hs, ofUnits, dif_pos hrep]
  · exact Nat.lt_of_lt_of_le hpos (le_roundUnits hv.2 Nat.one_pos (by omega))

theorem denoted?_trimEnd_iff (hshort : IsShort (a + l)) :
    denoted? (graphNumber c.trimEnd) = some (a + l) ↔ ReadsAs (a + l) c.trimEnd := by
  obtain ⟨-, -, -, -, -, r, hr, -, -, -, hsum, hpos, -, hlow, -⟩ :=
    exists_trimEnd hi hl hdi hdl ha hlength hend
  have hnonneg := ha.nonneg
  rw [hsum]
  exact denoted?_eq_iff_readsAs hpos hr hshort (.inr ⟨by linarith, hend⟩)

theorem exists_denoted?_trimEnd : ∃ w, denoted? (graphNumber c.trimEnd) = some w ∧
    |w - (a + l)| ≤ (a + l) / 2 ^ 50 := by
  obtain ⟨s, u, hu, v, hv, r, hr, -, -, -, hsum, hpos, rfl, hlow, hnear, hnear'⟩ :=
    exists_trimEnd hi hl hdi hdl ha hlength hend
  rw [hsum]
  exact exists_denoted?_sum hnear hnear' ha.nonneg (full_of_le hlow) hpos hr

theorem denoted?_trimEnd (hshort : IsShort (a + l))
    (h : a = 0 ∨ c.trimIn.value = a ∧ c.duration.value = l) :
    denoted? (graphNumber c.trimEnd) = some (a + l) := by
  obtain ⟨s, u, hu, v, hv, r, hr, hin, hs, hduration, hsum, hpos, rfl, hlow, hnear, hnear'⟩ :=
    exists_trimEnd hi hl hdi hdl ha hlength hend
  rcases h with rfl | ⟨hvalue, hvalue'⟩
  · -- nothing is added, so the sum is the length
    obtain rfl := eq_zero_of_near hnear
    have hself : roundUnits (0 + v) 1 = v := by
      rw [Nat.zero_add, roundUnits_self hv.2]
    have hlast : c.trimEnd = c.duration := by
      rw [hsum, hduration]
      congr 1
    rw [zero_add] at hshort ⊢
    rw [hlast]
    exact denoted?_of_toBinary? hl hdl hshort hlength
  · rw [denoted?_trimEnd_iff hi hl hdi hdl ha hlength hend hshort, hsum]
    rw [hin] at hvalue
    rw [hduration] at hvalue'
    refine readsAs_sum ?_ ?_ hpos hr
    · rw [← hvalue, value_finite hu hs]
    · rw [← hvalue', value_finite hv (fun h => absurd h Bool.false_ne_true)]

end Window

end StillVideo
