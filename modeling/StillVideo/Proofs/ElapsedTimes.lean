import StillVideo.Proofs.NumeralGrammar
import StillVideo.Proofs.RoundingErrors
import StillVideo.Proofs.SampleBounds
import StillVideo.Proofs.TextParts

/-!
# Elapsed times

What an encoder writes for the time that has elapsed, by its parts between colons (`HasParts`). A
part is a decimal numeral (`IsNumeral`), or it is read although it is none (`IsStray`), or it counts
as zero (`counts_iff`). Where no part is astray a time is read by its grammar: it is finite and next
to the exact number of seconds, and a text without a time leaves the percentage at zero
(`followsGrammar`).
-/

namespace StillVideo

open Binary64

attribute [local instance (2000)] instPowNat

attribute [local irreducible] one bound

/-! ## Parts -/

namespace Elapsed

/-- A part is a decimal numeral of this value; white space may stand around it. -/
def IsNumeral (cs : List Char) (v : ℚ) : Prop :=
  ∃ n, Numeral.Writes (trim isNumeralPadding cs) n ∧ n.value? = some v

/-- A part is read as a numeral although it is no decimal numeral: it has digits of other scripts,
underscores between its digits, or it is a word for infinity or for no number. -/
structure IsStray (cs : List Char) (n : Numeral) : Prop where
  no_numeral : ∀ v, ¬ IsNumeral cs v
  spelled : ∃ plain, Spells (trim isNumeralPadding cs) plain ∧ Numeral.Writes plain n

/-- What a part counts as. -/
inductive Counts (cs : List Char) : Binary64 → Prop
  | numeral {negative : Bool} {c : Nat} {e : Int}
      (h : Numeral.Writes (trim isNumeralPadding cs) (.finite negative c e)) :
      Counts cs (.ofNumeral (.finite negative c e))
  | stray {n : Numeral} (h : IsStray cs n) : Counts cs (.ofNumeral n)
  | nothing (h : ∀ v, ¬ IsNumeral cs v) (h' : ∀ n, ¬ IsStray cs n) : Counts cs 0

section

variable {cs : List Char}

theorem exists_of_isNumeral {v : ℚ} (h : IsNumeral cs v) : ∃ negative c e,
    Numeral.Writes (trim isNumeralPadding cs) (.finite negative c e) ∧
      signed negative (written c e) = v := by
  obtain ⟨n, hwrites, hvalue⟩ := h
  cases n with
  | nan => exact absurd hvalue (by simp [Numeral.value?])
  | infinite negative => exact absurd hvalue (by simp [Numeral.value?])
  | finite negative c e => exact ⟨negative, c, e, hwrites, Option.some.inj hvalue⟩

theorem realOrZero_of_spells {plain : List Char} {n : Numeral}
    (h : Spells (trim isNumeralPadding cs) plain) (hwrites : Numeral.Writes plain n) :
    realOrZero cs = .ofNumeral n := by
  have hread : Binary64.read? (String.ofList cs) = some (.ofNumeral n) :=
    Binary64.read?_iff.mpr ⟨plain, n, by rwa [String.toList_ofList], hwrites, rfl⟩
  unfold realOrZero
  rw [hread]
  rfl

theorem realOrZero_of_writes {negative : Bool} {c : Nat} {e : Int}
    (h : Numeral.Writes (trim isNumeralPadding cs) (.finite negative c e)) :
    realOrZero cs = .ofNumeral (.finite negative c e) :=
  realOrZero_of_spells (spells_of_mem_characters (Numeral.mem_characters h)) h

theorem realOrZero_of_nothing (h : ∀ v, ¬ IsNumeral cs v) (h' : ∀ n, ¬ IsStray cs n) :
    realOrZero cs = 0 := by
  unfold realOrZero
  cases hread : Binary64.read? (String.ofList cs) with
  | none => rfl
  | some x =>
    obtain ⟨plain, n, hplain, hwrites, -⟩ := Binary64.read?_iff.mp hread
    rw [String.toList_ofList] at hplain
    exact absurd ⟨h, plain, hplain, hwrites⟩ (h' n)

/-- **Parts.** Every part counts as something, and as one number only. -/
theorem counts_iff {x : Binary64} : Counts cs x ↔ realOrZero cs = x := by
  constructor
  · intro h
    cases h with
    | numeral h => exact realOrZero_of_writes h
    | stray h =>
      obtain ⟨plain, hplain, hwrites⟩ := h.spelled
      exact realOrZero_of_spells hplain hwrites
    | nothing h h' => exact realOrZero_of_nothing h h'
  · rintro rfl
    by_cases hnumeral : ∃ v, IsNumeral cs v
    · obtain ⟨v, hv⟩ := hnumeral
      obtain ⟨negative, c, e, hwrites, -⟩ := exists_of_isNumeral hv
      rw [realOrZero_of_writes hwrites]
      exact .numeral hwrites
    · rw [not_exists] at hnumeral
      by_cases hstray : ∃ n, IsStray cs n
      · obtain ⟨n, hn⟩ := hstray
        obtain ⟨plain, hplain, hwrites⟩ := hn.spelled
        rw [realOrZero_of_spells hplain hwrites]
        exact .stray hn
      · rw [not_exists] at hstray
        rw [realOrZero_of_nothing hnumeral hstray]
        exact .nothing hnumeral hstray

end

/-! ## Exact times -/

/-- The exact value of a part: of a decimal numeral, or zero of anything else. -/
inductive PartValue (cs : List Char) : ℚ → Prop
  | numeral {v : ℚ} (h : IsNumeral cs v) : PartValue cs v
  | nothing (h : ∀ v, ¬ IsNumeral cs v) : PartValue cs 0

/-- A time is written: seconds alone, or hours, minutes and seconds of which one is a numeral. -/
def IsWritten (parts : List (List Char)) : Prop :=
  (parts.length = 1 ∨ parts.length = 3) ∧ ∃ part ∈ parts, ∃ v, IsNumeral part v

/-- The exact number of seconds that parts write, and the sum of the magnitudes behind it. -/
inductive ExactTime : List (List Char) → ℚ → ℚ → Prop
  | bare {s : List Char} {v : ℚ} (h : PartValue s v) : ExactTime [s] v |v|
  | parts {h m s : List Char} {u v w : ℚ} (hh : PartValue h u) (hm : PartValue m v)
      (hs : PartValue s w) :
      ExactTime [h, m, s] (u * 3600 + v * 60 + w) (|u| * 3600 + |v| * 60 + |w|)
  | nothing {parts : List (List Char)} (h : parts.length ≠ 1) (h' : parts.length ≠ 3) :
      ExactTime parts 0 0

theorem sixty_eq : (60 : Binary64) = .finite false (60 * one) (representable_mul_one (by decide)) :=
  ofNat_eq (n := 60) (by decide)

theorem hour_eq :
    (3600 : Binary64) = .finite false (3600 * one) (representable_mul_one (by decide)) :=
  ofNat_eq (n := 3600) (by decide)

/-- Hours, minutes and seconds that are near their exact values give a time near the exact one. -/
theorem isNear_time {x y z : Binary64} {u v w : ℚ} (hx : x.IsNear u (|u| / 2 ^ 52 + 1))
    (hy : y.IsNear v (|v| / 2 ^ 52 + 1)) (hz : z.IsNear w (|w| / 2 ^ 52 + 1))
    (hu : |u| ≤ 10 ^ 300 * one) (hv : |v| ≤ 10 ^ 300 * one) (hw : |w| ≤ 10 ^ 300 * one) :
    (x * 3600 + y * 60 + z).IsNear (u * 3600 + v * 60 + w)
      ((|u| * 3600 + |v| * 60 + |w|) / 2 ^ 49 + 4096) := by
  have hunit : (1 : ℚ) ≤ 10 ^ 300 * one := by
    have : (1 : ℚ) ≤ one := by exact_mod_cast one_pos
    exact one_le_mul_of_one_le_of_one_le (one_le_pow₀ (by norm_num)) this
  have htop : (10 : ℚ) ^ 308 * one = 10 ^ 8 * (10 ^ 300 * one) := by
    rw [← mul_assoc, ← pow_add]
  generalize (10 : ℚ) ^ 300 * one = top at *
  have hu' := abs_nonneg u
  have hv' := abs_nonneg v
  have hw' := abs_nonneg w
  have hhours := hx.mul_ofNat (k := 3600) (representable_mul_one (by decide)) (by decide)
    (by rw [htop]; push_cast; linarith)
  have hminutes := hy.mul_ofNat (k := 60) (representable_mul_one (by decide)) (by decide)
    (by rw [htop]; push_cast; linarith)
  rw [← hour_eq] at hhours
  rw [← sixty_eq] at hminutes
  push_cast at hhours hminutes
  have hlarge : |3600 * u| = 3600 * |u| := by rw [abs_mul, abs_of_pos (by norm_num)]
  have hmiddle : |60 * v| = 60 * |v| := by rw [abs_mul, abs_of_pos (by norm_num)]
  have hsum := hhours.add hminutes (by rw [htop, hlarge, hmiddle]; linarith)
  rw [hlarge, hmiddle] at hsum
  have habs := (abs_add_le (3600 * u) (60 * v)).trans_eq (congrArg₂ (· + ·) hlarge hmiddle)
  have htotal := hsum.add hz (by rw [htop]; linarith)
  rw [mul_comm u, mul_comm v]
  exact htotal.mono (by linarith)

theorem exists_partValue (cs : List Char) : ∃ v, PartValue cs v := by
  by_cases h : ∃ v, IsNumeral cs v
  · obtain ⟨v, hv⟩ := h
    exact ⟨v, .numeral hv⟩
  · exact ⟨0, .nothing (not_exists.mp h)⟩

/-- A part that is not astray is near its exact value. -/
theorem isNear_realOrZero {cs : List Char} {v : ℚ} (h : PartValue cs v)
    (hstray : ∀ n, ¬ IsStray cs n) (hsize : ∀ v, IsNumeral cs v → |v| ≤ 10 ^ 300) :
    |v * one| ≤ 10 ^ 300 * one ∧
      (realOrZero cs).IsNear (v * one) (|v * one| / 2 ^ 52 + 1) := by
  have hone : (0 : ℚ) ≤ one := Nat.cast_nonneg one
  cases h with
  | numeral h =>
    have hle := hsize v h
    obtain ⟨negative, c, e, hwrites, rfl⟩ := exists_of_isNumeral h
    rw [abs_signed, abs_of_nonneg (written_nonneg c e)] at hle
    rw [realOrZero_of_writes hwrites, abs_mul, abs_signed, abs_of_nonneg (written_nonneg c e),
      abs_of_nonneg hone]
    exact ⟨mul_le_mul_of_nonneg_right hle hone,
      isNear_ofNumeral (hle.trans (pow_le_pow_right₀ (by norm_num) (by norm_num))) negative⟩
  | nothing h =>
    rw [realOrZero_of_nothing h hstray, zero_mul, abs_zero]
    exact ⟨by positivity, isNear_zero.mono (by norm_num)⟩

/-! ## Times -/

/-- The number of seconds that parts give: that of seconds alone or of hours, minutes and seconds,
and zero of any other number of parts. -/
inductive Gives : List (List Char) → Binary64 → Prop
  | bare {s : List Char} {x : Binary64} (h : Counts s x) : Gives [s] x
  | parts {h m s : List Char} {x y z : Binary64} (hh : Counts h x) (hm : Counts m y)
      (hs : Counts s z) : Gives [h, m, s] (x * 3600 + y * 60 + z)
  | nothing {parts : List (List Char)} (h : parts.length ≠ 1) (h' : parts.length ≠ 3) :
      Gives parts 0

/-- What holds of a text with these parts. -/
structure FollowsGrammar (text : String) (parts : List (List Char)) : Prop where
  /-- Whatever the parts are, each of them counts as something. -/
  reads : Gives parts (readElapsed text)
  /-- Where no part is astray or out of range the time is finite and next to the exact one. -/
  near : (∀ part ∈ parts, ∀ n, ¬ IsStray part n) →
    (∀ part ∈ parts, ∀ v, IsNumeral part v → |v| ≤ 10 ^ 300) →
    ∃ v m, ExactTime parts v m ∧ (readElapsed text).isFinite = true ∧
      |(readElapsed text).value - v| ≤ m / 2 ^ 49 + 4096 / one
  /-- Where no time is written and no part is astray nothing has elapsed. -/
  unwritten : (∀ part ∈ parts, ∀ n, ¬ IsStray part n) → ¬ IsWritten parts →
    readElapsed text = 0 ∧ ∀ a : Accumulator, a.field "out_time" "" = text → a.total ≠ .nan →
      a.sample.progress = .real 0

/-- The number of seconds that parts count as. -/
def ofParts : List (List Char) → Binary64
  | [seconds] => realOrZero seconds
  | [hours, minutes, seconds] =>
    realOrZero hours * 3600 + realOrZero minutes * 60 + realOrZero seconds
  | _ => 0

theorem readElapsed_eq {text : String} {parts : List (List Char)} (h : HasParts text parts) :
    readElapsed text = ofParts parts := by
  unfold readElapsed
  rw [hasParts_iff.mp h]
  rfl

section

variable {parts : List (List Char)}

theorem gives_ofParts (parts : List (List Char)) : Gives parts (ofParts parts) := by
  match parts with
  | [] => exact .nothing (by simp) (by simp)
  | [s] => exact .bare (counts_iff.mpr rfl)
  | [_, _] => exact .nothing (by simp) (by simp)
  | [h, m, s] => exact .parts (counts_iff.mpr rfl) (counts_iff.mpr rfl) (counts_iff.mpr rfl)
  | _ :: _ :: _ :: _ :: rest => exact .nothing (by simp) (by simp)

/-- What is near so many units is near the number itself. -/
theorem abs_value_sub_le {x : Binary64} {v err : ℚ} (h : x.IsNear (v * one) err) :
    |x.value - v| ≤ err / one := by
  have hone : (0 : ℚ) < one := Nat.cast_pos.mpr one_pos
  have hunits : (x.signedUnits : ℚ) - v * one = (x.value - v) * one := by
    rw [sub_mul, Binary64.value, div_mul_cancel₀ _ hone.ne']
  have hle := h.2
  rw [hunits, abs_mul, abs_of_pos hone] at hle
  exact (le_div_iff₀ hone).mpr hle

/-- Parts that are not astray are near the exact time. -/
theorem exists_exactTime (hstray : ∀ part ∈ parts, ∀ n, ¬ IsStray part n)
    (hsize : ∀ part ∈ parts, ∀ v, IsNumeral part v → |v| ≤ 10 ^ 300) :
    ∃ v m, ExactTime parts v m ∧
      (ofParts parts).IsNear (v * one) (m * one / 2 ^ 49 + 4096) := by
  have hone : (0 : ℚ) ≤ one := Nat.cast_nonneg one
  have near : ∀ part ∈ parts, ∀ v, PartValue part v → |v * one| ≤ 10 ^ 300 * one ∧
      (realOrZero part).IsNear (v * one) (|v * one| / 2 ^ 52 + 1) := fun part hpart v hv =>
    isNear_realOrZero hv (hstray part hpart) (hsize part hpart)
  have nothing : (0 : Binary64).IsNear (0 * one) (0 * one / 2 ^ 49 + 4096) := by
    rw [zero_mul]
    exact isNear_zero.mono (by norm_num)
  match parts with
  | [] => exact ⟨0, 0, .nothing (by simp) (by simp), nothing⟩
  | [s] =>
    obtain ⟨v, hv⟩ := exists_partValue s
    obtain ⟨-, hnear⟩ := near s (by simp) v hv
    refine ⟨v, |v|, .bare hv, hnear.mono ?_⟩
    rw [abs_mul, abs_of_nonneg hone]
    linarith [mul_nonneg (abs_nonneg v) hone]
  | [_, _] => exact ⟨0, 0, .nothing (by simp) (by simp), nothing⟩
  | [h, m, s] =>
    obtain ⟨u, hu⟩ := exists_partValue h
    obtain ⟨v, hv⟩ := exists_partValue m
    obtain ⟨w, hw⟩ := exists_partValue s
    obtain ⟨hx, hx'⟩ := near h (by simp) u hu
    obtain ⟨hy, hy'⟩ := near m (by simp) v hv
    obtain ⟨hz, hz'⟩ := near s (by simp) w hw
    refine ⟨_, _, .parts hu hv hw, ?_⟩
    have htime := isNear_time hx' hy' hz' hx hy hz
    simp only [abs_mul, abs_of_nonneg hone] at htime
    have hexact : (u * 3600 + v * 60 + w) * one = u * one * 3600 + v * one * 60 + w * one := by
      ring
    have hbound : (|u| * 3600 + |v| * 60 + |w|) * one / 2 ^ 49 + 4096 =
        (|u| * one * 3600 + |v| * one * 60 + |w| * one) / 2 ^ 49 + 4096 := by ring
    rw [hexact, hbound]
    exact htime
  | _ :: _ :: _ :: _ :: rest => exact ⟨0, 0, .nothing (by simp) (by simp), nothing⟩

theorem ofParts_eq_zero (hstray : ∀ part ∈ parts, ∀ n, ¬ IsStray part n)
    (h : ¬ IsWritten parts) : ofParts parts = 0 := by
  have hzero : parts.length = 1 ∨ parts.length = 3 → ∀ part ∈ parts, realOrZero part = 0 := by
    intro hlength part hpart
    exact realOrZero_of_nothing (fun v hv => h ⟨hlength, part, hpart, v, hv⟩) (hstray part hpart)
  match parts with
  | [] => rfl
  | [s] => exact hzero (.inl rfl) s (by simp)
  | [_, _] => rfl
  | [h, m, s] =>
    have hsum : (0 : Binary64) * 3600 + 0 * 60 + 0 = 0 := by decide +kernel
    show realOrZero h * 3600 + realOrZero m * 60 + realOrZero s = 0
    rw [hzero (.inr rfl) h (by simp), hzero (.inr rfl) m (by simp), hzero (.inr rfl) s (by simp)]
    exact hsum
  | _ :: _ :: _ :: _ :: rest => rfl

end

theorem percentComplete_zero {total : Binary64} (h : total ≠ .nan) :
    percentComplete 0 total = 0 := by
  have hzero : percentOfPart 0 = 0 := by decide +kernel
  unfold percentComplete
  cases hle : total.le 0 with
  | true => rfl
  | false =>
    have hpart : 0 / total = 0 := by
      rcases cases_of_not_le_zero hle with rfl | rfl | ⟨v, hv, rfl, hpos⟩
      · exact absurd rfl h
      · rw [zero_eq]
        exact ofUnits_zero
      · rw [div_finite_eq _ hv hpos, zero_eq]
        exact ofUnitQuotient_zero hpos false
    rw [hpart]
    exact hzero

/-- **Elapsed times.** -/
theorem followsGrammar {text : String} {parts : List (List Char)} (h : HasParts text parts) :
    FollowsGrammar text parts where
  reads := readElapsed_eq h ▸ gives_ofParts parts
  near hstray hsize := by
    have hone : (one : ℚ) ≠ 0 := by exact_mod_cast one_pos.ne'
    obtain ⟨v, m, htime, hnear⟩ := exists_exactTime hstray hsize
    rw [readElapsed_eq h]
    refine ⟨v, m, htime, hnear.1, (abs_value_sub_le hnear).trans_eq ?_⟩
    field_simp
  unwritten hstray hnone := by
    have hzero := (readElapsed_eq h).trans (ofParts_eq_zero hstray hnone)
    refine ⟨hzero, fun a htext htotal => ?_⟩
    show Number.real (percentComplete (readElapsed (a.field "out_time" "")) a.total) = _
    rw [htext, hzero, percentComplete_zero htotal]

/-- A minute and two and a half seconds on the clock. -/
def clock : List (List Char) := ["00".toList, "01".toList, "02.5".toList]

theorem isNumeral_of_read? {cs : List Char} {negative : Bool} {c : Nat} {e : Int}
    (h : Numeral.read? (trim isNumeralPadding cs) = some (.finite negative c e)) :
    IsNumeral cs (signed negative (written c e)) :=
  ⟨_, Numeral.read?_iff.mp h, rfl⟩

/-- A clock is read by the grammar, and nothing of it is astray. -/
theorem followsGrammar_clock : HasParts "00:01:02.5" clock ∧
    (∀ part ∈ clock, ∀ n, ¬ IsStray part n) ∧ FollowsGrammar "00:01:02.5" clock := by
  have hparts : HasParts "00:01:02.5" clock := hasParts_iff.mpr (by decide)
  refine ⟨hparts, ?_, followsGrammar hparts⟩
  have hours : IsNumeral "00".toList (signed false (written 0 0)) :=
    isNumeral_of_read? (by decide)
  have minutes : IsNumeral "01".toList (signed false (written 1 0)) :=
    isNumeral_of_read? (by decide)
  have seconds : IsNumeral "02.5".toList (signed false (written 25 (-1))) :=
    isNumeral_of_read? (by decide)
  intro part hpart n hn
  rcases List.mem_cons.mp hpart with rfl | hpart
  · exact hn.no_numeral _ hours
  rcases List.mem_cons.mp hpart with rfl | hpart
  · exact hn.no_numeral _ minutes
  · obtain rfl := List.mem_singleton.mp hpart
    exact hn.no_numeral _ seconds

/-- A word for no number is no time, and yet it is read: it is not finite, and a block with it is
complete. -/
theorem readElapsed_word : HasParts "nan" ["nan".toList] ∧ ¬ IsWritten ["nan".toList] ∧
    (readElapsed "nan").isFinite = false ∧
    { Accumulator.start 10 with fields := [("out_time", "nan")] }.sample.progress = .real 100 := by
  refine ⟨hasParts_iff.mpr (by decide), ?_, by decide, by decide +kernel⟩
  rintro ⟨-, part, hpart, v, n, hwrites, hvalue⟩
  obtain rfl := List.mem_singleton.mp hpart
  have hread : Numeral.read? (trim isNumeralPadding "nan".toList) = some .nan := by decide
  rw [Numeral.read?_iff.mpr hwrites] at hread
  obtain rfl := Option.some.inj hread
  exact absurd hvalue (by simp [Numeral.value?])

end Elapsed

end StillVideo
