import Mathlib.Data.Rat.Floor
import StillVideo.Dashboard.Clock
import StillVideo.Proofs.BannerLengths

/-!
# Clocks read back

The dashboard displays whole seconds as `H:MM:SS` (`displays_clockText`), and a text displays one
time only (`Displays.unique`). A clock of fewer than `2 ^ 53` seconds is read back as what it
displays (`Displays.readElapsed_eq`): every product and every sum on the way is a whole number that
is exact. So clocks are in the order of their times, and whole seconds have clocks of their own
(`clockOfValue_keepsTime`).
-/

namespace StillVideo

open Binary64

attribute [local instance (2000)] instPowNat

attribute [local irreducible] Binary64.one Binary64.bound

/-! ## The form of a clock -/

/-- A number below one hundred in two digits. -/
def digitPair (n : Nat) : List Char := [(n / 10).digitChar, (n % 10).digitChar]

/-- A text displays hours, minutes and seconds as `H:MM:SS`. -/
structure Displays (text : String) (hours minutes seconds : Nat) : Prop where
  minutes_lt : minutes < 60
  seconds_lt : seconds < 60
  text_eq : text.toList =
    decimalDigits hours ++ ':' :: (digitPair minutes ++ ':' :: digitPair seconds)

theorem padLeft_eq_digitPair {n : Nat} (h : n < 60) :
    padLeft 2 '0' (decimalDigits n) = digitPair n := by
  have hall : ∀ n < 60, padLeft 2 '0' (decimalDigits n) = digitPair n := by decide
  exact hall n h

section

variable {n : Nat} (h : n < 60)
include h

theorem areDigits_digitPair : AreDigits (digitPair n) := by
  rw [← padLeft_eq_digitPair h]
  exact areDigits_padLeft (areDigits_decimalDigits n)

theorem digitsValue_digitPair : digitsValue (digitPair n) = n := by
  rw [← padLeft_eq_digitPair h, digitsValue_padLeft, digitsValue_decimalDigits]

theorem toList_twoDigits : (LocalTime.twoDigits n).toList = digitPair n := by
  unfold LocalTime.twoDigits
  rw [String.toList_ofList, padLeft_eq_digitPair h]

end

/-- Seconds are displayed to the bases of a clock. -/
theorem displays_clockText (i : Int) :
    Displays (clockText i) (i.toNat / 3600) (i.toNat % 3600 / 60) (i.toNat % 60) := by
  have hminutes : i.toNat % 3600 / 60 < 60 := by omega
  have hseconds : i.toNat % 60 < 60 := by omega
  refine ⟨hminutes, hseconds, ?_⟩
  unfold clockText
  simp only [String.toList_append, toList_natRepr, toList_twoDigits hminutes,
    toList_twoDigits hseconds, List.append_assoc]
  rfl

/-- Clocks in the order of what they display: hours decide, then minutes, then seconds. -/
def NotLater (clock clock' : String) : Prop :=
  ∃ h m s h' m' s', Displays clock h m s ∧ Displays clock' h' m' s' ∧
    (h < h' ∨ h = h' ∧ (m < m' ∨ m = m' ∧ s ≤ s'))

theorem notLater_clockText {i j : Int} (h : i ≤ j) : NotLater (clockText i) (clockText j) := by
  refine ⟨_, _, _, _, _, _, displays_clockText i, displays_clockText j, ?_⟩
  omega

namespace Displays

variable {text : String} {hours minutes seconds : Nat} (h : Displays text hours minutes seconds)
include h

/-- A text displays one time only. -/
theorem unique {hours' minutes' seconds' : Nat} (h' : Displays text hours' minutes' seconds') :
    hours = hours' ∧ minutes = minutes' ∧ seconds = seconds' := by
  have htext := h.text_eq.symm.trans h'.text_eq
  -- behind the hours both clocks have as many characters
  obtain ⟨hhours, hrest⟩ := List.append_inj' htext rfl
  obtain ⟨hminutes, hrest⟩ := List.append_inj' (List.cons.inj hrest).2 rfl
  have hseconds := (List.cons.inj hrest).2
  refine ⟨decimalDigits_inj hhours, ?_, ?_⟩
  · rw [← digitsValue_digitPair h.minutes_lt, hminutes, digitsValue_digitPair h'.minutes_lt]
  · rw [← digitsValue_digitPair h.seconds_lt, hseconds, digitsValue_digitPair h'.seconds_lt]

end Displays

/-- Whole seconds that are not negative have clocks of their own. -/
theorem clockText_inj {i j : Int} (hi : 0 ≤ i) (hj : 0 ≤ j) (h : clockText i = clockText j) :
    i = j := by
  obtain ⟨hhours, hminutes, hseconds⟩ :=
    (displays_clockText i).unique (h ▸ displays_clockText j)
  omega

/-! ## Reading a clock -/

theorem isRow_of_areDigits {cs : List Char} (h : AreDigits cs) (hne : cs ≠ []) : IsRow cs := by
  refine ⟨hne, fun c hc => ?_⟩
  have hplain := (Numeral.plain_of_mem_characters
    (Numeral.mem_characters_of_isPlainDigit (h c hc))).1
  rw [← isPlainDigit_plainDigit, hplain]
  exact h c hc

/-- A numeral of few digits and nothing else is the whole number that they write. -/
theorem Binary64.ofNumeral_whole {n : Nat} (h : n < 2 ^ 53) :
    ofNumeral (.finite false n 0) = ofNat n := by
  rcases Nat.eq_zero_or_pos n with rfl | hpos
  · exact ofNumeral_zero.trans ofNat_zero.symm
  · have hlength : (decimalDigits n).length ≤ 16 :=
      (length_decimalDigits_le_iff (by decide)).mpr (h.trans (by decide))
    unfold decimalDigits at hlength
    unfold ofNumeral
    dsimp only
    rw [if_neg (Nat.ne_of_gt hpos), if_neg (by omega), if_neg (by omega), if_pos (Int.le_refl 0)]
    show ofQuotient false (n * 10 ^ 0) 1 = _
    rw [Nat.pow_zero, Nat.mul_one]
    rfl

theorem realOrZero_of_areDigits {cs : List Char} (h : AreDigits cs) (hne : cs ≠ [])
    (hsize : digitsValue cs < 2 ^ 53) : realOrZero cs = ofNat (digitsValue cs) := by
  have hvisible : ∀ c ∈ cs, isNumeralPadding c = false := by
    intro c hc
    unfold isNumeralPadding
    rw [visible_of_isDecimalDigit ((isRow_of_areDigits h hne).2 c hc), Bool.false_and]
  have hwrites := Numeral.Writes.finite .none (.whole h hne) .none
  rw [List.nil_append, List.append_nil, ← trim_eq_self hvisible] at hwrites
  rw [Elapsed.realOrZero_of_writes hwrites, trim_eq_self hvisible]
  exact ofNumeral_whole hsize

theorem decimalDigits_ne_nil (n : Nat) : decimalDigits n ≠ [] :=
  List.ne_nil_of_length_pos (length_decimalDigits_pos n)

namespace Displays

variable {text : String} {hours minutes seconds : Nat} (h : Displays text hours minutes seconds)
include h

theorem hasParts :
    HasParts text [decimalDigits hours, digitPair minutes, digitPair seconds] := by
  have hours_row := isRow_of_areDigits (areDigits_decimalDigits hours) (decimalDigits_ne_nil hours)
  have minutes_row := isRow_of_areDigits (areDigits_digitPair h.minutes_lt) (List.cons_ne_nil _ _)
  have seconds_row := isRow_of_areDigits (areDigits_digitPair h.seconds_lt) (List.cons_ne_nil _ _)
  have hparts := Clock.hasParts ⟨_, _, _, hours_row, minutes_row, .whole seconds_row⟩
  unfold Clock.text at hparts
  rwa [← h.text_eq, String.ofList_toList] at hparts

/-- **Reading.** A clock is read as the seconds that it displays. -/
theorem readElapsed_eq (hsize : hours * 3600 + minutes * 60 + seconds < 2 ^ 53) :
    readElapsed text = ofNat (hours * 3600 + minutes * 60 + seconds) := by
  have hhours : realOrZero (decimalDigits hours) = ofNat hours := by
    rw [realOrZero_of_areDigits (areDigits_decimalDigits hours) (decimalDigits_ne_nil hours),
      digitsValue_decimalDigits]
    rw [digitsValue_decimalDigits]
    omega
  have pair : ∀ {n : Nat}, n < 60 → realOrZero (digitPair n) = ofNat n := by
    intro n hn
    have hvalue := digitsValue_digitPair hn
    rw [realOrZero_of_areDigits (areDigits_digitPair hn) (List.cons_ne_nil _ _) (by omega), hvalue]
  have hminutes := h.minutes_lt
  have hseconds := h.seconds_lt
  have hsum : hours * 3600 + minutes * 60 < 2 ^ 53 :=
    Nat.lt_of_le_of_lt (Nat.le_add_right _ _) hsize
  have hlarge : hours * 3600 < 2 ^ 53 := Nat.lt_of_le_of_lt (Nat.le_add_right _ _) hsum
  have hfromHours : ofNat hours * 3600 = ofNat (hours * 3600) :=
    ofNat_mul (by omega) (by decide) hlarge
  have hfromMinutes : ofNat minutes * 60 = ofNat (minutes * 60) :=
    ofNat_mul (n := 60) (by omega) (by decide) (by omega)
  rw [Elapsed.readElapsed_eq h.hasParts]
  show realOrZero _ * 3600 + realOrZero _ * 60 + realOrZero _ = _
  rw [hhours, pair hminutes, pair hseconds, hfromHours, hfromMinutes,
    ofNat_add hsum, ofNat_add hsize]

end Displays

theorem readElapsed_clockText {i : Int} (h : i < 2 ^ 53) :
    readElapsed (clockText i) = ofNat i.toNat := by
  have hshown : i.toNat / 3600 * 3600 + i.toNat % 3600 / 60 * 60 + i.toNat % 60 = i.toNat := by
    omega
  have hread := (displays_clockText i).readElapsed_eq
  rw [hshown] at hread
  exact hread (by omega)

/-! ## Numbers of seconds -/

/-- A number without its fraction. -/
def wholePart (v : ℚ) : ℤ := if v < 0 then ⌈v⌉ else ⌊v⌋

theorem wholePart_of_nonneg {v : ℚ} (h : 0 ≤ v) : wholePart v = ⌊v⌋ := if_neg (not_lt.mpr h)

theorem wholePart_neg {v : ℚ} (h : 0 ≤ v) : wholePart (-v) = -⌊v⌋ := by
  unfold wholePart
  split_ifs with hneg
  · exact Int.ceil_neg
  · obtain rfl : v = 0 := by linarith
    rw [neg_zero, Int.floor_zero, neg_zero]

theorem wholePart_intCast (i : ℤ) : wholePart i = i := by
  unfold wholePart
  split_ifs
  · exact Int.ceil_intCast i
  · exact Int.floor_intCast i

theorem wholePart_mono {v w : ℚ} (h : v ≤ w) : wholePart v ≤ wholePart w := by
  unfold wholePart
  split_ifs with hv hw hw
  · exact Int.ceil_mono h
  · have hceil : ⌈v⌉ ≤ 0 := Int.ceil_le.mpr (by simpa using hv.le)
    exact hceil.trans (Int.floor_nonneg.mpr (not_lt.mp hw))
  · exact absurd (h.trans_lt hw) hv
  · exact Int.floor_mono h

theorem wholePart_lt {v : ℚ} {n : ℕ} (hn : 0 < n) (h : v < n) : wholePart v < n := by
  unfold wholePart
  split_ifs with hv
  · have hceil : ⌈v⌉ ≤ 0 := Int.ceil_le.mpr (by simpa using hv.le)
    omega
  · exact Int.floor_lt.mpr h

namespace Binary64

/-- Whole numbers of at most 53 binary digits have themselves as their values. -/
theorem value_ofNat {n : Nat} (h : n < 2 ^ 53) :
    (ofNat n).isFinite = true ∧ (ofNat n).value = n := by
  have hone : (one : ℚ) ≠ 0 := by exact_mod_cast one_pos.ne'
  have hvalue := value_finite (s := false) (representable_mul_one h) Bool.noConfusion
  rw [ofNat_eq h]
  refine ⟨rfl, mul_right_cancel₀ hone ?_⟩
  rw [hvalue, Nat.cast_mul]

theorem ofNat_le_ofNat {m n : Nat} (hn : n < 2 ^ 53) (h : m ≤ n) :
    (ofNat m).le (ofNat n) = true := by
  rw [ofNat_eq (Nat.lt_of_le_of_lt h hn), ofNat_eq hn]
  refine le_iff.mpr ⟨0, _, 0, _, rfl, rfl, .inr ⟨rfl, ?_⟩⟩
  simp only [signedUnits]
  exact_mod_cast Nat.mul_le_mul_right one h

/-- Dropping the fraction of a finite number drops that of its value. -/
theorem truncate?_eq {x : Binary64} (h : x.isFinite = true) :
    x.truncate? = some (wholePart x.value) := by
  cases x with
  | nan => exact absurd h Bool.false_ne_true
  | infinite s => exact absurd h Bool.false_ne_true
  | finite s u hu =>
    have hfloor : ⌊(u : ℚ) / one⌋ = ((u / one : ℕ) : ℤ) := by
      rw [Rat.floor_natCast_div_natCast, Int.natCast_div]
    have hnonneg : (0 : ℚ) ≤ u / one := div_nonneg (Nat.cast_nonneg u) (Nat.cast_nonneg one)
    cases s with
    | false =>
      have hvalue : value (.finite false u hu) = u / one := by
        unfold value signedUnits
        rw [Int.cast_natCast]
      rw [hvalue, wholePart_of_nonneg hnonneg, hfloor]
      rfl
    | true =>
      have hvalue : value (.finite true u hu) = -(u / one) := by
        unfold value signedUnits
        rw [Int.cast_neg, Int.cast_natCast, neg_div]
      rw [hvalue, wholePart_neg hnonneg, hfloor]
      rfl

end Binary64

/-- The exact value of a number that is finite. -/
def Number.value? : Number → Option ℚ
  | .whole i => some i
  | .real x => if x.isFinite then some x.value else none

/-- The clock of a number of seconds is that of its whole part. -/
theorem clockOfValue_eq {x : Number} {v : ℚ} (h : x.value? = some v) :
    clockOfValue x.toDocument = .ok (clockText (wholePart v)) := by
  cases x with
  | whole i =>
    obtain rfl := Option.some.inj h
    rw [wholePart_intCast]
    rfl
  | real x =>
    unfold Number.value? at h
    dsimp only at h
    split_ifs at h with hfinite
    obtain rfl := Option.some.inj h
    show (do return clockText (← wholeOfReal x)) = _
    unfold wholeOfReal
    rw [truncate?_eq hfinite]
    rfl

/-- What holds of the clock of a number of seconds. -/
structure KeepsTime (v : ℚ) (clock : String) : Prop where
  form : ∃ hours minutes seconds, Displays clock hours minutes seconds
  finite : (readElapsed clock).isFinite = true
  /-- The clock is read back as the whole seconds, a time before zero as none. -/
  read : (readElapsed clock).value = ((max 0 (wholePart v) : ℤ) : ℚ)
  monotone : ∀ {y : Number} {w : ℚ} {clock' : String}, y.value? = some w →
    clockOfValue y.toDocument = .ok clock' → v ≤ w →
      NotLater clock clock' ∧ (w < 2 ^ 53 → (readElapsed clock).le (readElapsed clock') = true)
  injective : ∀ {y : Number} {w : ℚ}, y.value? = some w → clockOfValue y.toDocument = .ok clock →
    (∃ n : ℕ, v = n) → (∃ n : ℕ, w = n) → v = w

theorem readElapsed_clockText_wholePart {v : ℚ} (h : v < 2 ^ 53) :
    (wholePart v).toNat < 2 ^ 53 ∧
      readElapsed (clockText (wholePart v)) = ofNat (wholePart v).toNat := by
  have hlt : wholePart v < (2 ^ 53 : ℕ) := wholePart_lt (by decide) (by exact_mod_cast h)
  exact ⟨by omega, readElapsed_clockText hlt⟩

/-- **Clocks.** Every finite number of seconds below `2 ^ 53` has a clock, which is read back as its
whole seconds; later numbers have no earlier clocks, and no two whole ones have the same. -/
theorem clockOfValue_keepsTime {x : Number} {v : ℚ} (hx : x.value? = some v) (hv : v < 2 ^ 53) :
    ∃ clock, clockOfValue x.toDocument = .ok clock ∧ KeepsTime v clock := by
  obtain ⟨hsize, hread⟩ := readElapsed_clockText_wholePart hv
  obtain ⟨hfinite, hvalue⟩ := value_ofNat hsize
  refine ⟨_, clockOfValue_eq hx, ⟨_, _, _, displays_clockText _⟩, ?_, ?_, ?_, ?_⟩
  · rw [hread, hfinite]
  · rw [hread, hvalue, max_comm, ← Int.ofNat_toNat, Int.cast_natCast]
  · intro y w clock' hy hclock hle
    obtain rfl := Except.ok.inj ((clockOfValue_eq hy).symm.trans hclock)
    have hwhole := wholePart_mono hle
    refine ⟨notLater_clockText hwhole, fun hw => ?_⟩
    obtain ⟨hsize', hread'⟩ := readElapsed_clockText_wholePart hw
    rw [hread, hread']
    exact ofNat_le_ofNat hsize' (Int.toNat_le_toNat hwhole)
  · rintro y _ hy hclock ⟨m, rfl⟩ ⟨n, rfl⟩
    have hsame := Except.ok.inj (hclock.symm.trans (clockOfValue_eq hy))
    have hm : wholePart (m : ℚ) = m := wholePart_intCast m
    have hn : wholePart (n : ℚ) = n := wholePart_intCast n
    rw [hm, hn] at hsame
    have := clockText_inj (Int.natCast_nonneg m) (Int.natCast_nonneg n) hsame
    exact_mod_cast this

/-- A second and a half past one minute past one o'clock. -/
theorem clockOfValue_keepsTime_fraction :
    (Number.real (ofQuotient false 7323 2)).value? = some (7323 / 2) ∧
      clockOfValue (.real (ofQuotient false 7323 2)) = .ok "1:01:01" ∧
      KeepsTime (7323 / 2) "1:01:01" := by
  have hvalue : (Number.real (ofQuotient false 7323 2)).value? = some (7323 / 2) := by
    have hfinite : (ofQuotient false 7323 2).isFinite = true := by decide +kernel
    have hunits : (ofQuotient false 7323 2).signedUnits * 2 = 7323 * one := by decide +kernel
    have hone : (one : ℚ) ≠ 0 := by exact_mod_cast one_pos.ne'
    generalize ofQuotient false 7323 2 = x at *
    unfold Number.value? value
    dsimp only
    rw [if_pos hfinite, Option.some_inj, div_eq_div_iff hone two_ne_zero]
    exact_mod_cast hunits
  have hwhole : wholePart (7323 / 2) = 3661 := by
    rw [wholePart_of_nonneg (by norm_num), Int.floor_eq_iff]
    norm_num
  have hshown : clockOfValue (.real (ofQuotient false 7323 2)) = .ok "1:01:01" := by
    refine (clockOfValue_eq hvalue).trans (congrArg Except.ok ?_)
    rw [hwhole]
    decide
  obtain ⟨clock, hclock, hkeeps⟩ := clockOfValue_keepsTime hvalue (by norm_num)
  obtain rfl := Except.ok.inj (hclock.symm.trans hshown)
  exact ⟨hvalue, hshown, hkeeps⟩

end StillVideo
