import StillVideo.Proofs.ClipTimes
import StillVideo.Proofs.DecimalRange
import StillVideo.Proofs.NumeralGrammar
import StillVideo.Proofs.TextParts

/-!
# Exact timecodes

A timecode of numerals that are not negative is read as its exact number of seconds, if that has at
most 28 digits at the scale of its finest part (`readTimecode_exact`): everything on the way to it
is on this scale and no larger, so nothing is rounded. A scale below that of all results has to be
left out, since there digits are lost (`readTimecode_tiny`).
-/

namespace StillVideo

attribute [local instance (2000)] instPowNat

namespace Timecode

/-! ## Amounts -/

/-- A numeral that is not negative and can be written down, its number and the exponent of its last
digit. -/
def IsAmount (cs : List Char) (v : ℚ) (e : Int) : Prop :=
  ∃ negative c, Numeral.Writes cs (.finite negative c e) ∧ Decimal.writable c e = true ∧
    signed negative (written c e) = v ∧ 0 ≤ v

/-- A number has at most 28 digits at this scale and is within the range of results. -/
structure IsExactAt (v : ℚ) (e : Int) : Prop where
  digits : ∃ n, n < 10 ^ Decimal.precision ∧ written n e = v
  fine : v ≠ 0 → Decimal.minScale ≤ e
  range : v < 10 ^ Decimal.rangePlaces

/-- A timecode without the white space around it, and its exact number of seconds. -/
inductive Denotes : List Char → ℚ → Prop
  | seconds {s : List Char} {w : ℚ} {e : Int} (hs : IsAmount s w e) : Denotes s w
  | minutes {m s : List Char} {v w : ℚ} {e f : Int} (hm : IsAmount m v e) (hs : IsAmount s w f)
      (hexact : IsExactAt (v * 60 + w) (min e f)) : Denotes (m ++ ':' :: s) (v * 60 + w)
  | hours {h m s : List Char} {u v w : ℚ} {e f g : Int} (hh : IsAmount h u e)
      (hm : IsAmount m v f) (hs : IsAmount s w g)
      (hexact : IsExactAt (u * 3600 + v * 60 + w) (min e (min f g))) :
      Denotes (h ++ ':' :: (m ++ ':' :: s)) (u * 3600 + v * 60 + w)

section

variable {cs : List Char} {v : ℚ} {e : Int}

theorem IsAmount.mem_characters (h : IsAmount cs v e) : ∀ c ∈ cs, c ∈ Numeral.characters := by
  obtain ⟨_, _, hwrites, -⟩ := h
  exact Numeral.mem_characters hwrites

/-- An amount is a multiple of every power of ten up to the one of its last digit. -/
theorem IsAmount.exists_written (h : IsAmount cs v e) {g : Int} (hg : g ≤ e) :
    ∃ k, v = written k g := by
  obtain ⟨negative, c, -, -, hvalue, hv⟩ := h
  obtain ⟨k, -, hk⟩ := exists_written_eq c hg
  have habs : v = |signed negative (written c e)| := by rw [hvalue, abs_of_nonneg hv]
  rw [habs, abs_signed, abs_of_nonneg (written_nonneg c e)]
  exact ⟨_, hk⟩

theorem readPart_iff_writes {raw : String} {d : Decimal} :
    readPart raw cs = .ok d ↔ Decimal.Writes (Decimal.bare cs) d := by
  rw [readPart_eq_ok_iff, Decimal.read?_iff, String.toList_ofList]

theorem readPart_of_writes {negative : Bool} {c : Nat}
    (h : Numeral.Writes cs (.finite negative c e)) (hlimits : Decimal.writable c e = true)
    (raw : String) : readPart raw cs = .ok (.finite negative c e) := by
  rw [readPart_iff_writes, Decimal.bare_of_mem_characters (Numeral.mem_characters h)]
  exact .finite h hlimits

/-- An amount is read as a decimal of its number. -/
theorem IsAmount.exists_readPart (h : IsAmount cs v e) (raw : String) :
    ∃ d, readPart raw cs = .ok d ∧ d.value? = some v := by
  obtain ⟨negative, c, hwrites, hlimits, hvalue, -⟩ := h
  exact ⟨_, readPart_of_writes hwrites hlimits raw, congrArg some hvalue⟩

end

/-! ## Exact sums -/

/-- What is on the scale of an exact number and no larger fits. -/
theorem IsExactAt.fits {v : ℚ} {e : Int} (h : IsExactAt v e) {k : Nat} (hle : written k e ≤ v) :
    Decimal.Fits (written k e) ∧ |written k e| < 10 ^ Decimal.rangePlaces := by
  have hnonneg := written_nonneg k e
  rw [abs_of_nonneg hnonneg]
  refine ⟨?_, hle.trans_lt h.range⟩
  by_cases hzero : v = 0
  · rw [le_antisymm (hle.trans_eq hzero) hnonneg]
    exact Decimal.fits_zero
  · obtain ⟨n, hn, hvalue⟩ := h.digits
    rw [← hvalue, Decimal.written_le_written] at hle
    exact ⟨k, e, Nat.lt_of_le_of_lt hle hn, h.fine hzero, abs_of_nonneg hnonneg⟩

/-- Hours, minutes and seconds on the scale of their exact sum are added up to it. -/
theorem exists_seconds {h m s : Decimal} {a b c : Nat} {g : Int}
    (hh : h.value? = some (written a g))
    (hm : m.value? = some (written b g)) (hs : s.value? = some (written c g))
    (hexact : IsExactAt (written a g * 3600 + written b g * 60 + written c g) g) :
    ∃ d, seconds h m s = .ok d ∧
      d.value? = some (written a g * 3600 + written b g * 60 + written c g) := by
  have hhours : written a g * ((3600 : Int) : ℚ) = written (a * 3600) g := by
    unfold written
    push_cast
    ring
  have hminutes : written b g * ((60 : Int) : ℚ) = written (b * 60) g := by
    unfold written
    push_cast
    ring
  have htotal : written a g * 3600 + written b g * 60 + written c g =
      written (a * 3600 + b * 60 + c) g := by
    unfold written
    push_cast
    ring
  rw [htotal] at hexact ⊢
  have fits : ∀ k, k ≤ a * 3600 + b * 60 + c →
      Decimal.Fits (written k g) ∧ |written k g| < 10 ^ Decimal.rangePlaces := fun k hk =>
    hexact.fits (Decimal.written_le_written.mpr hk)
  obtain ⟨fromHours, hhours', hx⟩ := Decimal.exists_mul_of_fits hh (value?_ofInt 3600)
    (by rw [hhours]; exact (fits _ (by omega)).1) (by rw [hhours]; exact (fits _ (by omega)).2)
  obtain ⟨fromMinutes, hminutes', hy⟩ := Decimal.exists_mul_of_fits hm (value?_ofInt 60)
    (by rw [hminutes]; exact (fits _ (by omega)).1) (by rw [hminutes]; exact (fits _ (by omega)).2)
  rw [hhours] at hx
  rw [hminutes] at hy
  obtain ⟨sum, hsum, hz⟩ := Decimal.exists_add_of_fits hx hy
    (by rw [written_add]; exact (fits _ (by omega)).1)
    (by rw [written_add]; exact (fits _ (by omega)).2)
  rw [written_add] at hz
  obtain ⟨d, hd, hvalue⟩ := Decimal.exists_add_of_fits hz hs
    (by rw [written_add]; exact (fits _ (Nat.le_refl _)).1)
    (by rw [written_add]; exact (fits _ (Nat.le_refl _)).2)
  rw [written_add] at hvalue
  exact ⟨d, seconds_eq_ok_iff.mpr ⟨_, hhours', _, hminutes', _, hsum, hd⟩, hvalue⟩

/-! ## Timecodes -/

/-- The parts of a timecode are read exactly. -/
theorem exists_readText {raw : String} {cs : List Char} {v : ℚ} (h : Denotes cs v)
    (htrim : trim isBlank raw.toList = cs) : ∃ d, readText raw = .ok d ∧ d.value? = some v := by
  have colon : ∀ {part : List Char} {v : ℚ} {e : Int}, IsAmount part v e → ':' ∉ part :=
    fun h hc => (Numeral.plain_of_mem_characters (h.mem_characters _ hc)).2.2.1 rfl
  unfold readText
  rw [htrim]
  cases h with
  | seconds hs =>
    rw [splitFields_of_not_mem (colon hs)]
    exact hs.exists_readPart raw
  | @minutes m s v w e f hm hs hexact =>
    rw [splitFields_append, splitFields_of_not_mem (colon hm), splitFields_of_not_mem (colon hs)]
    obtain ⟨m', hm', hmvalue⟩ := hm.exists_readPart raw
    obtain ⟨s', hs', hsvalue⟩ := hs.exists_readPart raw
    obtain ⟨b, rfl⟩ := hm.exists_written (Int.min_le_left e f)
    obtain ⟨c, rfl⟩ := hs.exists_written (Int.min_le_right e f)
    have hzero : (Decimal.ofInt 0).value? = some (written 0 (min e f)) := by
      rw [value?_ofInt, Int.cast_zero, written_zero]
    have hread := exists_seconds hzero hmvalue hsvalue
    rw [written_zero, zero_mul, zero_add] at hread
    dsimp only [List.cons_append, List.nil_append]
    simp only [hm', hs', ok_bind]
    exact hread hexact
  | @hours h m s u v w e f g hh hm hs hexact =>
    rw [splitFields_append, splitFields_append, splitFields_of_not_mem (colon hh),
      splitFields_of_not_mem (colon hm), splitFields_of_not_mem (colon hs)]
    obtain ⟨h', hh', hhvalue⟩ := hh.exists_readPart raw
    obtain ⟨m', hm', hmvalue⟩ := hm.exists_readPart raw
    obtain ⟨s', hs', hsvalue⟩ := hs.exists_readPart raw
    obtain ⟨a, rfl⟩ := hh.exists_written (g := min e (min f g)) (by omega)
    obtain ⟨b, rfl⟩ := hm.exists_written (g := min e (min f g)) (by omega)
    obtain ⟨c, rfl⟩ := hs.exists_written (g := min e (min f g)) (by omega)
    dsimp only [List.cons_append, List.nil_append]
    simp only [hh', hm', hs', ok_bind]
    exact exists_seconds hhvalue hmvalue hsvalue hexact

/-- No white space stands in a timecode. -/
theorem Denotes.not_blank {cs : List Char} {v : ℚ} (h : Denotes cs v) :
    ∀ c ∈ cs, isBlank c = false := by
  have plain : ∀ {part : List Char} {v : ℚ} {e : Int}, IsAmount part v e →
      ∀ c ∈ part, isBlank c = false :=
    fun h c hc => (Numeral.plain_of_mem_characters (h.mem_characters c hc)).2.2.2
  have colon : isBlank ':' = false := by decide
  cases h with
  | seconds hs => exact plain hs
  | minutes hm hs =>
    exact List.forall_mem_append.mpr ⟨plain hm, List.forall_mem_cons.mpr ⟨colon, plain hs⟩⟩
  | hours hh hm hs =>
    exact List.forall_mem_append.mpr ⟨plain hh, List.forall_mem_cons.mpr ⟨colon,
      List.forall_mem_append.mpr ⟨plain hm, List.forall_mem_cons.mpr ⟨colon, plain hs⟩⟩⟩⟩

/-- **Exact timecodes.** -/
theorem readTimecode_exact {text : String} {front cs ends : List Char} {v : ℚ}
    (hfront : ∀ c ∈ front, isBlank c = true) (hends : ∀ c ∈ ends, isBlank c = true)
    (htext : text.toList = front ++ (cs ++ ends)) (h : Denotes cs v) :
    ∃ d, readTimecode (.scalar (.text text)) = .ok d ∧ d.value? = some v := by
  have hblank := h.not_blank
  refine exists_readText h (trim_eq_of_isTrimmed ⟨⟨front, ends, hfront, hends, htext⟩, ?_, ?_⟩)
  · exact fun c hc => hblank c (List.mem_of_mem_head? hc)
  · exact fun c hc => hblank c (List.mem_of_mem_getLast? hc)

theorem isAmount_of_writes {cs : List Char} {c : Nat} {e : Int}
    (h : Numeral.Writes cs (.finite false c e)) (hlimits : Decimal.writable c e = true) :
    IsAmount cs (written c e) e :=
  ⟨false, c, h, hlimits, rfl, written_nonneg c e⟩

theorem isExactAt_written {n : Nat} {e : Int} (hn : n < 10 ^ Decimal.precision)
    (he : Decimal.minScale ≤ e) (hrange : e + (decimalDigits n).length ≤ Decimal.rangePlaces) :
    IsExactAt (written n e) e :=
  ⟨⟨n, hn, rfl⟩, fun _ => he, (written_lt n e).trans_le (Decimal.ten_zpow_le hrange)⟩

/-- An hour, two minutes and three and a quarter seconds. -/
theorem readTimecode_exact_clock : ∃ d,
    readTimecode (.scalar (.text " 1:02:03.25\n")) = .ok d ∧ d.value? = some 3723.25 := by
  have hours : IsAmount "1".toList (written 1 0) 0 :=
    isAmount_of_writes (Numeral.read?_iff.mp (by decide)) (by decide)
  have minutes : IsAmount "02".toList (written 2 0) 0 :=
    isAmount_of_writes (Numeral.read?_iff.mp (by decide)) (by decide)
  have seconds : IsAmount "03.25".toList (written 325 (-2)) (-2) :=
    isAmount_of_writes (Numeral.read?_iff.mp (by decide)) (by decide)
  have hvalue : written 1 0 * 3600 + written 2 0 * 60 + written 325 (-2) = 3723.25 := by
    norm_num [written]
  have hexact : IsExactAt (written 1 0 * 3600 + written 2 0 * 60 + written 325 (-2))
      (min 0 (min 0 (-2))) := by
    rw [hvalue, show (3723.25 : ℚ) = written 372325 (-2) by norm_num [written]]
    exact isExactAt_written (by decide) (by decide) (by decide)
  have hfront : ∀ c ∈ [' '], isBlank c = true := List.forall_mem_singleton.mpr (by decide)
  have hends : ∀ c ∈ ['\n'], isBlank c = true := List.forall_mem_singleton.mpr (by decide)
  have htext : " 1:02:03.25\n".toList =
      [' '] ++ ("1".toList ++ ':' :: ("02".toList ++ ':' :: "03.25".toList) ++ ['\n']) := by decide
  obtain ⟨d, hd, hread⟩ :=
    readTimecode_exact hfront hends htext (.hours hours minutes seconds hexact)
  exact ⟨d, hd, hread.trans (congrArg some hvalue)⟩

/-- A one behind so many zeros after the point. -/
def afterZeros (n : Nat) : List Char := '0' :: '.' :: (List.replicate n '0' ++ ['1'])

theorem writes_afterZeros (n : Nat) :
    Numeral.Writes (afterZeros n) (.finite false 1 (-((n : Int) + 1))) := by
  have hfraction : AreDigits (List.replicate n '0' ++ ['1']) :=
    (areDigits_zeros n).append (areDigits_decimalDigits 1)
  have hwrites := Numeral.Writes.finite .none
    (.point (areDigits_zeros 1) hfraction (List.cons_ne_nil _ _)) .none
  have hdigits : digitsValue (List.replicate 1 '0' ++ (List.replicate n '0' ++ ['1'])) = 1 := by
    rw [digitsValue_append, digitsValue_append, digitsValue_zeros, digitsValue_zeros, Nat.zero_mul,
      Nat.zero_mul]
    rfl
  have hplaces : (0 : Int) - ((List.replicate n '0' ++ ['1']).length : Nat) = -((n : Int) + 1) := by
    rw [List.length_append, List.length_replicate, List.length_singleton]
    omega
  rwa [hdigits, hplaces, List.append_nil] at hwrites

/-- Seconds of this number alone are lost. -/
theorem readText_tiny {cs : List Char} (h : Numeral.Writes cs (.finite false 1 (-1000027))) :
    readText (String.ofList ("0:0:".toList ++ cs)) = .ok (.finite false 0 (-1000026)) := by
  have hchars := Numeral.mem_characters h
  have hzero : ∀ raw, readPart raw ['0'] = .ok (.finite false 0 0) :=
    readPart_of_writes (Numeral.read?_iff.mp (by decide)) (by decide)
  have hzeros : "0:0:".toList.all fun c => !isBlank c := by decide
  have hblank : ∀ c ∈ "0:0:".toList ++ cs, isBlank c = false :=
    List.forall_mem_append.mpr ⟨by simpa using List.all_eq_true.mp hzeros, fun c hc =>
      (Numeral.plain_of_mem_characters (hchars c hc)).2.2.2⟩
  have hparts : splitFields ':' ("0:0:".toList ++ cs) = [['0'], ['0'], cs] := by
    have hcolon : ':' ∉ cs := fun hc => (Numeral.plain_of_mem_characters (hchars _ hc)).2.2.1 rfl
    show splitFields ':' (['0'] ++ ':' :: (['0'] ++ ':' :: cs)) = _
    rw [splitFields_append, splitFields_append, splitFields_of_not_mem hcolon]
    rfl
  unfold readText
  rw [String.toList_ofList, trim_eq_self hblank, hparts]
  dsimp only
  rw [hzero, readPart_of_writes h (by decide), ok_bind, ok_bind, ok_bind]
  rfl

/-- Alone in the place of the seconds, a text that writes this number is read as another one. -/
def IsLost (cs : List Char) : Prop :=
  IsAmount cs (written 1 (-1000027)) (-1000027) ∧
    ∃ d, readTimecode (.scalar (.text (String.ofList ("0:0:".toList ++ cs)))) = .ok d ∧
      d.value? ≠ some (0 * 3600 + 0 * 60 + written 1 (-1000027))

theorem isLost_of_writes {cs : List Char} (h : Numeral.Writes cs (.finite false 1 (-1000027))) :
    IsLost cs := by
  refine ⟨isAmount_of_writes h (by decide), _, readText_tiny h, ?_⟩
  show some (written 0 (-1000026)) ≠ _
  rw [written_zero, zero_mul, zero_mul, zero_add, zero_add, Ne, Option.some_inj, eq_comm,
    written_eq_zero]
  decide

/-- A digit below the scale of all results is lost, with an exponent or without. -/
theorem readTimecode_tiny : IsAmount ['0'] 0 0 ∧
    IsLost "1e-1000027".toList ∧ IsLost (afterZeros 1000026) := by
  have hzero : IsAmount ['0'] (written 0 0) 0 :=
    isAmount_of_writes (Numeral.read?_iff.mp (by decide)) (by decide)
  rw [written_zero] at hzero
  exact ⟨hzero, isLost_of_writes (Numeral.read?_iff.mp (by decide)),
    isLost_of_writes (writes_afterZeros 1000026)⟩

end Timecode

end StillVideo
