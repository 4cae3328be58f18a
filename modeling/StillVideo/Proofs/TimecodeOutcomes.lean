import StillVideo.Proofs.ExactTimecodes
import StillVideo.Proofs.RealTexts

/-!
# Outcomes of timecodes

How the reading of a time ends, for every value. A value gives up to three decimals
(`GivesDecimals`), or it is refused; the decimals are added up (`Sums`). Numbers that are finite
give a finite time if they are not vast. A part may also be a word for infinity or for no number,
and then there is no finite time: the sum is not finite, or it fails as an operation on decimals
(`readTimecode_ends`).
-/

namespace StillVideo

attribute [local instance (2000)] instPowNat

namespace Timecode

/-! ## What a value gives -/

/-- The decimals that a value gives: the one of a number, or those the parts of a text write. -/
inductive GivesDecimals : Document → List Decimal → Prop
  | whole (i : Int) : GivesDecimals (.scalar (.int i)) [.ofInt i]
  | real {x : Binary64} {d : Decimal} (h : Decimal.Writes (Decimal.bare x.text.toList) d) :
      GivesDecimals (.scalar (.real x)) [d]
  | text {s : String} {parts : List (List Char)} {ds : List Decimal} (hparts : HasParts s parts)
      (hlength : parts.length ≤ 3)
      (h : List.Forall₂ (fun part d => Decimal.Writes (Decimal.bare part) d) parts ds) :
      GivesDecimals (.scalar (.text s)) ds

/-- What a value without decimals is refused with. -/
def refusal : Document → Refusal
  | .scalar .null => .timeMissing
  | .scalar (.text raw) => .timecode raw
  | _ => .timeKind

/-- What decimals add up to: seconds, minutes and seconds, or hours, minutes and seconds. -/
inductive Sums : List Decimal → Except Fault Decimal → Prop
  | bare (s : Decimal) : Sums [s] (.ok s)
  | minutes (m s : Decimal) : Sums [m, s] (seconds (.ofInt 0) m s)
  | hours (h m s : Decimal) : Sums [h, m, s] (seconds h m s)

theorem readPart_eq_error {raw : String} {part : List Char} {f : Fault}
    (h : readPart raw part = .error f) : f = .refused (.timecode raw) := by
  unfold readPart at h
  split at h
  · exact absurd h (by simp)
  · exact (Except.error.inj h).symm

/-- A value that gives decimals is read as what they add up to. -/
theorem GivesDecimals.sums {doc : Document} {ds : List Decimal} (h : GivesDecimals doc ds) :
    Sums ds (readTimecode doc) := by
  cases h with
  | whole i => exact .bare (.ofInt i)
  | real h =>
    have hread := Decimal.read?_iff.mpr h
    unfold readTimecode
    dsimp only
    rw [hread]
    exact .bare _
  | @text s parts ds hparts hlength h =>
    have hfields := hasParts_iff.mp hparts
    show Sums ds (readText s)
    unfold readText
    rw [hfields]
    rcases h with _ | ⟨h, _ | ⟨h', _ | ⟨h'', _ | ⟨_, _⟩⟩⟩⟩
    · exact absurd rfl hparts.nonempty
    · dsimp only
      rw [readPart_iff_writes.mpr h]
      exact .bare _
    · dsimp only
      rw [readPart_iff_writes.mpr h, readPart_iff_writes.mpr h', ok_bind, ok_bind]
      exact .minutes _ _
    · dsimp only
      rw [readPart_iff_writes.mpr h, readPart_iff_writes.mpr h', readPart_iff_writes.mpr h'',
        ok_bind, ok_bind, ok_bind]
      exact .hours _ _ _
    · simp only [List.length_cons] at hlength
      omega

/-- Any other text is refused. -/
theorem readText_refused {raw : String}
    (h : ∀ ds, ¬ GivesDecimals (.scalar (.text raw)) ds) :
    readText raw = refuse (.timecode raw) := by
  have gives : ∀ {parts ds}, splitFields ':' (trim isBlank raw.toList) = parts →
      parts.length ≤ 3 → List.Forall₂ (fun part d => readPart raw part = .ok d) parts ds → False :=
    fun hparts hlength hall => h _ (.text (hasParts_iff.mpr hparts) hlength
      (hall.imp fun _ _ => readPart_iff_writes.mp))
  unfold readText
  generalize hparts : splitFields ':' (trim isBlank raw.toList) = parts
  split
  · rename_i s
    cases hs : readPart raw s with
    | error f => exact congrArg Except.error (readPart_eq_error hs)
    | ok d => exact (gives hparts (by simp) (.cons hs .nil)).elim
  · rename_i m s
    cases hs : readPart raw s with
    | error f => exact congrArg Except.error (readPart_eq_error hs)
    | ok d =>
      cases hm : readPart raw m with
      | error f => exact congrArg Except.error (readPart_eq_error hm)
      | ok d' => exact (gives hparts (by simp) (.cons hm (.cons hs .nil))).elim
  · rename_i h m s
    cases hs : readPart raw s with
    | error f => exact congrArg Except.error (readPart_eq_error hs)
    | ok d =>
      cases hm : readPart raw m with
      | error f => exact congrArg Except.error (readPart_eq_error hm)
      | ok d' =>
        cases hh : readPart raw h with
        | error f => exact congrArg Except.error (readPart_eq_error hh)
        | ok d'' => exact (gives hparts (by simp) (.cons hh (.cons hm (.cons hs .nil)))).elim
  · rfl

/-- So is any other value. -/
theorem readTimecode_refused {doc : Document} (h : ∀ ds, ¬ GivesDecimals doc ds) :
    readTimecode doc = refuse (refusal doc) := by
  unfold readTimecode
  split
  · rfl
  · exact absurd (.whole _) (h _)
  · rename_i x
    obtain ⟨d, hwrites, -⟩ := x.exists_decimal_text
    exact absurd (.real hwrites) (h _)
  · exact readText_refused h
  · unfold refusal
    split <;> simp_all

/-! ## Sums -/

/-- Numbers up to this power of ten add up to a number. -/
def nearPlaces : Int := 999990

theorem abs_mul_le {t : ℚ} {i k : Int} (ht : |t| ≤ 10 ^ k) (hi : |i| ≤ 10000) :
    |t * i| ≤ 10 ^ (k + 4) := by
  rw [abs_mul, zpow_add₀ (by norm_num)]
  refine mul_le_mul ht ?_ (abs_nonneg _) (zpow_nonneg (by norm_num) k)
  exact_mod_cast hi

theorem two_mul_abs_le {t : ℚ} {k l : Int} (ht : |t| ≤ 10 ^ k) (hl : k + 1 ≤ l) :
    2 * |t| ≤ 10 ^ l := by
  refine le_trans ?_ (Decimal.ten_zpow_le hl)
  rw [zpow_add₀ (by norm_num), zpow_one]
  linarith [zpow_nonneg (show (0 : ℚ) ≤ 10 by norm_num) k]

section

variable {h m s d : Decimal}

theorem exact_eq_error_iff {r : Except DecimalFault Decimal} {f : Fault} :
    exact r = .error f ↔ ∃ g, r = .error g ∧ f = .decimal g := by
  cases r <;> simp [exact, eq_comm]

/-- Adding up fails only as an operation on decimals. -/
theorem seconds_eq_error {f : Fault} (hread : seconds h m s = .error f) : ∃ g, f = .decimal g := by
  unfold seconds at hread
  simp only [bind_eq_error_iff, exact_eq_error_iff] at hread
  obtain ⟨g, -, hf⟩ | ⟨x, -, ⟨g, -, hf⟩ | ⟨y, -, ⟨g, -, hf⟩ | ⟨z, -, g, -, hf⟩⟩⟩ := hread
  all_goals exact ⟨g, hf⟩

/-- One part that is not finite leaves no finite sum. -/
theorem value?_seconds_eq_none (hread : seconds h m s = .ok d)
    (hspecial : h.value? = none ∨ m.value? = none ∨ s.value? = none) : d.value? = none := by
  obtain ⟨x, hx, y, hy, z, hz, hd⟩ := seconds_eq_ok_iff.mp hread
  refine Decimal.value?_add_eq_none hd ?_
  rcases hspecial with hh | hm | hs
  · exact .inl (Decimal.value?_add_eq_none hz (.inl (Decimal.value?_mul_eq_none hx (.inl hh))))
  · exact .inl (Decimal.value?_add_eq_none hz (.inr (Decimal.value?_mul_eq_none hy (.inl hm))))
  · exact .inr hs

variable {u v w : ℚ} (hh : h.value? = some u) (hm : m.value? = some v) (hs : s.value? = some w)
include hh hm hs

/-- Finite parts have a finite sum or one that is out of range. -/
theorem seconds_cases : (∃ d r, seconds h m s = .ok d ∧ d.value? = some r) ∨
    seconds h m s = .error (.decimal .overflow) := by
  obtain ⟨x, a, hx, hxvalue⟩ | hx := Decimal.mul_cases hh (value?_ofInt 3600)
  · obtain ⟨y, b, hy, hyvalue⟩ | hy := Decimal.mul_cases hm (value?_ofInt 60)
    · obtain ⟨z, c, hz, hzvalue⟩ | hz := Decimal.add_cases hxvalue hyvalue
      · obtain ⟨d, r, hd, hvalue⟩ | hd := Decimal.add_cases hzvalue hs
        · exact .inl ⟨d, r, seconds_eq_ok_iff.mpr ⟨x, hx, y, hy, z, hz, hd⟩, hvalue⟩
        · exact .inr (by simp only [seconds, hx, hy, hz, hd, exact, ok_bind])
      · exact .inr (by simp only [seconds, hx, hy, hz, exact, ok_bind]; rfl)
    · exact .inr (by simp only [seconds, hx, hy, exact, ok_bind]; rfl)
  · exact .inr (by simp only [seconds, hx, exact]; rfl)

/-- Parts that are not vast have a finite sum. -/
theorem exists_seconds_of_le (hu : |u| ≤ 10 ^ nearPlaces) (hv : |v| ≤ 10 ^ nearPlaces)
    (hw : |w| ≤ 10 ^ nearPlaces) : ∃ d r, seconds h m s = .ok d ∧ d.value? = some r := by
  -- each product takes at most four places more, and each sum at most one
  obtain ⟨x, a, hx, hxvalue, ha⟩ := Decimal.exists_mul_of_le hh (value?_ofInt 3600)
    (k := nearPlaces + 4) (by decide) (by decide) (abs_mul_le hu (by decide))
  obtain ⟨y, b, hy, hyvalue, hb⟩ := Decimal.exists_mul_of_le hm (value?_ofInt 60)
    (k := nearPlaces + 4) (by decide) (by decide) (abs_mul_le hv (by decide))
  obtain ⟨z, c, hz, hzvalue, hc⟩ := Decimal.exists_add_of_le hxvalue hyvalue
    (k := nearPlaces + 5) (by decide) (by decide) (two_mul_abs_le ha (by decide))
    (two_mul_abs_le hb (by decide))
  obtain ⟨d, r, hd, hvalue, -⟩ := Decimal.exists_add_of_le hzvalue hs
    (k := nearPlaces + 6) (by decide) (by decide) (two_mul_abs_le hc (by decide))
    (two_mul_abs_le hw (by decide))
  exact ⟨d, r, seconds_eq_ok_iff.mpr ⟨x, hx, y, hy, z, hz, hd⟩, hvalue⟩

end

namespace Sums

variable {ds : List Decimal} {r : Except Fault Decimal} (h : Sums ds r)
include h

theorem near (hnear : ∀ d ∈ ds, ∃ v, d.value? = some v ∧ |v| ≤ 10 ^ nearPlaces) :
    ∃ d v, r = .ok d ∧ d.value? = some v := by
  cases h with
  | bare s =>
    obtain ⟨v, hv, -⟩ := hnear s (by simp)
    exact ⟨s, v, rfl, hv⟩
  | minutes m s =>
    obtain ⟨v, hv, hv'⟩ := hnear m (by simp)
    obtain ⟨w, hw, hw'⟩ := hnear s (by simp)
    refine exists_seconds_of_le (value?_ofInt 0) hv hw ?_ hv' hw'
    rw [Int.cast_zero, abs_zero]
    exact zpow_nonneg (by norm_num) _
  | hours h m s =>
    obtain ⟨u, hu, hu'⟩ := hnear h (by simp)
    obtain ⟨v, hv, hv'⟩ := hnear m (by simp)
    obtain ⟨w, hw, hw'⟩ := hnear s (by simp)
    exact exists_seconds_of_le hu hv hw hu' hv' hw'

theorem finite (hfinite : ∀ d ∈ ds, ∃ v, d.value? = some v) :
    (∃ d v, r = .ok d ∧ d.value? = some v) ∨ r = .error (.decimal .overflow) := by
  cases h with
  | bare s =>
    obtain ⟨v, hv⟩ := hfinite s (by simp)
    exact .inl ⟨s, v, rfl, hv⟩
  | minutes m s =>
    obtain ⟨v, hv⟩ := hfinite m (by simp)
    obtain ⟨w, hw⟩ := hfinite s (by simp)
    exact seconds_cases (value?_ofInt 0) hv hw
  | hours h m s =>
    obtain ⟨u, hu⟩ := hfinite h (by simp)
    obtain ⟨v, hv⟩ := hfinite m (by simp)
    obtain ⟨w, hw⟩ := hfinite s (by simp)
    exact seconds_cases hu hv hw

theorem vast {hours minutes seconds : Decimal} {u : ℚ} (hds : ds = [hours, minutes, seconds])
    (hu : hours.value? = some u) (hvast : 10 ^ Decimal.rangePlaces ≤ |u * 3600|) :
    r = .error (.decimal .overflow) := by
  subst hds
  cases h
  unfold Timecode.seconds
  rw [Decimal.mul_eq_overflow hu (value?_ofInt 3600) (by exact_mod_cast hvast)]
  rfl

theorem special (hspecial : ∃ d ∈ ds, d.value? = none) :
    (∃ d, r = .ok d ∧ d.value? = none) ∨ ∃ f, r = .error (.decimal f) := by
  obtain ⟨part, hmem, hpart⟩ := hspecial
  have sum : ∀ {h m s : Decimal}, h.value? = none ∨ m.value? = none ∨ s.value? = none →
      (∃ d, seconds h m s = .ok d ∧ d.value? = none) ∨
        ∃ f, seconds h m s = .error (.decimal f) := by
    intro h m s hnone
    cases hread : seconds h m s with
    | ok d => exact .inl ⟨d, rfl, value?_seconds_eq_none hread hnone⟩
    | error f =>
      obtain ⟨g, rfl⟩ := seconds_eq_error hread
      exact .inr ⟨g, rfl⟩
  cases h with
  | bare s =>
    obtain rfl := List.mem_singleton.mp hmem
    exact .inl ⟨part, rfl, hpart⟩
  | minutes m s =>
    simp only [List.mem_cons, List.not_mem_nil, or_false] at hmem
    rcases hmem with rfl | rfl
    · exact sum (.inr (.inl hpart))
    · exact sum (.inr (.inr hpart))
  | hours h m s =>
    simp only [List.mem_cons, List.not_mem_nil, or_false] at hmem
    rcases hmem with rfl | rfl | rfl
    · exact sum (.inl hpart)
    · exact sum (.inr (.inl hpart))
    · exact sum (.inr (.inr hpart))

end Sums

/-! ## Outcomes -/

/-- A finite time or a refusal. -/
def IsStrict (r : Except Fault Decimal) : Prop :=
  (∃ d v, r = .ok d ∧ d.value? = some v) ∨ ∃ refused, r = refuse refused

theorem isStrict_ok_iff {d : Decimal} : IsStrict (.ok d) ↔ ∃ v, d.value? = some v := by
  simp [IsStrict, refuse]

theorem not_isStrict_decimal (f : DecimalFault) : ¬ IsStrict (.error (.decimal f)) := by
  simp [IsStrict, refuse]

/-- How the reading of a time ends. -/
structure Ends (doc : Document) : Prop where
  /-- Without decimals the value is refused. -/
  refused : (∀ ds, ¬ GivesDecimals doc ds) → readTimecode doc = refuse (refusal doc)
  /-- One decimal is the time. -/
  alone : ∀ d, GivesDecimals doc [d] → readTimecode doc = .ok d
  /-- Numbers that are not vast give a finite time. -/
  near : ∀ ds, GivesDecimals doc ds →
    (∀ d ∈ ds, ∃ v, d.value? = some v ∧ |v| ≤ 10 ^ nearPlaces) →
      ∃ d v, readTimecode doc = .ok d ∧ d.value? = some v
  /-- All numbers give a finite time or are out of range. -/
  finite : ∀ ds, GivesDecimals doc ds → (∀ d ∈ ds, ∃ v, d.value? = some v) →
    (∃ d v, readTimecode doc = .ok d ∧ d.value? = some v) ∨
      readTimecode doc = .error (.decimal .overflow)
  /-- Hours that make too many seconds are out of range. -/
  vast : ∀ h m s u, GivesDecimals doc [h, m, s] → h.value? = some u →
    10 ^ Decimal.rangePlaces ≤ |u * 3600| → readTimecode doc = .error (.decimal .overflow)
  /-- What is no number gives no finite time, and is not refused. -/
  special : ∀ ds, GivesDecimals doc ds → (∃ d ∈ ds, d.value? = none) →
    (∃ d, readTimecode doc = .ok d ∧ d.value? = none) ∨
      ∃ f, readTimecode doc = .error (.decimal f)
  /-- The time is finite or refused exactly if no word stands for a number and all is in range. -/
  strict_iff : IsStrict (readTimecode doc) ↔ ∀ ds, GivesDecimals doc ds →
    (∀ d ∈ ds, ∃ v, d.value? = some v) ∧ readTimecode doc ≠ .error (.decimal .overflow)
  /-- A floating number gives one decimal, which is finite if the number is. -/
  real : ∀ x, doc = .scalar (.real x) →
    ∃ d, GivesDecimals doc [d] ∧ d.value?.isSome = x.isFinite

theorem isStrict_iff (doc : Document) : IsStrict (readTimecode doc) ↔ ∀ ds, GivesDecimals doc ds →
    (∀ d ∈ ds, ∃ v, d.value? = some v) ∧ readTimecode doc ≠ .error (.decimal .overflow) := by
  constructor
  · intro hstrict ds h
    constructor
    · intro d hd
      rw [← Option.isSome_iff_exists]
      by_contra hnone
      rw [Option.not_isSome_iff_eq_none] at hnone
      rcases h.sums.special ⟨d, hd, hnone⟩ with ⟨d', hread, hd'⟩ | ⟨f, hread⟩
      · rw [hread, isStrict_ok_iff, hd'] at hstrict
        exact absurd hstrict (by simp)
      · exact not_isStrict_decimal f (hread ▸ hstrict)
    · exact fun hread => not_isStrict_decimal _ (hread ▸ hstrict)
  · intro h
    by_cases hgives : ∃ ds, GivesDecimals doc ds
    · obtain ⟨ds, hds⟩ := hgives
      obtain ⟨hfinite, hrange⟩ := h ds hds
      exact .inl ((hds.sums.finite hfinite).resolve_right hrange)
    · exact .inr ⟨_, readTimecode_refused (not_exists.mp hgives)⟩

/-- **Outcomes of timecodes.** -/
theorem readTimecode_ends (doc : Document) : Ends doc where
  refused := readTimecode_refused
  alone d h := by
    have hsums := h.sums
    generalize readTimecode doc = r at hsums ⊢
    cases hsums
    rfl
  near _ h := h.sums.near
  finite _ h := h.sums.finite
  vast _ _ _ _ h := h.sums.vast rfl
  special _ h := h.sums.special
  strict_iff := isStrict_iff doc
  real := by
    rintro x rfl
    obtain ⟨d, hwrites, hfinite⟩ := x.exists_decimal_text
    exact ⟨d, .real hwrites, hfinite⟩

/-- Words are read and not refused, and two infinities fail in the sum. -/
theorem readTimecode_words :
    readTimecode (.scalar (.text "nan")) = .ok (.nan false false 0) ∧
    readTimecode (.scalar (.text "inf:-inf:0")) = .error (.decimal .invalid) ∧
    ∀ text ∈ ["nan", "inf:-inf:0"], ¬ IsStrict (readTimecode (.scalar (.text text))) := by
  have word : readTimecode (.scalar (.text "nan")) = .ok (.nan false false 0) := rfl
  have opposite : readTimecode (.scalar (.text "inf:-inf:0")) = .error (.decimal .invalid) := rfl
  refine ⟨word, opposite, ?_⟩
  simp only [List.forall_mem_cons, word, opposite, isStrict_ok_iff, not_isStrict_decimal]
  simp [Decimal.value?]

end Timecode

end StillVideo
