import Mathlib.Data.List.Induction
import Mathlib.Tactic.IntervalCases
import StillVideo.Proofs.NumberText
import StillVideo.Proofs.ShortestDigits

/-!
# Reading numbers back

The text of a number in a graph is a numeral that reads back to the number, a zero without its sign
(`ofNumeral_read?_graphNumber`): its digits, wherever the point stands among them, round to the
magnitude. So numbers with one text are one number (`rank_eq_of_graphNumber_eq`).
-/

namespace StillVideo

attribute [local instance (2000)] instPowNat

/-! ## Rows of digits -/

theorem isPlainDigit_of_isDigit {c : Char} (h : c.isDigit = true) : isPlainDigit c = true := by
  unfold Char.isDigit at h
  unfold isPlainDigit
  simpa [Char.le_def] using h

theorem mem_of_isPlainDigit {c : Char} (h : isPlainDigit c = true) : c ∈ "0123456789".toList := by
  have hrange : 48 ≤ c.toNat ∧ c.toNat ≤ 57 := by
    unfold isPlainDigit at h
    simpa [Char.le_def, UInt32.le_iff_toNat_le] using h
  rw [← Char.ofNat_toNat c]
  generalize c.toNat = n at *
  obtain ⟨hlow, hhigh⟩ := hrange
  interval_cases n <;> decide

theorem digitsValue_eq (cs : List Char) : digitsValue cs = Nat.ofDigitChars 10 cs 0 := by
  unfold digitsValue Nat.ofDigitChars
  simp only [Nat.mul_comm 10]
  rfl

theorem digitsValue_append (xs ys : List Char) :
    digitsValue (xs ++ ys) = digitsValue xs * 10 ^ ys.length + digitsValue ys := by
  induction ys using List.reverseRecOn with
  | nil => simp [digitsValue]
  | append_singleton ys c ih =>
    unfold digitsValue at *
    rw [← List.append_assoc, List.foldl_append, ih, List.foldl_append]
    simp only [List.foldl_cons, List.foldl_nil, List.length_append, List.length_cons,
      List.length_nil, Nat.pow_succ, Nat.zero_add, Nat.add_mul, Nat.mul_assoc]
    omega

theorem digitsValue_zeros (n : Nat) : digitsValue (List.replicate n '0') = 0 := by
  induction n with
  | zero => rfl
  | succ n ih =>
    rw [List.replicate_succ', digitsValue_append, ih]
    rfl

theorem digitsValue_decimalDigits (n : Nat) : digitsValue (decimalDigits n) = n := by
  rw [digitsValue_eq]
  exact Nat.ofDigitChars_ten_toDigits

theorem digitsValue_padLeft (width : Nat) (cs : List Char) :
    digitsValue (padLeft width '0' cs) = digitsValue cs := by
  unfold padLeft
  rw [digitsValue_append, digitsValue_zeros, Nat.zero_mul, Nat.zero_add]

/-! ## Numerals -/

/-- Digits and nothing else. -/
def AreDigits (cs : List Char) : Prop := ∀ c ∈ cs, isPlainDigit c = true

theorem areDigits_decimalDigits (n : Nat) : AreDigits (decimalDigits n) := fun _ hc =>
  isPlainDigit_of_isDigit (isDigit_of_mem_decimalDigits hc)

theorem areDigits_zeros (n : Nat) : AreDigits (List.replicate n '0') := by
  intro c hc
  rw [(List.mem_replicate.mp hc).2]
  rfl

theorem AreDigits.append {xs ys : List Char} (hx : AreDigits xs) (hy : AreDigits ys) :
    AreDigits (xs ++ ys) := fun c hc =>
  (List.mem_append.mp hc).elim (hx c) (hy c)

theorem areDigits_padLeft {width : Nat} {cs : List Char} (h : AreDigits cs) :
    AreDigits (padLeft width '0' cs) := (areDigits_zeros _).append h

/-- The digits before a text that does not begin with one. -/
theorem takeWhile_digits {xs ys : List Char} (hx : AreDigits xs)
    (hy : ∀ c ∈ ys.head?, isPlainDigit c = false) :
    (xs ++ ys).takeWhile isPlainDigit = xs ∧ (xs ++ ys).dropWhile isPlainDigit = ys := by
  rw [List.takeWhile_append_of_pos hx, List.dropWhile_append_of_pos hx]
  cases ys with
  | nil => simp
  | cons c ys => simp [hy c rfl]

theorem readDigits?_of_areDigits {cs : List Char} (h : AreDigits cs) (hne : cs ≠ []) :
    readDigits? cs = some (digitsValue cs) := by
  have hall : cs.all isPlainDigit = true := List.all_eq_true.mpr h
  unfold readDigits?
  rw [hall, if_neg (by simpa using hne)]

theorem readInt?_minus {cs : List Char} {n : Nat} (h : readDigits? cs = some n) :
    readInt? ('-' :: cs) = some (-(n : Int)) := by
  simp [readInt?, readSign, h]

theorem readInt?_plus {cs : List Char} {n : Nat} (h : readDigits? cs = some n) :
    readInt? ('+' :: cs) = some n := by
  simp [readInt?, readSign, h]

namespace Numeral

variable {whole fraction tail : List Char} (negative : Bool)

theorem readExponent?_nil : readExponent? [] = some 0 := rfl

theorem head_point (cs : List Char) : ∀ c ∈ ('.' :: cs).head?, isPlainDigit c = false := by
  simp [isPlainDigit]

/-- Digits with a point before, between or behind them, and an exponent. -/
theorem readMagnitude?_point {e : Int} (hw : AreDigits whole) (hne : whole ++ fraction ≠ [])
    (hf : AreDigits fraction) (htail : ∀ c ∈ tail.head?, isPlainDigit c = false)
    (he : readExponent? tail = some e) :
    readMagnitude? negative (whole ++ '.' :: (fraction ++ tail)) =
      some (.finite negative (digitsValue (whole ++ fraction)) (e - fraction.length)) := by
  obtain ⟨hwt, hwd⟩ := takeWhile_digits hw (head_point (fraction ++ tail))
  obtain ⟨hft, hfd⟩ := takeWhile_digits hf htail
  unfold readMagnitude?
  simp only [hwt, hwd, hft, hfd, he, Option.map_some]
  rw [if_neg (by simpa using hne)]

/-- Digits with a point between them. -/
theorem readMagnitude?_fraction (hw : AreDigits whole) (hne : whole ≠ [])
    (hf : AreDigits fraction) :
    readMagnitude? negative (whole ++ '.' :: fraction) =
      some (.finite negative (digitsValue (whole ++ fraction)) (0 - fraction.length)) := by
  have hread := readMagnitude?_point negative hw (List.append_ne_nil_of_left_ne_nil hne _) hf
    (by simp) readExponent?_nil
  rwa [List.append_nil] at hread

/-- Digits without a point, and an exponent. -/
theorem readMagnitude?_whole {e : Int} (hw : AreDigits whole) (hne : whole ≠ [])
    (htail : ∀ c ∈ tail.head?, isPlainDigit c = false ∧ c ≠ '.')
    (he : readExponent? tail = some e) :
    readMagnitude? negative (whole ++ tail) = some (.finite negative (digitsValue whole) e) := by
  obtain ⟨hwt, hwd⟩ := takeWhile_digits hw fun c hc => (htail c hc).1
  unfold readMagnitude?
  simp only [hwt, hwd]
  cases tail with
  | nil => simp [he, hne]
  | cons c tail =>
    have hpoint : c ≠ '.' := (htail c rfl).2
    split
    case h_1 hcons => exact absurd (List.cons.inj hcons).1 hpoint
    case h_2 => simp [he, hne]

/-- Digits alone. -/
theorem readMagnitude?_digits (hw : AreDigits whole) (hne : whole ≠ []) :
    readMagnitude? negative whole = some (.finite negative (digitsValue whole) 0) := by
  have hread := readMagnitude?_whole negative hw hne (by simp) readExponent?_nil
  rwa [List.append_nil] at hread

end Numeral

/-! ## Digits laid out -/

theorem dropPointZero_append (cs : List Char) : dropPointZero (cs ++ ['.', '0']) = cs := by
  unfold dropPointZero
  simp

theorem dropPointZero_of_not_suffix {cs : List Char} (h : ¬ ['.', '0'] <:+ cs) :
    dropPointZero cs = cs := by
  unfold dropPointZero
  split
  · rename_i rest heq
    refine absurd ⟨rest.reverse, ?_⟩ h
    rw [← List.reverse_reverse cs, heq]
    simp
  · rfl

theorem not_suffix_of_digits (front : List Char) {digits : List Char} (h : AreDigits digits)
    (hlen : 2 ≤ digits.length) : ¬ ['.', '0'] <:+ front ++ digits := by
  intro hsuffix
  have hpoint : ['.', '0'] <:+ digits :=
    List.suffix_of_suffix_length_le hsuffix (List.suffix_append _ _) hlen
  exact absurd (h '.' (hpoint.subset List.mem_cons_self)) (by decide)

theorem not_suffix_of_last {c : Char} (hc : c ≠ '0') (front : List Char) :
    ¬ ['.', '0'] <:+ front ++ [c] := by
  rintro ⟨rest, heq⟩
  have hlast := congrArg List.getLast? heq
  rw [List.getLast?_concat, List.getLast?_append] at hlast
  exact hc (Option.some.inj hlast).symm

namespace Binary64

/-- The exponent of a text, with its sign and two digits at least. -/
def exponentText (e : Int) : List Char :=
  'e' :: (if e < 0 then '-' else '+') :: padLeft 2 '0' (decimalDigits e.natAbs)

theorem readExponent?_exponentText (e : Int) : Numeral.readExponent? (exponentText e) = some e := by
  have hne : padLeft 2 '0' (decimalDigits e.natAbs) ≠ [] :=
    List.append_ne_nil_of_right_ne_nil _ Nat.toDigits_ne_nil
  have hread := readDigits?_of_areDigits (areDigits_padLeft (areDigits_decimalDigits e.natAbs)) hne
  rw [digitsValue_padLeft, digitsValue_decimalDigits] at hread
  show readInt? _ = some e
  split_ifs with he
  · rw [readInt?_minus hread]
    exact congrArg some (by omega)
  · rw [readInt?_plus hread]
    exact congrArg some (by omega)

/-- Digits that are not all zero end with another digit and some zeros. -/
theorem exists_trimZeros {digits : List Char} (h : digitsValue digits ≠ 0) :
    ∃ front last n, last ≠ '0' ∧ magnitudeText.trimZeros digits = front ++ [last] ∧
      digits = front ++ [last] ++ List.replicate n '0' := by
  induction digits using List.reverseRecOn with
  | nil => exact absurd rfl h
  | append_singleton digits c ih =>
    by_cases hc : c = '0'
    · rw [hc, digitsValue_append] at h
      have hvalue : digitsValue digits ≠ 0 := by
        intro hzero
        rw [hzero] at h
        exact h rfl
      obtain ⟨front, last, n, hlast, htrim, hdigits⟩ := ih hvalue
      refine ⟨front, last, n + 1, hlast, ?_, ?_⟩
      · rw [← htrim, hc]
        simp [magnitudeText.trimZeros]
      · rw [hc, List.replicate_succ', ← List.append_assoc, ← hdigits]
    · refine ⟨digits, c, 0, hc, ?_, (List.append_nil _).symm⟩
      simp [magnitudeText.trimZeros, hc]

section Layout

variable {front : List Char} {last : Char} (hd : AreDigits (front ++ [last])) (hlast : last ≠ '0')
  (point : Int) (negative : Bool)
include hd hlast

/-- Digits in positional notation, a point and a zero at the end left out. -/
theorem readMagnitude?_positional : ∃ k : Nat,
    Numeral.readMagnitude? negative (dropPointZero (positional (front ++ [last]) point)) =
      some (.finite negative (digitsValue (front ++ [last]) * 10 ^ k)
        (point - (front ++ [last]).length - k)) := by
  have hlen : (front ++ [last]).length = front.length + 1 := List.length_append
  have hne : front ++ [last] ≠ [] := List.append_ne_nil_of_right_ne_nil _ (List.cons_ne_nil _ _)
  unfold positional
  by_cases hpoint : point ≤ 0
  · refine ⟨0, ?_⟩
    rw [if_pos hpoint, dropPointZero_of_not_suffix]
    · have hread := Numeral.readMagnitude?_fraction negative (areDigits_zeros 1)
        (List.cons_ne_nil _ _) ((areDigits_zeros (-point).toNat).append hd)
      refine hread.trans ?_
      rw [digitsValue_append, digitsValue_append, digitsValue_zeros, digitsValue_zeros,
        List.length_append, List.length_replicate]
      have hexp : (0 : Int) - (((-point).toNat + (front ++ [last]).length : Nat) : Int) =
          point - (front ++ [last]).length - (0 : Nat) := by omega
      rw [hexp, Nat.zero_mul, Nat.zero_mul, Nat.zero_add, Nat.zero_add, Nat.pow_zero, Nat.mul_one]
    · have := not_suffix_of_last hlast ('0' :: '.' :: (List.replicate (-point).toNat '0' ++ front))
      simpa using this
  · rw [if_neg hpoint]
    dsimp only
    by_cases hwhole : (front ++ [last]).length ≤ point.toNat
    · refine ⟨point.toNat - (front ++ [last]).length, ?_⟩
      rw [if_pos hwhole, dropPointZero_append]
      have hread := Numeral.readMagnitude?_digits negative
        (hd.append (areDigits_zeros (point.toNat - (front ++ [last]).length))) (by simp)
      refine hread.trans ?_
      rw [digitsValue_append, digitsValue_zeros, List.length_replicate, Nat.add_zero]
      congr 2
      omega
    · refine ⟨0, ?_⟩
      have hn : point.toNat ≤ front.length := by omega
      rw [if_neg hwhole, dropPointZero_of_not_suffix]
      · have htake : AreDigits ((front ++ [last]).take point.toNat) := fun c hc =>
          hd c (List.mem_of_mem_take hc)
        have hdrop : AreDigits ((front ++ [last]).drop point.toNat) := fun c hc =>
          hd c (List.mem_of_mem_drop hc)
        have htakeNe : (front ++ [last]).take point.toNat ≠ [] := by
          rw [Ne, List.take_eq_nil_iff, not_or]
          exact ⟨by omega, hne⟩
        refine (Numeral.readMagnitude?_fraction negative htake htakeNe hdrop).trans ?_
        rw [List.take_append_drop, List.length_drop, Nat.pow_zero, Nat.mul_one]
        congr 2
        omega
      · rw [List.drop_append_of_le_length hn]
        have := not_suffix_of_last hlast
          ((front ++ [last]).take point.toNat ++ '.' :: front.drop point.toNat)
        simpa using this

omit hlast in
/-- Digits with an exponent. -/
theorem readMagnitude?_scientific :
    Numeral.readMagnitude? negative (dropPointZero (scientific (front ++ [last]) point)) =
      some (.finite negative (digitsValue (front ++ [last]))
        (point - (front ++ [last]).length)) := by
  obtain ⟨mantissa, htext⟩ : ∃ mantissa,
      scientific (front ++ [last]) point = mantissa ++ exponentText (point - 1) := ⟨_, rfl⟩
  have hsuffix : ¬ ['.', '0'] <:+ scientific (front ++ [last]) point := by
    have hdigits : AreDigits (padLeft 2 '0' (decimalDigits (point - 1).natAbs)) :=
      areDigits_padLeft (areDigits_decimalDigits _)
    have hlen : 2 ≤ (padLeft 2 '0' (decimalDigits (point - 1).natAbs)).length := by
      unfold padLeft
      rw [List.length_append, List.length_replicate]
      omega
    rw [htext]
    have := not_suffix_of_digits (mantissa ++ ['e', if point - 1 < 0 then '-' else '+'])
      hdigits hlen
    rwa [List.append_assoc] at this
  rw [dropPointZero_of_not_suffix hsuffix]
  have htail : ∀ c ∈ (exponentText (point - 1)).head?, isPlainDigit c = false ∧ c ≠ '.' := by
    simp [exponentText, isPlainDigit]
  match front, hd with
  | [], hd =>
    have hread := Numeral.readMagnitude?_whole negative hd (List.cons_ne_nil _ _)
      htail (readExponent?_exponentText (point - 1))
    exact hread
  | first :: rest, hd =>
    have hfirst : AreDigits [first] := fun c hc =>
      hd c (List.mem_append_left _ (List.mem_singleton.mp hc ▸ List.mem_cons_self))
    have hrest : AreDigits (rest ++ [last]) := fun c hc => hd c (List.mem_cons_of_mem _ hc)
    have hread := Numeral.readMagnitude?_point negative hfirst (List.cons_ne_nil _ _) hrest
      (fun c hc => (htail c hc).1) (readExponent?_exponentText (point - 1))
    refine Eq.trans ?_ (hread.trans ?_)
    · simp [scientific, exponentText]
    · simp only [List.length_append, List.length_cons, List.length_nil]
      congr 2
      omega

theorem readMagnitude?_layout : ∃ k : Nat,
    Numeral.readMagnitude? negative (dropPointZero (layout (front ++ [last]) point)) =
      some (.finite negative (digitsValue (front ++ [last]) * 10 ^ k)
        (point - (front ++ [last]).length - k)) := by
  unfold layout
  split_ifs
  · exact readMagnitude?_positional hd hlast point negative
  · refine ⟨0, ?_⟩
    rw [readMagnitude?_scientific hd point negative, Nat.pow_zero, Nat.mul_one, Int.natCast_zero,
      Int.sub_zero]

end Layout

/-- The text of a magnitude, without a point and a zero at the end, writes its shortest digits, up
to the zeros that they end with. -/
theorem readMagnitude?_magnitudeText {u : Nat} (hu : 0 < u) (negative : Bool) :
    ∃ m n k : Nat, 0 < m ∧ (shortest u).1 = m * 10 ^ n ∧
      Numeral.readMagnitude? negative (dropPointZero (magnitudeText u)) =
        some (.finite negative (m * 10 ^ k) ((shortest u).2 + n - k)) := by
  have hpos := pos_of_roundsTo hu (roundsTo_shortest hu)
  rw [magnitudeText_of_ne_zero (Nat.ne_of_gt hu)]
  generalize (shortest u).1 = d at *
  generalize (shortest u).2 = e at *
  have hd : digitsValue (decimalDigits d) ≠ 0 := by
    rw [digitsValue_decimalDigits]
    exact Nat.ne_of_gt hpos
  obtain ⟨front, last, n, hlast, htrim, hdigits⟩ := exists_trimZeros hd
  have hareDigits : AreDigits (front ++ [last]) := fun c hc =>
    areDigits_decimalDigits d c (hdigits ▸ List.mem_append_left _ hc)
  have hvalue : d = digitsValue (front ++ [last]) * 10 ^ n := by
    have := congrArg digitsValue hdigits
    rwa [digitsValue_decimalDigits, digitsValue_append, digitsValue_zeros, List.length_replicate,
      Nat.add_zero] at this
  obtain ⟨k, hread⟩ :=
    readMagnitude?_layout hareDigits hlast (e + (decimalDigits d).length) negative
  have hlen : (decimalDigits d).length = (front ++ [last]).length + n := by
    rw [hdigits, List.length_append, List.length_replicate]
  have hexp : e + (decimalDigits d).length - (front ++ [last]).length - k = e + n - k := by omega
  rw [htrim, hread, hexp]
  refine ⟨_, n, k, Nat.pos_of_ne_zero fun hzero => ?_, hvalue, rfl⟩
  rw [hzero, Nat.zero_mul] at hvalue
  exact Nat.ne_of_gt hpos hvalue

end Binary64

namespace Numeral

theorem readMagnitude?_head {negative : Bool} {cs : List Char} {x : Numeral}
    (h : readMagnitude? negative cs = some x) :
    ∃ c rest, cs = c :: rest ∧ (isPlainDigit c = true ∨ c = '.') := by
  cases cs with
  | nil => exact absurd h (by simp [readMagnitude?])
  | cons c rest =>
    refine ⟨c, rest, rfl, ?_⟩
    by_contra hno
    obtain ⟨hdigit, hpoint⟩ := not_or.mp hno
    rw [Bool.not_eq_true] at hdigit
    simp [readMagnitude?, hdigit, hpoint] at h

/-- A magnitude is no word, and a sign before it decides the sign of the numeral. -/
theorem read?_of_readMagnitude? {negative : Bool} {cs : List Char} {x : Numeral}
    (h : readMagnitude? negative cs = some x) :
    read? (if negative then '-' :: cs else cs) = some x := by
  obtain ⟨c, rest, rfl, hc⟩ := readMagnitude?_head h
  have hmem : c ∈ "0123456789.".toList := by
    rcases hc with hc | rfl
    · exact List.mem_append_left ['.'] (mem_of_isPlainDigit hc)
    · decide
  have hall : "0123456789.".toList.all (fun c => c != '-' && c != '+' &&
      smallLetter c != 'i' && smallLetter c != 'n') = true := by decide
  have hchar := List.all_eq_true.mp hall c hmem
  simp only [Bool.and_eq_true, bne_iff_ne] at hchar
  obtain ⟨⟨⟨hminus, hplus⟩, hi⟩, hn⟩ := hchar
  have hsign : readSign (if negative then '-' :: c :: rest else c :: rest) =
      (negative, c :: rest) := by
    cases negative with
    | true => rfl
    | false =>
      unfold readSign
      split
      · rename_i heq
        exact absurd (List.cons.inj heq).1 hminus
      · rename_i heq
        exact absurd (List.cons.inj heq).1 hplus
      · rfl
  have hword : ∀ word : String, word.toList.head? ≠ some (smallLetter c) →
      (String.ofList ((c :: rest).map smallLetter) == word) = false := by
    intro word hhead
    rw [beq_eq_false_iff_ne]
    rintro rfl
    exact hhead (by rw [String.toList_ofList]; rfl)
  unfold read?
  rw [hsign]
  dsimp only
  rw [hword "inf" (fun h => hi (Option.some.inj h).symm),
    hword "infinity" (fun h => hi (Option.some.inj h).symm),
    hword "nan" (fun h => hn (Option.some.inj h).symm)]
  exact h

end Numeral

/-! ## Numbers in graphs -/

theorem dropPointZero_minus (cs : List Char) :
    dropPointZero ('-' :: cs) = '-' :: dropPointZero cs := by
  by_cases h : ['.', '0'] <:+ cs
  · obtain ⟨rest, rfl⟩ := h
    rw [← List.cons_append, dropPointZero_append, dropPointZero_append]
  · rw [dropPointZero_of_not_suffix h, dropPointZero_of_not_suffix]
    rw [List.suffix_cons_iff, not_or]
    exact ⟨by simp, h⟩

namespace Binary64

/-- The number without the sign of a zero. -/
def unsignedZero : Binary64 → Binary64
  | .finite negative u h => if u = 0 then zero else .finite negative u h
  | x => x

theorem rank_unsignedZero (x : Binary64) : x.unsignedZero.rank = x.rank := by
  cases x with
  | nan => rfl
  | infinite negative => rfl
  | finite negative u h =>
    by_cases hu : u = 0
    · subst hu
      cases negative <;> rfl
    · exact congrArg rank (if_neg hu)

theorem graphNumber_zero (negative : Bool) (h : Representable 0) :
    graphNumber (.finite negative 0 h) = "0" := by
  have htext : text (.finite negative 0 h) = if negative then "-0.0" else "0.0" := by
    cases negative with
    | true => exact congrArg (fun cs => String.ofList ('-' :: cs)) magnitudeText_zero
    | false => exact congrArg String.ofList magnitudeText_zero
  unfold graphNumber
  rw [htext]
  cases negative <;> decide

theorem ofNumeral_zero : ofNumeral (.finite false 0 0) = zero := by
  rw [ofNumeral]
  exact (if_pos rfl).trans ofUnits_zero

/-- The text of a number in a graph writes its shortest digits, up to the zeros that they end
with. -/
theorem exists_read?_graphNumber {u : Nat} (hu : 0 < u) (hrep : Representable u) (negative : Bool) :
    ∃ m n k : Nat, (shortest u).1 = m * 10 ^ n ∧
      Numeral.read? (graphNumber (.finite negative u hrep)).toList =
        some (.finite negative (m * 10 ^ k) ((shortest u).2 + n - k)) := by
  obtain ⟨m, n, k, hm, hdigits, hread⟩ := readMagnitude?_magnitudeText hu negative
  refine ⟨m, n, k, hdigits, ?_⟩
  have htext : dropPointZero (text (.finite negative u hrep)).toList =
      if negative then '-' :: dropPointZero (magnitudeText u)
      else dropPointZero (magnitudeText u) := by
    cases negative with
    | true =>
      rw [text, String.toList_ofList, dropPointZero_minus]
      rfl
    | false =>
      rw [text, String.toList_ofList]
      rfl
  have hnumeral := Numeral.read?_of_readMagnitude? hread
  unfold graphNumber
  dsimp only
  rw [htext, if_neg, String.toList_ofList]
  · exact hnumeral
  · intro hzero
    rw [beq_iff_eq.mp hzero] at hnumeral
    have hd : 0 < m * 10 ^ k := Nat.mul_pos hm (Nat.pow_pos (by decide))
    have : Numeral.read? ['-', '0'] = some (.finite true 0 0) := rfl
    rw [this] at hnumeral
    injection Option.some.inj hnumeral with _ hd'
    omega

/-- What the text of a number writes rounds to its magnitude. -/
theorem roundsTo_of_shortest {u m n k : Nat} (hu : 0 < u) (h : (shortest u).1 = m * 10 ^ n) :
    roundsTo u (m * 10 ^ k) ((shortest u).2 + n - k) = true := by
  rw [roundsTo_shift, ← roundsTo_shift u _ n, Int.add_sub_cancel, ← h]
  exact roundsTo_shortest hu

/-- **Reading back.** The text of a number in a graph reads back to the number. -/
theorem ofNumeral_read?_graphNumber (x : Binary64) :
    (Numeral.read? (graphNumber x).toList).map ofNumeral = some x.unsignedZero := by
  cases x with
  | nan => rfl
  | infinite negative => cases negative <;> rfl
  | finite negative u hrep =>
    rcases Nat.eq_zero_or_pos u with rfl | hu
    · rw [graphNumber_zero]
      exact congrArg some ofNumeral_zero
    · obtain ⟨m, n, k, hdigits, hread⟩ := exists_read?_graphNumber hu hrep negative
      rw [hread, Option.map_some, ofNumeral_eq hu hrep (roundsTo_of_shortest hu hdigits)]
      exact congrArg some (if_neg (Nat.ne_of_gt hu)).symm

end Binary64

theorem rank_eq_of_graphNumber_eq {x y : Binary64} (h : graphNumber x = graphNumber y) :
    x.rank = y.rank := by
  have hread := Binary64.ofNumeral_read?_graphNumber x
  rw [h, Binary64.ofNumeral_read?_graphNumber y] at hread
  rw [← x.rank_unsignedZero, ← y.rank_unsignedZero, Option.some.inj hread]

end StillVideo
