import Mathlib.Tactic.SplitIfs
import StillVideo.Gain

/-!
# The characters of numbers

`graphNumber_isNumberText`: a number in a filter graph is written with digits, a point, signs, the
letter of an exponent and the letters of the words for what is not finite. None of the characters
that separate the parts of a graph is among them, so a number never breaks the text around it.
-/

namespace StillVideo

/-- The characters that numbers are written with. -/
def isNumberChar (c : Char) : Bool := c.isDigit || ".+-einaf".toList.contains c

/-- A text of such characters. -/
def IsNumberText (s : String) : Prop := ∀ c ∈ s.toList, isNumberChar c = true

theorem isNumberChar_of_isDigit {c : Char} (h : c.isDigit = true) : isNumberChar c = true := by
  unfold isNumberChar; rw [h]; rfl

/-- A character that no number is written with stands in no text of a number. -/
theorem IsNumberText.not_mem {s : String} (h : IsNumberText s) {c : Char}
    (hc : isNumberChar c = false) : c ∉ s.toList := by
  intro hmem
  rw [h c hmem] at hc
  exact Bool.noConfusion hc

/-! ## Whole numbers -/

theorem isDigit_of_mem_decimalDigits {n : Nat} {c : Char} (h : c ∈ decimalDigits n) :
    c.isDigit = true :=
  Nat.isDigit_of_mem_toDigits (by decide) (by decide) h

/-- Different numbers have different digits. -/
theorem decimalDigits_inj {m n : Nat} (h : decimalDigits m = decimalDigits n) : m = n := by
  have hvalue := congrArg (Nat.ofDigitChars 10 · 0) h
  unfold decimalDigits at hvalue
  rwa [Nat.ofDigitChars_ten_toDigits, Nat.ofDigitChars_ten_toDigits] at hvalue

theorem toList_natRepr (n : Nat) : (toString n).toList = decimalDigits n := Nat.toList_repr

theorem toList_ofNatRepr (n : Nat) : (toString (Int.ofNat n)).toList = decimalDigits n :=
  Nat.toList_repr

theorem toList_negSuccRepr (n : Nat) :
    (toString (Int.negSucc n)).toList = '-' :: decimalDigits (n + 1) := by
  show ("-" ++ (n + 1).repr).toList = _
  rw [String.toList_append, Nat.toList_repr]
  rfl

theorem natRepr_inj {m n : Nat} (h : toString m = toString n) : m = n := by
  rw [← String.toList_inj, toList_natRepr, toList_natRepr] at h
  exact decimalDigits_inj h

theorem isNumberText_natRepr (n : Nat) : IsNumberText (toString n) := by
  intro c hc
  rw [toList_natRepr] at hc
  exact isNumberChar_of_isDigit (isDigit_of_mem_decimalDigits hc)

theorem isNumberText_intRepr (i : Int) : IsNumberText (toString i) := by
  intro c hc
  cases i with
  | ofNat n => exact isNumberText_natRepr n c hc
  | negSucc n =>
    rw [toList_negSuccRepr, List.mem_cons] at hc
    rcases hc with rfl | hc
    · decide
    · exact isNumberChar_of_isDigit (isDigit_of_mem_decimalDigits hc)

/-- Digits do not begin with a sign. -/
theorem decimalDigits_ne_minus_cons (n : Nat) (cs : List Char) : decimalDigits n ≠ '-' :: cs := by
  intro h
  have hmem : '-' ∈ decimalDigits n := h ▸ List.mem_cons_self
  exact absurd (isDigit_of_mem_decimalDigits hmem) (by decide)

theorem intRepr_inj {i j : Int} (h : toString i = toString j) : i = j := by
  rw [← String.toList_inj] at h
  match i, j, h with
  | .ofNat m, .ofNat n, h =>
    rw [toList_ofNatRepr, toList_ofNatRepr] at h
    rw [decimalDigits_inj h]
  | .ofNat m, .negSucc n, h =>
    rw [toList_ofNatRepr, toList_negSuccRepr] at h
    exact absurd h (decimalDigits_ne_minus_cons m _)
  | .negSucc m, .ofNat n, h =>
    rw [toList_ofNatRepr, toList_negSuccRepr] at h
    exact absurd h.symm (decimalDigits_ne_minus_cons n _)
  | .negSucc m, .negSucc n, h =>
    rw [toList_negSuccRepr, toList_negSuccRepr, List.cons.injEq] at h
    have := decimalDigits_inj h.2
    rw [Nat.succ.inj this]

/-! ## Floating numbers -/

namespace Binary64

theorem isNumberChar_of_mem_padLeft {cs : List Char} (hcs : ∀ c ∈ cs, c.isDigit = true)
    {width : Nat} {c : Char} (h : c ∈ padLeft width '0' cs) : isNumberChar c = true := by
  unfold padLeft at h
  rcases List.mem_append.mp h with h | h
  · rw [(List.mem_replicate.mp h).2]; decide
  · exact isNumberChar_of_isDigit (hcs c h)

section Layout

variable {digits : List Char} (hd : ∀ c ∈ digits, c.isDigit = true) {point : Int} {c : Char}
include hd

theorem isNumberChar_of_mem_positional (h : c ∈ positional digits point) :
    isNumberChar c = true := by
  have digit : ∀ c, c ∈ digits → isNumberChar c = true := fun c h =>
    isNumberChar_of_isDigit (hd c h)
  have zero : ∀ {n}, c ∈ List.replicate n '0' → isNumberChar c = true := by
    intro n hn; rw [(List.mem_replicate.mp hn).2]; decide
  unfold positional at h
  dsimp only at h
  split_ifs at h
  · simp only [List.mem_cons, List.mem_append] at h
    rcases h with rfl | rfl | h | h
    · decide
    · decide
    · exact zero h
    · exact digit c h
  · simp only [List.mem_append, List.mem_cons, List.not_mem_nil, or_false] at h
    rcases h with (h | h) | rfl | rfl
    · exact digit c h
    · exact zero h
    · decide
    · decide
  · simp only [List.mem_append, List.mem_cons] at h
    rcases h with h | rfl | h
    · exact digit c (List.mem_of_mem_take h)
    · decide
    · exact digit c (List.mem_of_mem_drop h)

theorem isNumberChar_of_mem_scientific (h : c ∈ scientific digits point) :
    isNumberChar c = true := by
  unfold scientific at h
  rcases List.mem_append.mp h with h | h
  · match digits, hd, h with
    | [], _, h => rw [List.mem_singleton.mp h]; decide
    | [d], hd, h => exact isNumberChar_of_isDigit (hd c h)
    | d :: e :: ds, hd, h =>
      rcases List.mem_cons.mp h with rfl | h
      · exact isNumberChar_of_isDigit (hd _ List.mem_cons_self)
      · rcases List.mem_cons.mp h with rfl | h
        · decide
        · exact isNumberChar_of_isDigit (hd c (List.mem_cons_of_mem _ h))
  · simp only [List.mem_cons] at h
    rcases h with rfl | rfl | h
    · decide
    · split <;> decide
    · exact isNumberChar_of_mem_padLeft (fun _ => isDigit_of_mem_decimalDigits) h

theorem isNumberChar_of_mem_layout (h : c ∈ layout digits point) : isNumberChar c = true := by
  unfold layout at h
  split_ifs at h
  · exact isNumberChar_of_mem_positional hd h
  · exact isNumberChar_of_mem_scientific hd h

end Layout

theorem mem_of_mem_trimZeros {digits : List Char} {c : Char}
    (h : c ∈ magnitudeText.trimZeros digits) : c ∈ digits := by
  unfold magnitudeText.trimZeros at h
  have := (List.dropWhile_sublist _).subset (List.mem_reverse.mp h)
  exact List.mem_reverse.mp this

theorem magnitudeText_zero : magnitudeText 0 = ['0', '.', '0'] := by
  unfold magnitudeText; rw [if_pos rfl]

/-- The text of a magnitude lays out its shortest digits without the zeros at their end. -/
theorem magnitudeText_of_ne_zero {u : Nat} (hu : u ≠ 0) :
    magnitudeText u =
      layout (magnitudeText.trimZeros (decimalDigits (shortest u).1))
        ((shortest u).2 + (decimalDigits (shortest u).1).length) := by
  unfold magnitudeText
  generalize shortest u = p
  obtain ⟨d, e⟩ := p
  exact if_neg hu

theorem isNumberChar_of_mem_magnitudeText {u : Nat} {c : Char} (h : c ∈ magnitudeText u) :
    isNumberChar c = true := by
  by_cases hu : u = 0
  · rw [hu, magnitudeText_zero] at h
    simp only [List.mem_cons, List.not_mem_nil, or_false] at h
    rcases h with rfl | rfl | rfl <;> decide
  · rw [magnitudeText_of_ne_zero hu] at h
    exact isNumberChar_of_mem_layout
      (fun d hd => isDigit_of_mem_decimalDigits (mem_of_mem_trimZeros hd)) h

theorem isNumberText_text (x : Binary64) : IsNumberText x.text := by
  have word : ∀ s : String, s.toList.all isNumberChar = true → IsNumberText s := fun s h =>
    List.all_eq_true.mp h
  intro c hc
  match x, hc with
  | .nan, hc => exact word "nan" (by decide) c hc
  | .infinite true, hc => exact word "-inf" (by decide) c hc
  | .infinite false, hc => exact word "inf" (by decide) c hc
  | .finite true u _, hc =>
    rw [text, String.toList_ofList, List.mem_cons] at hc
    rcases hc with rfl | hc
    · decide
    · exact isNumberChar_of_mem_magnitudeText hc
  | .finite false u _, hc =>
    rw [text, String.toList_ofList] at hc
    exact isNumberChar_of_mem_magnitudeText hc

end Binary64

theorem mem_of_mem_dropPointZero {cs : List Char} {c : Char} (h : c ∈ dropPointZero cs) :
    c ∈ cs := by
  unfold dropPointZero at h
  split at h
  · rename_i rest heq
    rw [List.mem_reverse] at h
    have : c ∈ cs.reverse := heq ▸ List.mem_cons_of_mem _ (List.mem_cons_of_mem _ h)
    exact List.mem_reverse.mp this
  · exact h

/-- **Numbers in graphs.** No number contains a character that separates the parts of a graph. -/
theorem graphNumber_isNumberText (x : Binary64) : IsNumberText (graphNumber x) := by
  intro c hc
  unfold graphNumber at hc
  simp only at hc
  split_ifs at hc
  · rw [show "0".toList = ['0'] from rfl, List.mem_singleton] at hc
    rw [hc]; decide
  · rw [String.toList_ofList] at hc
    exact x.isNumberText_text c (mem_of_mem_dropPointZero hc)

end StillVideo
