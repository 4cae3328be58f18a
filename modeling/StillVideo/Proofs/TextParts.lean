import Mathlib.Data.List.DropRight
import StillVideo.Text.Blank

/-!
# Parts of texts

What is left of a text without the blanks around it, said from its characters (`IsTrimmed`,
`isTrimmed_iff`), and the fields of a text between separators, which joined again are the text
(`splitFields_intercalate`, `intercalate_splitFields`). Both together give the parts of a time
(`HasParts`, `hasParts_iff`). What stands behind the last separator is found from the end
(`lastField_append`).
-/

namespace StillVideo

/-! ## Trimmed texts -/

/-- `core` is `cs` without the characters satisfying `p` at its end. -/
def IsTrimmedRight (p : Char → Bool) (cs core : List Char) : Prop :=
  (∃ ends, (∀ c ∈ ends, p c = true) ∧ cs = core ++ ends) ∧ ∀ c ∈ core.getLast?, p c = false

/-- `core` is `cs` without the characters satisfying `p` at both ends. -/
def IsTrimmed (p : Char → Bool) (cs core : List Char) : Prop :=
  (∃ front ends, (∀ c ∈ front, p c = true) ∧ (∀ c ∈ ends, p c = true) ∧
    cs = front ++ (core ++ ends)) ∧
  (∀ c ∈ core.head?, p c = false) ∧ ∀ c ∈ core.getLast?, p c = false

section

variable {p : Char → Bool} {cs core : List Char}

theorem trimRight_append {ends : List Char} (h : ∀ c ∈ ends, p c = true) (cs : List Char) :
    trimRight p (cs ++ ends) = trimRight p cs := by
  have hends : ∀ c ∈ ends.reverse, p c = true := fun c hc => h c (List.mem_reverse.mp hc)
  unfold trimRight
  rw [List.reverse_append, List.dropWhile_append_of_pos hends]

theorem trimRight_eq_self (h : ∀ c ∈ cs.getLast?, p c = false) : trimRight p cs = cs := by
  refine List.rdropWhile_eq_self_iff.mpr fun hne => ?_
  rw [h _ (List.getLast?_eq_some_getLast hne)]
  exact Bool.false_ne_true

theorem getLast_trimRight (p : Char → Bool) (cs : List Char) :
    ∀ c ∈ (trimRight p cs).getLast?, p c = false := by
  intro c hc
  obtain ⟨hne, rfl⟩ := List.mem_getLast?_eq_getLast hc
  exact Bool.eq_false_iff.mpr (List.rdropWhile_last_not p cs hne)

theorem isTrimmedRight_trimRight (p : Char → Bool) (cs : List Char) :
    IsTrimmedRight p cs (trimRight p cs) := by
  refine ⟨⟨cs.rtakeWhile p, fun c hc => List.mem_rtakeWhile_imp hc, ?_⟩, getLast_trimRight p cs⟩
  exact List.rdropWhile_append_rtakeWhile.symm

theorem isTrimmedRight_iff : IsTrimmedRight p cs core ↔ trimRight p cs = core := by
  constructor
  · rintro ⟨⟨ends, hends, rfl⟩, hlast⟩
    rw [trimRight_append hends, trimRight_eq_self hlast]
  · rintro rfl
    exact isTrimmedRight_trimRight p cs

theorem trim_eq_of_isTrimmed (h : IsTrimmed p cs core) : trim p cs = core := by
  obtain ⟨⟨front, ends, hfront, hends, rfl⟩, hhead, hlast⟩ := h
  unfold trim
  rw [List.dropWhile_append_of_pos hfront]
  cases core with
  | nil =>
    rw [List.nil_append, List.dropWhile_eq_nil_iff.mpr hends]
    rfl
  | cons c rest =>
    have hc : p c = false := hhead c rfl
    rw [List.cons_append, List.dropWhile_cons_of_neg (by rw [hc]; exact Bool.false_ne_true),
      ← List.cons_append, trimRight_append hends, trimRight_eq_self hlast]

/-- Where no character is trimmed, nothing is. -/
theorem trim_eq_self (h : ∀ c ∈ cs, p c = false) : trim p cs = cs := by
  refine trim_eq_of_isTrimmed ⟨⟨[], [], by simp, by simp, by simp⟩, fun c hc => ?_, fun c hc => ?_⟩
  · exact h c (List.mem_of_mem_head? hc)
  · exact h c (List.mem_of_mem_getLast? hc)

theorem isTrimmed_trim (p : Char → Bool) (cs : List Char) : IsTrimmed p cs (trim p cs) := by
  obtain ⟨⟨ends, hends, heq⟩, hlast⟩ := isTrimmedRight_trimRight p (cs.dropWhile p)
  refine ⟨⟨cs.takeWhile p, ends, fun c hc => List.mem_takeWhile_imp hc, hends, ?_⟩, ?_, hlast⟩
  · unfold trim
    rw [← heq, List.takeWhile_append_dropWhile]
  · intro c hc
    -- what the text begins with behind its blanks is where its core begins
    refine Bool.eq_false_iff.mpr fun hp => ?_
    have hhead : (cs.dropWhile p).head? = some c := by
      rw [heq, List.head?_append, show (trimRight p (cs.dropWhile p)).head? = some c from hc]
      rfl
    have hnot := List.head?_dropWhile_not p cs
    rw [hhead] at hnot
    simp [hp] at hnot

theorem isTrimmed_iff : IsTrimmed p cs core ↔ trim p cs = core := by
  refine ⟨trim_eq_of_isTrimmed, ?_⟩
  rintro rfl
  exact isTrimmed_trim p cs

end

/-! ## Fields -/

theorem splitFields_append (sep : Char) (xs ys : List Char) :
    splitFields sep (xs ++ sep :: ys) = splitFields sep xs ++ splitFields sep ys := by
  induction xs with
  | nil => simp [splitFields]
  | cons x xs ih =>
    rw [List.cons_append, splitFields, splitFields, ih]
    split
    · rfl
    · obtain ⟨part, parts, h⟩ := List.exists_cons_of_ne_nil (splitFields_ne_nil sep xs)
      rw [h]
      rfl

theorem splitFields_of_not_mem {sep : Char} {cs : List Char} (h : sep ∉ cs) :
    splitFields sep cs = [cs] := by
  induction cs with
  | nil => rfl
  | cons c cs ih =>
    obtain ⟨hc, hcs⟩ := List.ne_and_not_mem_of_not_mem_cons h
    rw [splitFields, if_neg hc.symm, ih hcs]

theorem not_mem_splitFields (sep : Char) (cs : List Char) :
    ∀ part ∈ splitFields sep cs, sep ∉ part := by
  induction cs with
  | nil => simp [splitFields]
  | cons c cs ih =>
    obtain ⟨part, parts, hparts⟩ := List.exists_cons_of_ne_nil (splitFields_ne_nil sep cs)
    rw [hparts, List.forall_mem_cons] at ih
    rw [splitFields, hparts]
    split
    · exact List.forall_mem_cons.mpr ⟨List.not_mem_nil, List.forall_mem_cons.mpr ih⟩
    · rename_i hc
      refine List.forall_mem_cons.mpr ⟨?_, ih.2⟩
      exact List.not_mem_cons_of_ne_of_not_mem (Ne.symm hc) ih.1

/-- Fields consist of characters of the text. -/
theorem mem_of_mem_splitFields {sep c : Char} {cs part : List Char} (h : part ∈ splitFields sep cs)
    (hc : c ∈ part) : c ∈ cs := by
  induction cs generalizing part with
  | nil =>
    rw [List.mem_singleton.mp h] at hc
    exact absurd hc List.not_mem_nil
  | cons d cs ih =>
    obtain ⟨first, parts, hparts⟩ := List.exists_cons_of_ne_nil (splitFields_ne_nil sep cs)
    rw [hparts] at ih
    rw [splitFields, hparts] at h
    split at h
    · rcases List.mem_cons.mp h with rfl | h
      · exact absurd hc List.not_mem_nil
      · exact List.mem_cons_of_mem _ (ih h hc)
    · rcases List.mem_cons.mp h with rfl | h
      · rcases List.mem_cons.mp hc with rfl | hc
        · exact List.mem_cons_self
        · exact List.mem_cons_of_mem _ (ih List.mem_cons_self hc)
      · exact List.mem_cons_of_mem _ (ih (List.mem_cons_of_mem _ h) hc)

theorem splitFields_intercalate {sep : Char} {ps : List (List Char)}
    (h : ∀ part ∈ ps, sep ∉ part) (hne : ps ≠ []) :
    splitFields sep ([sep].intercalate ps) = ps := by
  induction ps with
  | nil => exact absurd rfl hne
  | cons p ps ih =>
    obtain ⟨hp, hps⟩ := List.forall_mem_cons.mp h
    cases ps with
    | nil => rw [List.intercalate_singleton, splitFields_of_not_mem hp]
    | cons q qs =>
      rw [List.intercalate_cons_of_ne_nil (List.cons_ne_nil _ _), List.append_assoc,
        List.singleton_append, splitFields_append, splitFields_of_not_mem hp,
        ih hps (List.cons_ne_nil _ _)]
      rfl

theorem intercalate_splitFields (sep : Char) (cs : List Char) :
    [sep].intercalate (splitFields sep cs) = cs := by
  induction cs with
  | nil => rfl
  | cons c cs ih =>
    unfold splitFields
    split
    · rename_i hc
      rw [List.intercalate_cons_of_ne_nil (splitFields_ne_nil sep cs), ih, hc]
      rfl
    · obtain ⟨part, parts, hparts⟩ := List.exists_cons_of_ne_nil (splitFields_ne_nil sep cs)
      rw [hparts] at ih ⊢
      dsimp only
      cases parts with
      | nil =>
        rw [List.intercalate_singleton] at ih ⊢
        rw [ih]
      | cons next rest =>
        rw [List.intercalate_cons_of_ne_nil (List.cons_ne_nil _ _)] at ih ⊢
        rw [← ih]
        rfl

/-- The parts of a text between its colons, without the white space around the text. -/
structure HasParts (text : String) (parts : List (List Char)) : Prop where
  joined : IsTrimmed isBlank text.toList ([':'].intercalate parts)
  nonempty : parts ≠ []
  no_colon : ∀ part ∈ parts, ':' ∉ part

theorem hasParts_iff {text : String} {parts : List (List Char)} :
    HasParts text parts ↔ splitFields ':' (trim isBlank text.toList) = parts := by
  constructor
  · rintro ⟨hjoined, hne, hcolon⟩
    rw [isTrimmed_iff.mp hjoined, splitFields_intercalate hcolon hne]
  · rintro rfl
    refine ⟨?_, splitFields_ne_nil _ _, not_mem_splitFields ':' _⟩
    rw [intercalate_splitFields]
    exact isTrimmed_trim _ _

/-! ## The last field -/

theorem exists_lastField {sep : Char} {cs : List Char} (h : sep ∈ cs) :
    ∃ before last, cs = before ++ sep :: last ∧ sep ∉ last := by
  obtain ⟨last, before, hcs, hlast⟩ := List.eq_append_cons_of_mem (List.mem_reverse.mpr h)
  refine ⟨before.reverse, last.reverse, ?_, fun hmem => hlast (List.mem_reverse.mp hmem)⟩
  rw [← List.reverse_reverse cs, hcs]
  simp

section

variable {sep : Char} {last : List Char} (h : sep ∉ last)
include h

theorem bne_of_mem_reverse : ∀ c ∈ last.reverse, (c != sep) = true := by
  intro c hc
  rw [bne_iff_ne]
  rintro rfl
  exact h (List.mem_reverse.mp hc)

theorem lastField_of_not_mem : (last.reverse.takeWhile (· != sep)).reverse = last := by
  rw [List.takeWhile_eq_self_iff.mpr (bne_of_mem_reverse h), List.reverse_reverse]

theorem lastField_append (cs : List Char) :
    ((cs ++ sep :: last).reverse.takeWhile (· != sep)).reverse = last := by
  rw [List.reverse_append, List.reverse_cons, List.append_assoc,
    List.takeWhile_append_of_pos (bne_of_mem_reverse h)]
  simp

end

end StillVideo
