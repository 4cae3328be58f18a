import StillVideo.Diagnostics

/-!
# Lines that are kept

Every line that is recorded is an entry, and a failure of the listener is one more entry, directly
behind the line on which it failed (`Delivery`). What is kept are the last entries, as many as there
is room for: what has fallen out before is not missed later (`kept_kept`). One line more keeps both
(`Records.record`), so they hold after any lines, and what is asked for are the last of the entries
(`recordAll_entries`).
-/

namespace StillVideo

namespace Diagnostics

/-! ## The last lines -/

/-- These are the last lines of all, as many as are kept. -/
structure AreLast (keep : Option Nat) (all lines : List Document) : Prop where
  suffix : lines <:+ all
  length : lines.length = (match keep with
    | some n => min n all.length
    | none => all.length)

theorem areLast_kept (keep : Option Nat) (all : List Document) :
    AreLast keep all (kept keep all) := by
  cases keep with
  | none => exact ⟨List.suffix_refl all, rfl⟩
  | some n =>
    refine ⟨List.drop_suffix _ _, ?_⟩
    show (all.drop (all.length - n)).length = min n all.length
    rw [List.length_drop]
    omega

/-- Keeping the last lines as they come is keeping the last lines of all. -/
theorem kept_kept (keep : Option Nat) (lines : List Document) (line : Document) :
    kept keep (kept keep lines ++ [line]) = kept keep (lines ++ [line]) := by
  cases keep with
  | none => rfl
  | some n =>
    show List.drop ((lines.drop (lines.length - n) ++ [line]).length - n)
        (lines.drop (lines.length - n) ++ [line]) =
      (lines ++ [line]).drop ((lines ++ [line]).length - n)
    rw [← List.drop_append_of_le_length (Nat.sub_le _ _), List.drop_drop, List.length_drop,
      List.length_append, List.length_singleton]
    congr 1
    omega

theorem push_lines {d : Diagnostics} {keep : Option Nat} {entries : List Document}
    (hkeep : d.keep = keep) (h : d.lines = kept keep entries) (line : Document) :
    (d.push line).lines = kept keep (entries ++ [line]) := by
  show kept d.keep (d.lines ++ [line]) = _
  rw [hkeep, h, kept_kept]

/-- The last of the last lines are the last of all. -/
theorem lastOf_lastOf {α : Type} (m n : Nat) (xs : List α) :
    lastOf m (lastOf n xs) = lastOf (min m n) xs := by
  unfold lastOf
  rw [List.drop_drop, List.length_drop]
  congr 1
  omega

/-- A count is how many lines are asked for, but zero asks for all. -/
theorem tail_of_kept {d : Diagnostics} {keep : Nat} {entries : List Document}
    (h : d.lines = kept (some keep) entries) (count : Nat) :
    d.tail count = kept (some (if count = 0 then keep else min count keep)) entries := by
  unfold tail
  cases count with
  | zero => exact h
  | succ n =>
    rw [if_pos (Int.natCast_pos.mpr n.succ_pos), if_neg n.succ_ne_zero, Int.toNat_natCast, h]
    exact lastOf_lastOf (n + 1) keep entries

/-! ## One line -/

section

variable {d : Diagnostics} {listener : Listener}

theorem record_of_unheard (h : d.listener = none) (pipe line : Document) :
    d.record pipe line = d.push line := by
  unfold record push
  simp only [h]

theorem record_of_taken (h : d.listener = some listener) (pipe line : Document)
    (htaken : listener (d.heard ++ [(pipe, line)]) = none) :
    d.record pipe line = { d.push line with heard := d.heard ++ [(pipe, line)] } := by
  unfold record push
  simp only [h, htaken]

theorem record_of_failed (h : d.listener = some listener) (pipe line : Document) {reason : String}
    (hfailed : listener (d.heard ++ [(pipe, line)]) = some reason) :
    d.record pipe line =
      { d.push line with heard := d.heard ++ [(pipe, line)], listener := none }.push
        (.text (listenerNote reason)) := by
  unfold record push
  simp only [h, hfailed]

end

/-! ## All lines -/

/-- A listener takes lines one after the other and fails on none of them. -/
def Takes (listener : Listener) (lines : List Heard) : Prop :=
  ∀ heard, heard <+: lines → heard ≠ [] → listener heard = none

theorem takes_nil (listener : Listener) : Takes listener [] :=
  fun _ hheard hne => absurd (List.prefix_nil.mp hheard) hne

theorem Takes.concat {listener : Listener} {lines : List Heard} (h : Takes listener lines)
    {line : Heard} (hline : listener (lines ++ [line]) = none) :
    Takes listener (lines ++ [line]) := by
  intro heard hheard hne
  rcases List.prefix_concat_iff.mp hheard with rfl | hheard
  · exact hline
  · exact h heard hheard hne

/-- What comes of lines that are recorded one after the other, if somebody listens: what the
listener hears, which entries there are, and who listens in the end. A listener that fails has heard
the line on which it fails, is not asked again, and leaves a note directly behind that line. -/
inductive Delivery :
    Option Listener → List Heard → List Heard → List Document → Option Listener → Prop
  | unheard (lines : List Heard) : Delivery none lines [] (lines.map Prod.snd) none
  | taken {listener : Listener} {lines : List Heard} (h : Takes listener lines) :
      Delivery (some listener) lines lines (lines.map Prod.snd) (some listener)
  | failed {listener : Listener} {before : List Heard} {line : Heard} {reason : String}
      (h : Takes listener before) (hfailed : listener (before ++ [line]) = some reason)
      (after : List Heard) :
      Delivery (some listener) (before ++ line :: after) (before ++ [line])
        (before.map Prod.snd ++ line.2 :: .text (listenerNote reason) :: after.map Prod.snd) none

/-- Lines have been recorded with these entries, and the last of the entries are kept. -/
structure Records (keep : Nat) (listener : Option Listener) (lines : List Heard)
    (entries : List Document) (d : Diagnostics) : Prop where
  keep_eq : d.keep = some keep
  delivery : Delivery listener lines d.heard entries d.listener
  lines_eq : d.lines = kept (some keep) entries

variable {keep : Nat} {listener : Option Listener} {lines : List Heard} {entries : List Document}
  {d : Diagnostics}

theorem records_start (keep : Nat) (echo : Bool) (listener : Option Listener) :
    Records keep listener [] [] (start (some keep) echo listener) where
  keep_eq := rfl
  delivery := by
    cases listener with
    | none => exact .unheard []
    | some listener => exact .taken (takes_nil listener)
  lines_eq := List.drop_nil.symm

/-- One more line is one more entry, or two. -/
theorem Records.record (h : Records keep listener lines entries d) (line : Heard) :
    ∃ entries', Records keep listener (lines ++ [line]) entries' (d.record line.1 line.2) := by
  have hlines := push_lines h.keep_eq h.lines_eq line.2
  obtain ⟨hkeep, hdelivery, -⟩ := h
  generalize hheard : d.heard = heard at hdelivery
  generalize hnow : d.listener = now at hdelivery
  cases hdelivery with
  | unheard =>
    rw [record_of_unheard hnow]
    refine ⟨(lines ++ [line]).map Prod.snd, hkeep, ?_, ?_⟩
    · show Delivery none _ d.heard _ d.listener
      rw [hheard, hnow]
      exact .unheard _
    · rw [hlines, List.map_append]
      rfl
  | @taken listener _ htakes =>
    cases hline : listener (lines ++ [line]) with
    | none =>
      rw [record_of_taken hnow _ _ (hheard ▸ hline)]
      refine ⟨(lines ++ [line]).map Prod.snd, hkeep, ?_, ?_⟩
      · show Delivery _ _ (d.heard ++ [line]) _ d.listener
        rw [hheard, hnow]
        exact .taken (htakes.concat hline)
      · show (d.push line.2).lines = _
        rw [hlines, List.map_append]
        rfl
    | some reason =>
      rw [record_of_failed hnow _ _ (hheard ▸ hline)]
      refine ⟨lines.map Prod.snd ++ [line.2, .text (listenerNote reason)], hkeep, ?_, ?_⟩
      · show Delivery _ _ (d.heard ++ [line]) _ none
        rw [hheard]
        exact .failed htakes hline []
      · -- the note is kept behind the line
        show kept d.keep ((d.push line.2).lines ++ [.text (listenerNote reason)]) = _
        rw [hkeep, hlines, kept_kept, List.append_assoc]
        rfl
  | @failed listener before last reason htakes hfailed after =>
    rw [record_of_unheard hnow]
    refine ⟨_, hkeep, ?_, hlines⟩
    show Delivery _ _ d.heard _ d.listener
    have hall := Delivery.failed htakes hfailed (after ++ [line])
    rw [hheard, hnow]
    simpa using hall

/-- Records lines, one after the other. -/
def recordAll (d : Diagnostics) (lines : List Heard) : Diagnostics :=
  lines.foldl (fun d line => d.record line.1 line.2) d

theorem Records.recordAll (h : Records keep listener lines entries d) (more : List Heard) :
    ∃ entries', Records keep listener (lines ++ more) entries' (d.recordAll more) := by
  induction more generalizing lines entries d with
  | nil => exact ⟨entries, (List.append_nil lines).symm ▸ h⟩
  | cons line more ih =>
    obtain ⟨entries', hline⟩ := h.record line
    rw [← List.singleton_append, ← List.append_assoc]
    exact ih hline

/-- **Recorded lines.** Whatever is recorded, the listener hears the lines in order up to the first
on which it fails, the lines are entries with a note of that failure behind it, and a count asks for
as many of the last entries as it says, of those that are kept; but zero asks for all of them. -/
theorem recordAll_entries (keep : Nat) (echo : Bool) (listener : Option Listener)
    (lines : List Heard) :
    ∃ d entries, d = (start (some keep) echo listener).recordAll lines ∧
      Delivery listener lines d.heard entries d.listener ∧ AreLast (some keep) entries d.lines ∧
      ∀ count : Nat,
        AreLast (some (if count = 0 then keep else min count keep)) entries (d.tail count) := by
  obtain ⟨entries, h⟩ := (records_start keep echo listener).recordAll lines
  refine ⟨_, entries, rfl, h.delivery, ?_, fun count => ?_⟩
  · rw [h.lines_eq]
    exact areLast_kept _ _
  · rw [tail_of_kept h.lines_eq]
    exact areLast_kept _ _

/-- One line, of which the listener takes notice. -/
def oneLine : List Heard := [(.text "stderr", .text "frame=1")]

/-- The last zero entries are none, and yet asking for them gives a line. -/
theorem tail_zero_oneLine :
    ((start (some 1) true (some fun _ => none)).recordAll oneLine).tail 0 = [.text "frame=1"] ∧
    ¬ ∃ d entries, d = (start (some 1) true (some fun _ => none)).recordAll oneLine ∧
      Delivery (some fun _ => none) oneLine d.heard entries d.listener ∧
      ∀ count : Nat, AreLast (some (min count 1)) entries (d.tail count) := by
  refine ⟨rfl, ?_⟩
  rintro ⟨d, entries, rfl, -, hlast⟩
  have hlength : 1 = min (min 0 1) entries.length := (hlast 0).length
  omega

end Diagnostics

end StillVideo
