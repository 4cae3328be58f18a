import StillVideo.Proofs.JobSteps
import StillVideo.Proofs.PanelDrawing
import StillVideo.Proofs.RoundingOrder

/-!
# Samples of any text

The conversions that a sample is made with can fail on what an encoder writes: a text need not be a
numeral, and a number need not have a whole part. `Accumulator.checkedSamples` takes the samples
with these conversions and recovers from the faults that are caught; no other fault is left
(`Accumulator.checkedSamples_eq`). The percentage of a sample rises with the time that has elapsed
(`percentComplete_mono`), since quotients and products keep the order, and is one hundred from the
total on (`percentComplete_eq_hundred`). `Accumulator.keepsBounds` puts this together for the
samples of any lines.
-/

namespace StillVideo

open Binary64

attribute [local irreducible] one bound

/-! ## Percentages that rise -/

namespace Binary64

variable {x : Binary64}

theorem IsPercentage.zero_le (h : x.IsPercentage) : le 0 x = true :=
  le_of_lt_eq_false (ne_nan_of_isFinite isFinite_zero) (ne_nan_of_isFinite h.1) h.2.1

theorem IsPercentage.le_hundred (h : x.IsPercentage) : x.le 100 = true :=
  le_of_lt_eq_false (ne_nan_of_isFinite h.1) (ne_nan_of_isFinite isPercentage_hundred.1) h.2.2

end Binary64

section

variable {part part' elapsed elapsed' total : Binary64}

/-- The percentage of a part is a hundred times the part, between its two bounds. -/
theorem percentOfPart_cases (part : Binary64) :
    (part * 100).lt 0 = true ∧ percentOfPart part = 0 ∨
      (part * 100).lt 0 = false ∧ ((part * 100).lt 100 = true ∧ percentOfPart part = part * 100 ∨
        (part * 100).lt 100 = false ∧ percentOfPart part = 100) := by
  unfold percentOfPart
  dsimp only
  cases (part * 100).lt 0 with
  | true => exact .inl ⟨rfl, rfl⟩
  | false =>
    cases (part * 100).lt 100 with
    | true => exact .inr ⟨rfl, .inl ⟨rfl, rfl⟩⟩
    | false => exact .inr ⟨rfl, .inr ⟨rfl, rfl⟩⟩

theorem le_mul_hundred (h : part.le part' = true) : (part * 100).le (part' * 100) = true := by
  rw [hundred_eq]
  exact le_mul_finite representable_hundred (Nat.mul_pos (by decide) one_pos) h

/-- A larger part has at least as large a percentage. -/
theorem percentOfPart_mono (h : part.le part' = true) :
    (percentOfPart part).le (percentOfPart part') = true := by
  have hproduct := le_mul_hundred h
  have hlow := (isPercentage_percentOfPart part').zero_le
  have hhigh := (isPercentage_percentOfPart part).le_hundred
  rcases percentOfPart_cases part with ⟨-, heq⟩ | ⟨hzero, hcase⟩
  · rw [heq]
    exact hlow
  rcases percentOfPart_cases part' with ⟨hneg, -⟩ | ⟨-, ⟨hless, heq'⟩ | ⟨-, heq'⟩⟩
  · rw [lt_of_le_of_lt hproduct hneg] at hzero
    exact absurd hzero.symm Bool.false_ne_true
  · rcases hcase with ⟨-, heq⟩ | ⟨hfull, -⟩
    · rw [heq, heq']
      exact hproduct
    · rw [lt_of_le_of_lt hproduct hless] at hfull
      exact absurd hfull.symm Bool.false_ne_true
  · rw [heq']
    exact hhigh

/-- A total that counts: a magnitude that is not zero. -/
theorem exists_total (hfinite : total.isFinite = true) (hpos : total.le 0 = false) :
    ∃ v hv, total = finite false v hv ∧ 0 < v := by
  rcases cases_of_not_le_zero hpos with rfl | rfl | htotal
  · exact absurd hfinite Bool.false_ne_true
  · exact absurd hfinite Bool.false_ne_true
  · exact htotal

variable (hfinite : total.isFinite = true) (hpos : total.le 0 = false)
include hfinite hpos

/-- **Rising percentages.** The longer a run has lasted, the larger its percentage. -/
theorem percentComplete_mono (h : elapsed.le elapsed' = true) :
    (percentComplete elapsed total).le (percentComplete elapsed' total) = true := by
  obtain ⟨v, hv, rfl, hvpos⟩ := exists_total hfinite hpos
  unfold percentComplete
  rw [hpos]
  exact percentOfPart_mono (le_div_finite hv hvpos h)

/-- **Complete runs.** From the total on the percentage is one hundred. -/
theorem percentComplete_eq_hundred (h : total.le elapsed = true) :
    percentComplete elapsed total = 100 := by
  obtain ⟨v, hv, rfl, hvpos⟩ := exists_total hfinite hpos
  have hpart := le_div_finite hv hvpos h
  rw [finite_div_self hv hvpos] at hpart
  have hproduct := le_mul_hundred hpart
  rw [show (1 : Binary64) * 100 = 100 by decide +kernel] at hproduct
  unfold percentComplete
  rw [hpos]
  rcases percentOfPart_cases (elapsed / finite false v hv) with ⟨hneg, -⟩ | ⟨-, ⟨hless, -⟩
        | ⟨-, heq⟩⟩
  · have := lt_of_le_of_lt hproduct hneg
    exact absurd this (by decide +kernel)
  · rw [lt_eq_false_of_le hproduct] at hless
    exact absurd hless Bool.false_ne_true
  · exact heq

end

/-! ## Conversions that can fail -/

/-- A default in place of a fault of the families that are caught. -/
def recovered {α : Type} (caught : List FaultKind) (default : α) (r : Except Fault α) :
    Except Fault α :=
  match r with
  | .ok a => .ok a
  | .error f => if f.kind ∈ caught then .ok default else .error f

/-- A text as a floating number, zero if it is no numeral. -/
def checkedReal (s : String) : Except Fault Binary64 :=
  recovered [.value] 0 (Document.text s).toReal

/-- A text as a number of frames: what is no numeral, no number or infinite counts as none. -/
def checkedCount (s : String) : Except Fault Int :=
  recovered [.value, .range] 0 do
    let x ← (Document.text s).toReal
    return max 0 (← wholeOfReal x)

/-- A text as elapsed seconds. -/
def checkedElapsed (s : String) : Except Fault Binary64 :=
  match splitFields ':' (trim isBlank s.toList) with
  | [seconds] => checkedReal (String.ofList seconds)
  | [hours, minutes, seconds] => do
    let h ← checkedReal (String.ofList hours)
    let m ← checkedReal (String.ofList minutes)
    let s ← checkedReal (String.ofList seconds)
    return h * 3600 + m * 60 + s
  | _ => return 0

namespace Accumulator

/-- The sample that the fields make, by conversions that can fail. -/
def checkedSample (a : Accumulator) : Except Fault Sample := do
  let time := a.field "out_time" ""
  let elapsed ← checkedElapsed time
  let frame ← checkedCount (a.field "frame" "0")
  let fps ← checkedReal (a.field "fps" "0")
  let percent ← percentOfValues (.real elapsed) (.real a.total)
  return { frame, fps := .real fps, time, progress := .real percent }

/-- Takes in one field, by conversions that can fail. -/
def checkedFeed (a : Accumulator) (key value : String) :
    Except Fault (Accumulator × Option Sample) :=
  if key == closingKey then do
    let sample ← a.checkedSample
    return ({ a with fields := [], finished := a.finished || value == endValue }, some sample)
  else return (a.withField key value, none)

/-- The samples that lines of output complete, by conversions that can fail. -/
def checkedSamples (a : Accumulator) : List String → Except Fault (List Sample)
  | [] => return []
  | line :: lines =>
    match EncoderLine.read .output line with
    | .progress key value => do
      let (a', sample) ← a.checkedFeed key value
      return sample.toList ++ (← a'.checkedSamples lines)
    | _ => a.checkedSamples lines

end Accumulator

theorem recovered_of_mem {α : Type} {caught : List FaultKind} {f : Fault} (h : f.kind ∈ caught)
    (default : α) : recovered caught default (.error f) = .ok default := if_pos h

theorem toReal_text (s : String) : (Document.text s).toReal =
    match Binary64.read? s with
    | some x => .ok x
    | none => .error (.notReal s) := rfl

/-- A text that is no numeral is the only fault of this conversion, and it is caught. -/
theorem checkedReal_eq (s : String) : checkedReal s = .ok ((Binary64.read? s).getD 0) := by
  unfold checkedReal
  rw [toReal_text]
  cases Binary64.read? s with
  | none => exact recovered_of_mem (f := .notReal s) List.mem_cons_self 0
  | some x => rfl

/-- What has no whole part is caught as well, be it infinite or no number. -/
theorem checkedCount_eq (s : String) : checkedCount s = .ok (Accumulator.readCount s) := by
  unfold checkedCount Accumulator.readCount
  rw [toReal_text]
  cases Binary64.read? s with
  | none => exact recovered_of_mem (f := .notReal s) List.mem_cons_self 0
  | some x =>
    cases x with
    | nan => exact recovered_of_mem (f := .nanToWhole) (by decide) 0
    | infinite s => exact recovered_of_mem (f := .infiniteToWhole) (by decide) 0
    | finite s u hu => rfl

theorem checkedElapsed_eq (s : String) : checkedElapsed s = .ok (readElapsed s) := by
  unfold checkedElapsed readElapsed
  match splitFields ':' (trim isBlank s.toList) with
  | [] => rfl
  | [seconds] => exact checkedReal_eq _
  | [_, _] => rfl
  | [hours, minutes, seconds] =>
    simp only [checkedReal_eq, ok_bind]
    rfl
  | _ :: _ :: _ :: _ :: _ => rfl

/-- Nothing is divided by zero: a total that is not positive is not divided by. -/
theorem percentOfValues_real (elapsed total : Binary64) :
    percentOfValues (.real elapsed) (.real total) = .ok (percentComplete elapsed total) := by
  have hle : (Number.real total).le (.whole 0) = total.le 0 := by
    unfold Number.le Number.lt Number.eq
    rw [Number.rank_whole_zero]
    rfl
  unfold percentOfValues percentComplete
  rw [Number.ofDocument_real, Number.ofDocument_real, ok_bind, hle]
  cases total.le 0 <;> rfl

namespace Accumulator

theorem checkedSample_eq (a : Accumulator) : a.checkedSample = .ok a.sample := by
  unfold checkedSample
  simp only [checkedElapsed_eq, checkedCount_eq, checkedReal_eq, percentOfValues_real, ok_bind]
  rfl

theorem checkedFeed_eq (a : Accumulator) (key value : String) :
    a.checkedFeed key value = .ok (a.feed key value) := by
  unfold checkedFeed feed
  rw [checkedSample_eq]
  split <;> rfl

/-- **No fault is left.** Whatever the lines are, the conversions give the samples. -/
theorem checkedSamples_eq (a : Accumulator) (lines : List String) :
    a.checkedSamples lines = .ok (a.samples lines) := by
  induction lines generalizing a with
  | nil => rfl
  | cons line lines ih =>
    unfold checkedSamples samples readLine
    cases EncoderLine.read .output line with
    | progress key value =>
      dsimp only
      rw [checkedFeed_eq, ok_bind, ih]
      rfl
    | diagnostic text => exact ih a
    | unrecognized text => exact ih a

/-! ## Samples of any lines -/

/-- The time that had elapsed when a sample was made. -/
def elapsed (s : Sample) : Binary64 := readElapsed s.time

/-- A sample of a run of this length: frames that can be counted, and the percentage of the time
that had elapsed. -/
structure IsSampleOf (total : Binary64) (s : Sample) : Prop where
  frame : 0 ≤ s.frame
  progress : s.progress = .real (percentComplete (elapsed s) total)

theorem isSampleOf_sample (a : Accumulator) : IsSampleOf a.total a.sample := by
  refine ⟨?_, rfl⟩
  show 0 ≤ readCount _
  unfold readCount
  split
  · exact Int.le_max_left 0 _
  · exact Int.le_refl 0

/-- A line leaves the length of the run as it is, and what it completes is a sample of the run. -/
theorem readLine_total (a : Accumulator) (line : String) :
    (a.readLine line).1.total = a.total ∧ ∀ s ∈ (a.readLine line).2, IsSampleOf a.total s := by
  unfold readLine
  split
  · unfold feed
    split
    · refine ⟨rfl, fun s hs => ?_⟩
      obtain rfl := Option.some.inj hs
      exact a.isSampleOf_sample
    · exact ⟨rfl, fun s hs => absurd hs (Option.not_mem_none s)⟩
  · exact ⟨rfl, fun s hs => absurd hs (Option.not_mem_none s)⟩

theorem isSampleOf_of_mem_samples {a : Accumulator} {lines : List String} {s : Sample}
    (h : s ∈ a.samples lines) : IsSampleOf a.total s := by
  induction lines generalizing a with
  | nil => exact absurd h List.not_mem_nil
  | cons line lines ih =>
    obtain ⟨htotal, hcompleted⟩ := a.readLine_total line
    rcases List.mem_append.mp h with hfirst | hrest
    · exact hcompleted s (Option.mem_toList.mp hfirst)
    · rw [← htotal]
      exact ih hrest

/-- What holds of the samples of lines, whatever the encoder has written. -/
structure KeepsBounds (total : Binary64) (lines : List String) : Prop where
  /-- No fault is left of the conversions. -/
  untroubled : (start total).checkedSamples lines = .ok ((start total).samples lines)
  frames : ∀ s ∈ (start total).samples lines, 0 ≤ s.frame
  percentages : ∀ s ∈ (start total).samples lines,
    ∃ percent : Binary64, s.progress = .real percent ∧ percent.IsPercentage
  /-- While the time does not run back, the percentage does not fall. -/
  rising : total.isFinite = true → total.le 0 = false →
    ((start total).samples lines).Pairwise (fun s t => (elapsed s).le (elapsed t) = true) →
    ((start total).samples lines).Pairwise fun s t => s.progress.le t.progress = true
  /-- From the first sample on whose time is at least the total, all of it is complete. -/
  complete : total.isFinite = true → total.le 0 = false →
    ((start total).samples lines).Pairwise (fun s t => (elapsed s).le (elapsed t) = true) →
    ∀ i s, ((start total).samples lines)[i]? = some s → total.le (elapsed s) = true →
      ∀ t ∈ ((start total).samples lines).drop i, t.progress = .real 100

/-- Among times that do not run back, what comes from a place on is no earlier than that place. -/
theorem total_le_of_mem_drop {samples : List Sample} {total : Binary64}
    (h : samples.Pairwise fun s t => (elapsed s).le (elapsed t) = true) {i : Nat} {s : Sample}
    (hs : samples[i]? = some s) (hle : total.le (elapsed s) = true) {t : Sample}
    (ht : t ∈ samples.drop i) : total.le (elapsed t) = true := by
  obtain ⟨hi, rfl⟩ := List.getElem?_eq_some_iff.mp hs
  rw [List.drop_eq_getElem_cons hi] at ht
  rcases List.mem_cons.mp ht with rfl | hlater
  · exact hle
  · have hrest := h.sublist (List.drop_sublist i samples)
    rw [List.drop_eq_getElem_cons hi] at hrest
    exact le_of_le_of_le hle (List.rel_of_pairwise_cons hrest hlater)

/-- **Samples of any text.** -/
theorem keepsBounds (total : Binary64) (lines : List String) : KeepsBounds total lines where
  untroubled := checkedSamples_eq _ lines
  frames s hs := (isSampleOf_of_mem_samples hs).frame
  percentages s hs := (isMade_of_mem_samples hs).progress
  rising hfinite hpos hrun := by
    refine hrun.imp_of_mem fun {s t} hs ht hle => ?_
    rw [(isSampleOf_of_mem_samples hs).progress, (isSampleOf_of_mem_samples ht).progress]
    exact percentComplete_mono hfinite hpos hle
  complete hfinite hpos hrun i s hs hle t ht := by
    rw [(isSampleOf_of_mem_samples (List.mem_of_mem_drop ht)).progress]
    exact congrArg Number.real
      (percentComplete_eq_hundred hfinite hpos (total_le_of_mem_drop hrun hs hle ht))

end Accumulator

end StillVideo
