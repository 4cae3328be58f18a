import StillVideo.Proofs.RunSteps

/-!
# How a run fails

Reading the output has failed exactly if it failed while it was read
(`Run.readFailure_foldl_step`), reading the error pipe exactly if the script says so
(`Run.streamError_foldl_step`), and an encoder that has been waited for has an exit code
(`Run.exitCode_finish`).
-/

namespace StillVideo

namespace EncoderStep

/-- A step in which a read fails. -/
def Breaks (e : EncoderStep) : Prop := ∃ reason, e.delivery = .failure reason

/-- A step that delivers a line that is to be noted and cannot be shown. -/
def Unshown (refused : String → Option HostFault) (e : EncoderStep) : Prop :=
  ∃ line text f, e.delivery = .line line ∧ EncoderLine.noted? e.pipe line = some text ∧
    refused text = some f

/-- A step in which reading the error pipe fails: the read itself, or showing the line. -/
def FailsOnErrors (refused : String → Option HostFault) (e : EncoderStep) : Prop :=
  e.pipe = .errors ∧ (e.Breaks ∨ e.Unshown refused)

theorem not_breaks_of_line {e : EncoderStep} {line : String} (h : e.delivery = .line line) :
    ¬ e.Breaks := by
  rintro ⟨reason, hd⟩
  rw [h] at hd
  exact absurd hd (by simp)

theorem unshown_iff {refused : String → Option HostFault} {e : EncoderStep} {line : String}
    (h : e.delivery = .line line) :
    e.Unshown refused ↔
      ∃ text, EncoderLine.noted? e.pipe line = some text ∧ refused text ≠ none := by
  constructor
  · rintro ⟨line', text, f, hd, hnoted, hf⟩
    obtain rfl := Delivery.line.inj (h.symm.trans hd)
    exact ⟨text, hnoted, hf ▸ Option.some_ne_none f⟩
  · rintro ⟨text, hnoted, hf⟩
    obtain ⟨f, hf⟩ := Option.ne_none_iff_exists'.mp hf
    exact ⟨line, text, f, h, hnoted, hf⟩

end EncoderStep

namespace Control

/-- Reading the output fails in a step, while it is read: the read itself, or showing a line that
comes in time. -/
def FailsOnOutput (c : Control) (e : EncoderStep) : Prop :=
  c.reading = true ∧ e.pipe = .output ∧
    (e.Breaks ∨ (c.token.cancelled || e.cancels) = false ∧ e.Unshown c.refused)

/-- Noting a line fails for the pipe it comes from, exactly if the line cannot be shown. -/
theorem failures_note (c : Control) (pipe : Pipe) (text : String) :
    ((c.note pipe text).1.readFailure ≠ none ↔
      c.readFailure ≠ none ∨ pipe = .output ∧ c.refused text ≠ none) ∧
    ((c.note pipe text).1.streamError ≠ none ↔
      c.streamError ≠ none ∨ pipe = .errors ∧ c.refused text ≠ none) := by
  cases h : c.refused text with
  | none =>
    rw [note_of_shown h]
    simp
  | some f =>
    rw [note_of_refused h]
    cases pipe <;> simp [breakOff, terminate]

theorem failures_readErrors (c : Control) (line : String) :
    (c.readErrors line).1.readFailure = c.readFailure ∧
      ((c.readErrors line).1.streamError ≠ none ↔ c.streamError ≠ none ∨
        ∃ text, EncoderLine.noted? .errors line = some text ∧ c.refused text ≠ none) := by
  rw [readErrors_eq]
  cases EncoderLine.noted? .errors line with
  | none => simp
  | some text =>
    refine ⟨?_, ?_⟩
    · dsimp only
      cases h : c.refused text with
      | none => rw [note_of_shown h]
      | some f => rw [note_of_refused h]; rfl
    · simpa using (c.failures_note .errors text).2

theorem failures_readOutput (c : Control) (line : String) :
    (c.readOutput line).1.streamError = c.streamError ∧
      ((c.readOutput line).1.readFailure ≠ none ↔ c.readFailure ≠ none ∨
        c.token.cancelled = false ∧
          ∃ text, EncoderLine.noted? .output line = some text ∧ c.refused text ≠ none) := by
  cases h : c.token.cancelled with
  | true =>
    unfold readOutput
    rw [if_pos h]
    simp [terminate]
  | false =>
    rcases readOutput_eq h line with ⟨key, value, -, hnoted, heq⟩ | ⟨-, heq⟩ <;> rw [heq]
    · rw [hnoted]
      unfold feed
      split <;> simp
    · cases EncoderLine.noted? .output line with
      | none => simp
      | some text =>
        refine ⟨?_, ?_⟩
        · dsimp only
          cases hr : c.refused text with
          | none => rw [note_of_shown hr]
          | some f => rw [note_of_refused hr]; rfl
        · simpa using (c.failures_note .output text).1

/-- Reading the output has failed after a step if it had before, or if it fails in the step. -/
theorem readFailure_step (c : Control) (e : EncoderStep) :
    (c.step e).1.readFailure ≠ none ↔ c.readFailure ≠ none ∨ c.FailsOnOutput e := by
  have ha := c.agree_advance e
  unfold step FailsOnOutput
  cases hp : e.pipe with
  | errors =>
    have hkeep : ∀ d, ((c.advance e).deliver .errors d).1.readFailure = c.readFailure := by
      intro d
      cases d with
      | line text => exact (failures_readErrors _ text).1.trans ha.readFailure
      | failure reason => exact ha.readFailure
    split
    · rw [hkeep]
      simp
    · simp
  | output =>
    cases hr : c.reading with
    | false =>
      rw [if_neg (by rw [show c.isRead .output = false from hr]; exact Bool.false_ne_true)]
      simp
    | true =>
      rw [if_pos (show c.isRead .output = true from hr)]
      cases hd : e.delivery with
      | line text =>
        show ((c.advance e).readOutput text).1.readFailure ≠ none ↔ _
        rw [(failures_readOutput _ text).2, ha.readFailure, ha.refused, cancelled_advance,
          EncoderStep.unshown_iff hd, hp]
        simp [EncoderStep.not_breaks_of_line hd]
      | failure reason =>
        have hbreaks : e.Breaks := ⟨reason, hd⟩
        simp [deliver, breakOff, hbreaks]

/-- Reading the error pipe has failed after a step if it had before, or if it fails in the step. -/
theorem streamError_step (c : Control) (e : EncoderStep) :
    (c.step e).1.streamError ≠ none ↔ c.streamError ≠ none ∨ e.FailsOnErrors c.refused := by
  have ha := c.agree_advance e
  unfold step EncoderStep.FailsOnErrors
  cases hp : e.pipe with
  | output =>
    have hkeep : ∀ d, ((c.advance e).deliver .output d).1.streamError = c.streamError := by
      intro d
      cases d with
      | line text => exact (failures_readOutput _ text).1.trans ha.streamError
      | failure reason => exact ha.streamError
    split
    · rw [hkeep]
      simp
    · simp
  | errors =>
    cases hs : c.streamError with
    | some reason =>
      have hread : c.isRead .errors = false := congrArg Option.isNone hs
      rw [if_neg (by rw [hread]; exact Bool.false_ne_true), hs]
      simp
    | none =>
      rw [if_pos (show c.isRead .errors = true from congrArg Option.isNone hs)]
      cases hd : e.delivery with
      | line text =>
        show ((c.advance e).readErrors text).1.streamError ≠ none ↔ _
        rw [(failures_readErrors _ text).2, ha.streamError, ha.refused, hs,
          EncoderStep.unshown_iff hd, hp]
        simp [EncoderStep.not_breaks_of_line hd]
      | failure reason =>
        have hbreaks : e.Breaks := ⟨reason, hd⟩
        simp [deliver, breakOff, hbreaks]

end Control

namespace Run

/-- Reading the output fails in some step of a script, while the output is read. -/
def OutputFails (r : Run) (steps : List EncoderStep) : Prop :=
  ∃ before e after, steps = before ++ e :: after ∧
    (before.foldl Run.step r).control.FailsOnOutput e

theorem outputFails_cons {r : Run} {e : EncoderStep} {rest : List EncoderStep} :
    r.OutputFails (e :: rest) ↔ r.control.FailsOnOutput e ∨ (r.step e).OutputFails rest := by
  constructor
  · rintro ⟨before, e', after, heq, hf⟩
    cases before with
    | nil =>
      obtain ⟨rfl, rfl⟩ := List.cons.inj heq
      exact .inl hf
    | cons e₀ before =>
      obtain ⟨rfl, rfl⟩ := List.cons.inj heq
      exact .inr ⟨before, e', after, rfl, hf⟩
  · rintro (hf | ⟨before, e', after, rfl, hf⟩)
    · exact ⟨[], e, rest, rfl, hf⟩
    · exact ⟨e :: before, e', after, rfl, hf⟩

theorem not_outputFails_nil (r : Run) : ¬ r.OutputFails [] := by
  rintro ⟨before, e, after, heq, -⟩
  exact absurd heq.symm (List.append_ne_nil_of_right_ne_nil _ (List.cons_ne_nil _ _))

/-- **Output failures.** Reading the output has failed exactly if it failed while it was read. -/
theorem readFailure_foldl_step (r : Run) (steps : List EncoderStep) :
    (steps.foldl step r).control.readFailure ≠ none ↔
      r.control.readFailure ≠ none ∨ r.OutputFails steps := by
  induction steps generalizing r with
  | nil => exact ⟨.inl, fun h => h.resolve_right (not_outputFails_nil r)⟩
  | cons e rest ih =>
    rw [List.foldl_cons, ih, (r.agree_step e).readFailure, Control.readFailure_step,
      outputFails_cons, or_assoc]

/-- **Error pipe failures.** Reading the error pipe has failed exactly if it failed in a step. -/
theorem streamError_foldl_step (r : Run) (steps : List EncoderStep) :
    (steps.foldl step r).control.streamError ≠ none ↔
      r.control.streamError ≠ none ∨ ∃ e ∈ steps, e.FailsOnErrors r.control.refused := by
  induction steps generalizing r with
  | nil => simp
  | cons e rest ih =>
    have hrefused : (r.step e).control.refused = r.control.refused :=
      (r.agree_step e).refused.trans (r.control.refused_step e)
    rw [List.foldl_cons, ih, (r.agree_step e).streamError, Control.streamError_step, or_assoc,
      hrefused]
    simp only [List.mem_cons, exists_eq_or_imp]

theorem readFailure_foldl_step_eq_none_iff {r : Run} (h : r.control.readFailure = none)
    (steps : List EncoderStep) :
    (steps.foldl step r).control.readFailure = none ↔ ¬ r.OutputFails steps := by
  have hiff := readFailure_foldl_step r steps
  constructor
  · exact fun hnone hf => hiff.mpr (.inr hf) hnone
  · intro hf
    refine Classical.byContradiction fun hne => hf ?_
    exact (hiff.mp hne).resolve_left fun hsome => hsome h

theorem streamError_foldl_step_eq_none_iff {r : Run} (h : r.control.streamError = none)
    (steps : List EncoderStep) :
    (steps.foldl step r).control.streamError = none ↔
      ∀ e ∈ steps, ¬ e.FailsOnErrors r.control.refused := by
  have hiff := streamError_foldl_step r steps
  constructor
  · exact fun hnone e he hf => hiff.mpr (.inr ⟨e, he, hf⟩) hnone
  · intro hall
    refine Classical.byContradiction fun hne => ?_
    obtain ⟨e, he, hf⟩ := (hiff.mp hne).resolve_left fun hsome => hsome h
    exact hall e he hf

end Run

/-! ## The exit -/

namespace EncoderProcess

theorem exitCode_wait (p : EncoderProcess) (code : Int) : (p.wait code).exitCode ≠ none := by
  unfold wait
  split
  · rename_i h
    rw [h]
    exact Option.some_ne_none _
  · split <;> exact Option.some_ne_none _

theorem terminate_of_exited {p : EncoderProcess} (h : p.exitCode ≠ none) : p.terminate = p := by
  unfold terminate
  split
  · rfl
  · rename_i hnone
    exact absurd hnone h

end EncoderProcess

/-- Cancelling leaves an encoder alone that has exited. -/
theorem Control.process_cancel_of_exited {c : Control} (h : c.process.exitCode ≠ none) :
    c.cancel.process = c.process := by
  rw [cancel_eq]
  show c.token.callbacks.foldl (fun p _ => p.terminate) c.process = c.process
  induction c.token.callbacks with
  | nil => rfl
  | cons action actions ih => rw [List.foldl_cons, EncoderProcess.terminate_of_exited h, ih]

/-- A run comes to a good end if nothing failed to be read and the encoder says so. -/
theorem Control.failure?_eq_none_iff {c : Control} :
    c.failure? = none ↔
      c.readFailure = none ∧ c.streamError = none ∧ c.process.exitCode = some 0 := by
  unfold failure?
  cases c.readFailure with
  | some reason => simp
  | none =>
    dsimp only
    split
    · rename_i h
      exact ⟨fun _ => ⟨rfl, h.2, h.1⟩, fun _ => rfl⟩
    · rename_i h
      refine ⟨fun hnone => ?_, fun hgood => absurd ⟨hgood.2.2, hgood.2.1⟩ h⟩
      split at hnone
      · exact absurd hnone (Option.some_ne_none _)
      · split at hnone <;> exact absurd hnone (Option.some_ne_none _)

end StillVideo
