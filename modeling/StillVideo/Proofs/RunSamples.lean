import StillVideo.Proofs.RunSteps

/-!
# The samples of a run

A run publishes the samples of the lines that count, which are the lines of output that are handed
over while the output is read and before the run is cancelled (`Run.countedLines`,
`Run.published_foldl_step`). A consumer receives all of them or those up to the one on which it
fails (`Run.Served`).
-/

namespace StillVideo

/-! ## Lines and samples -/

namespace Accumulator

/-- Takes in a line of output, which need not be progress. -/
def readLine (a : Accumulator) (line : String) : Accumulator × Option Sample :=
  match EncoderLine.read .output line with
  | .progress key value => a.feed key value
  | _ => (a, none)

/-- The samples that lines of output complete, in order. -/
def samples (a : Accumulator) : List String → List Sample
  | [] => []
  | line :: lines => (a.readLine line).2.toList ++ (a.readLine line).1.samples lines

end Accumulator

namespace Run

/-- The lines of output that count: those before the first failure of the output that are handed
over while the run is not cancelled. The output also fails behind a line that cannot be shown. -/
def countedLines (r : Run) : List EncoderStep → List String
  | [] => []
  | e :: rest =>
    if r.control.token.cancelled || !r.control.reading then []
    else
      match e.pipe, e.delivery with
      | .output, .failure _ => []
      | .output, .line text => if e.cancels then [] else text :: (r.step e).countedLines rest
      | .errors, _ => (r.step e).countedLines rest

end Run

namespace Control

/-- Output does not count any more: the run is cancelled or output is not read. -/
def Stopped (c : Control) : Prop := c.token.cancelled = true ∨ c.reading = false

theorem Agree.stopped {c c' : Control} (h : c.Agree c')
    (htoken : c.token.cancelled = true → c'.token.cancelled = true) (hs : c.Stopped) :
    c'.Stopped := hs.imp htoken fun hr => h.reading.trans hr

/-- Noting a line has nothing to do with progress. -/
theorem progress_note (c : Control) (pipe : Pipe) (text : String) :
    (c.note pipe text).1.accumulator = c.accumulator ∧
      (c.note pipe text).1.published = c.published ∧ (c.note pipe text).2.samples = [] := by
  cases h : c.refused text with
  | none => rw [note_of_shown h]; exact ⟨rfl, rfl, rfl⟩
  | some f => rw [note_of_refused h]; cases pipe <;> exact ⟨rfl, rfl, rfl⟩

theorem published_feed (c : Control) (key value : String) :
    (c.feed key value).1.published = c.published ++ (c.feed key value).2.samples := by
  unfold feed
  split
  · exact (List.append_nil _).symm
  · rfl

theorem published_deliver (c : Control) (pipe : Pipe) (d : Delivery) :
    (c.deliver pipe d).1.published = c.published ++ (c.deliver pipe d).2.samples := by
  have hnote : ∀ text, (c.note pipe text).1.published =
      c.published ++ (c.note pipe text).2.samples := by
    intro text
    obtain ⟨-, hpublished, hsamples⟩ := c.progress_note pipe text
    rw [hpublished, hsamples, List.append_nil]
  cases d with
  | failure reason => cases pipe <;> exact (List.append_nil _).symm
  | line text =>
    cases pipe with
    | output =>
      show (c.readOutput text).1.published = _ ++ (c.readOutput text).2.samples
      cases h : c.token.cancelled with
      | true =>
        unfold readOutput
        rw [if_pos h]
        exact (List.append_nil _).symm
      | false =>
        rcases readOutput_eq h text with ⟨key, value, -, -, heq⟩ | ⟨-, heq⟩ <;> rw [heq]
        · exact c.published_feed key value
        · cases EncoderLine.noted? .output text with
          | none => exact (List.append_nil _).symm
          | some noted => exact hnote noted
    | errors =>
      show (c.readErrors text).1.published = _ ++ (c.readErrors text).2.samples
      rw [readErrors_eq]
      cases EncoderLine.noted? .errors text with
      | none => exact (List.append_nil _).symm
      | some noted => exact hnote noted

/-- What a step publishes is what it tells of. -/
theorem published_step (c : Control) (e : EncoderStep) :
    (c.step e).1.published = c.published ++ (c.step e).2.samples := by
  unfold step
  split
  · rw [published_deliver, (c.agree_advance e).published]
  · exact (List.append_nil _).symm

/-- The error pipe has nothing to do with progress. -/
theorem step_errors (c : Control) {e : EncoderStep} (h : e.pipe = .errors) :
    (c.step e).1.reading = c.reading ∧ (c.step e).1.accumulator = c.accumulator ∧
      (c.step e).2.samples = [] := by
  have ha := c.agree_advance e
  unfold step
  split
  · rw [h]
    cases e.delivery with
    | line text =>
      show ((c.advance e).readErrors text).1.reading = _ ∧
        ((c.advance e).readErrors text).1.accumulator = _ ∧
        ((c.advance e).readErrors text).2.samples = []
      rw [readErrors_eq]
      cases EncoderLine.noted? .errors text with
      | none => exact ⟨ha.reading, ha.accumulator, rfl⟩
      | some noted =>
        obtain ⟨haccumulator, -, hsamples⟩ := (c.advance e).progress_note .errors noted
        refine ⟨?_, haccumulator.trans ha.accumulator, hsamples⟩
        dsimp only
        cases h : (c.advance e).refused noted with
        | none => rw [note_of_shown h]; exact ha.reading
        | some f => rw [note_of_refused h]; exact ha.reading
    | failure reason => exact ⟨ha.reading, ha.accumulator, rfl⟩
  · exact ⟨rfl, rfl, rfl⟩

/-- A failure of the output ends reading it. -/
theorem step_outputFailure (c : Control) {e : EncoderStep} {reason : String}
    (h : e.pipe = .output) (hd : e.delivery = .failure reason) :
    (c.step e).1.reading = false ∧ (c.step e).2.samples = [] := by
  unfold step
  rw [h, hd]
  split
  · exact ⟨rfl, rfl⟩
  · rename_i hr
    exact ⟨Bool.eq_false_iff.mpr hr, rfl⟩

/-- A line of output that comes too late ends reading. -/
theorem step_lateLine (c : Control) {e : EncoderStep} {text : String}
    (h : e.pipe = .output) (hd : e.delivery = .line text)
    (hc : c.token.cancelled = true ∨ e.cancels = true) :
    (c.step e).1.reading = false ∧ (c.step e).2 = .nothing := by
  have hcancelled : (c.advance e).token.cancelled = true := by
    rw [cancelled_advance, Bool.or_eq_true]
    exact hc
  unfold step
  rw [h, hd]
  split
  · show ((c.advance e).readOutput text).1.reading = false ∧ ((c.advance e).readOutput text).2 = _
    unfold readOutput
    rw [if_pos hcancelled]
    exact ⟨rfl, rfl⟩
  · rename_i hr
    exact ⟨Bool.eq_false_iff.mpr hr, rfl⟩

/-- A line of output in time goes to the accumulator. -/
theorem step_line {c : Control} {e : EncoderStep} {text : String} (hr : c.reading = true)
    (h : e.pipe = .output) (hd : e.delivery = .line text) (hc : c.token.cancelled = false)
    (he : e.cancels = false) :
    (c.step e).1.accumulator = (c.accumulator.readLine text).1 ∧
      (c.step e).2.samples = (c.accumulator.readLine text).2.toList := by
  have hadvance : c.advance e = c := by
    unfold advance
    rw [he]
    rfl
  unfold step
  rw [h, hd, hadvance, if_pos (show c.isRead .output = true from hr)]
  show (c.readOutput text).1.accumulator = _ ∧ (c.readOutput text).2.samples = _
  unfold Accumulator.readLine
  rcases readOutput_eq hc text with ⟨key, value, hread, -, heq⟩ | ⟨hread, heq⟩ <;> rw [heq]
  · rw [hread]
    unfold feed
    dsimp only
    generalize c.accumulator.feed key value = p
    obtain ⟨a, _ | s⟩ := p <;> exact ⟨rfl, rfl⟩
  · have hplain : (match EncoderLine.read .output text with
        | .progress key value => c.accumulator.feed key value
        | _ => (c.accumulator, none)) = (c.accumulator, none) := by
      split
      · rename_i key value hprogress
        exact absurd hprogress (hread key value)
      · rfl
    rw [hplain]
    cases EncoderLine.noted? .output text with
    | none => exact ⟨rfl, rfl⟩
    | some noted =>
      obtain ⟨haccumulator, -, hsamples⟩ := c.progress_note .output noted
      exact ⟨haccumulator, hsamples⟩

theorem cancelled_step {c : Control} (h : c.token.cancelled = true) (e : EncoderStep) :
    (c.step e).1.token.cancelled = true := by
  unfold step
  split
  · rw [(kept_deliver _ _ _).1, cancelled_advance, h, Bool.true_or]
  · exact h

/-- Output that does not count publishes nothing, and never counts again. -/
theorem step_stopped {c : Control} (h : c.Stopped) (e : EncoderStep) :
    (c.step e).1.Stopped ∧ (c.step e).2.samples = [] := by
  cases hp : e.pipe with
  | errors =>
    obtain ⟨hr, -, hs⟩ := c.step_errors hp
    refine ⟨?_, hs⟩
    exact h.imp (cancelled_step · e) fun h => hr.trans h
  | output =>
    cases hd : e.delivery with
    | failure reason =>
      obtain ⟨hr, hs⟩ := c.step_outputFailure hp hd
      exact ⟨.inr hr, hs⟩
    | line text =>
      rcases h with hc | hr
      · obtain ⟨hr, hs⟩ := c.step_lateLine hp hd (.inl hc)
        exact ⟨.inr hr, by rw [hs]; rfl⟩
      · have hstep : c.step e = (c, .nothing) := by
          unfold step
          rw [hp, if_neg (by rw [show c.isRead .output = false from hr]; exact Bool.false_ne_true)]
        rw [hstep]
        exact ⟨.inr hr, rfl⟩

end Control

namespace Run

variable {r : Run}

theorem published_step (r : Run) (e : EncoderStep) :
    (r.step e).control.published = r.control.published ++ (r.control.step e).2.samples := by
  rw [(r.agree_step e).published, Control.published_step]

theorem cancelled_of_cancelled_step {e : EncoderStep}
    (h : (r.control.step e).1.token.cancelled = true) :
    (r.step e).control.token.cancelled = true := by
  rcases r.control_step e with hstep | hstep
  · rw [hstep]
    exact h
  · rw [hstep]
    exact Control.cancelled_cancel _

theorem stopped_step (h : r.control.Stopped) (e : EncoderStep) : (r.step e).control.Stopped :=
  (r.agree_step e).stopped cancelled_of_cancelled_step (Control.step_stopped h e).1

theorem published_foldl_of_stopped (steps : List EncoderStep) (h : r.control.Stopped) :
    (steps.foldl step r).control.published = r.control.published := by
  induction steps generalizing r with
  | nil => rfl
  | cons e rest ih =>
    rw [List.foldl_cons, ih (stopped_step h e), published_step, (Control.step_stopped h e).2,
      List.append_nil]

/-- **Published samples.** A run publishes the samples of the lines that count, in order. -/
theorem published_foldl_step (steps : List EncoderStep) (r : Run) :
    (steps.foldl step r).control.published =
      r.control.published ++ r.control.accumulator.samples (r.countedLines steps) := by
  -- the fields that the induction needs after a step, in terms of the step of the control
  have after : ∀ (r : Run) (e : EncoderStep) (a : Accumulator) (ss : List Sample),
      (r.control.step e).1.accumulator = a → (r.control.step e).2.samples = ss →
      (r.step e).control.accumulator = a ∧
        (r.step e).control.published = r.control.published ++ ss := by
    intro r e a ss ha hs
    exact ⟨(r.agree_step e).accumulator.trans ha, hs ▸ r.published_step e⟩
  induction steps generalizing r with
  | nil => exact (List.append_nil _).symm
  | cons e rest ih =>
    rw [List.foldl_cons, countedLines]
    cases hstops : r.control.token.cancelled || !r.control.reading with
    | true =>
      have hstopped : r.control.Stopped := by
        rwa [Bool.or_eq_true, Bool.not_eq_true'] at hstops
      rw [published_foldl_of_stopped rest (stopped_step hstopped e), published_step,
        (Control.step_stopped hstopped e).2]
      rfl
    | false =>
      obtain ⟨hc, hreading⟩ := Bool.or_eq_false_iff.mp hstops
      rw [Bool.not_eq_false'] at hreading
      rw [if_neg Bool.false_ne_true]
      cases hp : e.pipe with
      | errors =>
        obtain ⟨-, ha, hs⟩ := r.control.step_errors hp
        obtain ⟨ha, hpub⟩ := after r e _ _ ha hs
        rw [ih, ha, hpub, List.append_nil]
      | output =>
        cases hd : e.delivery with
        | failure reason =>
          obtain ⟨hr, hs⟩ := r.control.step_outputFailure hp hd
          rw [published_foldl_of_stopped rest (.inr ((r.agree_step e).reading.trans hr)),
            published_step, hs]
          rfl
        | line text =>
          cases he : e.cancels with
          | true =>
            obtain ⟨hr, hs⟩ := r.control.step_lateLine hp hd (.inr he)
            rw [published_foldl_of_stopped rest (.inr ((r.agree_step e).reading.trans hr)),
              published_step, hs]
            rfl
          | false =>
            obtain ⟨ha, hs⟩ := Control.step_line hreading hp hd hc he
            obtain ⟨ha, hpub⟩ := after r e _ _ ha hs
            rw [ih, ha, hpub, List.append_assoc]
            rfl

/-- A line of output that comes when the run is cancelled reaches nobody, and nothing is published
any more. -/
theorem step_lateLine {e : EncoderStep} {text : String} (hp : e.pipe = .output)
    (hd : e.delivery = .line text) (hc : r.control.token.cancelled = true ∨ e.cancels = true)
    (rest : List EncoderStep) :
    (r.step e).observers = r.observers ∧ (r.step e).channel = r.channel ∧
      (rest.foldl step (r.step e)).control.published = r.control.published := by
  obtain ⟨hr, hreport⟩ := r.control.step_lateLine hp hd hc
  refine ⟨?_, ?_, ?_⟩
  · cases hread : r.control.isRead e.pipe with
    | false => rw [step_of_unread hread]
    | true =>
      rw [step_of_read hread, hreport]
      exact observers_advance r e
  · cases hread : r.control.isRead e.pipe with
    | false => rw [step_of_unread hread]
    | true =>
      rw [step_of_read hread, hreport]
      exact channel_advance r e
  · rw [published_foldl_of_stopped rest (.inr ((r.agree_step e).reading.trans hr)),
      published_step, hreport]
    exact List.append_nil _

end Run

end StillVideo
