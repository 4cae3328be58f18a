import StillVideo.Supervision

/-!
# Steps of supervised runs

What a step does to the control of a run is `Control.step`; observers can only cancel the run
(`Run.control_step`), and cancelling changes the token and the encoder alone
(`Control.agree_cancel`).
-/

namespace StillVideo

namespace Control

/-! ## Cancelling -/

/-- Actions that all stop the encoder change nothing else. -/
theorem foldl_terminate {f : Control → StopAction → Control}
    (hf : ∀ c action, f c action = c.terminate) (actions : List StopAction) (c : Control) :
    actions.foldl f c =
      { c with process := actions.foldl (fun p _ => p.terminate) c.process } := by
  induction actions generalizing c with
  | nil => rfl
  | cons action actions ih =>
    rw [List.foldl_cons, ih, hf]
    rfl

theorem cancel_eq (c : Control) : c.cancel = { c with
    token := c.token.request.1
    process := c.token.callbacks.foldl (fun p _ => p.terminate) c.process } :=
  foldl_terminate (fun _ _ => rfl) _ _

/-- Two states of control that differ at most in the token and the encoder. -/
structure Agree (c c' : Control) : Prop where
  reading : c'.reading = c.reading
  readFailure : c'.readFailure = c.readFailure
  streamError : c'.streamError = c.streamError
  accumulator : c'.accumulator = c.accumulator
  published : c'.published = c.published
  refused : c'.refused = c.refused

theorem Agree.refl (c : Control) : c.Agree c := ⟨rfl, rfl, rfl, rfl, rfl, rfl⟩

theorem agree_cancel (c : Control) : c.Agree c.cancel := by
  rw [cancel_eq]
  exact ⟨rfl, rfl, rfl, rfl, rfl, rfl⟩

theorem cancelled_cancel (c : Control) : c.cancel.token.cancelled = true := by
  rw [cancel_eq]
  rfl

section

variable (token : CancelToken StopAction) (total : Binary64) (stubborn : Bool)
  (refused : String → Option HostFault)

/-- A run begins with nothing read. -/
theorem start_eq :
    (start token total stubborn refused).reading = true ∧
      (start token total stubborn refused).readFailure = none ∧
      (start token total stubborn refused).streamError = none ∧
      (start token total stubborn refused).accumulator = .start total ∧
      (start token total stubborn refused).published = [] := by
  unfold start
  dsimp only
  split <;> exact ⟨rfl, rfl, rfl, rfl, rfl⟩

theorem refused_start : (start token total stubborn refused).refused = refused := by
  unfold start
  dsimp only
  split <;> rfl

theorem cancelled_start :
    (start token total stubborn refused).token.cancelled = token.cancelled := by
  unfold start CancelToken.register
  cases h : token.cancelled with
  | true => exact h
  | false => rfl

end

/-! ## Lines that are noted -/

end Control

/-- The text that is recorded of a line, unless it is blank or a field of progress. -/
def EncoderLine.noted? (pipe : Pipe) (line : String) : Option String :=
  match EncoderLine.read pipe line with
  | .progress .. => none
  | .diagnostic text => some text
  | .unrecognized text => if isBlankText text.toList then none else some text

namespace Control

theorem note_of_shown {c : Control} {line : String} (h : c.refused line = none) (pipe : Pipe) :
    c.note pipe line = (c, .line pipe line) := by
  unfold note
  rw [h]

theorem note_of_refused {c : Control} {line : String} {f : HostFault}
    (h : c.refused line = some f) (pipe : Pipe) :
    c.note pipe line = (c.breakOff pipe f.reason, .line pipe line) := by
  unfold note
  rw [h]

/-- A line of the error pipe is noted, or counts for nothing. -/
theorem readErrors_eq (c : Control) (line : String) :
    c.readErrors line = match EncoderLine.noted? .errors line with
      | some text => c.note .errors text
      | none => (c, .nothing) := by
  unfold readErrors EncoderLine.noted? EncoderLine.read
  dsimp only
  cases h : EncoderLine.isBlankText (trimRight EncoderLine.isLineEnd line.toList) with
  | true => simp [h]
  | false => rfl

/-- A line of output in time is a field of progress, is noted, or counts for nothing. -/
theorem readOutput_eq {c : Control} (h : c.token.cancelled = false) (line : String) :
    (∃ key value, EncoderLine.read .output line = .progress key value ∧
      EncoderLine.noted? .output line = none ∧ c.readOutput line = c.feed key value) ∨
    (∀ key value, EncoderLine.read .output line ≠ .progress key value) ∧
      c.readOutput line = match EncoderLine.noted? .output line with
        | some text => c.note .output text
        | none => (c, .nothing) := by
  have hnot : ¬ c.token.cancelled = true := by rw [h]; exact Bool.false_ne_true
  unfold readOutput EncoderLine.noted?
  rw [if_neg hnot]
  cases hread : EncoderLine.read .output line with
  | progress key value => exact .inl ⟨key, value, rfl, rfl, rfl⟩
  | diagnostic text =>
    -- no line of output is read as a diagnostic
    unfold EncoderLine.read at hread
    dsimp only at hread
    split at hread
    · exact absurd hread (by simp)
    · split at hread <;> exact absurd hread (by simp)
  | unrecognized text =>
    refine .inr ⟨fun _ _ => by simp, ?_⟩
    dsimp only
    split <;> rfl

/-- What is delivered changes neither the token nor which lines cannot be shown. -/
theorem kept_deliver (c : Control) (pipe : Pipe) (d : Delivery) :
    (c.deliver pipe d).1.token = c.token ∧ (c.deliver pipe d).1.refused = c.refused := by
  have hnote : ∀ text, (c.note pipe text).1.token = c.token ∧
      (c.note pipe text).1.refused = c.refused := by
    intro text
    cases h : c.refused text with
    | none => rw [note_of_shown h]; exact ⟨rfl, rfl⟩
    | some f => rw [note_of_refused h]; cases pipe <;> exact ⟨rfl, rfl⟩
  have hfeed : ∀ key value, (c.feed key value).1.token = c.token ∧
      (c.feed key value).1.refused = c.refused := by
    intro key value
    unfold feed
    split <;> exact ⟨rfl, rfl⟩
  cases d with
  | failure reason => cases pipe <;> exact ⟨rfl, rfl⟩
  | line text =>
    cases pipe with
    | errors =>
      show (c.readErrors text).1.token = _ ∧ (c.readErrors text).1.refused = _
      rw [readErrors_eq]
      cases EncoderLine.noted? .errors text with
      | none => exact ⟨rfl, rfl⟩
      | some noted => exact hnote noted
    | output =>
      show (c.readOutput text).1.token = _ ∧ (c.readOutput text).1.refused = _
      cases h : c.token.cancelled with
      | true =>
        unfold readOutput
        rw [if_pos h]
        exact ⟨rfl, rfl⟩
      | false =>
        rcases readOutput_eq h text with ⟨key, value, -, -, heq⟩ | ⟨-, heq⟩ <;> rw [heq]
        · exact hfeed key value
        · cases EncoderLine.noted? .output text with
          | none => exact ⟨rfl, rfl⟩
          | some noted => exact hnote noted

/-! ## Steps -/

/-- The control just before a step delivers: the run may be cancelled. -/
def advance (c : Control) (e : EncoderStep) : Control := if e.cancels then c.cancel else c

/-- The control of a step and what observers get to know of it. -/
def step (c : Control) (e : EncoderStep) : Control × Report :=
  if c.isRead e.pipe then (c.advance e).deliver e.pipe e.delivery else (c, .nothing)

theorem agree_advance (c : Control) (e : EncoderStep) : c.Agree (c.advance e) := by
  unfold advance
  split
  · exact c.agree_cancel
  · exact .refl c

theorem refused_step (c : Control) (e : EncoderStep) : (c.step e).1.refused = c.refused := by
  unfold step
  split
  · exact (kept_deliver _ _ _).2.trans (c.agree_advance e).refused
  · rfl

theorem cancelled_advance (c : Control) (e : EncoderStep) :
    (c.advance e).token.cancelled = (c.token.cancelled || e.cancels) := by
  unfold advance
  split
  · rename_i h
    rw [cancelled_cancel, h, Bool.or_true]
  · rename_i h
    rw [Bool.not_eq_true] at h
    rw [h, Bool.or_false]

end Control

/-- The samples that a report tells of. -/
def Report.samples : Report → List Sample
  | .sample s => [s]
  | _ => []

namespace Run

/-! ## Reports -/

/-- A run just before a step delivers: time has passed, and it may be cancelled. -/
def advance (r : Run) (e : EncoderStep) : Run :=
  let r := { r with clock := r.clock + e.seconds }
  if e.cancels then r.cancel else r

theorem step_of_unread {r : Run} {e : EncoderStep} (h : r.control.isRead e.pipe = false) :
    r.step e = r := by
  unfold step
  rw [if_neg (by rw [h]; exact Bool.false_ne_true)]

theorem control_advance (r : Run) (e : EncoderStep) :
    (r.advance e).control = r.control.advance e := by
  unfold advance Control.advance
  split <;> rfl

theorem observers_advance (r : Run) (e : EncoderStep) : (r.advance e).observers = r.observers := by
  unfold advance
  split <;> rfl

theorem channel_advance (r : Run) (e : EncoderStep) : (r.advance e).channel = r.channel := by
  unfold advance
  split <;> rfl

/-- A step changes the control first and tells the observers then. -/
theorem step_of_read {r : Run} {e : EncoderStep} (h : r.control.isRead e.pipe = true) :
    r.step e = { r.advance e with control := (r.control.step e).1 }.report
      (r.control.step e).2 := by
  unfold step Control.step
  rw [if_pos h, if_pos h, ← control_advance]
  rfl

theorem control_record (r : Run) (pipe : Pipe) (line : String) :
    (r.record pipe line).control = r.control := by
  unfold record
  split <;> rfl

/-- Recording a line has nothing to do with the consumer. -/
theorem consumer_record (r : Run) (pipe : Pipe) (line : String) :
    (r.record pipe line).channel = r.channel ∧
      (r.record pipe line).observers.consumer = r.observers.consumer ∧
      (r.record pipe line).observers.received = r.observers.received := by
  unfold record
  split <;> exact ⟨rfl, rfl, rfl⟩

/-- A consumer leaves the control as it is or cancels the run. -/
theorem control_consume (r : Run) (s : Sample) :
    (r.consume s).control = r.control ∨ (r.consume s).control = r.control.cancel := by
  unfold consume
  dsimp only
  split
  · split
    · exact .inr rfl
    · exact .inl rfl
  · rw [control_record]
    split
    · exact .inr rfl
    · exact .inl rfl

theorem control_report (r : Run) (report : Report) :
    (r.report report).control = r.control ∨ (r.report report).control = r.control.cancel := by
  cases report with
  | nothing => exact .inl rfl
  | sample s =>
    show (r.publish s).control = _ ∨ (r.publish s).control = _
    unfold publish
    dsimp only
    split
    · exact control_consume _ _
    · exact .inl rfl
  | line pipe text => exact .inl (r.control_record pipe text)

/-- **Observers can only cancel.** The control of a step is that of the run, cancelled perhaps. -/
theorem control_step (r : Run) (e : EncoderStep) :
    (r.step e).control = (r.control.step e).1 ∨
      (r.step e).control = (r.control.step e).1.cancel := by
  cases h : r.control.isRead e.pipe with
  | false =>
    have hstep : r.control.step e = (r.control, .nothing) := by
      unfold Control.step
      rw [if_neg (by rw [h]; exact Bool.false_ne_true)]
    rw [step_of_unread h, hstep]
    exact .inl rfl
  | true =>
    rw [step_of_read h]
    exact control_report _ _

/-- Apart from the token and the encoder, what observers do makes no difference. -/
theorem agree_step (r : Run) (e : EncoderStep) :
    (r.control.step e).1.Agree (r.step e).control := by
  rcases r.control_step e with h | h
  · rw [h]
    exact .refl _
  · rw [h]
    exact Control.agree_cancel _

end Run

end StillVideo
