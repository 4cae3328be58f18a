import StillVideo.CommandLine.Encode
import StillVideo.Proofs.RecordedEvents
import StillVideo.Proofs.ShellReading

/-!
# Commands that are shown

A session is shown as one line: to whoever is told of its run, and as the output of a dry run
instead of the run. `Session.shown_reads_back`: read by the shell, this line gives the arguments
that the encoder is started with.
-/

namespace StillVideo

/-- The command whose start an event reports. -/
def Event.startedCommand? : Event → Option String
  | .commandStarted command => some command
  | _ => none

/-- The text that an event prints. -/
def Event.printed? : Event → Option String
  | .printed text => some text
  | _ => none

/-- A command of values reads back to their texts. -/
theorem shellWords?_commandOf (args : List Document) :
    shellWords? (commandOf args) = some (args.map Document.display) :=
  shellWords?_commandText _

/-! ## What is noted down -/

theorem Event.startedCommand?_of_other {ev : Event} (h : ev.isCommand = false) :
    ev.startedCommand? = none := by
  cases ev <;> first | rfl | exact absurd h (by simp [isCommand])

/-- A run that is not held back reports one start, that of the command of its session. -/
theorem Supervisor.run_startedCommand (s : Session) (o : Observers) {m : Machine}
    (h : heldBack s m = false) :
    Machine.Gained Event.startedCommand? m ((ofSession s).run o m).2 [s.command] := by
  obtain ⟨hlive, hannounced⟩ := heldBack_eq_false_iff.mp h
  obtain ⟨events, seconds, hrecord, hcommands⟩ := (run_lifecycle s o m).announced hlive hannounced
  have hfiltered : (events.filter Event.isCommand).filterMap Event.startedCommand? =
      events.filterMap Event.startedCommand? := by
    rw [List.filterMap_filter]
    refine List.filterMap_congr fun ev _ => ?_
    split
    · rfl
    · rename_i hother
      exact (Event.startedCommand?_of_other (Bool.eq_false_iff.mpr hother)).symm
  refine ⟨events.reverse, hrecord, ?_⟩
  rw [List.filterMap_reverse, ← hfiltered, hcommands]
  rfl

theorem Machine.withLine_printed {m : Machine} (h : m.quiet = false) (line : String) :
    m.Gained Event.printed? (m.withLine line) [line ++ "\n"] := by
  unfold withLine
  rw [if_neg (by rw [h]; exact Bool.false_ne_true)]
  exact ⟨[.printed (line ++ "\n")], rfl, rfl⟩

theorem Machine.unprinted?_of_taken {m : Machine} {line : String}
    (h : m.refuses (.printed (line ++ "\n")) = none) : m.unprinted? line = none := by
  unfold unprinted?
  split
  · rfl
  · exact h

theorem Machine.quiet_withLine (m : Machine) (line : String) :
    (m.withLine line).quiet = m.quiet := by
  unfold withLine
  split <;> rfl

theorem Production.tidied_printed (w : Production) :
    w.machine.Gained Event.printed? w.tidied.machine [] := by
  unfold tidied
  split
  · exact Machine.gained_nothing_of_note rfl rfl
  · exact .refl _

namespace ProjectJob

/-- A dry run of a project that validates prints that it does and the command of its session. -/
theorem run_printed {w w' : Production} {s : Session} (h : validate w = (.ok s, w'))
    (hdry : w'.project.dryRun = true) (hloud : w'.machine.quiet = false)
    (hremark : w'.machine.refuses (.printed (dryRunLine ++ "\n")) = none)
    (hcommand : w'.machine.refuses (.printed (s.command ++ "\n")) = none) :
    (run w).1 = .ok none ∧ w'.machine.Gained Event.printed? (run w).2.machine
      [s.command ++ "\n", dryRunLine ++ "\n"] := by
  have hfirst := Machine.withLine_printed hloud dryRunLine
  have hsecond := Machine.withLine_printed
    ((Machine.quiet_withLine w'.machine dryRunLine).trans hloud) s.command
  rw [run_of_dry h hdry, Machine.unprinted?_of_taken hremark, Machine.unprinted?_of_taken hcommand]
  exact ⟨rfl, (hfirst.trans hsecond).then_nothing (Production.tidied_printed _)⟩

end ProjectJob

namespace EncodeCommand

/-- A dry run of audio files prints the command of the session that is planned for them. -/
theorem runFlat_printed {e : EncodeSettings} {job : FlatJob} {m m' : Machine} {s : Session}
    (hjob : flatJob e = .ok job) (hplan : job.plan .null m = (.ok s, m'))
    (hdump : e.dumpPlan = false) (hdry : e.dryRun = true)
    (hcommand : m'.refuses (.printed (s.command ++ "\n")) = none) :
    (runFlat e m).1 = .ok (.ok .nothing, []) ∧
      m'.Gained Event.printed? (runFlat e m).2 [s.command ++ "\n"] := by
  have hrun : runFlat e m =
      (.ok (.ok .nothing, []), m'.note (.printed (s.command ++ "\n"))) := by
    unfold runFlat
    rw [hjob, hdump, hdry]
    show ((do Job.print (← job.plan .null).command; return (.ok .nothing, []) :
      Job (Except Fault Product × List Sample)) m) = _
    have hprint := Job.act_eq (.printed (s.command ++ "\n")) m'
    rw [hcommand] at hprint
    rw [Job.bind_of_ok hplan]
    exact Job.bind_of_ok hprint
  rw [hrun]
  exact ⟨rfl, ⟨[.printed (s.command ++ "\n")], rfl, rfl⟩⟩

end EncodeCommand

/-- A line that shows a session. The shell reads it as the arguments of the session, the run of the
session reports the start of exactly this command unless it is held back, a dry run of a project
prints it behind a remark, and a dry run of audio files prints it alone, if the system takes what is
printed. -/
structure Session.ShownAs (s : Session) (line : String) : Prop where
  words : shellWords? line = some (s.args.map Document.display)
  started : ∀ (o : Observers) (m : Machine), Supervisor.heldBack s m = false →
    m.Gained Event.startedCommand? ((Supervisor.ofSession s).run o m).2 [line]
  project : ∀ (w w' : Production), ProjectJob.validate w = (.ok s, w') →
    w'.project.dryRun = true → w'.machine.quiet = false →
    w'.machine.refuses (.printed ("dry run: validation complete" ++ "\n")) = none →
    w'.machine.refuses (.printed (line ++ "\n")) = none →
    (ProjectJob.run w).1 = .ok none ∧ w'.machine.Gained Event.printed?
      (ProjectJob.run w).2.machine [line ++ "\n", "dry run: validation complete" ++ "\n"]
  files : ∀ (e : EncodeSettings) (job : FlatJob) (m m' : Machine),
    EncodeCommand.flatJob e = .ok job → job.plan .null m = (.ok s, m') →
    e.dumpPlan = false → e.dryRun = true → m'.refuses (.printed (line ++ "\n")) = none →
    (EncodeCommand.runFlat e m).1 = .ok (.ok .nothing, []) ∧
      m'.Gained Event.printed? (EncodeCommand.runFlat e m).2 [line ++ "\n"]

/-- **Commands that are shown.** Every command line reads back to the words that it was made of, and
every session is shown by one line, which reads back to its arguments. -/
theorem Session.shown_reads_back :
    (∀ args : List String, shellWords? (commandText args) = some args) ∧
    ∀ s : Session, ∃ line, s.ShownAs line := by
  refine ⟨shellWords?_commandText, fun s => ⟨s.command, ?_⟩⟩
  exact {
    words := shellWords?_commandOf s.args
    started := fun o m h => Supervisor.run_startedCommand s o h
    project := fun w w' h hdry hloud hremark hcommand =>
      ProjectJob.run_printed h hdry hloud hremark hcommand
    files := fun e job m m' hjob hplan hdump hdry hcommand =>
      EncodeCommand.runFlat_printed hjob hplan hdump hdry hcommand }

end StillVideo
