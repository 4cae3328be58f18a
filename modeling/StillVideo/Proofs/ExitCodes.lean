import StillVideo.CommandLine.Encode
import StillVideo.Proofs.ArgumentSettings
import StillVideo.Proofs.FlatJobFaults

/-!
# Exit codes of the encoding command

The exit code tells how the work has ended: 130 for a cancelled run, 1 for any other fault that the
program explains, 0 if there is none. A fault that it does not explain escapes, and then a value is
to blame that has no result where it is read or used, or the machine withholds something
(`EncodeCommand.Culprit`).
-/

namespace StillVideo

/-- The families of faults that the command catches. -/
def Fault.IsCaught (f : Fault) : Prop :=
  f.kind = .refusal ∨ f.kind = .encode ∨ f.kind = .recursion

/-- The fault reports an encoder run that was cancelled. -/
def Fault.IsCancellation (f : Fault) : Prop :=
  ∃ e, f = .encode e ∧ e.cancelled.isGiven = true

namespace EncodeCommand

/-! ## The end of a command -/

theorem isCaught_of_cancellation {f : Fault} (h : f.IsCancellation) : f.IsCaught := by
  obtain ⟨e, rfl, -⟩ := h
  exact .inr (.inl rfl)

/-- The codes of the faults that are caught. -/
theorem faultCode_eq_some_iff {f : Fault} {code : Int} : faultCode f = some code ↔
    f.IsCancellation ∧ code = cancelledCode ∨ (f.IsCaught ∧ ¬ f.IsCancellation) ∧ code = 1 := by
  have hplain : ∀ {f : Fault}, (∀ e, f ≠ .encode e) → ¬ f.IsCancellation := by
    rintro f hne ⟨e, he, -⟩
    exact hne e he
  cases f with
  | refused r =>
    have hno : ¬ (Fault.refused r).IsCancellation := hplain (by simp)
    simp [faultCode, hno, Fault.IsCaught, Fault.kind, eq_comm]
  | nesting =>
    have hno : ¬ Fault.nesting.IsCancellation := hplain (by simp)
    simp [faultCode, hno, Fault.IsCaught, Fault.kind, eq_comm]
  | encode e =>
    have hiff : (Fault.encode e).IsCancellation ↔ e.cancelled.isGiven = true := by
      simp [Fault.IsCancellation]
    cases he : e.cancelled.isGiven with
    | true => simp [faultCode, hiff, he, eq_comm]
    | false => simp [faultCode, hiff, he, Fault.IsCaught, Fault.kind, eq_comm]
  | decimal d =>
    have hno : ¬ (Fault.decimal d).IsCancellation := hplain (by simp)
    cases d <;> simp [faultCode, hno, Fault.IsCaught, Fault.kind]
  | _ => simp [faultCode, Fault.IsCancellation, Fault.IsCaught, Fault.kind]

theorem faultCode_eq_none_iff {f : Fault} : faultCode f = none ↔ ¬ f.IsCaught := by
  rw [Option.eq_none_iff_forall_ne_some]
  simp only [ne_eq, faultCode_eq_some_iff, not_or, not_and]
  constructor
  · intro h hcaught
    by_cases hf : f.IsCancellation
    · exact (h cancelledCode).1 hf rfl
    · exact (h 1).2 ⟨hcaught, hf⟩ rfl
  · intro h code
    exact ⟨fun hf => absurd (isCaught_of_cancellation hf) h, fun hcaught => absurd hcaught.1 h⟩

theorem isCaught_of_explained {f : Fault} (h : f.isExplained = true) : f.IsCaught := by
  cases f with
  | refused r => exact .inl rfl
  | encode e => exact .inr (.inl rfl)
  | _ => exact absurd h Bool.false_ne_true

/-- The machine on which a command does its work. -/
def heeding (s : EncodeSettings) (m : Machine) : Machine := { m with quiet := s.quiet }

/-- The fault that some work ends with, whether it comes with samples or not. -/
def faultOf (r : Except Fault (Except Fault Product × List Sample)) : Option Fault :=
  match r with
  | .error f => some f
  | .ok (.error f, _) => some f
  | .ok (.ok _, _) => none

/-- The fault that the work of a command ends with. -/
def raised? (s : EncodeSettings) (m : Machine) : Option Fault := faultOf (produce s (heeding s m)).1

variable {s : EncodeSettings} {m : Machine}

theorem run_eq (s : EncodeSettings) (m : Machine) : run s m =
    match produce s (heeding s m) with
    | (.ok (.ok p, samples), m') => succeed p samples m'
    | (.ok (.error f, samples), m') => failWith f samples m'
    | (.error f, m') => failWith f [] m' := by
  have hquiet : (modify fun m => { m with quiet := s.quiet } : Job Unit) m =
      (.ok (), heeding s m) := rfl
  unfold run
  rw [Job.bind_of_ok hquiet]
  have htry : (tryCatch (produce s) fun f => pure (.error f, []) : Job _) (heeding s m) =
      match produce s (heeding s m) with
      | (.ok r, m') => (.ok r, m')
      | (.error f, m') => (.ok (.error f, []), m') := by
    simp only [tryCatch, tryCatchThe, MonadExceptOf.tryCatch, ExceptT.tryCatch, ExceptT.mk, bind,
      StateT.bind]
    rcases produce s (heeding s m) with ⟨f | r, m'⟩ <;> rfl
  rcases h : produce s (heeding s m) with ⟨f | ⟨f | p, samples⟩, m'⟩ <;> rw [h] at htry
  · rw [Job.bind_of_ok htry]
  · rw [Job.bind_of_ok htry]
  · rw [Job.bind_of_ok htry]

theorem run_of_raised {f : Fault} (h : raised? s m = some f) : ∃ samples, (run s m).1 =
    match faultCode f with
    | some code => .ok ⟨code, complaint f, none, samples⟩
    | none => .error f := by
  have hfail : ∀ samples m', (failWith f samples m').1 = match faultCode f with
      | some code => .ok ⟨code, complaint f, none, samples⟩
      | none => .error f := by
    intro samples m'
    unfold failWith
    cases faultCode f <;> rfl
  unfold raised? faultOf at h
  rw [run_eq]
  rcases hwork : produce s (heeding s m) with ⟨g | ⟨g | p, samples⟩, m'⟩ <;> rw [hwork] at h
  · obtain rfl : g = f := Option.some.inj h
    exact ⟨[], hfail [] m'⟩
  · obtain rfl : g = f := Option.some.inj h
    exact ⟨samples, hfail samples m'⟩
  · exact absurd h (by simp)

/-- Why the line is not printed that tells of what has been made. -/
def Product.untold? (p : Product) (m : Machine) : Option HostFault :=
  match p with
  | .video path => m.refuses (.printed ("Video created successfully: " ++ path ++ "\n"))
  | _ => none

theorem succeed_eq (p : Product) (samples : List Sample) (m : Machine) :
    match p.untold? m with
    | none => ∃ e, (succeed p samples m).1 = .ok e ∧ e.exitCode = 0 ∧ e.complaint = ""
    | some f => (succeed p samples m).1 = .error (.host f) := by
  cases p with
  | video path =>
    have hprint := Job.act_eq (.printed ("Video created successfully: " ++ path ++ "\n")) m
    unfold Product.untold? succeed
    dsimp only
    split <;> rename_i hrefused <;> rw [hrefused] at hprint
    · exact ⟨_, congrArg Prod.fst (Job.bind_of_ok hprint), rfl, rfl⟩
    · exact congrArg Prod.fst (Job.bind_of_error hprint)
  | plan d => exact ⟨_, rfl, rfl, rfl⟩
  | nothing => exact ⟨_, rfl, rfl, rfl⟩

/-- Why the last line of a command is not printed, if its work has made a video. -/
def untold? (s : EncodeSettings) (m : Machine) : Option HostFault :=
  match produce s (heeding s m) with
  | (.ok (.ok p, _), m') => p.untold? m'
  | _ => none

theorem run_of_raised_none (h : raised? s m = none) :
    match untold? s m with
    | none => ∃ e, (run s m).1 = .ok e ∧ e.exitCode = 0 ∧ e.complaint = ""
    | some f => (run s m).1 = .error (.host f) := by
  unfold raised? faultOf at h
  unfold untold?
  rw [run_eq]
  rcases hwork : produce s (heeding s m) with ⟨g | ⟨g | p, samples⟩, m'⟩ <;> rw [hwork] at h
  · exact absurd h (by simp)
  · exact absurd h (by simp)
  · exact succeed_eq p samples m'

theorem untold?_of_raised {f : Fault} (h : raised? s m = some f) : untold? s m = none := by
  unfold raised? faultOf at h
  unfold untold?
  rcases hwork : produce s (heeding s m) with ⟨g | ⟨g | p, samples⟩, m'⟩
  · rfl
  · rfl
  · rw [hwork] at h
    exact absurd h (by simp)

/-- The exit code against the fault that the work of a command ends with: 130 for a cancelled run, 1
for any other fault that is caught, 0 without one if the last line is printed, and a complaint that
says what the fault was. -/
structure Reports (s : EncodeSettings) (m : Machine) : Prop where
  cancelled_iff : (∃ e, (run s m).1 = .ok e ∧ e.exitCode = cancelledCode) ↔
    ∃ f, raised? s m = some f ∧ f.IsCancellation
  failed_iff : (∃ e, (run s m).1 = .ok e ∧ e.exitCode = 1) ↔
    ∃ f, raised? s m = some f ∧ f.IsCaught ∧ ¬ f.IsCancellation
  succeeded_iff : (∃ e, (run s m).1 = .ok e ∧ e.exitCode = 0) ↔
    raised? s m = none ∧ untold? s m = none
  escapes_iff : ∀ f, (run s m).1 = .error f ↔
    raised? s m = some f ∧ ¬ f.IsCaught ∨ ∃ g, untold? s m = some g ∧ f = .host g
  complains : ∀ f e, raised? s m = some f → (run s m).1 = .ok e → e.complaint = complaint f

/-- A command ends with a code without a fault, or with a fault of this code. -/
theorem exitCode_iff {code : Int} : (∃ e, (run s m).1 = .ok e ∧ e.exitCode = code) ↔
    (raised? s m = none ∧ untold? s m = none) ∧ code = 0 ∨
      ∃ f, raised? s m = some f ∧ faultCode f = some code := by
  cases hraised : raised? s m with
  | none =>
    have hrun := run_of_raised_none hraised
    split at hrun <;> rename_i htold
    · obtain ⟨e, hrun, hcode, -⟩ := hrun
      simp [hrun, hcode, htold, eq_comm]
    · simp [hrun, htold]
  | some f =>
    obtain ⟨samples, hrun⟩ := run_of_raised hraised
    cases hf : faultCode f with
    | none => simp [hrun, hf]
    | some c => simp [hrun, hf]

theorem reports (s : EncodeSettings) (m : Machine) : Reports s m where
  cancelled_iff := by
    rw [exitCode_iff]
    simp [faultCode_eq_some_iff, cancelledCode]
  failed_iff := by
    rw [exitCode_iff]
    simp [faultCode_eq_some_iff, cancelledCode]
  succeeded_iff := by
    rw [exitCode_iff]
    simp [faultCode_eq_some_iff, cancelledCode]
  escapes_iff f := by
    cases hraised : raised? s m with
    | none =>
      have hrun := run_of_raised_none hraised
      split at hrun <;> rename_i htold
      · obtain ⟨e, hrun, -⟩ := hrun
        simp [hrun, htold]
      · simp [hrun, htold, eq_comm]
    | some g =>
      rw [untold?_of_raised hraised]
      simp only [reduceCtorEq, false_and, exists_false, or_false]
      obtain ⟨samples, hrun⟩ := run_of_raised hraised
      cases hg : faultCode g with
      | none =>
        have hno := faultCode_eq_none_iff.mp hg
        rw [hrun, hg, Except.error.injEq, Option.some.injEq]
        exact ⟨fun h => ⟨h, h ▸ hno⟩, fun h => h.1⟩
      | some code =>
        have hyes : g.IsCaught := by
          by_contra hno
          exact absurd (hg.symm.trans (faultCode_eq_none_iff.mpr hno)) (by simp)
        rw [hrun, hg, Option.some.injEq]
        exact iff_of_false (by simp) fun h => h.2 (h.1 ▸ hyes)
  complains f e hraised hrun := by
    obtain ⟨samples, hends⟩ := run_of_raised hraised
    rw [hrun] at hends
    split at hends
    · rw [Except.ok.inj hends]
    · exact absurd hends (by simp)

/-! ## Values that are to blame -/

/-- Why a fault escapes from a command: two dashes stand as a value where a path or a number is
needed, a volume is beyond the floating numbers, the project file cannot be read, its project cannot
be validated, or the machine withholds something. -/
inductive Culprit (s : EncodeSettings) (m : Machine) : Fault → Prop
  | host {g : HostFault} (h : m.Withholds g) : Culprit s m (.host g)
  | noPath (h : Document.sequence [] ∈ [s.output, s.outputDirectory, s.cache] ++ s.audio) :
      Culprit s m (.pathKind "list")
  | noNumber (h : Document.sequence [] ∈ s.durations) : Culprit s m (.realKind "list")
  | volume {i : Int} (h : s.volume = .int i ∨ s.music.isNull = false ∧ s.musicVolume = .int i)
      (hi : (Binary64.ofInt i).isFinite = false) : Culprit s m .wholeToReal
  | file {f : Fault} (hproject : s.project.isNull = false)
      (h : ProjectFile.FileCulprit s.project s.output m f) : Culprit s m f
  | project {p : Project} {m' : Machine} {f : Fault} (hproject : s.project.isNull = false)
      (hload : Project.load s.project ⟨s.output, s.dryRun, s.keep, s.cache, .null⟩ (heeding s m) =
        (.ok p, m')) (h : p.Culprit f) : Culprit s m f

/-- A setting that gives no path is that of two dashes. -/
theorem culprit_of_toPath {d : Document}
    (hmem : d ∈ [s.output, s.outputDirectory, s.cache] ++ s.audio)
    (hword : d.IsWord) (hgiven : d.isNull = false) {f : Fault} (h : d.toPath = .error f) :
    Culprit s m f := by
  rcases hword with rfl | rfl | ⟨text, rfl⟩
  · exact absurd hgiven (by decide)
  · obtain rfl := Except.error.inj h
    exact .noPath hmem
  · exact absurd h (by simp [Document.toPath])

/-- A setting that gives no number is that of two dashes. -/
theorem culprit_of_toReal {d : Document} (hmem : d ∈ s.durations)
    (hnumber : d = .sequence [] ∨ ∃ x, d = .real x) {f : Fault} (h : d.toReal = .error f) :
    Culprit s m f := by
  rcases hnumber with rfl | ⟨x, rfl⟩
  · obtain rfl := Except.error.inj h
    exact .noNumber hmem
  · exact absurd h (by simp [Document.toReal])

theorem dueTo_outputName {name : Document} (h : name = .null ∨ ∃ text, name = .text text)
    {Cause : Fault → Prop} : DueTo Cause (outputName name) := by
  unfold outputName
  rcases h with rfl | ⟨text, rfl⟩
  · exact .ok _
  · split
    · exact .ok _
    · exact .ok _

/-- The output gives a name that is a text if there is one, and a directory that is a text unless it
is that of the settings. -/
theorem outputParts_eq_ok {directory name : Document} (h : s.outputParts = .ok (directory, name)) :
    ((∃ text, directory = .text text) ∨ directory = s.outputDirectory) ∧
      (name = .null ∨ ∃ text, name = .text text) := by
  unfold EncodeSettings.outputParts at h
  split at h
  · obtain ⟨rfl, rfl⟩ := Prod.mk.inj (Except.ok.inj h)
    exact ⟨.inr rfl, .inl rfl⟩
  · obtain ⟨path, -, h⟩ := bind_eq_ok_iff.mp h
    obtain ⟨hdirectory, rfl⟩ := Prod.mk.inj (Except.ok.inj h)
    refine ⟨?_, .inr ⟨_, rfl⟩⟩
    rw [← hdirectory]
    split
    · exact .inl ⟨_, rfl⟩
    · exact .inr rfl

section

variable (hs : s.Written)
include hs

theorem dueTo_flatJob : DueTo (Culprit s m) (flatJob s) := by
  unfold flatJob
  refine DueTo.bind ?_ fun _ _ => .ok _
  unfold EncodeSettings.outputParts
  split
  · exact .ok _
  · rename_i hgiven
    refine DueTo.bind (fun f hf => .inr ?_) fun path _ => .ok _
    exact culprit_of_toPath (by simp) hs.output (by simpa using hgiven) hf

theorem accounted_flatJob {j : FlatJob} (h : flatJob s = .ok j) : j.Accounted (Culprit s m) := by
  obtain ⟨⟨directory, name⟩, hparts, h⟩ := bind_eq_ok_iff.mp h
  obtain rfl := Except.ok.inj h
  obtain ⟨hdirectory, hname⟩ := outputParts_eq_ok hparts
  constructor
  case audio =>
    refine ⟨s.audio, rfl, fun d hd f hf => ?_⟩
    have hgiven : d.isNull = false := by
      rcases hs.audio d hd with rfl | ⟨text, rfl⟩ <;> rfl
    exact culprit_of_toPath (List.mem_append_right _ hd) (.inr (hs.audio d hd)) hgiven hf
  case durations =>
    dsimp only
    split
    · exact .inl rfl
    · exact .inr ⟨_, rfl, fun d hd f hf => culprit_of_toReal hd (hs.durations d hd) hf⟩
  case size => exact ⟨_, _, rfl, rfl⟩
  case mainVolume => exact dueTo_percentToGain fun i hi hfinite => .volume (.inl hi) hfinite
  case musicVolume =>
    exact fun hmusic => dueTo_percentToGain fun i hi hfinite => .volume (.inr ⟨hmusic, hi⟩) hfinite
  case outputName => exact dueTo_outputName hname
  case outputDirectory =>
    intro hgiven f hf
    rcases hdirectory with ⟨text, rfl⟩ | rfl
    · exact absurd hf (by simp [Document.toPath])
    · exact culprit_of_toPath (by simp) hs.outputDirectory hgiven hf

end

theorem sizeDueTo_flatJob {Cause : Fault → Prop} {j : FlatJob} (h : flatJob s = .ok j) :
    j.SizeDueTo Cause := by
  obtain ⟨⟨directory, name⟩, -, h⟩ := bind_eq_ok_iff.mp h
  obtain rfl := Except.ok.inj h
  rintro - width height hwidth hheight hdigits
  obtain rfl : frameSize.1 = width := by simpa using hwidth
  obtain rfl : frameSize.2 = height := by simpa using hheight
  exact absurd hdigits (by decide +kernel)

theorem endsDueTo_runFlat (hs : s.Written) (m₀ : Machine) :
    Job.EndsDueTo (Culprit s m₀) Prod.fst (runFlat s) m := by
  have hcache : s.cache.isNull = false → ∀ f, s.cache.toPath = .error f → Culprit s m₀ f :=
    fun hgiven f hf => culprit_of_toPath (by simp) hs.cache hgiven hf
  unfold runFlat
  refine .except (dueTo_flatJob hs) fun j hjob => ?_
  have hj := accounted_flatJob hs (m := m₀) hjob
  have hplan := fun m => FlatJob.dueTo_plan (m := m) hj (sizeDueTo_flatJob hjob) .null
  split
  · refine .bind (hplan m) fun plan m₁ _ => ?_
    exact .bind (Job.dueTo_act _) fun _ _ _ => .pure (.ok _)
  · split
    · refine .bind (hplan m) fun plan m₁ _ => ?_
      exact .bind (Job.dueTo_print _) fun _ _ _ => .pure (.ok _)
    · refine Job.EndsDueTo.mapped ?_ fun outcome => ⟨.video, rfl⟩
      exact FlatJob.endsDueTo_run hj (sizeDueTo_flatJob hjob) s.keep observers hcache

/-- Work on a project ends in an unexplained fault only if its validation does, or the machine
withholds something. -/
theorem dueTo_projectWork {w : Production} (h : w.project.file.Checked) :
    ProjectJob.DueTo w.project.Culprit (projectWork s) w := by
  have hvalidate := ProjectJob.dueTo_validate h
  unfold projectWork
  split
  · unfold ProjectJob.plan
    refine .bind (hvalidate.bind fun session w' _ => ProjectJob.dueTo_pure _) fun plan w' _ => ?_
    refine ProjectJob.dueTo_cleanup.bind fun _ w₂ _ => ?_
    exact (ProjectJob.dueTo_onMachine (Job.dueTo_act _)).bind fun _ _ _ => ProjectJob.dueTo_pure _
  · refine (ProjectJob.dueTo_run hvalidate).bind fun path w' _ => ?_
    cases path with
    | some path => exact ProjectJob.dueTo_pure _
    | none => exact ProjectJob.dueTo_pure _

theorem fileCulprit_of_heeding {f : Fault}
    (h : ProjectFile.FileCulprit s.project s.output (heeding s m) f) :
    ProjectFile.FileCulprit s.project s.output m f := by
  cases h with
  | path h => exact .path h
  | override hgiven h => exact .override hgiven h
  | directory hfile h => exact .directory hfile h
  | unreadable hfile h => exact .unreadable hfile h
  | media hfile h => exact .media hfile h
  | conversion hfile hcontent h => exact .conversion hfile hcontent h
  | value hfile hcontent hread hd h => exact .value hfile hcontent hread hd h

theorem endsDueTo_runProject (hproject : s.project.isNull = false) :
    Job.EndsDueTo (Culprit s m) Prod.fst (runProject s) (heeding s m) := by
  unfold runProject
  refine .bind ?_ fun p m₁ hload => ?_
  · have hread := Project.dueTo_load s.project ⟨s.output, s.dryRun, s.keep, s.cache, .null⟩
      (heeding s m)
    rw [Project.load_eq] at hread
    refine Job.dueTo_of_eq (Project.load_eq s.project _ _) (hread.mono fun f hf => ?_)
    exact .file hproject (fileCulprit_of_heeding hf)
  · have hchecked := (Project.checked_of_load hload).1
    have hwork := Project.endsDueTo_work
      (dueTo_projectWork (s := s) (w := ⟨m₁, p, observers⟩) hchecked)
    refine Job.EndsDueTo.mapped (hwork.mono fun f hf => .project hproject hload hf)
      fun r => ⟨id, ?_⟩
    rcases r with ⟨f | product, production⟩ <;> rfl

theorem endsDueTo_produce (hs : s.Written) :
    Job.EndsDueTo (Culprit s m) Prod.fst (produce s) (heeding s m) := by
  unfold produce
  split
  · exact endsDueTo_runFlat hs m
  · rename_i hproject
    exact endsDueTo_runProject (by simpa using hproject)

/-- A fault that ends the work of a command, or its last line, is explained or has a cause. -/
theorem explained_or_culprit (hs : s.Written) :
    (∀ f, raised? s m = some f → f.isExplained = true ∨ Culprit s m f) ∧
      ∀ g, untold? s m = some g → Culprit s m (.host g) := by
  obtain ⟨⟨hfault, hhost⟩, hresult⟩ := endsDueTo_produce (m := m) hs
  have hcause : ∀ f, (∃ g, f = .host g ∧ (heeding s m).Withholds g) ∨ Culprit s m f →
      Culprit s m f := by
    rintro f (⟨g, rfl, hg⟩ | hf)
    · exact .host hg
    · exact hf
  unfold raised? untold? faultOf
  rcases hwork : produce s (heeding s m) with ⟨g | ⟨g | p, samples⟩, m'⟩ <;>
    rw [hwork] at hfault hhost
  · refine ⟨fun f hf => (hfault f ?_).imp_right (hcause f), fun g hg => absurd hg (by simp)⟩
    exact congrArg Except.error (Option.some.inj hf)
  · refine ⟨fun f hf => (hresult _ _ hwork f ?_).imp_right (hcause f),
      fun g hg => absurd hg (by simp)⟩
    exact congrArg Except.error (Option.some.inj hf)
  · refine ⟨fun f hf => absurd hf (by simp), fun g hg => .host (hhost.withholds ?_)⟩
    cases p with
    | video path => exact .inl ⟨_, hg⟩
    | plan d => exact absurd hg (by simp [Product.untold?])
    | nothing => exact absurd hg (by simp [Product.untold?])

/-- The checks of a project, as far as faults are concerned: it is read and validated, or refused
with a reason, or a value is to blame that has no result, or the machine withholds something. -/
def Guarded (path : Document) (o : ProjectOptions) (m : Machine) : Prop :=
  (∀ f, (Project.load path o m).1 = .error f → f.isExplained = true ∨
    ProjectFile.FileCulprit path o.outputOverride m f) ∧
  ∀ p m' observers f, Project.load path o m = (.ok p, m') →
    (ProjectJob.validate ⟨m', p, observers⟩).1 = .error f →
      f.isExplained = true ∨ (∃ g, f = .host g ∧ m.Withholds g) ∨ p.Culprit f

theorem guarded (path : Document) (o : ProjectOptions) (m : Machine) : Guarded path o m := by
  refine ⟨Project.dueTo_load path o m, fun p m' observers f hload => ?_⟩
  have hvalidate := ProjectJob.dueTo_validate (w := ⟨m', p, observers⟩)
    (Project.checked_of_load hload).1
  rw [Project.load_eq] at hload
  obtain rfl := (Prod.mk.inj hload).2
  exact hvalidate.fault f

/-- **Exit codes.** For all arguments that are accepted and on every machine, the command ends with
130 exactly if the work has ended in a cancelled run, with 1 exactly if it has ended in another
fault that is caught, and with 0 exactly if it has not ended in a fault and the last line is
printed. A fault that is not caught escapes, and then a value or what the machine withholds is to
blame. In the same way projects are read and validated. -/
theorem exit_codes {arguments : List String} {s : EncodeSettings}
    (h : EncodeSettings.read arguments = .ok s) (m : Machine) :
    Reports s m ∧ (∀ f, (run s m).1 = .error f → Culprit s m f) ∧
      ∀ path o, Guarded path o m := by
  obtain ⟨hwork, hlast⟩ := explained_or_culprit (m := m) (EncodeSettings.written_of_read h)
  refine ⟨reports s m, fun f hf => ?_, fun path o => guarded path o m⟩
  rcases ((reports s m).escapes_iff f).mp hf with ⟨hraised, hcaught⟩ | ⟨g, htold, rfl⟩
  · refine (hwork f hraised).resolve_left fun hexplained => ?_
    exact hcaught (isCaught_of_explained hexplained)
  · exact hlast g htold

/-- A machine with a project file of a frame width. -/
def frameOf (width : Document) : Machine :=
  { Machine.bare with
    files := [("/show.yaml", .data (.mapping [(.text "stillcast", .int 1),
      (.text "image", .text "c.png"), (.text "resolution", .sequence [width, .int 720]),
      (.text "tracks", .sequence [])]))] }

/-- The arguments that ask for the command of this project. -/
def dryArguments : List String := ["-y", "/show.yaml", "-n"]

/-- The exit code of this command, or the family of the fault that escapes. -/
def dryOutcome (width : Document) : Except UsageFault (Except FaultKind Int) := do
  let s ← EncodeSettings.read dryArguments
  return match (run s (frameOf width)).1 with
    | .ok e => .ok e.exitCode
    | .error f => .error f.kind

/-- The outcome of the command is that of settings which are read. -/
theorem exists_of_dryOutcome {width : Document} {r : Except FaultKind Int}
    (h : dryOutcome width = .ok r) : ∃ s, EncodeSettings.read dryArguments = .ok s ∧
      ((∃ e, (run s (frameOf width)).1 = .ok e ∧ r = .ok e.exitCode) ∨
        ∃ f, (run s (frameOf width)).1 = .error f ∧ r = .error f.kind) := by
  obtain ⟨s, hread, h⟩ := bind_eq_ok_iff.mp h
  refine ⟨s, hread, ?_⟩
  have h := Except.ok.inj h
  split at h
  · exact .inl ⟨_, ‹_›, h.symm⟩
  · exact .inr ⟨_, ‹_›, h.symm⟩

/-- A width that is a word ends the command with 1, and all that is said above holds of it. -/
theorem exit_codes_wordWidth : ∃ s, EncodeSettings.read dryArguments = .ok s ∧
    (∃ e, (run s (frameOf (.text "a"))).1 = .ok e ∧ e.exitCode = 1) ∧
    (∃ f, raised? s (frameOf (.text "a")) = some f ∧ f.IsCaught ∧ ¬ f.IsCancellation) ∧
    ∀ path o, Guarded path o (frameOf (.text "a")) := by
  have houtcome : dryOutcome (.text "a") = .ok (.ok 1) := by
    decide +kernel
  obtain ⟨s, hread, ⟨e, hrun, hcode⟩ | ⟨f, -, hkind⟩⟩ := exists_of_dryOutcome houtcome
  · obtain ⟨hreports, -, hguarded⟩ := exit_codes hread (frameOf (.text "a"))
    have hcode : ∃ e, (run s (frameOf (.text "a"))).1 = .ok e ∧ e.exitCode = 1 :=
      ⟨e, hrun, (Except.ok.inj hcode).symm⟩
    exact ⟨s, hread, hcode, hreports.failed_iff.mp hcode, hguarded⟩
  · exact absurd hkind (by simp)

/-- An infinite width escapes: the command has no exit code. -/
theorem exit_code_missing_infiniteWidth : ∃ s, EncodeSettings.read dryArguments = .ok s ∧
    ∃ f, (run s (frameOf (.real (.infinite false)))).1 = .error f ∧ ¬ f.IsCaught := by
  have houtcome : dryOutcome (.real (.infinite false)) = .ok (.error .range) := by
    decide +kernel
  obtain ⟨s, hread, ⟨e, -, hcode⟩ | ⟨f, hrun, hkind⟩⟩ := exists_of_dryOutcome houtcome
  · exact absurd hcode (by simp)
  · refine ⟨s, hread, f, hrun, ?_⟩
    rw [Fault.IsCaught, ← Except.error.inj hkind]
    decide

end EncodeCommand

end StillVideo
