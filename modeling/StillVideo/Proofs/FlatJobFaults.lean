import StillVideo.Proofs.ClipReading
import StillVideo.Proofs.FlatJobCourse
import StillVideo.Proofs.ValidationFaults

/-!
# Faults of jobs without a project

A job of whole audio files is carried out, or refused with a reason, or one of its values has no
result where it is used, or the machine withholds something. `FlatJob.Accounted` lists these values;
whatever holds of the faults that they give holds of every unexplained fault of the plan and the run
of the job that is not of the machine (`FlatJob.dueTo_plan`, `FlatJob.endsDueTo_run`).
-/

namespace StillVideo

variable {Cause : Fault → Prop} {m : Machine}

theorem dueTo_probeLength {file tool : Document} (h : ∀ f, file.toPath = .error f → Cause f) :
    Job.DueTo Cause (probeLength file tool) m := by
  unfold probeLength
  refine .except (fun f hf => .inr (h f hf)) fun audio _ => ?_
  refine (Job.dueTo_requirePath audio).bind fun _ _ _ => ?_
  refine (dueTo_requireEncoder _ _).bind fun _ _ _ => ?_
  refine (Job.dueTo_attempt _).bind fun _ _ _ => .machine ?_
  dsimp only
  split
  · exact Job.dueTo_refuse _
  · split
    · exact Job.dueTo_refuse _
    · exact Job.dueTo_pure _

theorem dueTo_runCommand (args : List Document) : Job.DueTo Cause (runCommand args) m := by
  unfold runCommand
  refine (Job.dueTo_printLoud _).bind fun _ _ _ => (Job.dueTo_note _).bind fun _ _ _ => .machine ?_
  refine (Job.dueTo_attempt _).bind fun _ _ _ => .machine ?_
  refine (Job.dueTo_modify ⟨rfl, rfl, rfl⟩).bind fun _ m' _ => ?_
  split
  · refine (Job.dueTo_modify (m'.sameHost_withFile _ _)).bind fun _ _ _ => .machine ?_
    exact (Job.dueTo_note _).bind fun _ _ _ => Job.dueTo_pure _
  · exact .machine ((Job.dueTo_note _).bind fun _ _ _ => Job.dueTo_pure _)

theorem dueTo_directoryOfValue {cwd : String} {d : Document}
    (h : ∀ f, d.toPath = .error f → Cause f) : DueTo Cause (directoryOfValue cwd d) := by
  unfold directoryOfValue
  split
  · unfold sourceDirectory
    dsimp only
    split
    · exact .refuse _
    · exact .ok _
  · rename_i htext
    refine .error (h _ ?_)
    unfold Document.toPath
    split
    · exact absurd rfl (htext _)
    · rfl

/-! ## Runs -/

/-- The encoder reports its own failures. -/
theorem endsDueTo_job (s : Session) (o : Observers) :
    Job.EndsDueTo Cause RunOutcome.result ((Supervisor.ofSession s).job o) m := by
  have hjob := Supervisor.job_eq (.ofSession s) o m
  refine ⟨.of_eq hjob (.ok _) (Supervisor.run_sameHost _ o m), fun outcome m' hrun f hf => ?_⟩
  rw [hjob] at hrun
  rw [← Except.ok.inj (Prod.mk.inj hrun).1] at hf
  exact (Supervisor.explained_or_withheld hf).imp_right .inl

/-! ## Joining -/

namespace Joining

theorem dueTo_make {files : List Document} {tool cache : Document} {keep : Bool} :
    DueTo Cause (make (.sequence files) tool cache keep) := by
  refine DueTo.bind (.ok files) fun _ _ => ?_
  split
  · exact .refuse _
  · exact .ok _

theorem make_eq_ok {files : List Document} {tool cache : Document} {keep : Bool} {j : Joining}
    (h : make (.sequence files) tool cache keep = .ok j) : j = ⟨files, tool, cache, keep⟩ := by
  unfold make at h
  obtain ⟨fs, hfiles, h⟩ := bind_eq_ok_iff.mp h
  obtain rfl := Except.ok.inj hfiles
  split at h
  · exact absurd h (by simp [refuse])
  · exact (Except.ok.inj h).symm

variable {j : Joining} (haudio : ∀ d ∈ j.audio, ∀ f, d.toPath = .error f → Cause f)
  (hcache : j.cache.isNull = false → ∀ f, j.cache.toPath = .error f → Cause f)
include haudio hcache

theorem dueTo_prepare : Job.DueTo Cause j.prepare m := by
  unfold prepare
  have hfiles : Job.DueTo Cause (j.audio.mapM requireFile) m := by
    refine Job.dueTo_mapM fun d hd m => ?_
    refine .except (fun f hf => .inr (haudio d hd f hf)) fun path _ => ?_
    exact (Job.dueTo_requirePath path).bind fun _ _ _ => Job.dueTo_pure _
  have hdirectory : ∀ m, Job.DueTo Cause (requireCache j.cache) m := by
    intro m
    unfold requireCache
    split
    · exact Job.dueTo_pure _
    · rename_i hgiven
      refine .except (fun f hf => ?_) fun path _ => .machine ?_
      · exact .inr (hcache (by simpa using hgiven) f hf)
      · split
        · exact (Job.dueTo_makeDirectories _).bind fun _ _ _ => Job.dueTo_pure _
        · exact Job.dueTo_pure _
  refine hfiles.bind fun audio _ _ => (dueTo_requireEncoder _ _).bind fun tool _ _ => ?_
  refine (hdirectory _).bind fun cache _ _ => .machine ?_
  refine (Job.dueTo_makeTemporary _ _).bind fun directory _ _ => .machine ?_
  exact (Job.dueTo_writeText _ _).bind fun _ _ _ => Job.dueTo_pure _

theorem endsDueTo_withJoined {α β : Type} {work : String → Job α} {result : α → Except Fault β}
    (hwork : ∀ joined m, Job.EndsDueTo Cause result (work joined) m) :
    Job.EndsDueTo Cause result (j.withJoined work) m := by
  have htidy : ∀ p m, Job.DueTo Cause (j.cleanup p) m := by
    intro p m
    unfold cleanup
    split
    · exact Job.dueTo_removeTree _
    · exact Job.dueTo_pure _
  unfold withJoined
  refine .bind (dueTo_prepare haudio hcache) fun ⟨tool, p⟩ _ _ => ?_
  refine .bind (Job.dueTo_onFault ?_ (htidy p)) fun _ _ _ => ?_
  · refine (dueTo_runCommand _).bind fun code _ _ => ?_
    dsimp only
    split
    · exact Job.dueTo_refuse_bind _ _
    · exact Job.dueTo_requirePath _
  · exact (hwork _ _).always (htidy p)

end Joining

/-! ## Jobs of whole files -/

namespace FlatJob

/-- What can be at fault in a job of whole audio files: a file, a duration, a volume, the name of
the video or its directory. The size of the frame is given in whole numbers. -/
structure Accounted (Cause : Fault → Prop) (j : FlatJob) : Prop where
  audio : ∃ files, j.audio = .sequence files ∧ ∀ d ∈ files, ∀ f, d.toPath = .error f → Cause f
  durations : j.durations = .null ∨ ∃ ds, j.durations = .sequence ds ∧
    ∀ d ∈ ds, ∀ f, d.toReal = .error f → Cause f
  size : ∃ width height, j.width = .int width ∧ j.height = .int height
  mainVolume : DueTo Cause (percentToGain j.options.mainVolume "main audio volume")
  musicVolume : j.options.music.isNull = false →
    DueTo Cause (percentToGain j.options.musicVolume "background music volume")
  outputName : DueTo Cause (outputName j.options.outputName)
  outputDirectory : j.options.outputDirectory.isNull = false →
    ∀ f, j.options.outputDirectory.toPath = .error f → Cause f

/-- Why a job cannot be carried out: there is no picture, a volume is no percentage, or the
durations do not match the files. -/
inductive Flawed (j : FlatJob) : Prop
  | picture (h : SessionBuilder.isPicture j.image = false)
  | mainVolume (h : ∀ x, percentToGain j.options.mainVolume "main audio volume" ≠ .ok x)
  | musicVolume (hmusic : j.options.music.isNull = false)
    (h : ∀ x, percentToGain j.options.musicVolume "background music volume" ≠ .ok x)
  | durations {ds files : List Document} (hdurations : j.durations = .sequence ds)
    (hfiles : j.files = .ok files) (h : ds.length ≠ files.length)

/-- The size of the frame is at fault if it has too many digits, unless the job has a flaw: what is
wrong with a job is found before the size is written. -/
def SizeDueTo (Cause : Fault → Prop) (j : FlatJob) : Prop :=
  ¬ j.Flawed → ∀ width height, j.width = .int width → j.height = .int height →
    (isOverlong width || isOverlong height) = true → Cause .digitsShown

variable {j : FlatJob}

namespace Flawed

/-- The flaws are those of the job, whatever its encoder and its directory are. -/
theorem of_resolve (h : j.Flawed) {j' : FlatJob} {m' : Machine}
    (hresolve : j.resolve m = (.ok j', m')) : j'.Flawed := by
  rcases j.resolve_cases m with ⟨f, hrefused⟩ | ⟨tool, directory, -, -, hdecided⟩
  · exact absurd hresolve (Job.ne_ok_of_error hrefused)
  obtain rfl := Except.ok.inj (Prod.mk.inj (hdecided.symm.trans hresolve)).1
  cases h with
  | picture h => exact .picture h
  | mainVolume h => exact .mainVolume h
  | musicVolume hmusic h => exact .musicVolume hmusic h
  | durations hdurations hfiles h => exact .durations hdurations hfiles h

/-- A joined file of a known length does not mend a flaw. -/
theorem of_joined (h : j.Flawed) (hnull : j.durations.isNull = true) (joined : String)
    (seconds : Binary64) : Flawed { j with
      audio := .sequence [.text joined], durations := .sequence [.real seconds] } := by
  cases h with
  | picture h => exact .picture h
  | mainVolume h => exact .mainVolume h
  | musicVolume hmusic h => exact .musicVolume hmusic h
  | durations hgiven =>
    rw [hgiven] at hnull
    exact absurd hnull Bool.false_ne_true

/-- Whatever has a length and a session has no flaw. -/
theorem not_builds (h : j.Flawed) {files : List Document} {total : Binary64} {m' : Machine}
    (hfiles : j.files = .ok files) (htotal : j.total files m = (.ok total, m'))
    {b : SessionBuilder} {cwd : String} {t : Timeline} {s : Session} :
    ¬ b.Builds cwd j.image t j.options s := by
  intro hbuilds
  cases h with
  | picture h => exact absurd (h.symm.trans hbuilds.picture) Bool.false_ne_true
  | mainVolume h => exact h _ hbuilds.mainGain
  | musicVolume hmusic h =>
    have hgain := hbuilds.musicGain
    rw [hmusic, if_neg Bool.false_ne_true] at hgain
    obtain ⟨gain, hgain, -⟩ := hgain
    exact h gain hgain
  | @durations ds files' hdurations hfiles' h =>
    obtain rfl : files' = files := Except.ok.inj (hfiles'.symm.trans hfiles)
    have hparts : (Document.sequence ds).countedParts = .ok ds := rfl
    unfold FlatJob.total at htotal
    rw [hdurations, if_neg (by exact Bool.false_ne_true), hparts, Job.ofExcept_ok_bind,
      if_pos h] at htotal
    exact absurd (Prod.mk.inj htotal).1 (by simp)

end Flawed

theorem files_of_sequence {files : List Document} (h : j.audio = .sequence files) :
    j.files = .ok files := by
  unfold FlatJob.files
  rw [h]
  rfl

theorem dueTo_ofFile (audio : Document) (total : Binary64) :
    DueTo Cause (Timeline.ofFile audio (.real total)) := by
  unfold Timeline.ofFile Clip.ofValues
  refine DueTo.bind ?_ fun _ _ => .ok _
  dsimp only
  split
  · exact .refuseBind _ _
  · refine DueTo.bind (.ok 0) fun _ _ => DueTo.bind (.ok total) fun _ _ => ?_
    refine DueTo.bind (.ok 0) fun _ _ => DueTo.bind (.ok (some total)) fun _ _ => ?_
    exact ProjectFile.dueTo_clipMake _ _ _ _ _

/-- The timeline of one whole file has one clip, which starts at once and lasts as long as the
file. -/
theorem exists_clip_of_ofFile {audio : Document} {total : Binary64} {t : Timeline}
    (h : Timeline.ofFile audio (.real total) = .ok t) :
    ∃ c : Clip, t.clips = [c] ∧ c.start = 0 ∧ c.duration = total := by
  obtain ⟨c, hclip, ht⟩ := bind_eq_ok_iff.mp h
  obtain rfl := Except.ok.inj ht
  unfold Clip.ofValues at hclip
  dsimp only at hclip
  split at hclip
  · obtain ⟨_, hrefuse, -⟩ := bind_eq_ok_iff.mp hclip
    exact absurd hrefuse (by simp [refuse])
  · obtain ⟨start, hstart, hclip⟩ := bind_eq_ok_iff.mp hclip
    obtain rfl := Except.ok.inj hstart
    obtain ⟨duration, hduration, hclip⟩ := bind_eq_ok_iff.mp hclip
    obtain rfl := Except.ok.inj hduration
    obtain ⟨trimIn, -, hclip⟩ := bind_eq_ok_iff.mp hclip
    obtain ⟨trimOut, -, hclip⟩ := bind_eq_ok_iff.mp hclip
    obtain ⟨-, hstart, hduration, -⟩ := Clip.make_eq_ok hclip
    exact ⟨c, rfl, hstart, hduration⟩

theorem dueTo_total (h : j.Accounted Cause) {files : List Document}
    (hfiles : j.audio = .sequence files) : Job.DueTo Cause (j.total files) m := by
  obtain ⟨files', hfiles', haudio⟩ := h.audio
  obtain rfl : files' = files := by simpa using hfiles'.symm.trans hfiles
  unfold total
  rcases h.durations with hnull | ⟨ds, hds, hreal⟩
  · rw [hnull, if_pos (by rfl)]
    refine Job.dueTo_foldlM (fun audio hmem sum m => ?_) 0
    exact (dueTo_probeLength (haudio audio hmem)).bind fun _ _ _ => Job.dueTo_pure _
  · rw [hds, if_neg (by exact Bool.false_ne_true)]
    refine Job.DueTo.value (a := ds) ?_
    split
    · exact Job.dueTo_refuse _
    · refine Job.dueTo_ofExcept (DueTo.bind (DueTo.mapM fun d hd f hf => ?_) fun _ _ => .ok _)
      exact .inr (hreal d hd f hf)

theorem dueTo_buildFlat (h : j.Accounted Cause) (b : SessionBuilder) (image audio : Document)
    (total : Binary64)
    (hsize : ∀ t make, b.prepare m.cwd image t j.options = .ok make → DueTo Cause b.checkSize) :
    Job.DueTo Cause (b.buildFlat image audio (.real total) j.options) m := by
  unfold SessionBuilder.buildFlat
  refine .except (dueTo_ofFile audio total) fun t ht => ?_
  refine b.dueTo_build image h.mainVolume h.musicVolume
    (fun cwd => dueTo_outputPath h.outputName h.outputDirectory) (fun c hc => ?_) (hsize t)
  obtain ⟨i, hi⟩ := exists_wholeOfReal_iff.mpr (show (0 * 1000 : Binary64).isFinite = true by
    decide +kernel)
  obtain ⟨c', hclips, hstart, -⟩ := exists_clip_of_ofFile ht
  rw [hclips, List.mem_singleton] at hc
  rw [hc, hstart, hi]
  exact .ok i

theorem dueTo_session (h : j.Accounted Cause) (hsize : j.SizeDueTo Cause) {first : Document}
    {rest : List Document}
    (hfiles : j.audio = .sequence (first :: rest)) (joined : Document) :
    Job.DueTo Cause (j.session joined) m := by
  obtain ⟨files', hfiles', haudio⟩ := h.audio
  obtain rfl : files' = first :: rest := by simpa using hfiles'.symm.trans hfiles
  obtain ⟨width, height, hwidth, hheight⟩ := h.size
  unfold session files
  rw [hfiles]
  refine Job.DueTo.value (a := first :: rest) (Job.DueTo.value (a := first) ?_)
  have haudio' : DueTo Cause (sessionAudio (first :: rest) first joined) := by
    unfold sessionAudio
    split
    · exact .ok _
    · split
      · refine DueTo.bind (fun f hf => ?_) fun _ _ => .ok _
        exact .inr (haudio first List.mem_cons_self f hf)
      · exact .ok _
  refine .except haudio' fun audio _ => (dueTo_total h hfiles).bind fun total m' htotal => ?_
  rw [hwidth, hheight]
  refine Job.DueTo.value (a := (⟨j.tool, width, height⟩ : SessionBuilder))
    (dueTo_buildFlat h _ _ _ _ ?_)
  intro t make hprepare
  refine SessionBuilder.dueTo_checkSize _ (hsize (fun hflawed => ?_) width height hwidth hheight)
  exact hflawed.not_builds (files_of_sequence hfiles) htotal
    (SessionBuilder.builds_of_prepare hprepare .null)

theorem sees_outputDirectory
    (h : ∃ files, j.audio = .sequence files ∧ ∀ d ∈ files, ∀ f, d.toPath = .error f → Cause f) :
    Job.SeesDueTo Cause j.outputDirectory m := by
  obtain ⟨files, hfiles, haudio⟩ := h
  unfold outputDirectory FlatJob.files
  rw [hfiles]
  refine Job.SeesDueTo.value (a := files) ?_
  cases files with
  | nil => exact Job.sees_refuse _
  | cons first rest =>
    rw [if_neg (by simp)]
    split
    · refine Job.SeesDueTo.value (a := first) (.machine (.bind ?_ fun _ => Job.sees_pure _))
      exact Job.sees_ofExcept (dueTo_directoryOfValue (haudio first List.mem_cons_self))
    · exact Job.sees_pure _

/-- A job that has a directory for its video has a file. -/
theorem outputDirectory_eq_ok {files : List Document} (hfiles : j.audio = .sequence files)
    {d : Document} {m' : Machine} (h : j.outputDirectory m = (.ok d, m')) :
    files ≠ [] ∧ ((∃ path, d = .text path) ∨ d = j.options.outputDirectory) := by
  unfold outputDirectory FlatJob.files at h
  rw [hfiles] at h
  obtain ⟨files', m₁, hjob, h⟩ := Job.bind_eq_ok_iff.mp h
  obtain ⟨hok, -⟩ := Job.ofExcept_eq_ok_iff.mp hjob
  obtain rfl := Except.ok.inj hok
  split at h
  · exact absurd (Prod.mk.inj h).1 (by simp)
  · rename_i hne
    refine ⟨by simpa using hne, ?_⟩
    split at h
    · obtain ⟨first, m₂, -, h⟩ := Job.bind_eq_ok_iff.mp h
      obtain ⟨_, m₃, -, h⟩ := Job.bind_eq_ok_iff.mp h
      obtain ⟨path, m₄, -, h⟩ := Job.bind_eq_ok_iff.mp h
      exact .inl ⟨path, (Job.pure_eq_ok_iff.mp h).1.symm⟩
    · exact .inr (Job.pure_eq_ok_iff.mp h).1.symm

/-- Until its directory and its encoder are decided, only the files of a job can be at fault. -/
theorem sees_resolve
    (h : ∃ files, j.audio = .sequence files ∧ ∀ d ∈ files, ∀ f, d.toPath = .error f → Cause f) :
    Job.SeesDueTo Cause j.resolve m := by
  unfold resolve
  refine (sees_outputDirectory h).bind fun directory => ?_
  exact (sees_requireEncoder _ _).bind fun _ => Job.sees_pure _

/-- A job whose directory and encoder are decided has a file, and is accounted for as before. -/
theorem resolve_eq_ok (h : j.Accounted Cause) {j' : FlatJob} {m' : Machine}
    (hresolve : j.resolve m = (.ok j', m')) :
    j'.Accounted Cause ∧ ∃ first rest, j'.audio = .sequence (first :: rest) := by
  obtain ⟨files, hfiles, haudio⟩ := h.audio
  unfold resolve at hresolve
  obtain ⟨directory, m₁, hdirectory, hresolve⟩ := Job.bind_eq_ok_iff.mp hresolve
  obtain ⟨tool, m₂, -, hresolve⟩ := Job.bind_eq_ok_iff.mp hresolve
  obtain ⟨rfl, -⟩ := Job.pure_eq_ok_iff.mp hresolve
  obtain ⟨hne, hcases⟩ := outputDirectory_eq_ok hfiles hdirectory
  obtain ⟨first, rest, rfl⟩ := List.exists_cons_of_ne_nil hne
  refine ⟨{ h with outputDirectory := ?_ }, first, rest, hfiles⟩
  intro hgiven f hf
  rcases hcases with ⟨path, rfl⟩ | rfl
  · exact absurd hf (by simp [Document.toPath])
  · exact h.outputDirectory hgiven f hf

theorem SizeDueTo.of_resolve (h : j.SizeDueTo Cause) {j' : FlatJob} {m' : Machine}
    (hresolve : j.resolve m = (.ok j', m')) : j'.SizeDueTo Cause := by
  intro hflawless width height hwidth hheight hdigits
  have hflawless' : ¬ j.Flawed := fun hflawed => hflawless (hflawed.of_resolve hresolve)
  rcases j.resolve_cases m with ⟨f, hrefused⟩ | ⟨tool, directory, -, -, hdecided⟩
  · exact absurd hresolve (Job.ne_ok_of_error hrefused)
  obtain rfl := Except.ok.inj (Prod.mk.inj (hdecided.symm.trans hresolve)).1
  exact h hflawless' width height hwidth hheight hdigits

theorem dueTo_plan (h : j.Accounted Cause) (hsize : j.SizeDueTo Cause) (joined : Document) :
    Job.DueTo Cause (j.plan joined) m := by
  unfold plan
  refine (sees_resolve h.audio).dueTo.bind fun j' m' hresolve => ?_
  obtain ⟨h', first, rest, hfiles⟩ := resolve_eq_ok h hresolve
  exact dueTo_session h' (hsize.of_resolve hresolve) hfiles joined

/-- Joining files changes neither the volumes nor the video of a job. -/
theorem dueTo_sessionOfJoined (h : j.Accounted Cause) (hsize : j.SizeDueTo Cause) {first : Document}
    {rest : List Document}
    (hfiles : j.audio = .sequence (first :: rest)) (joined : String) :
    Job.DueTo Cause (j.sessionOfJoined joined) m := by
  have htext : ∀ f, (Document.text joined).toPath ≠ .error f := by simp [Document.toPath]
  unfold sessionOfJoined
  split
  · rename_i hnull
    refine (dueTo_probeLength fun f hf => absurd hf (htext f)).bind fun seconds m' _ => ?_
    refine dueTo_session (j := { j with
      audio := .sequence [.text joined], durations := .sequence [.real seconds] })
      { h with
        audio := ⟨_, rfl, fun d hd f hf => ?_⟩
        durations := .inr ⟨_, rfl, fun d hd f hf => ?_⟩ }
      (fun hflawless => hsize fun hflawed => hflawless (hflawed.of_joined hnull joined seconds))
      rfl .null
    · rw [List.mem_singleton.mp hd] at hf
      exact absurd hf (htext f)
    · rw [List.mem_singleton.mp hd] at hf
      exact absurd hf (by simp [Document.toReal])
  · exact dueTo_session h hsize hfiles _

/-- A run of a job is accounted for; the encoder has no part in it. -/
theorem endsDueTo_run (h : j.Accounted Cause) (hsize : j.SizeDueTo Cause) {cache : Document}
    (keep : Bool) (o : Observers)
    (hcache : cache.isNull = false → ∀ f, cache.toPath = .error f → Cause f) :
    Job.EndsDueTo Cause RunOutcome.result (j.run cache keep o) m := by
  unfold run
  refine .bind (sees_resolve h.audio).dueTo fun j' m' hresolve => ?_
  obtain ⟨h', first, rest, hfiles⟩ := resolve_eq_ok h hresolve
  have hsize' := hsize.of_resolve hresolve
  obtain ⟨files, haudio, hpaths⟩ := h'.audio
  obtain rfl : files = first :: rest := by simpa using haudio.symm.trans hfiles
  rw [files_of_sequence hfiles]
  refine .except (.ok _) fun files _ => ?_
  split
  · exact .bind (dueTo_session h' hsize' hfiles _) fun s _ _ => endsDueTo_job s o
  · rw [hfiles]
    refine .except Joining.dueTo_make fun joining hmake => ?_
    obtain rfl := Joining.make_eq_ok hmake
    refine Joining.endsDueTo_withJoined hpaths hcache fun joined m => ?_
    exact .bind (dueTo_sessionOfJoined h' hsize' hfiles joined) fun s _ _ => endsDueTo_job s o

end FlatJob

end StillVideo
