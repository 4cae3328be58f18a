import Mathlib.Data.List.DropRight
import StillVideo.Proofs.ClipReading
import StillVideo.Proofs.NestedPaths
import StillVideo.Proofs.PictureDirectory
import StillVideo.Proofs.PlannedRuns
import StillVideo.Proofs.ReadingFaults

/-!
# Plans and the working directory

A path from the root names the same file wherever it is looked at from (`Machine.key_seenFrom`). All
paths of a project file that is given by such a path are resolved to such paths
(`ProjectFile.IsRooted`), so the file is read, the session is prepared and the plan is made without
a look at the working directory (`Project.planned_seenFrom`), and the plan names its files from the
root (`SessionBuilder.Builds.isRooted`).
-/

namespace StillVideo

namespace Path

variable {path : String}

theorem absolute_of_isAbsolute (h : isAbsolute path = true) (cwd : String) :
    absolute cwd path = normal path := by
  unfold absolute
  rw [if_pos h]

theorem exists_dropSlashes (cs : List Char) : ∃ rest, dropSlashes ('/' :: cs) = '/' :: rest := by
  unfold dropSlashes
  split
  · exact ⟨cs, rfl⟩
  · rename_i hall
    have hne : trimRight (· == '/') ('/' :: cs) ≠ [] := by
      intro hnil
      exact hall (List.all_eq_true.mpr (List.rdropWhile_eq_nil_iff.mp hnil))
    obtain ⟨c, rest, hrest⟩ := List.exists_cons_of_ne_nil hne
    have hprefix : trimRight (· == '/') ('/' :: cs) <+: '/' :: cs := List.rdropWhile_prefix _ _
    rw [hrest] at hprefix
    obtain ⟨rfl, -⟩ := List.cons_prefix_cons.mp hprefix
    exact ⟨rest, hrest⟩

/-- The directory of a path from the root is a path from the root. -/
theorem isAbsolute_dirname (h : isAbsolute path = true) : isAbsolute (dirname path) = true := by
  obtain ⟨cs, hcs⟩ := isAbsolute_iff.mp h
  obtain ⟨before, last, hpath, hlast⟩ :=
    exists_lastField (show '/' ∈ path.toList by rw [hcs]; exact List.mem_cons_self)
  have hhead : ∃ rest, before ++ ['/'] = '/' :: rest := by
    cases before with
    | nil => exact ⟨[], rfl⟩
    | cons c before =>
      rw [hcs, List.cons_append] at hpath
      obtain ⟨rfl, -⟩ := List.cons.inj hpath
      exact ⟨before ++ ['/'], rfl⟩
  obtain ⟨rest, hrest⟩ := hhead
  obtain ⟨kept, hkept⟩ := exists_dropSlashes rest
  refine isAbsolute_iff.mpr ⟨kept, ?_⟩
  show (String.ofList (dropSlashes (cutLast path.toList).1)).toList = '/' :: kept
  rw [String.toList_ofList, hpath, cutLast_append hlast, hrest, hkept]

end Path

/-- A machine as it is seen from another directory. -/
def Machine.seenFrom (m : Machine) (cwd : String) : Machine := { m with cwd }

namespace Machine

variable {m : Machine} {cwd path : String} (h : Path.isAbsolute path = true)
include h

theorem key_seenFrom : (m.seenFrom cwd).key path = m.key path := by
  unfold key
  rw [Path.absolute_of_isAbsolute h, Path.absolute_of_isAbsolute h]

theorem file?_seenFrom : (m.seenFrom cwd).file? path = m.file? path := by
  unfold file?
  rw [key_seenFrom h]
  rfl

theorem pathExists_seenFrom : (m.seenFrom cwd).pathExists path = m.pathExists path := by
  unfold pathExists isDirectory
  rw [file?_seenFrom h, key_seenFrom h]
  rfl

theorem openFile_seenFrom : (m.seenFrom cwd).openFile path = m.openFile path := by
  unfold openFile
  rw [file?_seenFrom h]

theorem size_seenFrom : (m.seenFrom cwd).size path = m.size path := by
  unfold size
  rw [file?_seenFrom h]
  rfl

end Machine

/-! ## Reading a project file -/

namespace ProjectFile

/-- All paths of a project file begin at the root. -/
structure IsRooted (f : ProjectFile) : Prop where
  image : ∀ path ∈ f.image, Path.isAbsolute path = true
  music : ∀ path ∈ f.music, Path.isAbsolute path = true
  sources : ∀ c ∈ f.timeline.clips, Path.isAbsolute c.source = true
  output : ∀ path ∈ f.outputDirectory, Path.isAbsolute path = true

variable {b : Base} {d override : Document} {path : String} {f : ProjectFile}
  (hb : Path.isAbsolute b.directory = true)
include hb

theorem isAbsolute_resolve (h : b.resolve d = .ok path) : Path.isAbsolute path = true := by
  obtain ⟨text, -, h⟩ := bind_eq_ok_iff.mp h
  dsimp only at h
  split at h
  · rename_i hroot
    rwa [← Except.ok.inj h]
  · rw [← Except.ok.inj h]
    exact Path.isAbsolute_join hb _

theorem isAbsolute_readPicture {fields : Fields} {image : Option String} {colour : Document}
    (h : readPicture b fields = .ok (image, colour)) :
    ∀ path ∈ image, Path.isAbsolute path = true := by
  unfold readPicture at h
  dsimp only at h
  split at h
  · obtain ⟨path, hpath, h⟩ := bind_eq_ok_iff.mp h
    obtain ⟨rfl, -⟩ := Prod.mk.inj (Except.ok.inj h)
    rintro _ ⟨⟩
    exact isAbsolute_resolve hb hpath
  · split at h
    · split at h
      · exact absurd h (by simp [refuse])
      · obtain ⟨rfl, -⟩ := Prod.mk.inj (Except.ok.inj h)
        rintro _ ⟨⟩
    · exact absurd h (by simp [refuse])

theorem isAbsolute_readMusic {music : Option String} {volume : Document}
    (h : readMusic b d = .ok (music, volume)) : ∀ path ∈ music, Path.isAbsolute path = true := by
  unfold readMusic at h
  split at h
  · obtain ⟨rfl, -⟩ := Prod.mk.inj (Except.ok.inj h)
    rintro _ ⟨⟩
  · obtain ⟨path, hpath, h⟩ := bind_eq_ok_iff.mp h
    obtain ⟨rfl, -⟩ := Prod.mk.inj (Except.ok.inj h)
    rintro _ ⟨⟩
    exact isAbsolute_resolve hb hpath
  · dsimp only at h
    split at h
    · exact absurd h (by simp [refuse, bind, Except.bind])
    · obtain ⟨path, hpath, h⟩ := bind_eq_ok_iff.mp h
      obtain ⟨_, -, h⟩ := bind_eq_ok_iff.mp h
      obtain ⟨rfl, -⟩ := Prod.mk.inj (Except.ok.inj h)
      rintro _ ⟨⟩
      exact isAbsolute_resolve hb hpath
  · exact absurd h (by simp [refuse])

theorem isAbsolute_readTracks {timeline : Timeline} (h : readTracks b d = .ok timeline) :
    ∀ c ∈ timeline.clips, Path.isAbsolute c.source = true := by
  intro c hc
  obtain ⟨_, _, hread⟩ := exists_readClip_of_mem h hc
  obtain ⟨_, _, _, _, _, -, hclip⟩ := exists_readsClip hread
  exact isAbsolute_resolve hb hclip.source

theorem isAbsolute_readOutput {directory : Option String} {name : Document}
    (hoverride : override.isNull = true) (h : readOutput b override d = .ok (directory, name)) :
    ∀ path ∈ directory, Path.isAbsolute path = true := by
  simp only [readOutput, hoverride, ↓reduceIte] at h
  split at h
  · obtain ⟨rfl, -⟩ := Prod.mk.inj (Except.ok.inj h)
    rintro _ ⟨⟩
  · rename_i fields
    change (if (Document.field "dir" fields).isNull then _ else _) = _ at h
    split at h
    · obtain ⟨rfl, -⟩ := Prod.mk.inj (Except.ok.inj h)
      rintro _ ⟨⟩
    · obtain ⟨given, hgiven, h⟩ := bind_eq_ok_iff.mp h
      obtain ⟨path, hpath, rfl⟩ := map_eq_ok_iff.mp hgiven
      obtain ⟨rfl, -⟩ := Prod.mk.inj (Except.ok.inj h)
      rintro _ ⟨⟩
      exact isAbsolute_resolve hb hpath
  · exact absurd h (by simp [refuse, bind, Except.bind])

theorem isRooted_ofDocument (hoverride : override.isNull = true)
    (h : ofDocument path b override d = .ok f) : f.IsRooted := by
  unfold ofDocument at h
  split at h
  · simp only [bind_eq_ok_iff] at h
    obtain ⟨_, -, ⟨image, colour⟩, himage, _, -, ⟨_, _⟩, -, _, -, ⟨music, _⟩, hmusic,
      timeline, htimeline, ⟨directory, name⟩, houtput, h⟩ := h
    obtain rfl := Except.ok.inj h
    exact ⟨isAbsolute_readPicture hb himage, isAbsolute_readMusic hb hmusic,
      isAbsolute_readTracks hb htimeline, isAbsolute_readOutput hb hoverride houtput⟩
  · exact absurd h (by simp [refuse])

omit hb in
theorem load_seenFrom (hpath : Path.isAbsolute path = true) (override : Document) (m : Machine)
    (cwd : String) : (load (.text path) override (m.seenFrom cwd)).1 =
      (load (.text path) override m).1 := by
  rw [load_eq, load_eq, Document.toPath, ok_bind, ok_bind, Machine.pathExists_seenFrom hpath,
    Machine.size_seenFrom hpath, Machine.openFile_seenFrom hpath,
    Path.absolute_of_isAbsolute hpath, Path.absolute_of_isAbsolute hpath]
  rfl

omit hb in
/-- All paths of a project file that is given by a path from the root begin at the root. -/
theorem isRooted_of_load (hpath : Path.isAbsolute path = true) (hoverride : override.isNull = true)
    {m m' : Machine} (h : load (.text path) override m = (.ok f, m')) : f.IsRooted := by
  rw [load_eq, Document.toPath, ok_bind] at h
  have hok := (Prod.mk.inj h).1
  split at hok
  · exact absurd hok (by simp [refuse])
  · split at hok
    · exact absurd hok (by simp [refuse])
    · obtain ⟨content, -, hcontent⟩ := bind_eq_ok_iff.mp hok
      obtain ⟨d, -, hread⟩ := bind_eq_ok_iff.mp hcontent
      have hnormal : Path.isAbsolute (Path.absolute m.cwd path) = true := by
        rw [Path.absolute_of_isAbsolute hpath]
        exact (Path.normal_of_isAbsolute hpath).1
      exact isRooted_ofDocument (b := ⟨_, m.home⟩) (Path.isAbsolute_dirname hnormal) hoverride hread

end ProjectFile

/-! ## Building a session -/

theorem sourceDirectory_rooted {source : String} (h : Path.isAbsolute source = true)
    (cwd cwd' : String) : sourceDirectory cwd' source = sourceDirectory cwd source := by
  have hdirectory := Path.isAbsolute_dirname h
  unfold sourceDirectory
  dsimp only
  rw [Path.absolute_of_isAbsolute h, Path.absolute_of_isAbsolute h,
    Path.absolute_of_isAbsolute hdirectory, Path.absolute_of_isAbsolute hdirectory]

theorem isAbsolute_sourceDirectory {cwd source directory : String}
    (hsource : Path.isAbsolute source = true) (h : sourceDirectory cwd source = .ok directory) :
    Path.isAbsolute directory = true := by
  unfold sourceDirectory at h
  dsimp only at h
  split at h
  · exact absurd h (by simp [refuse])
  · rw [← Except.ok.inj h]
    exact Path.isAbsolute_dirname hsource

section

variable {timeline : Timeline} {directory name : Document} {cwd : String}
  (hsources : ∀ c ∈ timeline.clips, Path.isAbsolute c.source = true)
include hsources

theorem outputPath_rooted (cwd' : String) :
    outputPath cwd' timeline directory name = outputPath cwd timeline directory name := by
  unfold outputPath
  cases hfirst : timeline.first? with
  | none => rfl
  | some c =>
    dsimp only
    rw [sourceDirectory_rooted (hsources c (List.mem_of_mem_head? hfirst)) cwd cwd']

theorem isAbsolute_outputPath {path : String}
    (hdirectory : ∀ d, directory = .text d → Path.isAbsolute d = true)
    (h : outputPath cwd timeline directory name = .ok path) : Path.isAbsolute path = true := by
  obtain ⟨file, -, h⟩ := bind_eq_ok_iff.mp h
  split at h
  · cases hfirst : timeline.first? with
    | none =>
      rw [hfirst] at h
      exact absurd h (by simp [refuse])
    | some c =>
      rw [hfirst] at h
      obtain ⟨parent, hparent, h⟩ := bind_eq_ok_iff.mp h
      rw [← Except.ok.inj h]
      have hsource := hsources c (List.mem_of_mem_head? hfirst)
      exact Path.isAbsolute_join (isAbsolute_sourceDirectory hsource hparent) file
  · rw [← Except.ok.inj h]
    exact Path.isAbsolute_join (hdirectory _ rfl) file
  · exact absurd h (by simp)

theorem SessionBuilder.prepare_rooted (b : SessionBuilder) (image : Document) (o : SessionOptions)
    (cwd' : String) : b.prepare cwd' image timeline o = b.prepare cwd image timeline o := by
  unfold prepare
  rw [outputPath_rooted hsources cwd']

theorem SessionBuilder.build_seenFrom {b : SessionBuilder} (htool : b.tool.isNull = false)
    (image : Document) (o : SessionOptions) (m : Machine) (cwd : String) :
    (b.build image timeline o (m.seenFrom cwd)).1 = (b.build image timeline o m).1 := by
  unfold build
  rw [Job.machine_bind, Job.machine_bind, SessionBuilder.prepare_rooted hsources b image o]
  show ((Job.ofExcept (b.prepare m.cwd image timeline o) >>= _) _).1 = _
  cases hprepare : b.prepare m.cwd image timeline o with
  | error f => rfl
  | ok make =>
    rw [Job.ofExcept_ok_bind, Job.ofExcept_ok_bind,
      Job.bind_of_ok (requireEncoder_of_given htool _),
      Job.bind_of_ok (requireEncoder_of_given htool _)]
    cases b.checkSize <;> rfl

end

/-- A session that names its files from the root: its inputs, among them the picture, the music and
the source of every clip, and its last argument, the output. -/
structure Session.IsRooted (s : Session) : Prop where
  inputs_given : optionValues "-i" s.args.tail = s.inputs
  inputs_rooted : ∀ i ∈ s.inputs, ∃ path, i = .text path ∧ Path.isAbsolute path = true
  image_mem : s.image ∈ s.inputs
  music_mem : s.music.isNull = false → s.music ∈ s.inputs
  source_mem : ∀ c ∈ s.timeline.clips, .text c.source ∈ s.inputs
  output_last : s.args.getLast? = some (.text s.output)
  output_rooted : Path.isAbsolute s.output = true

namespace SessionBuilder.Builds

variable {b : SessionBuilder} {cwd image : String} {timeline : Timeline} {o : SessionOptions}
  {s : Session}

/-- A session that is built from paths from the root names its files from the root. -/
theorem isRooted (h : b.Builds cwd (.text image) timeline o s)
    (himage : Path.isAbsolute image = true)
    (hmusic : o.music.isNull = true ∨ ∃ path, o.music = .text path ∧ Path.isAbsolute path = true)
    (hsources : ∀ c ∈ timeline.clips, Path.isAbsolute c.source = true)
    (hdirectory : ∀ d, o.outputDirectory = .text d → Path.isAbsolute d = true) : s.IsRooted := by
  have hinputs := h.inputs_eq
  have hmem : ∀ source, source ∈ firstOccurrences [] (timeline.flatten.map (·.clip.source)) ↔
      ∃ c ∈ timeline.clips, c.source = source := by
    intro source
    rw [Timeline.sources_flatten, mem_firstOccurrences, List.mem_map]
    exact and_iff_left List.not_mem_nil
  constructor
  case inputs_given => exact s.optionValues_inputs
  case inputs_rooted =>
    intro i hi
    rw [hinputs, List.mem_append, List.mem_cons] at hi
    rcases hi with (rfl | hi) | hi
    · exact ⟨image, rfl, himage⟩
    · split at hi
      · exact absurd hi List.not_mem_nil
      · rename_i hgiven
        obtain rfl := List.mem_singleton.mp hi
        exact hmusic.resolve_left hgiven
    · obtain ⟨source, hsource, rfl⟩ := List.mem_map.mp hi
      obtain ⟨c, hc, rfl⟩ := (hmem source).mp hsource
      exact ⟨c.source, rfl, hsources c hc⟩
  case image_mem =>
    rw [h.image_eq, hinputs]
    exact List.mem_cons_self
  case music_mem =>
    intro hgiven
    rw [h.music_eq] at hgiven ⊢
    rw [hinputs, hgiven]
    simp
  case source_mem =>
    intro c hc
    rw [h.timeline_eq] at hc
    rw [hinputs]
    exact List.mem_append_right _ (List.mem_map_of_mem ((hmem _).mpr ⟨c, hc, rfl⟩))
  case output_last =>
    rw [s.args_eq, ← List.cons_append, ← List.cons_append,
      List.getLast?_append_of_ne_nil _ (by simp)]
    rfl
  case output_rooted => exact isAbsolute_outputPath hsources hdirectory h.output

end SessionBuilder.Builds

/-! ## Planning -/

namespace ProjectJob

variable {w : Production} {image : String}

/-- A project with a picture builds its session of it. -/
theorem buildSession_eq_of_image (h : w.project.file.image = some image) : buildSession w =
    (if w.project.file.timeline.clipCount = 0 then .error (.refused .noClips)
      else (SessionBuilder.build ⟨w.project.tool, w.project.file.width, w.project.file.height⟩
        (.text image) w.project.file.timeline w.project.options w.machine).1, w) := by
  by_cases hclips : w.project.file.timeline.clipCount = 0
  · rw [buildSession_of_clipless hclips, if_pos hclips]
  · refine Prod.ext ?_ (buildSession_of_image h)
    unfold buildSession
    rw [bind_eq, project_eq, if_neg hclips]
    dsimp only
    rw [if_neg hclips, bind_of_ok (requireImage_of_image h)]
    rfl

/-- A new project with a picture is planned without changing the machine. -/
theorem plan_of_image (h : w.project.file.image = some image) (hnew : w.project.IsNew) :
    (plan w).1 = Session.planWithArguments <$> (buildSession w).1 ∧
      (plan w).2.machine = w.machine := by
  have hsame := buildSession_of_image h
  unfold plan
  rw [bind_eq, validate_of_none hnew.session]
  rcases hbuild : buildSession w with ⟨f | s, w'⟩ <;> rw [hbuild] at hsame <;> obtain rfl := hsame
  · refine ⟨rfl, ?_⟩
    dsimp only
    rw [Production.tidied_of_not_created hnew.created, ite_self]
  · exact ⟨rfl, rfl⟩

end ProjectJob

/-- Reads a project and plans it. -/
def Project.planned (path : Document) (o : ProjectOptions) (observers : Observers) :
    Job Document := do
  let p ← Project.load path o
  let (result, _) ← p.work observers ProjectJob.plan
  Job.ofExcept result

namespace Project

variable {path : String} {o : ProjectOptions} {m : Machine}

/-- A plan is that of the project which has been read, and planning leaves the machine as it is. -/
theorem planned_of_image {observers : Observers} {p : Project}
    (hload : load (.text path) o m = (.ok p, m)) {image : String} (h : p.file.image = some image) :
    planned (.text path) o observers m =
      (Session.planWithArguments <$> (ProjectJob.buildSession ⟨m, p, observers⟩).1, m) := by
  obtain ⟨hplan, hmachine⟩ :=
    ProjectJob.plan_of_image (w := ⟨m, p, observers⟩) h (isNew_of_load hload).1
  unfold planned
  rw [Job.bind_of_ok hload, Job.bind_of_ok (work_eq p observers ProjectJob.plan m), hplan, hmachine]
  cases (ProjectJob.buildSession ⟨m, p, observers⟩).1 <;> rfl

/-- Reading a project that is given by a path from the root does not look at the working directory,
and leaves the machine as it is. -/
theorem load_seenFrom (hpath : Path.isAbsolute path = true) (cwd : String) :
    load (.text path) o (m.seenFrom cwd) = ((load (.text path) o m).1, m.seenFrom cwd) := by
  rw [load_eq, load_eq, ProjectFile.load_seenFrom hpath]

theorem isRooted_of_load (hpath : Path.isAbsolute path = true)
    (hoverride : o.outputOverride.isNull = true) {m' : Machine} {p : Project}
    (h : load (.text path) o m = (.ok p, m')) : p.file.IsRooted ∧ p.tool = o.tool := by
  obtain ⟨file, _, hfile, h⟩ := Job.bind_eq_ok_iff.mp h
  obtain ⟨rfl, -⟩ := Job.pure_eq_ok_iff.mp h
  exact ⟨ProjectFile.isRooted_of_load hpath hoverride hfile, rfl⟩

theorem buildSession_seenFrom {p : Project} {image : String} (h : p.file.image = some image)
    (hrooted : p.file.IsRooted) (htool : p.tool.isNull = false) (observers : Observers)
    (m : Machine) (cwd : String) :
    (ProjectJob.buildSession ⟨m.seenFrom cwd, p, observers⟩).1 =
      (ProjectJob.buildSession ⟨m, p, observers⟩).1 := by
  rw [ProjectJob.buildSession_eq_of_image h, ProjectJob.buildSession_eq_of_image h]
  dsimp only
  split
  · rfl
  · exact SessionBuilder.build_seenFrom hrooted.sources htool _ _ m cwd

/-- The session of a project names its files from the root if the project does. -/
theorem isRooted_of_buildSession {p : Project} {image : String} (h : p.file.image = some image)
    (hrooted : p.file.IsRooted) {observers : Observers} {s : Session}
    (hbuild : (ProjectJob.buildSession ⟨m, p, observers⟩).1 = .ok s) : s.IsRooted := by
  rw [ProjectJob.buildSession_eq_of_image h] at hbuild
  dsimp only at hbuild
  split at hbuild
  · exact absurd hbuild (by simp)
  · refine (SessionBuilder.builds_of_build (Prod.ext hbuild rfl)).isRooted
      (hrooted.image image h) ?_ hrooted.sources ?_
    · show (Document.ofText? p.file.music).isNull = true ∨ _
      cases hmusic : p.file.music with
      | none => exact .inl rfl
      | some path => exact .inr ⟨path, congrArg Document.ofText? hmusic, hrooted.music path hmusic⟩
    · intro d hd
      have hd : Document.ofText? p.file.outputDirectory = .text d := hd
      cases hdirectory : p.file.outputDirectory with
      | none =>
        rw [hdirectory] at hd
        exact absurd hd (by simp [Document.ofText?])
      | some directory =>
        rw [hdirectory] at hd
        have hsame : directory = d := by simpa [Document.ofText?] using hd
        exact hrooted.output d (hsame ▸ hdirectory)

/-- **Plans from the root.** A project with a picture, given by a path from the root, without
another output and with a known encoder, is planned without a look at the working directory: seen
from any directory it has the same plan, or the same fault. A plan names all its files from the
root. -/
theorem planned_seenFrom (hpath : Path.isAbsolute path = true)
    (hoverride : o.outputOverride.isNull = true) (htool : o.tool.isNull = false)
    (himage : ∀ p m', load (.text path) o m = (.ok p, m') → p.file.image ≠ none)
    (observers : Observers) :
    (∀ cwd, planned (.text path) o observers (m.seenFrom cwd) =
      ((planned (.text path) o observers m).1, m.seenFrom cwd)) ∧
    ∀ d, (planned (.text path) o observers m).1 = .ok d →
      ∃ s : Session, d = s.planWithArguments ∧ s.IsRooted := by
  have hread := load_seenFrom (o := o) (m := m) hpath
  -- the machine is seen from its own directory, too
  have hself := hread m.cwd
  rcases hload : (load (.text path) o m).1 with f | p <;> simp only [hload] at hread hself
  · have hfault : ∀ cwd, planned (.text path) o observers (m.seenFrom cwd) =
        (.error f, m.seenFrom cwd) := fun cwd => Job.bind_of_error (hread cwd)
    have hhere := hfault m.cwd
    change planned (.text path) o observers m = (.error f, m) at hhere
    rw [hhere]
    exact ⟨hfault, fun d hd => absurd hd (by simp)⟩
  · change load (.text path) o m = (.ok p, m) at hself
    obtain ⟨image, hp⟩ := Option.ne_none_iff_exists'.mp (himage p m hself)
    obtain ⟨hrooted, htool'⟩ := isRooted_of_load hpath hoverride hself
    have hplanned : ∀ cwd, planned (.text path) o observers (m.seenFrom cwd) =
        (Session.planWithArguments <$> (ProjectJob.buildSession ⟨m, p, observers⟩).1,
          m.seenFrom cwd) := by
      intro cwd
      rw [planned_of_image (hread cwd) hp,
        buildSession_seenFrom hp hrooted (htool' ▸ htool) observers m cwd]
    have hhere := hplanned m.cwd
    change planned (.text path) o observers m = (_, m) at hhere
    rw [hhere]
    refine ⟨hplanned, fun d hd => ?_⟩
    obtain ⟨s, hbuild, rfl⟩ := map_eq_ok_iff.mp hd
    exact ⟨s, rfl, isRooted_of_buildSession hp hrooted hbuild⟩

/-- A machine with a project file whose paths are written in several ways: from the home directory,
from the directory of the file, and with an empty name of a directory. -/
def scattered : Machine :=
  let clip (source : String) := Document.mapping [(.text "source", .text source),
    (.text "duration", .int 1)]
  let track := Document.mapping [(.text "clips", .sequence [clip "../voice.mp3", clip "~/b.mp3"])]
  { Machine.bare with
    home := "/home/user"
    files := [("/shows/show.yaml", .data (.mapping [(.text "stillcast", .int 1),
      (.text "image", .text "~"), (.text "music", .text "."),
      (.text "tracks", .sequence [track])]))] }

/-- An encoder that is given, and nothing else. -/
def givenEncoder : ProjectOptions := ⟨.null, false, false, .null, .text "ffmpeg"⟩

/-- This project has a picture, and from every directory it has the same plan. -/
theorem planned_scattered : ∃ d, ∀ cwd,
    (planned (.text "/shows/show.yaml") givenEncoder .standard (scattered.seenFrom cwd)).1 = .ok d ∧
      ∃ s : Session, d = s.planWithArguments ∧ s.IsRooted := by
  have hpicture : (match (load (.text "/shows/show.yaml") givenEncoder scattered).1 with
      | .ok p => p.file.image.isSome
      | .error _ => false) = true := by decide +kernel
  have hok :
      (planned (.text "/shows/show.yaml") givenEncoder .standard scattered).1.isOk = true := by
    decide +kernel
  have himage : ∀ p m', load (.text "/shows/show.yaml") givenEncoder scattered = (.ok p, m') →
      p.file.image ≠ none := by
    intro p m' hload
    rw [hload] at hpicture
    exact Option.isSome_iff_ne_none.mp hpicture
  obtain ⟨hsame, hrooted⟩ := planned_seenFrom (by decide) rfl rfl himage .standard
  cases hplan : (planned (.text "/shows/show.yaml") givenEncoder .standard scattered).1 with
  | error f =>
    rw [hplan] at hok
    exact absurd hok Bool.false_ne_true
  | ok d => exact ⟨d, fun cwd => ⟨by rw [hsame cwd, hplan], hrooted d hplan⟩⟩

end Project

end StillVideo
