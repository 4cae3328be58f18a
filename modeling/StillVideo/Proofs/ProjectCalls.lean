import StillVideo.Proofs.JobSteps
import StillVideo.Proofs.FileTrees
import StillVideo.Proofs.RunLifecycle
import StillVideo.Proofs.SessionInputs

/-!
# Calls on a project

A project is validated, planned, run and cleaned up in any order. This file says what each call does
to the directory, the picture and the session of the project (`ProjectJob.validate_of_none`,
`ProjectJob.run_cases`), and what a history of calls is (`Production.afterCalls`).
-/

namespace StillVideo

/-! ## Steps of the work on a project -/

namespace ProjectJob

variable {α β : Type}

theorem bind_eq (x : ProjectJob α) (f : α → ProjectJob β) (w : Production) :
    (x >>= f) w = match x w with
      | (.ok a, w') => f a w'
      | (.error e, w') => (.error e, w') := by
  simp only [bind, ExceptT.bind, ExceptT.mk, StateT.bind]
  rcases x w with ⟨e | a, w'⟩ <;> rfl

theorem bind_of_ok {x : ProjectJob α} {f : α → ProjectJob β} {w w' : Production} {a : α}
    (h : x w = (.ok a, w')) : (x >>= f) w = f a w' := by
  rw [bind_eq, h]

theorem bind_of_error {x : ProjectJob α} {f : α → ProjectJob β} {w w' : Production} {e : Fault}
    (h : x w = (.error e, w')) : (x >>= f) w = (.error e, w') := by
  rw [bind_eq, h]

theorem get_bind (f : Production → ProjectJob β) (w : Production) : (get >>= f) w = f w w :=
  bind_of_ok rfl

theorem modify_bind (g : Production → Production) (f : Unit → ProjectJob β) (w : Production) :
    (modify g >>= f) w = f () (g w) :=
  bind_of_ok rfl

theorem onMachine_eq (j : Job α) (w : Production) :
    onMachine j w = ((j w.machine).1, { w with machine := (j w.machine).2 }) := rfl

theorem project_eq (w : Production) : project w = (.ok w.project, w) := rfl

theorem onFault_eq (p : Fault → Bool) (job : ProjectJob α) (tidy : ProjectJob Unit)
    (w : Production) : onFault p job tidy w = match job w with
      | (.ok a, w') => (.ok a, w')
      | (.error f, w') =>
        (if p f then tidy >>= fun _ => (throw f : ProjectJob α) else throw f) w' := by
  unfold onFault
  simp only [tryCatch, tryCatchThe, MonadExceptOf.tryCatch, ExceptT.tryCatch, ExceptT.mk, bind,
    StateT.bind]
  rcases job w with ⟨f | a, w'⟩ <;> rfl

end ProjectJob

theorem Project.work_eq {α : Type} (p : Project) (o : Observers) (work : ProjectJob α)
    (m : Machine) : p.work o work m =
      (.ok ((work ⟨m, p, o⟩).1, (work ⟨m, p, o⟩).2), (work ⟨m, p, o⟩).2.machine) := rfl

/-! ## Files that stay -/

/-- Two machines with the same files and directories, seen from the same place. -/
structure Machine.SameFiles (m m' : Machine) : Prop where
  files : m'.files = m.files
  directories : m'.directories = m.directories
  cwd : m'.cwd = m.cwd

namespace Machine.SameFiles

variable {m m' m'' : Machine}

theorem refl (m : Machine) : m.SameFiles m := ⟨rfl, rfl, rfl⟩

theorem trans (h : m.SameFiles m') (h' : m'.SameFiles m'') : m.SameFiles m'' :=
  ⟨h'.files.trans h.files, h'.directories.trans h.directories, h'.cwd.trans h.cwd⟩

theorem key_eq (h : m.SameFiles m') (path : String) : m'.key path = m.key path := by
  unfold key
  rw [h.cwd]

theorem holds_eq (h : m.SameFiles m') (root : String) : m'.holds root = m.holds root := by
  unfold holds
  rw [h.files, h.directories]

theorem pathExists_eq (h : m.SameFiles m') (path : String) :
    m'.pathExists path = m.pathExists path := by
  unfold pathExists file? isDirectory
  rw [h.key_eq, h.files, h.directories]

end Machine.SameFiles

theorem findEncoder_machine (m : Machine) : (findEncoder m).2 = m := by
  unfold findEncoder
  rw [Job.machine_bind]
  dsimp only
  split
  · split <;> rfl
  · cases m.onPath with
    | some tool => rfl
    | none =>
      cases m.bundled with
      | error reason => rfl
      | ok tool =>
        dsimp only
        split <;> rfl

theorem requireEncoder_machine (tool : Document) (m : Machine) :
    (requireEncoder tool m).2 = m := by
  unfold requireEncoder
  split
  · have hfind := findEncoder_machine m
    rcases h : findEncoder m with ⟨e | path, m'⟩
    · rw [Job.bind_of_error h]
      rwa [h] at hfind
    · rw [Job.bind_of_ok h]
      rwa [h] at hfind
  · rfl

/-- Building a session only looks at the machine. -/
theorem SessionBuilder.build_machine (b : SessionBuilder) (image : Document) (timeline : Timeline)
    (o : SessionOptions) (m : Machine) : (b.build image timeline o m).2 = m := by
  unfold build
  rw [Job.machine_bind]
  cases hprepare : b.prepare m.cwd image timeline o with
  | error e => rfl
  | ok make =>
    rw [Job.ofExcept_ok_bind]
    have hrequire := requireEncoder_machine b.tool m
    rcases h : requireEncoder b.tool m with ⟨e | tool, m'⟩
    · rw [Job.bind_of_error h]
      rwa [h] at hrequire
    · rw [Job.bind_of_ok h]
      cases b.checkSize <;> rwa [h] at hrequire

/-- A run of the encoder leaves all files where they are. -/
theorem Supervisor.run_sameFiles (s : Supervisor) (o : Observers) (m : Machine) :
    m.SameFiles (s.run o m).2 := by
  unfold run
  split
  · exact .refl m
  split
  · exact .refl m
  split
  · exact .refl m
  dsimp only
  split <;> exact ⟨rfl, rfl, rfl⟩

theorem Supervisor.run_sameHost (s : Supervisor) (o : Observers) (m : Machine) :
    m.SameHost (s.run o m).2 := by
  unfold run
  split
  · exact .refl m
  split
  · exact .refl m
  split
  · exact .refl m
  dsimp only
  split <;> exact ⟨rfl, rfl, rfl⟩

/-! ## Printing -/

/-- The machine with one more line printed, unless it is to be quiet. -/
def Machine.withLine (m : Machine) (line : String) : Machine :=
  if m.quiet then m else m.note (.printed (line ++ "\n"))

/-- Why a machine does not print a line, if it is not quiet and does not print it. -/
def Machine.unprinted? (m : Machine) (line : String) : Option HostFault :=
  if m.quiet then none else m.refuses (.printed (line ++ "\n"))

theorem Machine.withLine_sameFiles (m : Machine) (line : String) :
    m.SameFiles (m.withLine line) := by
  unfold withLine
  split
  · exact .refl m
  · exact ⟨rfl, rfl, rfl⟩

@[simp] theorem Machine.unprinted?_withLine (m : Machine) (line next : String) :
    (m.withLine line).unprinted? next = m.unprinted? next := by
  unfold withLine
  split <;> rfl

theorem Job.printLoud_eq (line : String) (m : Machine) :
    Job.printLoud line m = match m.unprinted? line with
      | none => (.ok (), m.withLine line)
      | some f => (.error (.host f), m) := by
  unfold Job.printLoud Machine.unprinted? Machine.withLine
  rw [Job.machine_bind]
  cases m.quiet with
  | true => rfl
  | false => exact Job.act_eq _ m

/-- Either the system refuses something, or its encoder cannot be given any arguments. -/
def Machine.Withholds (m : Machine) (f : HostFault) : Prop :=
  (∃ e, m.refuses e = some f) ∨ ∃ reason, m.encoder = .unusable reason ∧ f = .value reason

theorem Machine.SameHost.withholds {m m' : Machine} (h : m.SameHost m') {f : HostFault}
    (hf : m'.Withholds f) : m.Withholds f := by
  unfold Withholds at hf
  rwa [h.refuses, h.encoder] at hf

theorem Machine.withholds_of_unprinted {m : Machine} {line : String} {f : HostFault}
    (h : m.unprinted? line = some f) : m.Withholds f := by
  unfold unprinted? at h
  split at h
  · exact absurd h (by simp)
  · exact .inl ⟨_, h⟩

/-- What the system refuses in a run, the machine withholds. -/
theorem Supervisor.withholds_of_run {session : Session} {o : Observers} {m : Machine}
    {f : HostFault} (h : ((ofSession session).run o m).1.result = .error (.host f)) :
    m.Withholds f := by
  rcases ((run_lifecycle session o m).refused f).mp h with ⟨-, hf | ⟨-, reason, rfl, hreason⟩⟩
  · unfold unannounced? at hf
    split at hf
    · exact absurd hf (by simp)
    · exact .inl ⟨_, hf⟩
  · unfold Machine.encoderFor at hreason
    split at hreason
    · exact absurd hreason (by simp)
    · rename_i hrefused
      obtain rfl := Encoder.unusable.inj hreason
      exact .inl ⟨_, hrefused⟩
    · exact .inr ⟨reason, hreason, rfl⟩

/-- What a run ends with, if it is a fault, is explained, or the machine withholds it. -/
theorem Supervisor.explained_or_withheld {session : Session} {o : Observers} {m : Machine}
    {f : Fault} (h : ((ofSession session).run o m).1.result = .error f) :
    f.isExplained = true ∨ ∃ g, f = .host g ∧ m.Withholds g := by
  rcases (run_lifecycle session o m).raises (by rw [h]; simp) with ⟨failure, hf⟩ | ⟨g, hg⟩
  · obtain rfl := Except.error.inj (h.symm.trans hf)
    exact .inl rfl
  · exact .inr ⟨g, Except.error.inj (h.symm.trans hg), withholds_of_run hg⟩

theorem Supervisor.job_eq (s : Supervisor) (o : Observers) (m : Machine) :
    s.job o m = (.ok (s.run o m).1, (s.run o m).2) := rfl

/-! ## Drawing the picture -/

/-- A picture is drawn into its file, or nothing is changed. -/
theorem drawPlaceholder_cases (colour : Document) (path : String) (width height : Document)
    (m : Machine) :
    (∃ f, drawPlaceholder colour path width height m = (.error f, m)) ∨
    ∃ picture, drawPlaceholder colour path width height m =
      (.ok path, (m.note (.drew path picture)).withFile path .media) := by
  unfold drawPlaceholder
  cases hcolour : Colour.ofValue colour with
  | error f => exact .inl ⟨f, rfl⟩
  | ok c =>
  rw [Job.ofExcept_ok_bind]
  cases hwidth : width.toWhole with
  | error f => exact .inl ⟨f, rfl⟩
  | ok w =>
  rw [Job.ofExcept_ok_bind]
  cases hheight : height.toWhole with
  | error f => exact .inl ⟨f, rfl⟩
  | ok h =>
  rw [Job.ofExcept_ok_bind]
  cases hsize : requireSize w h with
  | error f => exact .inl ⟨f, rfl⟩
  | ok _ =>
  rw [Job.ofExcept_ok_bind]
  cases hchannels : requireChannels c with
  | error f => exact .inl ⟨f, rfl⟩
  | ok _ =>
  rw [Job.ofExcept_ok_bind]
  split
  · exact .inl ⟨.noPixel, rfl⟩
  · show _ ∨ ∃ picture, (Job.act _ >>= _) m = _
    cases hdrew : m.refuses (.drew path (pictureText w h c)) with
    | some f => exact .inl ⟨.host f, Job.bind_of_error (by rw [Job.act_eq, hdrew])⟩
    | none => exact .inr ⟨_, Job.bind_of_ok (by rw [Job.act_eq, hdrew])⟩

namespace Production

/-- A production without the directory of its picture, if it has created one that is not to be
kept. -/
def tidied (w : Production) : Production :=
  if !w.project.keep && w.project.created then
    { w with
      machine := (w.machine.note (.removedTree w.project.cache.display)).withoutTree
        w.project.cache.display
      project := { w.project with created := false } }
  else w

/-- The production with the picture of its project in a directory. -/
def drawn (w : Production) (directory picture : String) : Production :=
  let path := Project.picturePath directory w.machine.now
  { w with machine := (w.machine.note (.drew path picture)).withFile path .media }

theorem tidied_sameHost (w : Production) : w.machine.SameHost w.tidied.machine := by
  unfold tidied
  split
  · exact (w.machine.sameHost_note _).trans (Machine.sameHost_withoutTree _ _)
  · exact .refl _

theorem project_drawn (w : Production) (directory picture : String) :
    (w.drawn directory picture).project = w.project := by
  unfold drawn
  dsimp only

end Production

namespace ProjectJob

open Project (ownDirectory picturePath)

variable {w w' : Production}

theorem cleanup_eq (w : Production) : cleanup w = (.ok (), w.tidied) := by
  unfold cleanup Production.tidied
  rw [bind_eq, project_eq]
  dsimp only
  split <;> rfl

theorem requireCache_of_null (h : w.project.cache = .null) :
    requireCache w = match w.machine.refuses (.madeTemporary ownDirectory) with
      | none => (.ok ownDirectory,
        { w with
          machine := (w.machine.note (.madeTemporary ownDirectory)).withDirectory ownDirectory
          project := { w.project with cache := .text ownDirectory, created := true } })
      | some f => (.error (.host f), w) := by
  have hmade : Job.makeTemporary "stillcast-run-" none w.machine = _ := Job.makeTemporary_eq ..
  rw [show Job.temporaryPath "stillcast-run-" none = ownDirectory from rfl] at hmade
  unfold requireCache
  rw [bind_eq, project_eq]
  dsimp only
  rw [h, if_pos (by rfl), bind_eq, onMachine_eq, hmade]
  cases w.machine.refuses (.madeTemporary ownDirectory) <;> rfl

theorem requireCache_of_text {directory : String} (h : w.project.cache = .text directory) :
    requireCache w = if w.machine.pathExists directory then (.ok directory, w) else
      match w.machine.refuses (.madeDirectories directory) with
      | none => (.ok directory, { w with
          machine := (w.machine.note (.madeDirectories directory)).withDirectory directory })
      | some f => (.error (.host f), w) := by
  unfold requireCache
  rw [bind_eq, project_eq]
  dsimp only
  rw [h, if_neg (by exact Bool.false_ne_true)]
  have hpath : onMachine (Job.ofExcept (Document.text directory).toPath) w = (.ok directory, w) :=
    rfl
  rw [bind_of_ok hpath, bind_eq, onMachine_eq, Job.machine_bind]
  cases w.machine.pathExists directory with
  | true => rfl
  | false =>
    rw [Bool.not_false, if_pos rfl, Job.makeDirectories_eq]
    cases w.machine.refuses (.madeDirectories directory) <;> rfl

theorem requireCache_of_error {f : Fault} (hnull : w.project.cache.isNull = false)
    (h : w.project.cache.toPath = .error f) : requireCache w = (.error f, w) := by
  unfold requireCache
  rw [bind_eq, project_eq]
  dsimp only
  rw [hnull, if_neg Bool.false_ne_true, h]
  rfl

/-- A cache is not given, a directory, or nothing that names one. -/
theorem cache_cases (cache : Document) :
    cache = .null ∨ (∃ directory, cache = .text directory) ∨
      ∃ f, cache.isNull = false ∧ cache.toPath = .error f := by
  rcases cache with (_ | _ | _ | _ | _ | _ | _ | _) | _ | _ | _ <;>
    first
    | exact .inl rfl
    | exact .inr (.inl ⟨_, rfl⟩)
    | exact .inr (.inr ⟨_, rfl, rfl⟩)

/-- How the directory is had: it has just been created, it is the one that is given, which may have
been created just now, or it is not had and nothing has changed. -/
theorem requireCache_cases (w : Production) :
    (w.project.cache.isNull = true ∧ requireCache w = (.ok ownDirectory, { w with
      machine := (w.machine.note (.madeTemporary ownDirectory)).withDirectory ownDirectory
      project := { w.project with cache := .text ownDirectory, created := true } })) ∨
    (∃ given, requireCache w = (.ok given, { w with
      machine := if w.machine.pathExists given then w.machine else
        (w.machine.note (.madeDirectories given)).withDirectory given })) ∨
    ∃ f, requireCache w = (.error f, w) := by
  rcases cache_cases w.project.cache with hnull | ⟨given, htext⟩ | ⟨f, hnull, hf⟩
  · rw [requireCache_of_null hnull]
    cases w.machine.refuses (.madeTemporary ownDirectory) with
    | none => exact .inl ⟨by rw [hnull]; rfl, rfl⟩
    | some f => exact .inr (.inr ⟨_, rfl⟩)
  · rw [requireCache_of_text htext]
    by_cases hexists : w.machine.pathExists given = true
    · exact .inr (.inl ⟨given, by rw [if_pos hexists, if_pos hexists]⟩)
    · rw [if_neg hexists]
      cases w.machine.refuses (.madeDirectories given) with
      | none => exact .inr (.inl ⟨given, by rw [if_neg hexists]⟩)
      | some f => exact .inr (.inr ⟨_, rfl⟩)
  · exact .inr (.inr ⟨f, requireCache_of_error hnull hf⟩)

/-- A directory that is had has just been created, or it is the one that is given. -/
theorem requireCache_eq_ok {directory : String} (h : requireCache w = (.ok directory, w')) :
    (w.project.cache.isNull = true ∧ w' = { w with
      machine := (w.machine.note (.madeTemporary ownDirectory)).withDirectory ownDirectory
      project := { w.project with cache := .text ownDirectory, created := true } }) ∨
    ∃ given, w' = { w with machine := if w.machine.pathExists given then w.machine else
      (w.machine.note (.madeDirectories given)).withDirectory given } := by
  rcases requireCache_cases w with ⟨hnull, hcreated⟩ | ⟨given, hgiven⟩ | ⟨f, hf⟩
  · exact .inl ⟨hnull, (Prod.mk.inj (h.symm.trans hcreated)).2⟩
  · exact .inr ⟨given, (Prod.mk.inj (h.symm.trans hgiven)).2⟩
  · exact absurd (Prod.mk.inj (h.symm.trans hf)).1 (by simp)

theorem requireImage_of_image {image : String} (h : w.project.file.image = some image) :
    requireImage w = (.ok image, w) := by
  unfold requireImage
  rw [bind_eq, project_eq]
  dsimp only
  rw [h]
  rfl

/-- A picture that is asked for is not drawn, or drawn into the directory. -/
theorem requireImage_cases (h : w.project.file.image = none) {directory : String}
    (hcache : requireCache w = (.ok directory, w')) :
    (∃ f, requireImage w = (.error f, w')) ∨
    ∃ picture, requireImage w =
      (.ok (picturePath directory w'.machine.now), w'.drawn directory picture) := by
  have hdraw : requireImage w = onMachine (do
      let path := Path.join directory ((← Job.machine).now.stamp ++ "-background.png")
      drawPlaceholder w.project.file.colour path (.int w.project.file.width)
        (.int w.project.file.height)) w' := by
    unfold requireImage
    rw [bind_eq, project_eq]
    dsimp only
    rw [h]
    dsimp only
    rw [bind_of_ok hcache]
  rw [hdraw, onMachine_eq, Job.machine_bind]
  rcases drawPlaceholder_cases w.project.file.colour
    (Path.join directory (w'.machine.now.stamp ++ "-background.png"))
    (.int w.project.file.width) (.int w.project.file.height) w'.machine with ⟨f, hf⟩ | ⟨p, hp⟩
  · rw [hf]
    exact .inl ⟨f, rfl⟩
  · rw [hp]
    exact .inr ⟨p, rfl⟩

/-- How a session is built for a project without a picture: there are no clips, the directory cannot
be had, the picture is not drawn, or it is drawn and whatever comes after leaves it where it is. -/
inductive Drawing (w : Production) : Except Fault Session → Production → Prop
  | clipless (h : w.project.file.timeline.clipCount = 0) :
      Drawing w (.error (.refused .noClips)) w
  | unreachable {f : Fault} (h : requireCache w = (.error f, w)) : Drawing w (.error f) w
  | refused {directory : String} {w' : Production} (f : Fault)
      (h : requireCache w = (.ok directory, w')) : Drawing w (.error f) w'
  | drawn {directory : String} {w' : Production} (picture : String) (r : Except Fault Session)
      (h : requireCache w = (.ok directory, w'))
      (hr : ∀ s, r = .ok s → s.image = .text (picturePath directory w'.machine.now)) :
      Drawing w r (w'.drawn directory picture)

/-- The end of building a session, once there is a picture. -/
theorem buildSession_of_image_ok {image : String} (hclips : w.project.file.timeline.clipCount ≠ 0)
    (h : requireImage w = (.ok image, w')) : ∃ r, buildSession w = (r, w') ∧
      ∀ s, r = .ok s → s.image = .text image := by
  have hbuild := SessionBuilder.build_machine
    ⟨w.project.tool, w.project.file.width, w.project.file.height⟩ (.text image)
    w.project.file.timeline w.project.options w'.machine
  refine ⟨(SessionBuilder.build ⟨w.project.tool, w.project.file.width, w.project.file.height⟩
    (.text image) w.project.file.timeline w.project.options w'.machine).1, ?_, ?_⟩
  · unfold buildSession
    rw [bind_eq, project_eq]
    dsimp only
    rw [if_neg hclips, bind_of_ok h, onMachine_eq, hbuild]
  · intro s hs
    exact (SessionBuilder.builds_of_build (Prod.ext hs rfl)).image_eq

theorem buildSession_of_clipless (h : w.project.file.timeline.clipCount = 0) :
    buildSession w = (.error (.refused .noClips), w) := by
  unfold buildSession
  rw [bind_eq, project_eq]
  dsimp only
  rw [if_pos h]
  rfl

theorem buildSession_of_image_error {f : Fault} (hclips : w.project.file.timeline.clipCount ≠ 0)
    (h : requireImage w = (.error f, w')) : buildSession w = (.error f, w') := by
  unfold buildSession
  rw [bind_eq, project_eq]
  dsimp only
  rw [if_neg hclips, bind_of_error h]

/-- A project with a picture builds its session and nothing else. -/
theorem buildSession_of_image {image : String} (h : w.project.file.image = some image) :
    (buildSession w).2 = w := by
  by_cases hclips : w.project.file.timeline.clipCount = 0
  · rw [buildSession_of_clipless hclips]
  · obtain ⟨r, hbuild, -⟩ := buildSession_of_image_ok hclips (requireImage_of_image h)
    rw [hbuild]

theorem buildSession_drawing (h : w.project.file.image = none) :
    Drawing w (buildSession w).1 (buildSession w).2 := by
  by_cases hclips : w.project.file.timeline.clipCount = 0
  · rw [buildSession_of_clipless hclips]
    exact .clipless hclips
  have hcached : ∀ {directory w'}, requireCache w = (.ok directory, w') →
      Drawing w (buildSession w).1 (buildSession w).2 := by
    intro directory w' hcache
    rcases requireImage_cases h hcache with ⟨f, hf⟩ | ⟨picture, hdrawn⟩
    · rw [buildSession_of_image_error hclips hf]
      exact .refused f hcache
    · obtain ⟨r, hbuild, hr⟩ := buildSession_of_image_ok hclips hdrawn
      rw [hbuild]
      exact .drawn picture r hcache hr
  rcases requireCache_cases w with ⟨-, hcreated⟩ | ⟨given, hgiven⟩ | ⟨f, hf⟩
  · exact hcached hcreated
  · exact hcached hgiven
  · have himage : requireImage w = (.error f, w) := by
      unfold requireImage
      rw [bind_eq, project_eq]
      dsimp only
      rw [h]
      dsimp only
      rw [bind_of_error hf]
    rw [buildSession_of_image_error hclips himage]
    exact .unreachable hf

/-- What having the directory and drawing the picture keep is kept by building the session. -/
theorem buildSession_invariant {P : Production → Prop} (h : P w)
    (hcache : ∀ {directory w'}, requireCache w = (.ok directory, w') → P w')
    (hdrawn : ∀ {w'} directory picture, P w' → P (w'.drawn directory picture)) :
    P (buildSession w).2 := by
  cases himage : w.project.file.image with
  | some image =>
    rw [buildSession_of_image himage]
    exact h
  | none =>
    have hdrawing := buildSession_drawing himage
    generalize buildSession w = outcome at hdrawing ⊢
    obtain ⟨r, w'⟩ := outcome
    cases hdrawing with
    | clipless => exact h
    | unreachable => exact h
    | refused f hrequire => exact hcache hrequire
    | drawn picture r hrequire => exact hdrawn _ picture (hcache hrequire)

/-! ## Validating and running -/

theorem validate_of_some {s : Session} (h : w.project.session = some s) :
    validate w = (.ok s, w) := by
  unfold validate
  rw [bind_eq, project_eq]
  dsimp only
  rw [h]
  rfl

/-- The first validation keeps the session that it builds; a fault that the program explains tidies
up, any other one does not. -/
theorem validate_of_none (h : w.project.session = none) :
    validate w = match buildSession w with
      | (.ok s, w') => (.ok s, { w' with project := { w'.project with session := some s } })
      | (.error f, w') => (.error f, if f.isExplained then w'.tidied else w') := by
  unfold validate
  rw [bind_eq, project_eq]
  dsimp only
  rw [h]
  dsimp only
  rw [bind_eq, onFault_eq]
  rcases buildSession w with ⟨f | s, w'⟩
  · dsimp only
    cases hf : f.isExplained with
    | true =>
      rw [if_pos rfl, bind_of_ok (cleanup_eq w')]
      rfl
    | false => rfl
  · rfl

theorem encode_eq (s : Session) (w : Production) :
    encode s w = (((Supervisor.ofSession s).run w.observers w.machine).1.result,
      (Production.tidied
        { machine := ((Supervisor.ofSession s).run w.observers w.machine).2
          observers := ((Supervisor.ofSession s).run w.observers w.machine).1.observers
          project := { w.project with
            supervisor := some ((Supervisor.ofSession s).run w.observers w.machine).1.supervisor }
          })) := by
  generalize hrun : (Supervisor.ofSession s).run w.observers w.machine = outcome
  unfold encode
  rw [get_bind, bind_eq, onMachine_eq, Supervisor.job_eq, hrun]
  dsimp only
  rw [modify_bind, bind_of_ok (cleanup_eq _)]
  cases outcome.1.result <;> rfl

end ProjectJob

namespace Production

/-- Two productions whose projects have the same files, directory and session. -/
structure Alike (w w' : Production) : Prop where
  machine : w.machine.SameFiles w'.machine
  project : ∃ supervisor, w'.project = { w.project with supervisor }

theorem Alike.refl (w : Production) : w.Alike w := ⟨.refl _, w.project.supervisor, rfl⟩

/-- The session and the machine with which a run starts its encoder, if it starts one. -/
def starts? (w : Production) : Option (Session × Machine) :=
  match ProjectJob.validate w with
  | (.ok s, w') =>
    if w'.project.dryRun || Supervisor.heldBack s w'.machine then none
    else some (s, w'.machine)
  | (.error _, _) => none

end Production

namespace ProjectJob

variable {w w' : Production} {s : Session}

theorem run_of_error {f : Fault} (h : validate w = (.error f, w')) :
    run w = (.error f, w') := by
  unfold run
  rw [bind_of_error h]

/-- What a dry run prints above the command. -/
def dryRunLine : String := "dry run: validation complete"

/-- A dry run shows its command and tidies up. A line that is not printed ends it before that. -/
theorem run_of_dry (h : validate w = (.ok s, w')) (hdry : w'.project.dryRun = true) :
    run w = match w'.machine.unprinted? dryRunLine, w'.machine.unprinted? s.command with
      | none, none => (.ok none, Production.tidied { w' with
          machine := (w'.machine.withLine dryRunLine).withLine s.command })
      | none, some f => (.error (.host f), { w' with machine := w'.machine.withLine dryRunLine })
      | some f, _ => (.error (.host f), w') := by
  have hfirst := Job.printLoud_eq dryRunLine w'.machine
  have hsecond := Job.printLoud_eq s.command (w'.machine.withLine dryRunLine)
  rw [Machine.unprinted?_withLine] at hsecond
  have hrun : run w = (onMachine (Job.printLoud dryRunLine >>= fun _ => Job.printLoud s.command) >>=
      fun _ => cleanup >>= fun _ => pure none) w' := by
    unfold run
    rw [bind_of_ok h, bind_of_ok (project_eq w'), if_pos hdry]
    rfl
  rw [hrun, bind_eq, onMachine_eq]
  cases hline : w'.machine.unprinted? dryRunLine with
  | some f =>
    rw [hline] at hfirst
    rw [Job.bind_of_error hfirst]
  | none =>
    rw [hline] at hfirst
    rw [Job.bind_of_ok hfirst, hsecond]
    cases w'.machine.unprinted? s.command with
    | some f => rfl
    | none =>
      show (cleanup >>= fun _ => pure none) _ = _
      rw [bind_of_ok (cleanup_eq _)]
      rfl

theorem run_of_encode (h : validate w = (.ok s, w')) (hdry : w'.project.dryRun = false) :
    run w = match encode s w' with
      | (.ok path, w₂) =>
        match w₂.machine.unprinted? ("mpv " ++ path) with
        | none => (.ok (some path), { w₂ with machine := w₂.machine.withLine ("mpv " ++ path) })
        | some f => (.error (.host f), w₂)
      | (.error f, w₂) => (.error f, w₂) := by
  unfold run
  rw [bind_of_ok h, bind_of_ok (project_eq w'), hdry, if_neg Bool.false_ne_true, bind_eq]
  rcases encode s w' with ⟨f | path, w₂⟩
  · rfl
  · dsimp only
    rw [bind_eq, onMachine_eq, Job.printLoud_eq]
    cases w₂.machine.unprinted? ("mpv " ++ path) <;> rfl

/-- Encoding tidies up and leaves everything else alone. A fault is an encode failure, or the
machine withholds something. -/
theorem encode_cases (s : Session) (w : Production) :
    (∃ w₂, w.Alike w₂ ∧ (encode s w).2 = w₂.tidied) ∧
    w.machine.SameHost (encode s w).2.machine ∧
    ∀ f, (encode s w).1 = .error f →
      f.isExplained = true ∨ ∃ g, f = .host g ∧ w.machine.Withholds g := by
  rw [encode_eq]
  refine ⟨⟨⟨_, { w.project with supervisor := _ }, _⟩, ⟨?_, _, rfl⟩, rfl⟩, ?_, ?_⟩
  · exact (Supervisor.ofSession s).run_sameFiles w.observers w.machine
  · exact ((Supervisor.ofSession s).run_sameHost w.observers w.machine).trans
      (Production.tidied_sameHost ⟨_, _, _⟩)
  · intro f hf
    exact Supervisor.explained_or_withheld hf

/-- A run that gets as far as a session tidies up, and all else leaves files and session alone; but
a dry run that is not shown does not tidy up. A fault is explained, or the machine withholds
something. -/
theorem run_cases (h : validate w = (.ok s, w')) :
    ((∃ w₂, w'.Alike w₂ ∧ w₂.tidied.Alike (run w).2 ∧
        (w'.project.dryRun = true → (run w).1 = .ok none)) ∨
      w'.project.dryRun = true ∧ w'.Alike (run w).2 ∧ ∃ f, (run w).1 = .error (.host f)) ∧
    ∀ f, (run w).1 = .error f →
      f.isExplained = true ∨ ∃ g, f = .host g ∧ w'.machine.Withholds g := by
  cases hdry : w'.project.dryRun with
  | true =>
    have hline := w'.machine.withLine_sameFiles dryRunLine
    rw [run_of_dry h hdry]
    cases hfirst : w'.machine.unprinted? dryRunLine with
    | some f =>
      refine ⟨.inr ⟨rfl, .refl _, f, rfl⟩, fun g hg => .inr ⟨f, ?_, ?_⟩⟩
      · exact (Except.error.inj hg).symm
      · exact Machine.withholds_of_unprinted hfirst
    | none =>
      cases hsecond : w'.machine.unprinted? s.command with
      | some f =>
        refine ⟨.inr ⟨rfl, ⟨hline, w'.project.supervisor, rfl⟩, f, rfl⟩,
          fun g hg => .inr ⟨f, ?_, ?_⟩⟩
        · exact (Except.error.inj hg).symm
        · exact Machine.withholds_of_unprinted hsecond
      | none =>
        refine ⟨.inl ⟨{ w' with machine := (w'.machine.withLine dryRunLine).withLine s.command },
          ⟨?_, w'.project.supervisor, rfl⟩, .refl _, fun _ => rfl⟩, fun f hf => absurd hf (by simp)⟩
        exact hline.trans (Machine.withLine_sameFiles _ _)
  | false =>
    have hwet : ∀ {P : Prop}, false = true → P := fun h => absurd h Bool.false_ne_true
    obtain ⟨⟨w₂, halike, htidied⟩, hhost, hraises⟩ := encode_cases s w'
    rw [run_of_encode h hdry]
    rcases hencode : encode s w' with ⟨f | path, w₃⟩ <;> rw [hencode] at htidied hhost hraises <;>
      obtain rfl : w₃ = w₂.tidied := htidied
    · exact ⟨.inl ⟨w₂, halike, .refl _, hwet⟩,
        fun g hg => hraises g (Except.error.inj hg ▸ rfl)⟩
    · dsimp only
      cases hline : w₂.tidied.machine.unprinted? ("mpv " ++ path) with
      | none =>
        exact ⟨.inl ⟨w₂, halike, ⟨Machine.withLine_sameFiles _ _, _, rfl⟩, hwet⟩,
          fun f hf => absurd hf (by simp)⟩
      | some f =>
        refine ⟨.inl ⟨w₂, halike, .refl _, hwet⟩,
          fun g hg => .inr ⟨f, (Except.error.inj hg).symm, ?_⟩⟩
        exact hhost.withholds (Machine.withholds_of_unprinted hline)

end ProjectJob

/-! ## What calls leave alone -/

/-- A project that has gone on: how it is to be run stays, and so does a directory that it knows; it
creates no second one. -/
structure Project.Continues (p p' : Project) : Prop where
  file : p'.file = p.file
  dryRun : p'.dryRun = p.dryRun
  keep : p'.keep = p.keep
  cache : p.cache.isNull = false → p'.cache = p.cache
  created : p.cache.isNull = false → p.created = false → p'.created = false

namespace Project.Continues

variable {p p' p'' : Project}

theorem refl (p : Project) : p.Continues p := ⟨rfl, rfl, rfl, fun _ => rfl, fun _ => id⟩

theorem trans (h : p.Continues p') (h' : p'.Continues p'') : p.Continues p'' where
  file := h'.file.trans h.file
  dryRun := h'.dryRun.trans h.dryRun
  keep := h'.keep.trans h.keep
  cache hnull := (h'.cache (by rwa [h.cache hnull])).trans (h.cache hnull)
  created hnull hcreated := h'.created (by rwa [h.cache hnull]) (h.created hnull hcreated)

end Project.Continues

section

variable {w w' : Production}

theorem Production.continues_tidied (w : Production) : w.project.Continues w.tidied.project := by
  unfold Production.tidied
  split
  · exact ⟨rfl, rfl, rfl, fun _ => rfl, fun _ _ => rfl⟩
  · exact .refl _

theorem Production.Alike.continues (h : w.Alike w') : w.project.Continues w'.project := by
  obtain ⟨supervisor, hproject⟩ := h.project
  rw [hproject]
  exact ⟨rfl, rfl, rfl, fun _ => rfl, fun _ => id⟩

namespace ProjectJob

theorem continues_requireCache {directory : String} (h : requireCache w = (.ok directory, w')) :
    w.project.Continues w'.project := by
  rcases requireCache_eq_ok h with ⟨hnull, rfl⟩ | ⟨given, rfl⟩
  · exact ⟨rfl, rfl, rfl, fun hno => absurd (hnull.symm.trans hno) (by decide),
      fun hno => absurd (hnull.symm.trans hno) (by decide)⟩
  · exact .refl _

theorem continues_buildSession (w : Production) :
    w.project.Continues (buildSession w).2.project := by
  refine buildSession_invariant (P := fun w' => w.project.Continues w'.project) (.refl _)
    continues_requireCache fun {w'} directory picture h => ?_
  rwa [Production.project_drawn]

theorem continues_validate (w : Production) : w.project.Continues (validate w).2.project := by
  cases hsession : w.project.session with
  | some s =>
    rw [validate_of_some hsession]
    exact .refl _
  | none =>
    have hbuild := continues_buildSession w
    rw [validate_of_none hsession]
    rcases h : buildSession w with ⟨f | s, w'⟩ <;> rw [h] at hbuild
    · dsimp only
      split
      · exact hbuild.trans w'.continues_tidied
      · exact hbuild
    · exact hbuild.trans ⟨rfl, rfl, rfl, fun _ => rfl, fun _ => id⟩

theorem continues_run (w : Production) : w.project.Continues (run w).2.project := by
  have hvalidate := continues_validate w
  rcases h : validate w with ⟨f | s, w'⟩
  · rw [run_of_error h]
    rwa [h] at hvalidate
  · rw [h] at hvalidate
    rcases (run_cases h).1 with ⟨w₂, halike, hrun, -⟩ | ⟨-, halike, -⟩
    · exact ((hvalidate.trans halike.continues).trans w₂.continues_tidied).trans hrun.continues
    · exact hvalidate.trans halike.continues

end ProjectJob

end

/-! ## Histories -/

/-- A call on a project. -/
inductive ProjectCall
  | validate | plan | run | cleanup
  deriving DecidableEq

/-- What a call does; its result does not matter here, its fault does. -/
def ProjectCall.act : ProjectCall → ProjectJob Unit
  | .validate => do let _ ← ProjectJob.validate
  | .plan => do let _ ← ProjectJob.plan
  | .run => do let _ ← ProjectJob.run
  | .cleanup => ProjectJob.cleanup

section

variable {α : Type} (w : Production)

theorem eq_error_of_map_eq_error {ε α β : Type} {r : Except ε α} {f : α → β} {e : ε}
    (h : r.map f = .error e) : r = .error e := by
  cases r with
  | ok a => exact absurd h (by simp [Except.map])
  | error e' => rw [Except.error.inj h]

theorem ProjectJob.discard_eq (x : ProjectJob α) :
    (do let _ ← x : ProjectJob Unit) w = ((x w).1.map fun _ => (), (x w).2) := by
  rw [ProjectJob.bind_eq]
  rcases x w with ⟨f | a, w'⟩ <;> rfl

theorem ProjectCall.act_validate : ProjectCall.validate.act w =
    ((ProjectJob.validate w).1.map fun _ => (), (ProjectJob.validate w).2) :=
  ProjectJob.discard_eq w _

/-- Planning validates, and shows what comes of it. -/
theorem ProjectCall.act_plan : ProjectCall.plan.act w =
    ((ProjectJob.validate w).1.map fun _ => (), (ProjectJob.validate w).2) := by
  refine (ProjectJob.discard_eq w _).trans ?_
  unfold ProjectJob.plan
  rw [ProjectJob.bind_eq]
  rcases ProjectJob.validate w with ⟨f | s, w'⟩ <;> rfl

theorem ProjectCall.act_run : ProjectCall.run.act w =
    ((ProjectJob.run w).1.map fun _ => (), (ProjectJob.run w).2) :=
  ProjectJob.discard_eq w _

theorem ProjectCall.act_cleanup : ProjectCall.cleanup.act w = (.ok (), w.tidied) :=
  ProjectJob.cleanup_eq w

end

/-- The production after some calls. -/
def Production.afterCalls (w : Production) (calls : List ProjectCall) : Production :=
  calls.foldl (fun w c => (c.act w).2) w

namespace Production

theorem afterCalls_nil (w : Production) : w.afterCalls [] = w := rfl

theorem afterCalls_concat (w : Production) (calls : List ProjectCall) (c : ProjectCall) :
    w.afterCalls (calls ++ [c]) = (c.act (w.afterCalls calls)).2 := by
  unfold afterCalls
  rw [List.foldl_append]
  rfl

/-- Whatever is called on a project, it goes on. -/
theorem continues_afterCalls (w : Production) (calls : List ProjectCall) :
    w.project.Continues (w.afterCalls calls).project := by
  induction calls using List.reverseRecOn with
  | nil => exact .refl _
  | append_singleton calls c ih =>
    rw [afterCalls_concat]
    refine ih.trans ?_
    cases c with
    | validate =>
      rw [ProjectCall.act_validate]
      exact ProjectJob.continues_validate _
    | plan =>
      rw [ProjectCall.act_plan]
      exact ProjectJob.continues_validate _
    | run =>
      rw [ProjectCall.act_run]
      exact ProjectJob.continues_run _
    | cleanup =>
      rw [ProjectCall.act_cleanup]
      exact continues_tidied _

end Production

/-- Some call of a history had a property, which may depend on the calls before it. -/
def Ever (Q : List ProjectCall → ProjectCall → Prop) (calls : List ProjectCall) : Prop :=
  ∃ before c later, calls = before ++ c :: later ∧ Q before c

theorem not_ever_nil (Q : List ProjectCall → ProjectCall → Prop) : ¬ Ever Q [] := by
  rintro ⟨before, c, later, h, -⟩
  exact absurd h (by simp)

theorem ever_concat {Q : List ProjectCall → ProjectCall → Prop} {calls : List ProjectCall}
    {c : ProjectCall} : Ever Q (calls ++ [c]) ↔ Ever Q calls ∨ Q calls c := by
  constructor
  · rintro ⟨before, d, later, h, hd⟩
    rcases List.eq_nil_or_concat later with rfl | ⟨rest, e, rfl⟩
    · obtain ⟨rfl, hc⟩ := List.append_inj' h rfl
      obtain rfl := List.head_eq_of_cons_eq hc
      exact .inr hd
    · rw [List.concat_eq_append, ← List.cons_append, ← List.append_assoc] at h
      exact .inl ⟨before, d, rest, (List.append_inj' h rfl).1, hd⟩
  · rintro (⟨before, d, later, rfl, hd⟩ | hc)
    · exact ⟨before, d, later ++ [c], by simp, hd⟩
    · exact ⟨calls, c, [], rfl, hc⟩

theorem ever_singleton {Q : List ProjectCall → ProjectCall → Prop} {c : ProjectCall} :
    Ever Q [c] ↔ Q [] c :=
  ever_concat.trans (or_iff_right (not_ever_nil Q))

end StillVideo
