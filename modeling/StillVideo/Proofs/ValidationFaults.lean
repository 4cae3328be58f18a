import StillVideo.Proofs.ProjectNumbers
import StillVideo.Proofs.ReadingFaults

/-!
# Faults of validation

A project that has been read is validated, or refused with a reason, or something in it has no
result where it is used: its directory, its colour, the size of its picture or its frame, the name
of its video or the start of a clip (`Project.Culprit`). But for what the machine withholds, nothing
else makes a validation end in a fault that the program does not explain
(`ProjectJob.dueTo_validate`).
-/

namespace StillVideo

variable {Cause : Fault → Prop}

/-! ## Sessions -/

/-- A volume is refused, or it is a whole number beyond the floating ones. -/
theorem dueTo_percentToGain {d : Document} {name : String}
    (h : ∀ i, d = .int i → (Binary64.ofInt i).isFinite = false → Cause .wholeToReal) :
    DueTo Cause (percentToGain d name) := by
  have hbounds : ∀ x : Binary64, DueTo Cause
      (if x.lt 0 || Binary64.lt 100 x then refuse (.percent name) else .ok (x / 100)) := by
    intro x
    split
    · exact .refuse _
    · exact .ok _
  cases d with
  | scalar s =>
    cases s with
    | int i =>
      unfold percentToGain Document.toReal realOfInt
      dsimp only
      cases hfinite : (Binary64.ofInt i).isFinite with
      | true => exact hbounds _
      | false => exact .error (h i rfl hfinite)
    | real x => exact hbounds x
    | text s =>
      unfold percentToGain Document.toReal
      dsimp only
      cases Binary64.read? s with
      | some x => exact hbounds x
      | none => exact .refuse _
    | _ => exact .refuse _
  | _ => exact .refuse _

theorem Document.IsPercent.dueTo {d : Document} (h : d.IsPercent) (name : String) :
    DueTo Cause (percentToGain d name) := by
  refine dueTo_percentToGain fun i hi hfinite => ?_
  rcases h with ⟨j, rfl, hlow, hhigh⟩ | ⟨x, rfl⟩
  · obtain rfl : j = i := by simpa [Document.int] using hi
    exact absurd (Binary64.isFinite_ofInt (i := j) (by omega)) (by simp [hfinite])
  · exact absurd hi (by simp)

theorem sees_findEncoder (m : Machine) : Job.SeesDueTo Cause findEncoder m := by
  unfold findEncoder
  refine .machine ?_
  dsimp only
  split
  · split
    · exact Job.sees_pure _
    · exact Job.sees_refuse _
  · split
    · exact Job.sees_pure _
    · exact Job.sees_refuse _
    · split
      · exact Job.sees_pure _
      · exact Job.sees_refuse _

theorem sees_requireEncoder (tool : Document) (m : Machine) :
    Job.SeesDueTo Cause (requireEncoder tool) m := by
  unfold requireEncoder
  split
  · exact (sees_findEncoder m).bind fun _ => Job.sees_pure _
  · exact Job.sees_pure _

theorem dueTo_requireEncoder (tool : Document) (m : Machine) :
    Job.DueTo Cause (requireEncoder tool) m := (sees_requireEncoder tool m).dueTo

/-- The sources of a timeline have slots, so a graph fails only on a start without whole
milliseconds. -/
theorem FilterGraph.dueTo_clipChains {slots : InputSlots} {clips : List GainedClip}
    (hslots : ∀ g ∈ clips, Scalar.text g.clip.source ∈ slots.sources)
    (hstart : ∀ g ∈ clips, DueTo Cause (wholeOfReal (g.clip.start * 1000))) (index : Nat) :
    DueTo Cause (clipChains slots index clips) := by
  induction clips generalizing index with
  | nil => exact .ok []
  | cons g rest ih =>
    obtain ⟨slot, hslot⟩ := InputSlots.exists_slotOf_iff.mpr (hslots g List.mem_cons_self)
    have hrest := ih (fun g hg => hslots g (List.mem_cons_of_mem _ hg))
      (fun g hg => hstart g (List.mem_cons_of_mem _ hg))
    unfold clipChains Chain.ofClip
    rw [hslot]
    refine DueTo.bind (.ok slot) fun _ _ => DueTo.bind ?_ fun _ _ => ?_
    · exact (hstart g List.mem_cons_self).bind fun _ _ => .ok _
    · exact (hrest _).bind fun _ _ => .ok _

theorem FilterGraph.dueTo_compile {slots : InputSlots} {clips : List GainedClip}
    (hslots : ∀ g ∈ clips, Scalar.text g.clip.source ∈ slots.sources)
    (hstart : ∀ g ∈ clips, DueTo Cause (wholeOfReal (g.clip.start * 1000))) (master : Binary64)
    (music : Option Binary64) : DueTo Cause
      (compile clips slots (.real master) ((music.map Document.real).getD .null)) := by
  unfold compile
  split
  · exact .ok _
  refine (dueTo_clipChains hslots hstart 0).bind fun chains _ => ?_
  refine DueTo.bind (.ok master) fun _ _ => ?_
  dsimp only
  split
  · cases music <;> exact .ok _
  · exact .ok _

theorem SessionBuilder.dueTo_prepare (b : SessionBuilder) (cwd : String) (image : Document)
    {timeline : Timeline} {o : SessionOptions}
    (hmain : DueTo Cause (percentToGain o.mainVolume "main audio volume"))
    (hmusic : o.music.isNull = false →
      DueTo Cause (percentToGain o.musicVolume "background music volume"))
    (houtput : DueTo Cause (outputPath cwd timeline o.outputDirectory o.outputName))
    (hstart : ∀ c ∈ timeline.clips, DueTo Cause (wholeOfReal (c.start * 1000))) :
    DueTo Cause (b.prepare cwd image timeline o) := by
  have hgraph : ∀ (hasMusic : Bool) (master : Binary64) (music : Option Binary64), DueTo Cause
      (FilterGraph.compile timeline.flatten (.ofTimeline timeline hasMusic) (.real master)
        ((music.map Document.real).getD .null)) := by
    intro hasMusic master music
    refine FilterGraph.dueTo_compile (fun g hg => ?_) (fun g hg => ?_) master music
    · unfold InputSlots.ofTimeline
      rw [← Timeline.sources_flatten, List.mem_map]
      refine ⟨g.clip.source, mem_firstOccurrences.mpr ⟨List.mem_map_of_mem hg, ?_⟩, rfl⟩
      exact List.not_mem_nil
    · refine hstart g.clip ?_
      rw [Timeline.clips_eq_map_flatten]
      exact List.mem_map_of_mem hg
  unfold prepare
  dsimp only
  split
  · exact .refuseBind _ _
  split
  · exact .refuseBind _ _
  refine hmain.bind fun mainGain _ => ?_
  split
  · rename_i hgiven
    refine ((hmusic (by simpa using hgiven)).map some).bind fun gain _ => ?_
    refine houtput.bind fun output _ => ?_
    exact (hgraph _ mainGain gain).bind fun _ _ => .ok _
  · exact houtput.bind fun output _ => (hgraph _ mainGain none).bind fun _ _ => .ok _

theorem SessionBuilder.dueTo_build (b : SessionBuilder) (image : Document) {timeline : Timeline}
    {o : SessionOptions} (hmain : DueTo Cause (percentToGain o.mainVolume "main audio volume"))
    (hmusic : o.music.isNull = false →
      DueTo Cause (percentToGain o.musicVolume "background music volume"))
    (houtput : ∀ cwd, DueTo Cause (outputPath cwd timeline o.outputDirectory o.outputName))
    (hstart : ∀ c ∈ timeline.clips, DueTo Cause (wholeOfReal (c.start * 1000))) {m : Machine}
    (hsize : ∀ make, b.prepare m.cwd image timeline o = .ok make → DueTo Cause b.checkSize) :
    Job.DueTo Cause (b.build image timeline o) m := by
  unfold build
  refine .machine ?_
  refine .except (b.dueTo_prepare _ image hmain hmusic (houtput _) hstart) fun make hmake => ?_
  refine (dueTo_requireEncoder b.tool _).bind fun _ _ _ => ?_
  exact .except (hsize make hmake) fun _ _ => Job.dueTo_pure _

/-- The size of a frame is shown unless it has too many digits. -/
theorem SessionBuilder.dueTo_checkSize (b : SessionBuilder)
    (h : (isOverlong b.width || isOverlong b.height) = true → Cause .digitsShown) :
    DueTo Cause b.checkSize := by
  unfold checkSize
  split
  · exact .error (h ‹_›)
  · exact .ok ()

/-- The directory of a video is a text, or beside the first clip. -/
theorem dueTo_outputPath {cwd : String} {timeline : Timeline} {directory name : Document}
    (hname : DueTo Cause (outputName name))
    (hdirectory : directory.isNull = false → ∀ f, directory.toPath = .error f → Cause f) :
    DueTo Cause (outputPath cwd timeline directory name) := by
  unfold outputPath
  refine hname.bind fun file _ => ?_
  split
  · split
    · exact .refuse _
    · refine DueTo.bind ?_ fun _ _ => .ok _
      unfold sourceDirectory
      dsimp only
      split
      · exact .refuse _
      · exact .ok _
  · exact .ok _
  · rename_i d hnull htext
    refine .error (hdirectory ?_ _ ?_)
    · unfold Document.isNull
      split
      · exact absurd rfl hnull
      · rfl
    · unfold Document.toPath
      split
      · exact absurd rfl (htext _)
      · rfl

/-! ## Pictures -/

/-- Why a picture of one colour cannot be drawn: the colour has a channel that is no whole number,
or cannot be shown in a refusal; the picture is too large; or a channel is out of range. -/
inductive PictureCulprit (colour : Document) (width height : Int) : Fault → Prop
  | channel {r g b c : Document} {f : Fault} (h : colour.bare = .sequence [r, g, b])
      (hmem : c ∈ [r, g, b]) (hc : c.toWhole = .error f) : PictureCulprit colour width height f
  | shown (h : colour.isShowable = false) : PictureCulprit colour width height .digitsShown
  | size {f : Fault} (h : requireSize width height = .error f) :
      PictureCulprit colour width height f
  | range {c : Colour} {f : Fault} (h : Colour.ofValue colour = .ok c)
      (hc : requireChannels c = .error f) : PictureCulprit colour width height f

theorem Colour.dueTo_ofValue {colour : Document} {width height : Int} :
    DueTo (PictureCulprit colour width height) (Colour.ofValue colour) := by
  unfold Colour.ofValue
  split
  · exact .ok _
  · rename_i r g b h
    have hchannel : ∀ c ∈ [r, g, b], DueTo (PictureCulprit colour width height) c.toWhole :=
      fun c hc f hf => .inr (.channel h hc hf)
    refine (hchannel r (by simp)).bind fun _ _ => (hchannel g (by simp)).bind fun _ _ => ?_
    exact (hchannel b (by simp)).bind fun _ _ => .ok _
  · split
    · exact .ok _
    · exact .refuse _
  · refine (Document.dueTo_shownText fun hshow => .shown ?_).bind fun _ _ => .refuse _
    exact hshow

theorem dueTo_drawPlaceholder (colour : Document) (path : String) {width height : Int}
    (hwidth : 0 < width) (hheight : 0 < height) (m : Machine) :
    Job.DueTo (PictureCulprit colour width height)
      (drawPlaceholder colour path (.int width) (.int height)) m := by
  unfold drawPlaceholder
  refine .except Colour.dueTo_ofValue fun c hc => ?_
  refine Job.DueTo.value (a := width) (Job.DueTo.value (a := height) ?_)
  refine .except (fun f hf => .inr (.size hf)) fun _ _ => ?_
  refine .except (fun f hf => .inr (.range hc hf)) fun _ _ => ?_
  rw [if_neg (by omega)]
  refine (Job.dueTo_act _).bind fun _ m' _ => ?_
  exact (Job.dueTo_modify (m'.sameHost_withFile _ _)).bind fun _ _ _ => Job.dueTo_pure _

/-! ## Projects -/

/-- Why a project that has been read cannot be validated: its directory is none, its picture cannot
be drawn, the name of the video is no text, a clip starts at no number of milliseconds, or the frame
has too many digits. -/
inductive Project.Culprit (p : Project) : Fault → Prop
  | cache {f : Fault} (hgiven : p.cache.isNull = false) (h : p.cache.toPath = .error f) :
      p.Culprit f
  | picture {f : Fault} (himage : p.file.image = none)
      (h : PictureCulprit p.file.colour p.file.width p.file.height f) : p.Culprit f
  | outputName {f : Fault} (h : outputName p.file.outputName = .error f) : p.Culprit f
  | start {c : Clip} {f : Fault} (hmem : c ∈ p.file.timeline.clips)
      (h : wholeOfReal (c.start * 1000) = .error f) : p.Culprit f
  | size (h : (isOverlong p.file.width || isOverlong p.file.height) = true) : p.Culprit .digitsShown

namespace ProjectJob

variable {α β : Type} {w : Production}

/-- Work that gives a result, or ends in a fault that the program explains, that the machine
withholds something for, or that has a cause. What the machine withholds stays the same. -/
structure DueTo (Cause : Fault → Prop) (j : ProjectJob α) (w : Production) : Prop where
  fault : StillVideo.DueTo (fun f => (∃ g, f = .host g ∧ w.machine.Withholds g) ∨ Cause f) (j w).1
  host : w.machine.SameHost (j w).2.machine

theorem DueTo.bind {x : ProjectJob α} {g : α → ProjectJob β} (hx : DueTo Cause x w)
    (hg : ∀ a w', x w = (.ok a, w') → DueTo Cause (g a) w') : DueTo Cause (x >>= g) w := by
  obtain ⟨hfault, hhost⟩ := hx
  rcases h : x w with ⟨f | a, w'⟩ <;> rw [h] at hfault hhost
  · constructor <;> rw [bind_of_error h]
    exacts [hfault.retype, hhost]
  · obtain ⟨hfault', hhost'⟩ := hg a w' h
    constructor <;> rw [bind_of_ok h]
    · exact hhost.dueTo hfault'
    · exact hhost.trans hhost'

theorem dueTo_of_eq {j : ProjectJob α} {r : Except Fault α} (hj : j w = (r, w))
    (h : StillVideo.DueTo Cause r) : DueTo Cause j w := by
  constructor <;> rw [hj]
  · exact h.mono fun _ => .inr
  · exact .refl w.machine

theorem dueTo_pure (a : α) : DueTo Cause (pure a) w := dueTo_of_eq rfl (.ok a)

theorem dueTo_onMachine {j : Job α} (h : Job.DueTo Cause j w.machine) :
    DueTo Cause (onMachine j) w := by
  constructor <;> rw [onMachine_eq]
  exacts [h.fault, h.host]

theorem dueTo_project {g : Project → ProjectJob β} (h : DueTo Cause (g w.project) w) :
    DueTo Cause (project >>= g) w := by
  constructor <;> rw [bind_of_ok (project_eq w)]
  exacts [h.fault, h.host]

/-- Only the project is changed. -/
theorem dueTo_setProject (p : Project) : DueTo Cause (setProject p) w := ⟨.ok (), .refl _⟩

theorem dueTo_requireCache : DueTo w.project.Culprit requireCache w := by
  unfold requireCache
  refine dueTo_project ?_
  split
  · refine (dueTo_onMachine (Job.dueTo_makeTemporary _ _)).bind fun directory w' _ => ?_
    exact (dueTo_setProject _).bind fun _ _ _ => dueTo_pure directory
  · rename_i hgiven
    have hpath : StillVideo.DueTo w.project.Culprit w.project.cache.toPath := fun f hf =>
      .inr (.cache (by simpa using hgiven) hf)
    refine (dueTo_onMachine (Job.dueTo_ofExcept hpath)).bind fun directory w' _ => ?_
    refine (dueTo_onMachine (.machine ?_)).bind fun _ _ _ => dueTo_pure directory
    split
    · exact Job.dueTo_makeDirectories directory
    · exact Job.dueTo_pure _

theorem dueTo_requireImage (hwidth : 0 < w.project.file.width)
    (hheight : 0 < w.project.file.height) : DueTo w.project.Culprit requireImage w := by
  unfold requireImage
  refine dueTo_project ?_
  split
  · exact dueTo_pure _
  · rename_i himage
    refine dueTo_requireCache.bind fun directory w' _ => dueTo_onMachine ?_
    refine .machine (Job.DueTo.mono ?_ fun f => .picture himage)
    exact dueTo_drawPlaceholder _ _ hwidth hheight _

theorem toPath_ofText? {path : Option String} (h : (Document.ofText? path).isNull = false)
    (f : Fault) : (Document.ofText? path).toPath ≠ .error f := by
  cases path with
  | none => exact absurd h (by decide)
  | some path => simp [Document.ofText?, Document.toPath]

theorem dueTo_buildSession (h : w.project.file.Checked) :
    DueTo w.project.Culprit buildSession w := by
  by_cases hclips : w.project.file.timeline.clipCount = 0
  · exact dueTo_of_eq (buildSession_of_clipless hclips) (.refuse .noClips)
  unfold buildSession
  refine dueTo_project ?_
  dsimp only
  rw [if_neg hclips]
  refine (dueTo_requireImage h.width_pos h.height_pos).bind fun image w' _ => dueTo_onMachine ?_
  refine SessionBuilder.dueTo_build _ _ (h.volume.dueTo _) (fun _ => h.musicVolume.dueTo _)
    (fun cwd => dueTo_outputPath (fun f hf => .inr (.outputName hf)) fun hgiven f hf => ?_)
    (fun c hc f hf => .inr (.start hc hf)) fun _ _ => SessionBuilder.dueTo_checkSize _ .size
  exact absurd hf (toPath_ofText? hgiven f)

/-- **Faults of validation.** A project that has been read is validated, or refused with a reason,
or the machine withholds something, or something in the project that has no result is to blame. -/
theorem dueTo_validate (h : w.project.file.Checked) : DueTo w.project.Culprit validate w := by
  cases hsession : w.project.session with
  | some s => exact dueTo_of_eq (validate_of_some hsession) (.ok s)
  | none =>
    obtain ⟨hfault, hhost⟩ := dueTo_buildSession h
    have hvalidate := validate_of_none hsession
    rcases hresult : buildSession w with ⟨f | s, w'⟩ <;> rw [hresult] at hfault hhost hvalidate
    · constructor <;> rw [hvalidate]
      · exact hfault
      · dsimp only
        split
        · exact hhost.trans w'.tidied_sameHost
        · exact hhost
    · constructor <;> rw [hvalidate]
      exacts [.ok s, hhost]

/-! ## Runs of projects -/

theorem dueTo_cleanup : DueTo Cause cleanup w := by
  constructor <;> rw [cleanup_eq]
  exacts [.ok (), w.tidied_sameHost]

/-- The encoder reports its own failures. -/
theorem dueTo_encode (s : Session) : DueTo Cause (encode s) w := by
  obtain ⟨-, hhost, hfaults⟩ := encode_cases s w
  exact ⟨fun f hf => (hfaults f hf).imp_right .inl, hhost⟩

/-- What can be to blame for the fault of a run is what can be for that of the validation. -/
theorem dueTo_run (h : DueTo Cause validate w) : DueTo Cause run w := by
  unfold run
  refine h.bind fun session w' _ => dueTo_project ?_
  split
  · refine (dueTo_onMachine ?_).bind fun _ w₂ _ => ?_
    · exact (Job.dueTo_printLoud _).bind fun _ _ _ => Job.dueTo_printLoud _
    · exact dueTo_cleanup.bind fun _ _ _ => dueTo_pure none
  · refine (dueTo_encode session).bind fun path w₂ _ => ?_
    exact (dueTo_onMachine (Job.dueTo_printLoud _)).bind fun _ _ _ => dueTo_pure (some path)

end ProjectJob

/-- The work on a project is accounted for if its result is. -/
theorem Project.endsDueTo_work {α : Type} {p : Project} {o : Observers} {work : ProjectJob α}
    {m : Machine} (h : ProjectJob.DueTo Cause work ⟨m, p, o⟩) :
    Job.EndsDueTo Cause Prod.fst (p.work o work) m := by
  have hwork := p.work_eq o work m
  refine ⟨.of_eq hwork (.ok _) h.host, fun r m' hr => ?_⟩
  rw [hwork] at hr
  rw [← Except.ok.inj (Prod.mk.inj hr).1]
  exact h.fault

end StillVideo
