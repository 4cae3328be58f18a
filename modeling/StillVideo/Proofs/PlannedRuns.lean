import StillVideo.Proofs.ClipReading
import StillVideo.Proofs.FlatJobCourse
import StillVideo.Proofs.KeptSessions

/-!
# Planned runs

A plan of a job of whole files shows what a run starts. With one file the run starts the planned
command itself; with several files of given durations it joins them and starts the planned command,
reading the joined file in place of the planned one (`FlatJob.run_follows_plan`).
-/

namespace StillVideo

/-! ## Another source -/

/-- The same window of another source. -/
def Clip.withSource (c : Clip) (source : String) : Clip := { c with source }

/-- The same timeline with all clips of one source. -/
def Timeline.reading (t : Timeline) (source : String) : Timeline :=
  ⟨t.tracks.map fun track => { track with clips := track.clips.map (·.withSource source) }⟩

/-- The same session reading one source only. -/
def Session.reading (s : Session) (source : String) : Session :=
  { s with
    timeline := s.timeline.reading source
    slots := ⟨[.text source], s.slots.hasMusic⟩ }

namespace Timeline

/-- The timeline has one clip, which is one of this source. -/
def HasOnly (t : Timeline) (source : String) : Prop :=
  ∃ (c : Clip) (volume : Binary64) (h : volume.lt 0 = false),
    c.source = source ∧ t = ⟨[⟨[c], volume, h⟩]⟩

theorem clips_reading (t : Timeline) (source : String) :
    (t.reading source).clips = t.clips.map (·.withSource source) := by
  unfold clips reading
  rw [List.flatMap_map, List.map_flatMap]

theorem totalDuration_reading (t : Timeline) (source : String) :
    (t.reading source).totalDuration = t.totalDuration := by
  unfold totalDuration
  rw [clips_reading, List.foldl_map]
  rfl

theorem ofFile_text (source : String) (total : Binary64) : ofFile (.text source) (.real total) =
    if source.isEmpty then refuse .clipSource
    else (fun c => ⟨[⟨[c], 1, Binary64.one_lt_zero⟩]⟩) <$>
      Clip.make source 0 total 0 (some total) := by
  have hdisplay : (Document.text source).display = source := rfl
  have hgiven : (Document.text source).isNull = false := rfl
  have hnull : (Document.real total).isNull = false := rfl
  have hreal : ∀ x, (Document.real x).toReal = .ok x := fun _ => rfl
  unfold ofFile Clip.ofValues
  rw [hdisplay, hgiven, hnull, Bool.false_or]
  simp only [hreal]
  cases source.isEmpty with
  | true => rfl
  | false =>
    simp only [bind, Except.bind, Functor.map, Except.map, Bool.false_eq_true, if_false]
    cases Clip.make source 0 total 0 (some total) <;> rfl

end Timeline

theorem Clip.make_withSource {a : String} {start duration trimIn : Binary64}
    {trimOut : Option Binary64} {c : Clip} (h : make a start duration trimIn trimOut = .ok c) :
    c.source = a ∧ ∀ b, make b start duration trimIn trimOut = .ok (c.withSource b) := by
  obtain ⟨hsource, rfl, rfl, rfl, hout⟩ := make_eq_ok h
  refine ⟨hsource, fun b => ?_⟩
  unfold make
  dsimp only
  rw [dif_pos c.start_ok, dif_pos c.duration_ok, dif_pos c.trimIn_ok]
  simp only [← hout]
  rw [dif_pos c.trimOut_ok]
  rfl

/-- A whole file may be exchanged for any other one that has a name. -/
theorem Timeline.ofFile_reading {a : String} {total : Binary64} {t : Timeline}
    (h : ofFile (.text a) (.real total) = .ok t) : t.HasOnly a ∧
      ∀ b, b ≠ "" → ofFile (.text b) (.real total) = .ok (t.reading b) := by
  rw [ofFile_text] at h
  split at h
  · exact absurd h (by simp [refuse])
  · obtain ⟨c, hmake, rfl⟩ := map_eq_ok_iff.mp h
    obtain ⟨hsource, hother⟩ := Clip.make_withSource hmake
    refine ⟨⟨c, 1, _, hsource, rfl⟩, fun b hb => ?_⟩
    have hnamed : b.isEmpty = false := by simpa using hb
    rw [ofFile_text, hnamed, if_neg Bool.false_ne_true, hother b]
    rfl

theorem outputPath_of_given {directory : Document} (h : directory.isNull = false) (cwd : String)
    (t t' : Timeline) (name : Document) :
    outputPath cwd t directory name = outputPath cwd t' directory name := by
  unfold outputPath
  split
  · exact absurd h (by decide)
  · rfl
  · rfl

namespace Timeline.HasOnly

variable {t : Timeline} {source : String} (h : t.HasOnly source)
include h

theorem clipCount_reading (other : String) : (t.reading other).clipCount = t.clipCount := by
  obtain ⟨c, volume, hvolume, hsource, rfl⟩ := h
  rfl

theorem slots (hasMusic : Bool) :
    InputSlots.ofTimeline t hasMusic = ⟨[.text source], hasMusic⟩ := by
  obtain ⟨c, volume, hvolume, rfl, rfl⟩ := h
  rfl

theorem reading (other : String) : (t.reading other).HasOnly other := by
  obtain ⟨c, volume, hvolume, hsource, rfl⟩ := h
  exact ⟨c.withSource other, volume, hvolume, rfl, rfl⟩

end Timeline.HasOnly

theorem InputSlots.slotOf_single (source : String) (hasMusic : Bool) :
    (⟨[.text source], hasMusic⟩ : InputSlots).slotOf source =
      .ok (0 + (⟨[.text source], hasMusic⟩ : InputSlots).base) := by
  have hslot : (⟨[.text source], hasMusic⟩ : InputSlots).slot? source =
      some (0 + (⟨[.text source], hasMusic⟩ : InputSlots).base) := by
    unfold slot?
    simp [lastIndexOf?]
  unfold slotOf
  rw [hslot]

/-- The graph of one clip names inputs by their slots only. -/
theorem FilterGraph.compile_reading {t : Timeline} {source : String} (h : t.HasOnly source)
    (other : String) (hasMusic : Bool) (masterGain musicGain : Document) :
    compile (t.reading other).flatten ⟨[.text other], hasMusic⟩ masterGain musicGain =
      compile t.flatten ⟨[.text source], hasMusic⟩ masterGain musicGain := by
  obtain ⟨c, volume, hvolume, rfl, rfl⟩ := h
  have hchains : clipChains ⟨[.text other], hasMusic⟩ 0 [⟨c.withSource other, volume⟩] =
      clipChains ⟨[.text c.source], hasMusic⟩ 0 [⟨c, volume⟩] := by
    have hother := InputSlots.slotOf_single other hasMusic
    have hsource := InputSlots.slotOf_single c.source hasMusic
    unfold clipChains
    dsimp only [Clip.withSource]
    rw [hother, hsource]
    rfl
  show compile [⟨c.withSource other, volume⟩] _ _ _ = compile [⟨c, volume⟩] _ _ _
  unfold compile
  rw [hchains]
  rfl

/-- With its output directory given, a session that reads one source may read any other one. -/
theorem SessionBuilder.Builds.reading {b : SessionBuilder} {cwd : String} {image : Document}
    {t : Timeline} {o : SessionOptions} {s : Session} (h : b.Builds cwd image t o s)
    {source : String} (honly : t.HasOnly source) (hdirectory : o.outputDirectory.isNull = false)
    (other : String) : b.Builds cwd image (t.reading other) o (s.reading other) := by
  have hslots : s.slots = ⟨[.text source], !o.music.isNull⟩ := by
    rw [h.slots_eq, honly.slots]
  have hslots' : (s.reading other).slots = ⟨[.text other], !o.music.isNull⟩ := by
    unfold Session.reading
    dsimp only
    rw [hslots]
  exact { h with
    clips := by rw [honly.clipCount_reading]; exact h.clips
    output := (outputPath_of_given hdirectory cwd _ t _).trans h.output
    graph := by
      rw [hslots', FilterGraph.compile_reading honly other]
      exact hslots ▸ h.graph
    timeline_eq := congrArg (Timeline.reading · other) h.timeline_eq
    slots_eq := by rw [hslots', (honly.reading other).slots] }

/-- Two sessions do the same but for one input file, the last one. -/
structure Session.SameButInput (s s' : Session) (input input' : String) : Prop where
  graph : s'.graph = s.graph
  target : s'.graph.target = s.graph.target
  videoFilter : s'.videoFilter = s.videoFilter
  output : s'.output = s.output
  totalDuration : s'.totalDuration = s.totalDuration
  args : ∃ before after, s.args = before ++ [.text "-i", .text input] ++ after ∧
    s'.args = before ++ [.text "-i", .text input'] ++ after
  inputs : ∃ before, optionValues "-i" s.args.tail = before ++ [.text input] ∧
    optionValues "-i" s'.args.tail = before ++ [.text input']

theorem Session.sameButInput_reading {s : Session} {source : String}
    (h : s.slots.sources = [.text source]) (other : String) :
    s.SameButInput (s.reading other) source other := by
  have hinputs : s.inputs =
      (s.image :: if s.hasMusic then [s.music] else []) ++ [.text source] := by
    unfold inputs
    rw [h]
    rfl
  have hinputs' : (s.reading other).inputs =
      (s.image :: if s.hasMusic then [s.music] else []) ++ [.text other] := rfl
  refine ⟨rfl, rfl, rfl, rfl, s.timeline.totalDuration_reading other, ?_, ?_⟩
  · have hargs : ∀ file, inputArguments
        ((s.image :: if s.hasMusic then [s.music] else []) ++ [.text file]) =
        ([.text "-loop", .text "1", .text "-i", s.image] ++
          (if s.hasMusic then [s.music] else []).flatMap ([.text "-i", ·])) ++
          [.text "-i", .text file] := by
      intro file
      rw [List.cons_append, inputArguments, List.flatMap_append, ← List.append_assoc]
      rfl
    refine ⟨[s.tool, .text "-y"] ++ ([.text "-loop", .text "1", .text "-i", s.image] ++
      (if s.hasMusic then [s.music] else []).flatMap ([.text "-i", ·])),
      s.graphArguments.map .text, ?_, ?_⟩
    · unfold args
      rw [hinputs, hargs, ← List.append_assoc]
    · unfold args
      rw [hinputs', hargs, ← List.append_assoc]
      rfl
  · rw [optionValues_inputs, optionValues_inputs, hinputs, hinputs']
    exact ⟨_, rfl, rfl⟩

/-! ## Sessions of several files -/

variable {m m' : Machine}

theorem requireEncoder_of_given {tool : Document} (h : tool.isNull = false) (m : Machine) :
    requireEncoder tool m = (.ok tool, m) := by
  unfold requireEncoder
  rw [h]
  rfl

/-- A session that has been built for one source may be built for another one. -/
theorem SessionBuilder.buildFlat_reading {b : SessionBuilder} {image : Document} {a : String}
    {total : Binary64} {o : SessionOptions} {s : Session} {m₁ : Machine}
    (h : b.buildFlat image (.text a) (.real total) o m = (.ok s, m₁))
    (htool : b.tool.isNull = false) (hdirectory : o.outputDirectory.isNull = false) :
    s.slots.sources = [.text a] ∧ ∀ m' other, m'.cwd = m.cwd → other ≠ "" →
      b.buildFlat image (.text other) (.real total) o m' = (.ok (s.reading other), m') := by
  obtain ⟨t, m₂, hstep, hbuild⟩ := Job.bind_eq_ok_iff.mp h
  obtain ⟨htimeline, rfl⟩ := Job.ofExcept_eq_ok_iff.mp hstep
  obtain ⟨honly, hreading⟩ := Timeline.ofFile_reading htimeline
  have hbuilds := builds_of_build hbuild
  have hencoder : s.tool = b.tool ∧ b.checkSize = .ok () := by
    obtain ⟨_, m₂, hm, hbuild⟩ := Job.bind_eq_ok_iff.mp hbuild
    obtain ⟨rfl, rfl⟩ := Job.machine_eq_ok_iff.mp hm
    obtain ⟨make, m₂, hstep, hbuild⟩ := Job.bind_eq_ok_iff.mp hbuild
    obtain ⟨hmake, rfl⟩ := Job.ofExcept_eq_ok_iff.mp hstep
    rw [Job.bind_of_ok (requireEncoder_of_given htool m)] at hbuild
    obtain ⟨_, m₂, hcheck, hbuild⟩ := Job.bind_eq_ok_iff.mp hbuild
    obtain ⟨rfl, -⟩ := Job.pure_eq_ok_iff.mp hbuild
    rw [prepare_of_builds hbuilds] at hmake
    rw [← Except.ok.inj hmake]
    exact ⟨rfl, (Job.ofExcept_eq_ok_iff.mp hcheck).1⟩
  refine ⟨by rw [hbuilds.slots_eq, honly.slots], fun m' other hcwd hother => ?_⟩
  have hprepared := prepare_of_builds (hbuilds.reading honly hdirectory other)
  unfold buildFlat build
  rw [hreading other hother, Job.ofExcept_ok_bind, Job.machine_bind, hcwd, hprepared,
    Job.ofExcept_ok_bind, Job.bind_of_ok (requireEncoder_of_given htool m'), hencoder.2,
    Job.ofExcept_ok_bind, ← hencoder.1]
  rfl

namespace FlatJob

/-- Given durations are added up without a look at the machine. -/
theorem total_of_durations {j : FlatJob} (h : j.durations.isNull = false)
    (files : List Document) : ∃ r, ∀ m, j.total files m = (r, m) := by
  unfold total
  rw [h, if_neg Bool.false_ne_true]
  cases j.durations.countedParts with
  | error f => exact ⟨.error f, fun m => Job.bind_of_error rfl⟩
  | ok ds =>
    by_cases hlength : ds.length ≠ files.length
    · refine ⟨.error (.refused .durationCount), fun m => ?_⟩
      rw [Job.ofExcept_ok_bind, if_pos hlength]
      rfl
    · refine ⟨sumDurations ds, fun m => ?_⟩
      rw [Job.ofExcept_ok_bind, if_neg hlength]
      cases sumDurations ds <;> rfl

/-- The joined file that a plan names for a first file. -/
def plannedFile (name : String) : String := Path.join temporaryDirectory (joinedName [name])

/-- What has been planned for several files of given durations is what there is to be done with the
joined file. -/
theorem session_reading {j : FlatJob} {first second : Document} {rest : List Document} {s : Session}
    {m₁ : Machine} (hfiles : j.files = .ok (first :: second :: rest))
    (hdurations : j.durations.isNull = false) (htool : j.tool.isNull = false)
    (hdirectory : j.options.outputDirectory.isNull = false)
    (h : j.session .null m = (.ok s, m₁)) :
    ∃ name, j.audio.firstOf (first :: second :: rest) = .ok (.text name) ∧
      s.slots.sources = [.text (plannedFile name)] ∧
      ∀ m' joined, m'.cwd = m.cwd → joined ≠ "" →
        j.session (.text joined) m' = (.ok (s.reading joined), m') := by
  unfold session at h
  rw [hfiles, Job.ofExcept_ok_bind] at h
  obtain ⟨first', m₂, hstep, h⟩ := Job.bind_eq_ok_iff.mp h
  obtain ⟨hfirst, rfl⟩ := Job.ofExcept_eq_ok_iff.mp hstep
  obtain ⟨audio, m₂, hstep, h⟩ := Job.bind_eq_ok_iff.mp h
  obtain ⟨haudio, rfl⟩ := Job.ofExcept_eq_ok_iff.mp hstep
  obtain ⟨total, m₂, htotal, h⟩ := Job.bind_eq_ok_iff.mp h
  obtain ⟨r, hr⟩ := total_of_durations hdurations (first :: second :: rest)
  rw [hr] at htotal
  obtain ⟨rfl, rfl⟩ := Prod.mk.inj htotal
  obtain ⟨b, m₂, hstep, h⟩ := Job.bind_eq_ok_iff.mp h
  obtain ⟨hbuilder, rfl⟩ := Job.ofExcept_eq_ok_iff.mp hstep
  have hencoder : b.tool = j.tool := by
    obtain ⟨width, -, hbuilder⟩ := bind_eq_ok_iff.mp hbuilder
    obtain ⟨height, -, hbuilder⟩ := bind_eq_ok_iff.mp hbuilder
    rw [← Except.ok.inj hbuilder]
  obtain ⟨name, hname, hplanned⟩ := bind_eq_ok_iff.mp
    (show (first'.toPath >>= fun name => .ok (.text (plannedFile name))) = .ok audio from haudio)
  obtain rfl := Document.eq_text_of_toPath hname
  obtain rfl := Except.ok.inj hplanned
  obtain ⟨hsources, hreading⟩ := SessionBuilder.buildFlat_reading h (hencoder ▸ htool) hdirectory
  refine ⟨name, hfirst, hsources, fun m' joined hcwd hjoined => ?_⟩
  unfold session
  rw [hfiles, Job.ofExcept_ok_bind, hfirst, Job.ofExcept_ok_bind,
    show sessionAudio (first :: second :: rest) (.text name) (.text joined) = .ok (.text joined)
      from rfl, Job.ofExcept_ok_bind, Job.bind_of_ok (hr m'), hbuilder, Job.ofExcept_ok_bind]
  exact hreading m' joined hcwd hjoined

end FlatJob

/-! ## Processes of a run -/

/-- A run supervises one session from its beginning to its end. -/
theorem Supervisor.session_run (s : Session) (o : Observers) (m : Machine) :
    ((ofSession s).run o m).1.supervisor.session = s := by
  have hconclude : ∀ (s : Supervisor) (r : Run), (s.conclude r).supervisor.session = s.session := by
    intro s r
    unfold conclude
    dsimp only
    split <;> rfl
  unfold run
  split
  · rfl
  split
  · rfl
  split
  · rfl
  dsimp only
  split
  · rfl
  · rfl
  · exact hconclude { ofSession s with state := .running } _

/-- What holds a run back is on no account the files of a machine. -/
theorem Supervisor.heldBack_congr (s : Session) (hhost : m.SameHost m')
    (htoken : m'.token = m.token) : heldBack s m' = heldBack s m := by
  unfold heldBack unannounced?
  rw [htoken, hhost.quiet, hhost.refuses]

namespace FlatJob

theorem encode_of_session {o : Observers} {session : Job Session} {s : Session}
    (h : session m = (.ok s, m')) : encode o session m =
      (.ok ((Supervisor.ofSession s).run o m').1, ((Supervisor.ofSession s).run o m').2) :=
  Job.bind_of_ok h

end FlatJob

namespace Joining

theorem token_withLine (m : Machine) (line : String) : (m.withLine line).token = m.token := by
  unfold Machine.withLine
  split <;> rfl

theorem sameHost_withLine (m : Machine) (line : String) : m.SameHost (m.withLine line) := by
  unfold Machine.withLine
  split
  · exact .refl m
  · exact m.sameHost_note _

/-- What a command writes changes files and directories only. -/
theorem written_keeps (m : Machine) (args : List Document) : (written m args).cwd = m.cwd ∧
    (written m args).token = m.token ∧ (written m args).record = m.record ∧
    m.SameHost (written m args) := by
  unfold written
  split
  · exact ⟨Machine.cwd_withFile _ _, Machine.token_withFile m _ _, Machine.record_withFile _ _ _,
      m.sameHost_withFile _ _⟩
  · exact ⟨rfl, rfl, rfl, .refl m⟩

theorem token_commanded (m : Machine) (args : List Document) :
    (commanded m args).token = m.token :=
  (written_keeps _ args).2.1.trans (token_withLine m _)

theorem cwd_commanded (m : Machine) (args : List Document) : (commanded m args).cwd = m.cwd :=
  (written_keeps _ args).1.trans (m.withLine_sameFiles _).cwd

theorem sameHost_commanded (m : Machine) (args : List Document) :
    m.SameHost (commanded m args) := by
  have hbegun : ∀ m : Machine, m.SameHost (begun m args) := fun _ => ⟨rfl, rfl, rfl⟩
  unfold commanded
  exact (((sameHost_withLine m _).trans (hbegun _)).trans (written_keeps _ args).2.2.2).trans
    (Machine.sameHost_note _ _)

theorem commanded_starts (m : Machine) (args : List Document) :
    m.Starts (commanded m args) [args] := by
  have hbegun : ∀ m : Machine, m.Starts (written (begun m args) args) [args] := fun m =>
    ⟨[.started args, .commandStarted (commandOf args)], (written_keeps _ args).2.2.1, rfl⟩
  unfold commanded
  dsimp only
  exact ((m.withLine_starts _).after_nothing (hbegun _)).then_nothing
    (Machine.starts_of_record
      (e := .commandEnded (commandOf args) m.joiner.exitCode _) rfl rfl)

theorem tried_starts (m : Machine) (args : List Document) : m.Starts (tried m args) [args] :=
  ⟨[.started args, .commandStarted (commandOf args)], rfl, rfl⟩

/-- Joining files starts the command that joins them, or nothing. -/
theorem attempt_starts (tool : Document) (p : JoinPlace) (m : Machine) : ∃ processes,
    m.Starts (attempt tool p m).2 processes ∧ processes <:+ [command tool p] := by
  rcases attempt_cases tool p m with ⟨f, hf⟩ | ⟨f, hf⟩ | hdone
  · rw [hf]
    exact ⟨[], .refl m, List.nil_suffix⟩
  · rw [hf]
    exact ⟨_, (m.withLine_starts _).after_nothing (tried_starts _ _), List.suffix_refl _⟩
  · rw [hdone]
    exact ⟨_, commanded_starts m _, List.suffix_refl _⟩

theorem tidied_starts (j : Joining) (p : JoinPlace) (m : Machine) :
    m.Starts (j.tidied p m) [] := by
  unfold tidied
  split
  · exact .refl m
  · exact Machine.starts_of_record (Machine.record_withoutTree _ p.directory) rfl

theorem record_withPrivate (m : Machine) (directory : String) :
    (withPrivate m directory).record = .madeTemporary directory :: m.record :=
  Machine.record_withDirectory _ directory

theorem record_withList (m : Machine) (directory : String) (audio : List String) (text : String) :
    (withList m directory audio text).record =
      .wrote (placeIn directory audio).list text :: .madeTemporary directory :: m.record := by
  unfold withList
  dsimp only
  rw [Machine.record_withFile]
  unfold Machine.note
  dsimp only
  rw [record_withPrivate]

/-- From one machine to the next, the token, the place and the system are the same. -/
structure Settled (m m' : Machine) : Prop where
  token : m'.token = m.token
  cwd : m'.cwd = m.cwd
  host : m.SameHost m'

theorem Settled.trans (h : Settled m m') {m'' : Machine} (h' : Settled m' m'') : Settled m m'' :=
  ⟨h'.token.trans h.token, h'.cwd.trans h.cwd, h.host.trans h'.host⟩

theorem settled_withPrivate (m : Machine) (directory : String) :
    Settled m (withPrivate m directory) :=
  ⟨Machine.token_withDirectory _ directory, cwd_withPrivate m directory,
    sameHost_withPrivate m directory⟩

theorem settled_withList (m : Machine) (directory : String) (audio : List String)
    (text : String) : Settled m (withList m directory audio text) := by
  refine (settled_withPrivate m directory).trans ⟨?_, ?_, ?_⟩
  · exact Machine.token_withFile _ _ _
  · exact Machine.cwd_withFile _ _
  · exact (Machine.sameHost_note _ _).trans (Machine.sameHost_withFile _ _ _)

/-- Nothing is started or cancelled while a place is prepared. -/
theorem prepare_starts (j : Joining) (m : Machine) :
    m.Starts (j.prepare m).2 [] ∧ Settled m (j.prepare m).2 := by
  have hprepared := j.prepare_prepared m
  have hcached := j.check_cached m
  generalize j.prepare m = result at hprepared ⊢
  have hgained : ∀ {m₀}, Cached j.cache m m₀ → m.Starts m₀ [] := fun h => h.gained fun _ => rfl
  have hsettled : ∀ {m₀}, Cached j.cache m m₀ → Settled m m₀ :=
    fun h => ⟨h.token, h.cwd, h.sameHost⟩
  have hlisted : ∀ (m₀ : Machine) directory audio text,
      m₀.Starts (withList m₀ directory audio text) [] := fun m₀ directory audio text =>
    ⟨[.wrote _ text, .madeTemporary directory], record_withList m₀ directory audio text, rfl⟩
  cases hprepared with
  | unchecked f m₀ check =>
    rw [check] at hcached
    exact ⟨hgained hcached, hsettled hcached⟩
  | homeless audio tool cache m₀ f check refused =>
    rw [check] at hcached
    exact ⟨hgained hcached, hsettled hcached⟩
  | unlisted audio tool cache m₀ f left check refused leaves =>
    rw [check] at hcached
    rcases leaves with rfl | rfl
    · exact ⟨(hgained hcached).then_nothing
        ⟨[.madeTemporary _], record_withPrivate m₀ _, rfl⟩,
        (hsettled hcached).trans (settled_withPrivate m₀ _)⟩
    · exact ⟨(hgained hcached).then_nothing (hlisted m₀ _ audio ""),
        (hsettled hcached).trans (settled_withList m₀ _ audio "")⟩
  | placed audio tool cache m₀ check listed =>
    rw [check] at hcached
    exact ⟨(hgained hcached).then_nothing (hlisted m₀ _ audio _),
      (hsettled hcached).trans (settled_withList m₀ _ audio _)⟩

theorem result_ne_empty (cache : Option String) (t : LocalTime) (audio : List String) :
    (placeIn (privateDirectory cache t) audio).result ≠ "" := by
  unfold placeIn
  dsimp only
  rw [Path.join_append (endsIn_privateDirectory cache t) (isPlain_directoryName t)
    (isPlain_joinedName audio).slash]
  intro h
  have hchars := congrArg String.toList h
  simp at hchars

end Joining

namespace FlatJob

variable {j : FlatJob} {s : Session} {m₁ : Machine}

/-- A plan is made by a job whose directory and encoder are decided. -/
theorem plan_eq_ok (h : j.plan .null m = (.ok s, m₁)) : ∃ j',
    j'.audio = j.audio ∧ j'.durations = j.durations ∧ j'.tool.isNull = false ∧
      j'.options.outputDirectory.isNull = false ∧ j.resolve m = (.ok j', m) ∧
      j'.session .null m = (.ok s, m₁) := by
  unfold plan at h
  rcases j.resolve_cases m with ⟨f, hresolve⟩ | ⟨tool, directory, htool, hdirectory, hresolve⟩
  · rw [Job.bind_of_error hresolve] at h
    exact absurd (Prod.mk.inj h).1 (by simp)
  · rw [Job.bind_of_ok hresolve] at h
    exact ⟨{ j with tool, options.outputDirectory := directory }, rfl, rfl, htool, hdirectory,
      hresolve, h⟩

/-- The session of a single file is run as it has been planned. -/
theorem run_starts_of_single (hplan : j.plan .null m = (.ok s, m₁)) {file : Document}
    (hfiles : j.files = .ok [file]) (cache : Document) (keep : Bool) (o : Observers) :
    m.Starts (j.run cache keep o m).2 (if Supervisor.heldBack s m then [] else [s.args]) ∧
      ∃ outcome, (j.run cache keep o m).1 = .ok outcome ∧ outcome.supervisor.session = s := by
  obtain ⟨j', haudio, -, -, -, hresolve, hsession⟩ := plan_eq_ok hplan
  have hfiles' : j'.files = .ok [file] := by
    unfold files
    rw [haudio]
    exact hfiles
  have hprobed := j'.onlyProbes_session .null m
  rw [hsession] at hprobed
  rw [run_of_single hresolve cache keep o hfiles', encode_of_session hsession,
    ← Supervisor.heldBack_congr s hprobed.sameHost hprobed.token]
  exact ⟨.after_nothing (hprobed.gained fun _ => rfl) (Supervisor.run_starts s o m₁), _, rfl,
    Supervisor.session_run s o m₁⟩

/-- Files that are joined are encoded by the session that reads the joined file, unless they cannot
be joined or the run is held back. -/
theorem withJoined_starts (joining : Joining) {session : String → Job Session}
    {reading : String → Session}
    (hsession : ∀ (m' : Machine) (joined : String), m'.cwd = m.cwd → joined ≠ "" →
      session joined m' = (.ok (reading joined), m')) (o : Observers) :
    ∃ tool p processes,
      m.Starts (joining.withJoined (fun joined => encode o (session joined)) m).2 processes ∧
      processes <:+ [(reading p.result).args, Joining.command tool p] ∧
      (processes = [(reading p.result).args, Joining.command tool p] ↔
        (∃ outcome, (joining.withJoined (fun joined => encode o (session joined)) m).1 =
          .ok outcome) ∧ Supervisor.heldBack (reading p.result) m = false) ∧
      ∀ outcome, (joining.withJoined (fun joined => encode o (session joined)) m).1 = .ok outcome →
        outcome.supervisor.session = reading p.result := by
  have hpassage := joining.withJoined_passage (fun joined => encode o (session joined)) m
  have hprepared := joining.prepare_starts m
  generalize joining.withJoined (fun joined => encode o (session joined)) m = result
    at hpassage ⊢
  have hundone : ∀ {f : Fault} {processes full : List (List Document)} {held : Bool},
      processes ≠ full →
      (processes = full ↔ (∃ outcome : RunOutcome, (Except.error f : Except Fault RunOutcome) =
        .ok outcome) ∧ held = false) := fun hne => iff_of_false hne (by simp)
  cases hpassage with
  | unprepared f m₁ prepare =>
    rw [prepare] at hprepared
    exact ⟨.null, ⟨"", "", ""⟩, [], hprepared.1, List.nil_suffix,
      hundone (List.cons_ne_nil _ _).symm, by simp⟩
  | unjoined tool p m₁ f m₂ prepare attempt =>
    rw [prepare] at hprepared
    obtain ⟨processes, hattempted, hsuffix⟩ := Joining.attempt_starts tool p m₁
    rw [attempt] at hattempted
    have hshort : processes ≠ [(reading p.result).args, Joining.command tool p] := by
      rintro rfl
      exact absurd hsuffix.length_le (by simp)
    exact ⟨tool, p, processes,
      (hprepared.1.after_nothing hattempted).then_nothing (joining.tidied_starts p m₂),
      hsuffix.trans (List.suffix_cons _ _), hundone hshort, by simp⟩
  | worked tool p m₁ m₂ prepare attempt =>
    rw [prepare] at hprepared
    obtain ⟨hstarts, htoken, hcwd, hhost⟩ := hprepared
    obtain rfl := Joining.attempt_eq_ok attempt
    have hnamed : p.result ≠ "" := by
      obtain ⟨audio, cache, m₀, -, rfl, -⟩ := Joining.prepare_eq_ok prepare
      exact Joining.result_ne_empty cache m₀.now audio
    have hjoined := hstarts.after_nothing
      (Joining.commanded_starts m₁ (Joining.command tool p))
    have hrun := Supervisor.run_starts (reading p.result) o
      (Joining.commanded m₁ (Joining.command tool p))
    rw [Supervisor.heldBack_congr _ (hhost.trans (Joining.sameHost_commanded _ _))
      ((Joining.token_commanded _ _).trans htoken)] at hrun
    rw [encode_of_session (hsession _ p.result ((Joining.cwd_commanded _ _).trans hcwd) hnamed)]
    refine ⟨tool, p, _, (hjoined.trans hrun).then_nothing (joining.tidied_starts p _), ?_, ?_, ?_⟩
    · cases Supervisor.heldBack (reading p.result) m with
      | true => exact List.suffix_cons _ _
      | false => exact List.suffix_refl _
    · cases Supervisor.heldBack (reading p.result) m with
      | true => simp
      | false => simp
    · intro outcome houtcome
      rw [← Except.ok.inj houtcome]
      exact Supervisor.session_run (reading p.result) o _

/-- Several files of given durations are joined, and then the encoder is started as it has been
planned, but for the joined file. -/
theorem run_starts_of_several (hplan : j.plan .null m = (.ok s, m₁)) {first second : Document}
    {rest : List Document} (hfiles : j.files = .ok (first :: second :: rest))
    (hdurations : j.durations.isNull = false) (cache : Document) (keep : Bool) (o : Observers) :
    ∃ name tool p processes,
      j.audio.firstOf (first :: second :: rest) = .ok (.text name) ∧
      s.slots.sources = [.text (plannedFile name)] ∧
      m.Starts (j.run cache keep o m).2 processes ∧
      processes <:+ [(s.reading p.result).args, Joining.command tool p] ∧
      (processes = [(s.reading p.result).args, Joining.command tool p] ↔
        (∃ outcome, (j.run cache keep o m).1 = .ok outcome) ∧
          Supervisor.heldBack (s.reading p.result) m = false) ∧
      ∀ outcome, (j.run cache keep o m).1 = .ok outcome →
        outcome.supervisor.session = s.reading p.result := by
  obtain ⟨j', haudio, hdurations', htool, hdirectory, hresolve, hsession⟩ := plan_eq_ok hplan
  have hfiles' : j'.files = .ok (first :: second :: rest) := by
    unfold files
    rw [haudio]
    exact hfiles
  rw [← hdurations'] at hdurations
  obtain ⟨name, hfirst, hsources, hreading⟩ :=
    session_reading hfiles' hdurations htool hdirectory hsession
  rw [run_of_several hresolve cache keep o hfiles']
  rw [haudio] at hfirst
  have hjoined : ∀ (m' : Machine) (joined : String), m'.cwd = m.cwd → joined ≠ "" →
      j'.sessionOfJoined joined m' = (.ok (s.reading joined), m') := by
    intro m' joined hcwd hnamed
    unfold sessionOfJoined
    rw [hdurations, if_neg Bool.false_ne_true]
    exact hreading m' joined hcwd hnamed
  obtain ⟨tool, p, processes, hstarts⟩ := withJoined_starts _ hjoined o
  exact ⟨name, tool, p, processes, hfirst, hsources, hstarts⟩

/-- **Planned runs.** A run starts what has been planned. With one file that is the planned command,
unless the run is held back, and the planned session is supervised. With several files of given
durations it is a command that joins them and then, if the run comes so far, the planned one; it and
the session that is supervised differ from the plan only in that the joined file is read. -/
theorem run_follows_plan (hplan : j.plan .null m = (.ok s, m₁)) (cache : Document) (keep : Bool)
    (o : Observers) :
    (∀ file, j.files = .ok [file] →
      m.Starts (j.run cache keep o m).2 (if Supervisor.heldBack s m then [] else [s.args]) ∧
      ∃ outcome, (j.run cache keep o m).1 = .ok outcome ∧ outcome.supervisor.session = s) ∧
    ∀ first second rest, j.files = .ok (first :: second :: rest) → j.durations.isNull = false →
      ∃ name tool p s' processes,
        j.audio.firstOf (first :: second :: rest) = .ok (.text name) ∧
        s.SameButInput s' (plannedFile name) p.result ∧
        m.Starts (j.run cache keep o m).2 processes ∧
        processes <:+ [s'.args, Joining.command tool p] ∧
        (processes = [s'.args, Joining.command tool p] ↔
          (∃ outcome, (j.run cache keep o m).1 = .ok outcome) ∧
            Supervisor.heldBack s' m = false) ∧
        ∀ outcome, (j.run cache keep o m).1 = .ok outcome → outcome.supervisor.session = s' := by
  constructor
  · intro file hfiles
    exact run_starts_of_single hplan hfiles cache keep o
  · intro first second rest hfiles hdurations
    obtain ⟨name, tool, p, processes, hfirst, hsources, hrun⟩ :=
      run_starts_of_several hplan hfiles hdurations cache keep o
    exact ⟨name, tool, p, s.reading p.result, processes, hfirst,
      Session.sameButInput_reading hsources p.result, hrun⟩

/-- Two files are joined and encoded as planned. -/
theorem run_follows_plan_duet : ∃ s m₁ tool p s',
    duet.plan .null .withSongs = (.ok s, m₁) ∧
    s.SameButInput s' "/tmp/temp_combined.mp3" p.result ∧
    Machine.withSongs.Starts (duet.run .null false .standard .withSongs).2
      [s'.args, Joining.command tool p] := by
  have hok : (duet.plan .null .withSongs).1.isOk = true := by decide +kernel
  have hdone : (duet.run .null false .standard .withSongs).1.isOk = true := by decide +kernel
  have hplanned : plannedFile "first.mp3" = "/tmp/temp_combined.mp3" := by decide +kernel
  rcases hplan : duet.plan .null .withSongs with ⟨f | s, m₁⟩
  · rw [hplan] at hok
    exact absurd hok Bool.false_ne_true
  obtain ⟨name, tool, p, s', processes, hfirst, hsame, hstarts, -, hall, -⟩ :=
    (run_follows_plan hplan .null false .standard).2 (.text "first.mp3") (.text "second.mp3") []
      rfl rfl
  obtain rfl : "first.mp3" = name :=
    Scalar.text.inj (Document.scalar.inj (Except.ok.inj hfirst))
  rw [hplanned] at hsame
  refine ⟨s, m₁, tool, p, s', rfl, hsame, ?_⟩
  rwa [hall.mpr ⟨?_, rfl⟩] at hstarts
  rcases hrun : (duet.run .null false .standard .withSongs).1 with f | outcome
  · rw [hrun] at hdone
    exact absurd hdone Bool.false_ne_true
  · exact ⟨outcome, rfl⟩

end FlatJob

end StillVideo
