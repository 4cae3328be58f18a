import StillVideo.Proofs.FlatJobCourse

/-!
# The private directory of a job

A job of several files joins them in a private directory. If the list of the files is written there,
then whatever goes wrong before or after, the directory is gone in the end with all that was in it,
and everything else is as it was, but for the cache directory and the directories above. A list that
the system refuses leaves the directory behind (`FlatJob.run_restores`).
-/

namespace StillVideo

variable {m m' m'' : Machine} {directory : String}

/-- The private directory that an event creates. -/
def Event.temporary? : Event → Option String
  | .madeTemporary path => some path
  | _ => none

theorem Event.temporary?_of_isCommand {ev : Event} (h : ev.isCommand = true) :
    ev.temporary? = none := by
  cases ev <;> simp_all [isCommand, temporary?]

theorem Event.temporary?_of_isNotice {ev : Event} (h : ev.isNotice = true) :
    ev.temporary? = none := by
  cases ev <;> simp_all [isNotice, temporary?]

namespace Machine

/-- The private directories that have been created from one machine to a later one, the latest one
first. -/
def temporaries (m m' : Machine) : List String :=
  (m'.record.take (m'.record.length - m.record.length)).filterMap Event.temporary?

theorem temporaries_of_gained {paths : List String} (h : Gained Event.temporary? m m' paths) :
    m.temporaries m' = paths := by
  obtain ⟨events, hrecord, rfl⟩ := h
  unfold temporaries
  rw [hrecord, List.length_append, Nat.add_sub_cancel, List.take_left]

/-- What is left of a job on a machine: its private directories are gone, every file and every
directory from before is there, and new are only the cache directory and directories above. -/
structure Restored (cache : Document) (m m' : Machine) : Prop where
  gone : ∀ path ∈ m.temporaries m', m'.holds (m'.key path) = false
  files : m'.files = m.files
  kept : ∀ d ∈ m.directories, d ∈ m'.directories
  new : ∀ d ∈ m'.directories, d ∈ m.directories ∨
    (∃ path, cache = .text path ∧ (d = m.key path ∨ d ∈ Path.parents (m.key path))) ∨
    ∃ path ∈ m.temporaries m', d ∈ Path.parents (m.key path)

/-- What is left of a job on a machine that has not removed its private directory: the directory is
there, and outside of it everything is as if it had been removed. -/
structure Strewn (cache : Document) (directory : String) (m m' : Machine) : Prop where
  created : m.temporaries m' = [directory]
  left : m'.holds (m'.key directory) = true
  files : m'.files.filter (fun f => !isWithin (m.key directory) f.1) = m.files
  kept : ∀ d ∈ m.directories, d ∈ m'.directories
  new : ∀ d ∈ m'.directories, d ∈ m.directories ∨
    (∃ path, cache = .text path ∧ (d = m.key path ∨ d ∈ Path.parents (m.key path))) ∨
    d = m.key directory ∨ d ∈ Path.parents (m.key directory)

/-! ## Changes inside a directory -/

/-- From one machine to the next, files have changed only in a directory, which may have been
created with those above it. No private directory has been created. -/
structure Confined (directory : String) (m m' : Machine) : Prop where
  cwd : m'.cwd = m.cwd
  files : m'.files.filter (fun f => !isWithin (m.key directory) f.1) =
    m.files.filter fun f => !isWithin (m.key directory) f.1
  kept : ∀ d ∈ m.directories, d ∈ m'.directories
  new : ∀ d ∈ m'.directories, d ∈ m.directories ∨
    d = m.key directory ∨ d ∈ Path.parents (m.key directory)
  record : Gained Event.temporary? m m' []

namespace Confined

theorem key_eq (h : Confined directory m m') (path : String) : m'.key path = m.key path := by
  unfold key
  rw [h.cwd]

theorem trans (h : Confined directory m m') (h' : Confined directory m' m'') :
    Confined directory m m'' where
  cwd := h'.cwd.trans h.cwd
  files := by
    have hfiles := h'.files
    rw [h.key_eq] at hfiles
    exact hfiles.trans h.files
  kept d hd := h'.kept d (h.kept d hd)
  new d hd := by
    have hnew := h'.new d hd
    rw [h.key_eq] at hnew
    exact hnew.elim (h.new d) .inr
  record := h.record.then_nothing h'.record

theorem of_sameFiles (h : m.SameFiles m') (hrecord : Gained Event.temporary? m m' []) :
    Confined directory m m' where
  cwd := h.cwd
  files := by rw [h.files]
  kept d hd := h.directories ▸ hd
  new d hd := .inl (h.directories ▸ hd)
  record := hrecord

theorem withDirectory {path : String} (h : m.key path = m.key directory) :
    Confined directory m (m.withDirectory path) where
  cwd := cwd_withDirectory path
  files := by rw [files_withDirectory]
  kept d hd := directory_mem_withDirectory hd path
  new d hd := by
    rcases List.mem_append.mp hd with hd | hd
    · have hd := List.mem_of_mem_filter hd
      rw [h] at hd
      exact .inr (List.mem_cons.mp hd)
    · exact .inl hd
  record := gained_nothing [] (record_withDirectory m path) (List.forall_mem_nil _)

/-- A file with a plain name is written into the directory. -/
theorem withFile {name : List Char} (hcwd : Path.isAbsolute m.cwd = true)
    (hpath : Path.EndsIn directory name) (h : Path.IsPlain name) (file : String)
    (hfile : Path.IsPlain file.toList) (content : Content) :
    Confined directory m (m.withFile (Path.join directory file) content) := by
  have hinside := isWithin_key_join (m := m) hpath h hfile
  have hdirectory : Confined directory m
      (m.withDirectory (Path.dirname (m.key (Path.join directory file)))) := by
    refine withDirectory ?_
    rw [dirname_key_join hpath h hfile, key_key hcwd]
  refine ⟨cwd_withFile _ _, ?_, ?_, ?_, ?_⟩
  · rw [files_withFile, List.filter_cons, hinside, List.filter_filter]
    refine List.filter_congr fun f _ => ?_
    by_cases hkey : f.1 = m.key (Path.join directory file)
    · rw [hkey, hinside]
      rfl
    · simp [hkey]
  · rw [directories_withFile]
    exact hdirectory.kept
  · rw [directories_withFile]
    exact hdirectory.new
  · exact gained_nothing [] (record_withFile m _ _) (List.forall_mem_nil _)

end Confined

/-- From one machine to the next, files and directories are as they were. No private directory has
been created. -/
def Untouched (m m' : Machine) : Prop := m.SameFiles m' ∧ Gained Event.temporary? m m' []

instance : IsPreorder Machine Untouched where
  refl m := ⟨.refl m, .refl m⟩
  trans _ _ _ h h' := ⟨h.1.trans h'.1, h.2.then_nothing h'.2⟩

theorem Probed.untouched (h : m.Probed m') : m.Untouched m' :=
  ⟨h.sameFiles, h.gained fun _ => rfl⟩

theorem Untouched.confined (h : m.Untouched m') : Confined directory m m' :=
  .of_sameFiles h.1 h.2

theorem withLine_untouched (m : Machine) (line : String) : m.Untouched (m.withLine line) := by
  refine ⟨m.withLine_sameFiles line, ?_⟩
  unfold withLine
  split
  · exact .refl m
  · exact gained_nothing_of_note rfl rfl

theorem note_untouched (m : Machine) {e : Event} (h : e.temporary? = none) :
    m.Untouched (m.note e) := ⟨⟨rfl, rfl, rfl⟩, gained_nothing_of_note rfl h⟩

end Machine

theorem Supervisor.run_untouched (s : Session) (o : Observers) (m : Machine) :
    m.Untouched ((ofSession s).run o m).2 := by
  refine ⟨run_sameFiles _ o m, ?_⟩
  obtain ⟨events, hrecord, hevents⟩ := run_record s o m
  refine Machine.gained_nothing events hrecord fun ev hev => ?_
  rcases hevents ev hev with hcommand | hnotice
  · exact Event.temporary?_of_isCommand hcommand
  · exact Event.temporary?_of_isNotice hnotice

open Machine (Untouched Confined Gained)

/-- Encoding touches no files if getting the session asks for lengths only. -/
theorem FlatJob.untouched_encode {session : Job Session} (h : session.OnlyProbes) (o : Observers) :
    (encode o session).Leads Untouched :=
  (h.mono fun _ _ => Machine.Probed.untouched).bind fun s => Supervisor.run_untouched s o

/-! ## Joining files -/

namespace Joining

theorem tried_untouched (m : Machine) (args : List Document) : m.Untouched (tried m args) :=
  ⟨⟨rfl, rfl, rfl⟩, Machine.gained_nothing
    [.started args, .commandStarted (commandOf args)] rfl (by simp [Event.temporary?])⟩

theorem begun_untouched (m : Machine) (args : List Document) : m.Untouched (begun m args) :=
  have hafter : (tried m args).Untouched (begun m args) := ⟨⟨rfl, rfl, rfl⟩, ⟨[], rfl, rfl⟩⟩
  trans_of Untouched (tried_untouched m args) hafter

/-- The command writes the joined file. -/
theorem display_last_command (tool : Document) (p : JoinPlace) :
    ((command tool p).getLastD .null).display = p.result := by
  obtain ⟨directory, list, result⟩ := p
  rfl

variable {name : List Char} (hcwd : Path.isAbsolute m.cwd = true)
  (hpath : Path.EndsIn directory name) (h : Path.IsPlain name)
include hcwd hpath h

omit hcwd hpath h in
theorem confined_withPrivate (m : Machine) (directory : String) :
    Confined directory (m.note (.madeTemporary directory)) (withPrivate m directory) :=
  .withDirectory rfl

/-- A list is written into the private directory, once there is one. -/
theorem confined_withList (audio : List String) (text : String) :
    Confined directory (m.note (.madeTemporary directory)) (withList m directory audio text) := by
  have hcreated := confined_withPrivate m directory
  have hnoted := Machine.note_untouched (withPrivate m directory)
    (e := .wrote (placeIn directory audio).list text) rfl
  refine (hcreated.trans hnoted.confined).trans ?_
  exact .withFile (by rwa [(hcreated.trans hnoted.confined).cwd]) hpath h _
    (Path.isPlain_of_length (by decide +kernel) (by decide +kernel)) _

theorem confined_written (tool : Document) (audio : List String) :
    Confined directory m (written m (command tool (placeIn directory audio))) := by
  unfold written
  rw [display_last_command]
  unfold placeIn
  dsimp only
  split
  · exact .withFile hcwd hpath h _ (isPlain_joinedName audio) .media
  · exact (refl_of Untouched m).confined

/-- Files are joined in the private directory. -/
theorem confined_attempt (tool : Document) (audio : List String) :
    Confined directory m (attempt tool (placeIn directory audio) m).2 := by
  have hline := m.withLine_untouched
    ("CMD: '" ++ commandOf (command tool (placeIn directory audio)) ++ "'")
  rcases attempt_cases tool (placeIn directory audio) m with ⟨f, hf⟩ | ⟨f, hf⟩ | hdone
  · rw [hf]
    exact (refl_of Untouched m).confined
  · rw [hf]
    exact (trans_of Untouched hline (tried_untouched _ _)).confined
  rw [hdone]
  unfold commanded
  dsimp only
  have hbegun := trans_of Untouched hline
    (begun_untouched _ (command tool (placeIn directory audio)))
  have hwritten := confined_written (m := begun _ (command tool (placeIn directory audio)))
    (by rwa [hbegun.1.cwd]) hpath h tool audio
  exact (hbegun.confined.trans hwritten).trans (Machine.note_untouched _ rfl).confined

end Joining

/-! ## Whole jobs -/

namespace Machine

variable {cache : Document}

theorem Untouched.restored (h : m.Untouched m') (cache : Document) : m.Restored cache m' where
  gone path hpath := by
    rw [temporaries_of_gained h.2] at hpath
    exact absurd hpath List.not_mem_nil
  files := h.1.files
  kept d hd := h.1.directories ▸ hd
  new d hd := .inl (h.1.directories ▸ hd)

theorem restored_of_cached (h : Joining.Cached cache m m') : m.Restored cache m' where
  gone path hpath := by
    rw [temporaries_of_gained (h.gained fun _ => rfl)] at hpath
    exact absurd hpath List.not_mem_nil
  files := h.files
  kept _ hd := h.kept hd
  new _ hd := (h.new hd).imp_right .inl

/-- From one machine to a later one, a private directory has been created, and apart from the cache
directory there are changes only in it. -/
structure Used (cache : Document) (directory : String) (m m₁ : Machine) : Prop where
  key : m₁.key directory = m.key directory
  created : Gained Event.temporary? m m₁ [directory]
  files : m₁.files.filter (fun f => !isWithin (m.key directory) f.1) =
    m.files.filter fun f => !isWithin (m.key directory) f.1
  kept : ∀ d ∈ m.directories, d ∈ m₁.directories
  new : ∀ d ∈ m₁.directories, d ∈ m.directories ∨
    (∃ path, cache = .text path ∧ (d = m.key path ∨ d ∈ Path.parents (m.key path))) ∨
    d = m.key directory ∨ d ∈ Path.parents (m.key directory)

theorem used_of_confined {m₀ m₁ : Machine} (hcached : Joining.Cached cache m m₀)
    (hconfined : Confined directory (m₀.note (.madeTemporary directory)) m₁) :
    m.Used cache directory m₁ := by
  have hkey : (m₀.note (.madeTemporary directory)).key directory = m.key directory := by
    unfold key
    rw [← hcached.cwd]
    rfl
  have hnoted : Gained Event.temporary? m₀ (m₀.note (.madeTemporary directory)) [directory] :=
    ⟨[.madeTemporary directory], rfl, rfl⟩
  obtain ⟨-, hfiles, hkept, hnew, hrecord⟩ := id hconfined
  rw [hkey] at hfiles hnew
  refine ⟨(hconfined.key_eq directory).trans hkey, ?_, ?_, ?_, ?_⟩
  · exact ((hcached.gained fun _ => rfl).after_nothing hnoted).then_nothing hrecord
  · rw [hfiles]
    show m₀.files.filter _ = _
    rw [hcached.files]
  · exact fun d hd => hkept d (hcached.kept hd)
  · intro d hd
    rcases hnew d hd with hd | hd
    · exact (hcached.new hd).imp_right .inl
    · exact .inr (.inr hd)

namespace Used

variable {m₁ : Machine} (h : m.Used cache directory m₁)
include h

theorem untouched {m₂ : Machine} (hm₂ : m₁.Untouched m₂) : m.Used cache directory m₂ := by
  obtain ⟨hsame, hgained⟩ := hm₂
  refine ⟨?_, h.created.then_nothing hgained, ?_, ?_, ?_⟩
  · rw [← h.key]
    unfold Machine.key
    rw [hsame.cwd]
  · rw [hsame.files]
    exact h.files
  · rw [hsame.directories]
    exact h.kept
  · rw [hsame.directories]
    exact h.new

/-- Nothing was there before. -/
theorem files_eq (hfree : m.holds (m.key directory) = false) :
    m₁.files.filter (fun f => !isWithin (m.key directory) f.1) = m.files := by
  rw [h.files, List.filter_eq_self]
  intro f hf
  rw [← Bool.not_eq_true, holds_eq_true_iff, not_or] at hfree
  simpa using fun hwithin => hfree.1 ⟨f, hf, hwithin⟩

/-- A directory that is left behind. -/
theorem strewn (hfree : m.holds (m.key directory) = false)
    (hleft : m₁.holds (m₁.key directory) = true) : m.Strewn cache directory m₁ where
  created := temporaries_of_gained h.created
  left := hleft
  files := h.files_eq hfree
  kept := h.kept
  new := h.new

theorem created_removed : m.temporaries
    ((m₁.note (.removedTree directory)).withoutTree directory) = [directory] :=
  temporaries_of_gained
    (h.created.then_nothing (gained_nothing_of_note (record_withoutTree _ directory) rfl))

/-- A directory that is removed. -/
theorem restored (hfree : m.holds (m.key directory) = false) :
    m.Restored cache ((m₁.note (.removedTree directory)).withoutTree directory) := by
  have hkey : (m₁.note (.removedTree directory)).key directory = m.key directory := h.key
  refine ⟨?_, ?_, ?_, ?_⟩
  · intro path hpath
    rw [h.created_removed, List.mem_singleton] at hpath
    rw [hpath]
    exact holds_withoutTree (m₁.note (.removedTree directory)) directory
  · show m₁.files.filter (fun f => !isWithin (m₁.key directory) f.1) = m.files
    rw [h.key]
    exact h.files_eq hfree
  · intro d hd
    refine List.mem_filter.mpr ⟨h.kept d hd, ?_⟩
    rw [hkey]
    rw [← Bool.not_eq_true, holds_eq_true_iff, not_or] at hfree
    simpa using fun hwithin => hfree.2 ⟨d, hd, hwithin⟩
  · intro d hd
    obtain ⟨hd, houtside⟩ := List.mem_filter.mp hd
    rw [h.created_removed]
    rcases h.new d hd with hd | hd | rfl | hd
    · exact .inl hd
    · exact .inr (.inl hd)
    · rw [hkey, isWithin_self] at houtside
      exact absurd houtside Bool.false_ne_true
    · exact .inr (.inr ⟨directory, List.mem_singleton_self _, hd⟩)

end Used

/-- What is left of a machine by a job that joins files and ends with `r`, if the system refuses the
lists that are `refused`: all is restored, unless the list in a private directory is refused; then
the job ends with this refusal, and the directory is left behind. -/
structure Aftermath {α : Type} (refused : String → HostFault → Prop) (cache : Document)
    (m : Machine) (r : Except Fault α) (m' : Machine) : Prop where
  restored : (∀ path ∈ m.temporaries m', ∀ f, ¬ refused path f) → m.Restored cache m'
  strewn : ∀ path ∈ m.temporaries m', ∀ f, refused path f →
    r = .error (.host f) ∧ m.Strewn cache path m'

namespace Aftermath

variable {α : Type} {refused : String → HostFault → Prop} {r : Except Fault α} {directory : String}

/-- No private directory was created. -/
theorem of_none (h : m.temporaries m' = []) (hrestored : m.Restored cache m') :
    Aftermath refused cache m r m' where
  restored _ := hrestored
  strewn path hpath := absurd hpath (by rw [h]; exact List.not_mem_nil)

/-- The list in the private directory was taken. -/
theorem of_listed (h : m.temporaries m' = [directory]) (hlisted : ∀ f, ¬ refused directory f)
    (hrestored : m.Restored cache m') : Aftermath refused cache m r m' where
  restored _ := hrestored
  strewn path hpath f hf := by
    rw [h, List.mem_singleton] at hpath
    exact absurd (hpath ▸ hf) (hlisted f)

/-- The list in the private directory was refused. -/
theorem of_unlisted {f : HostFault} (h : m.temporaries m' = [directory])
    (hrefused : ∀ g, refused directory g ↔ g = f) (hstrewn : m.Strewn cache directory m') :
    Aftermath refused cache m (.error (.host f) : Except Fault α) m' where
  restored hno := by
    rw [h, List.forall_mem_singleton] at hno
    exact absurd ((hrefused f).mpr rfl) (hno f)
  strewn path hpath g hg := by
    rw [h, List.mem_singleton] at hpath
    subst hpath
    rw [(hrefused g).mp hg]
    exact ⟨rfl, hstrewn⟩

end Aftermath

end Machine

namespace Joining

/-- The system refuses the list of the files in a directory. -/
def ListRefused (j : Joining) (m : Machine) (directory : String) (f : HostFault) : Prop :=
  m.refuses (.wrote (Path.join directory "concat_list.txt")
    (joinList m.cwd (j.audio.map (·.display)))) = some f

/-- Files that are there are found under the paths that were given. -/
theorem eq_map_of_requireFiles {ds : List Document} {audio : List String}
    (h : ds.mapM requireFile m = (.ok audio, m')) : audio = ds.map (·.display) := by
  induction ds generalizing audio m m' with
  | nil => rw [← (Job.pure_eq_ok_iff.mp h).1]; rfl
  | cons d ds ih =>
    rw [List.mapM_cons] at h
    obtain ⟨path, m₁, hfile, hrest⟩ := Job.bind_eq_ok_iff.mp h
    obtain ⟨paths, m₂, hfiles, hall⟩ := Job.bind_eq_ok_iff.mp hrest
    obtain ⟨given, m₃, hgiven, hfound⟩ := Job.bind_eq_ok_iff.mp hfile
    obtain ⟨_, m₄, -, hpath⟩ := Job.bind_eq_ok_iff.mp hfound
    rw [← (Job.pure_eq_ok_iff.mp hall).1, ih hfiles, ← (Job.pure_eq_ok_iff.mp hpath).1,
      Document.eq_text_of_toPath (Job.ofExcept_eq_ok_iff.mp hgiven).1]
    rfl

theorem audio_of_check {j : Joining} {audio : List String} {tool : Document}
    {cache : Option String} (h : j.check m = (.ok (audio, tool, cache), m')) :
    audio = j.audio.map (·.display) := by
  obtain ⟨audio', m₁, hfiles, h⟩ := Job.bind_eq_ok_iff.mp h
  obtain ⟨tool', m₂, -, h⟩ := Job.bind_eq_ok_iff.mp h
  obtain ⟨cache', m₃, -, h⟩ := Job.bind_eq_ok_iff.mp h
  rw [← (Prod.mk.inj (Job.pure_eq_ok_iff.mp h).1).1]
  exact eq_map_of_requireFiles hfiles

variable {j : Joining}

/-- A list is refused now if it will be when all has been checked. -/
theorem listRefused_iff {audio : List String} {tool : Document} {cache : Option String}
    {m₀ : Machine} (h : j.check m = (.ok (audio, tool, cache), m₀)) (directory : String)
    (f : HostFault) : j.ListRefused m directory f ↔
      m₀.refuses (.wrote (placeIn directory audio).list (joinList m₀.cwd audio)) = some f := by
  have hcached := j.check_cached m
  rw [h] at hcached
  unfold ListRefused
  rw [← audio_of_check h, hcached.cwd, hcached.sameHost.refuses]
  rfl

/-- What has been prepared for joining files has been prepared in a new private directory, with a
list that the system has taken. -/
theorem exists_place {tool : Document} {p : JoinPlace}
    (h : j.prepare m = (.ok (tool, p), m')) (hcwd : Path.isAbsolute m.cwd = true) :
    m.Used j.cache p.directory (attempt tool p m').2 ∧ ∀ f, ¬ j.ListRefused m p.directory f := by
  have hprepared := j.prepare_prepared m
  have hcached := j.check_cached m
  rw [h] at hprepared
  cases hprepared with
  | placed audio tool cache m₀ check listed =>
    rw [check] at hcached
    have hpath := endsIn_privateDirectory cache m₀.now
    have hname := isPlain_directoryName m₀.now
    have hplaced : Confined (privateDirectory cache m₀.now)
        (m₀.note (.madeTemporary (privateDirectory cache m₀.now)))
        (withPlace m₀ (privateDirectory cache m₀.now) audio) :=
      confined_withList (by rwa [hcached.cwd]) hpath hname audio (joinList m₀.cwd audio)
    constructor
    · generalize withPlace m₀ (privateDirectory cache m₀.now) audio = m₁ at hplaced ⊢
      have hcwd₁ : Path.isAbsolute m₁.cwd = true := by
        rw [hplaced.cwd]
        exact (congrArg Path.isAbsolute hcached.cwd).trans hcwd
      have htried := confined_attempt hcwd₁ hpath hname tool audio
      exact Machine.used_of_confined hcached (hplaced.trans htried)
    · intro f hf
      rw [listRefused_iff check] at hf
      exact absurd (hf.symm.trans listed) (by simp)

/-- A list that is refused leaves its private directory behind. -/
theorem used_of_unlisted {audio : List String} {tool : Document} {cache : Option String}
    {m₀ left : Machine} (check : j.check m = (.ok (audio, tool, cache), m₀))
    (hcwd : Path.isAbsolute m.cwd = true)
    (leaves : left = withPrivate m₀ (privateDirectory cache m₀.now) ∨
      left = withList m₀ (privateDirectory cache m₀.now) audio "") :
    m.Used j.cache (privateDirectory cache m₀.now) left ∧
      left.holds (left.key (privateDirectory cache m₀.now)) = true := by
  have hcached := j.check_cached m
  rw [check] at hcached
  have hcwd₀ : Path.isAbsolute m₀.cwd = true := by rwa [hcached.cwd]
  have hpath := endsIn_privateDirectory cache m₀.now
  have hname := isPlain_directoryName m₀.now
  have hprivate := confined_withPrivate m₀ (privateDirectory cache m₀.now)
  have hholds : (withPrivate m₀ (privateDirectory cache m₀.now)).holds
      (m₀.key (privateDirectory cache m₀.now)) = true :=
    Machine.holds_withDirectory_self (Machine.key_ne_root hpath hname)
  rcases leaves with rfl | rfl
  · refine ⟨Machine.used_of_confined hcached hprivate, ?_⟩
    rw [hprivate.key_eq]
    exact hholds
  · have hlist := confined_withList hcwd₀ hpath hname audio ""
    refine ⟨Machine.used_of_confined hcached hlist, ?_⟩
    rw [hlist.key_eq]
    exact Machine.holds_withFile hholds _ _

/-- What was used for joining files is removed when the list was taken, whatever comes. -/
theorem aftermath_tidied {α : Type} {r : Except Fault α} {p : JoinPlace} {m₁ : Machine}
    (hkeep : j.keep = false) (hused : m.Used j.cache p.directory m₁)
    (hlisted : ∀ f, ¬ j.ListRefused m p.directory f)
    (hfresh : ∀ path ∈ m.temporaries (j.tidied p m₁), m.holds (m.key path) = false) :
    m.Aftermath (j.ListRefused m) j.cache r (j.tidied p m₁) := by
  have htidied : j.tidied p m₁ =
      (m₁.note (.removedTree p.directory)).withoutTree p.directory :=
    if_neg (by rw [hkeep]; exact Bool.false_ne_true)
  rw [htidied] at hfresh ⊢
  rw [hused.created_removed, List.forall_mem_singleton] at hfresh
  exact .of_listed hused.created_removed hlisted (hused.restored hfresh)

/-- Work with a joined file that touches no files leaves the machine as it was, unless the list of
the files is refused. -/
theorem withJoined_aftermath {α : Type} (hkeep : j.keep = false)
    {work : String → Job α} (hwork : ∀ joined, (work joined).Leads Untouched)
    (hcwd : Path.isAbsolute m.cwd = true)
    (hfresh : ∀ path ∈ m.temporaries (j.withJoined work m).2, m.holds (m.key path) = false) :
    m.Aftermath (j.ListRefused m) j.cache (j.withJoined work m).1 (j.withJoined work m).2 := by
  have hnothing : ∀ {m₁ : Machine} {r : Except Fault α}, Cached j.cache m m₁ →
      m.Aftermath (j.ListRefused m) j.cache r m₁ := fun hcached =>
    .of_none (Machine.temporaries_of_gained (hcached.gained fun _ => rfl))
      (Machine.restored_of_cached hcached)
  have hpassage := j.withJoined_passage work m
  generalize j.withJoined work m = result at hpassage hfresh ⊢
  cases hpassage with
  | unprepared f m₁ prepare =>
    have hprepared := j.prepare_prepared m
    have hcached := j.check_cached m
    rw [prepare] at hprepared
    cases hprepared with
    | unchecked f m₁ check =>
      rw [check] at hcached
      exact hnothing hcached
    | homeless audio tool cache m₁ f check refused =>
      rw [check] at hcached
      exact hnothing hcached
    | unlisted audio tool cache m₀ f left check refused leaves =>
      obtain ⟨hused, hleft⟩ := used_of_unlisted check hcwd leaves
      have hcreated := Machine.temporaries_of_gained hused.created
      rw [hcreated, List.forall_mem_singleton] at hfresh
      refine .of_unlisted hcreated (fun g => ?_) (hused.strewn hfresh hleft)
      rw [listRefused_iff check, refused, Option.some_inj, eq_comm]
  | unjoined tool p m₁ f m₂ prepare attempt =>
    obtain ⟨hused, hlisted⟩ := exists_place prepare hcwd
    rw [attempt] at hused
    exact aftermath_tidied hkeep hused hlisted hfresh
  | worked tool p m₁ m₂ prepare attempt =>
    obtain ⟨hused, hlisted⟩ := exists_place prepare hcwd
    rw [attempt] at hused
    exact aftermath_tidied hkeep (hused.untouched (hwork p.result m₂)) hlisted hfresh

end Joining

namespace FlatJob

/-- The system refuses the list of the files of a job in a directory. -/
def ListRefused (j : FlatJob) (m : Machine) (directory : String) (f : HostFault) : Prop :=
  ∃ files, j.files = .ok files ∧
    m.refuses (.wrote (Path.join directory "concat_list.txt")
      (joinList m.cwd (files.map (·.display)))) = some f

theorem listRefused_iff {j : FlatJob} {files : List Document} (h : j.files = .ok files)
    (tool cache : Document) (keep : Bool) (directory : String) (f : HostFault) :
    j.ListRefused m directory f ↔
      (⟨files, tool, cache, keep⟩ : Joining).ListRefused m directory f := by
  constructor
  · rintro ⟨files', hfiles', hrefused⟩
    rw [Except.ok.inj (h.symm.trans hfiles')]
    exact hrefused
  · exact fun hrefused => ⟨files, h, hrefused⟩

/-- **Restored machines.** A job of whole files is not to keep its files. If the system takes the
list of the files, then the private directory is gone after the job, however it ends, with all that
was in it, and every file and every directory is as it was before; new are only the cache directory
and the directories above what has been created. If the system refuses the list, the job ends with
this refusal, and the private directory is still there. -/
theorem run_restores (j : FlatJob) (cache : Document) (o : Observers) (m : Machine)
    (hcwd : Path.isAbsolute m.cwd = true)
    (hfresh : ∀ path ∈ m.temporaries (j.run cache false o m).2, m.holds (m.key path) = false) :
    ((∀ path ∈ m.temporaries (j.run cache false o m).2, ∀ f, ¬ j.ListRefused m path f) →
      m.Restored cache (j.run cache false o m).2) ∧
    ∀ path ∈ m.temporaries (j.run cache false o m).2, ∀ f, j.ListRefused m path f →
      (j.run cache false o m).1 = .error (.host f) ∧
        m.Strewn cache path (j.run cache false o m).2 := by
  have huntouched : ∀ {m₁ : Machine} {r : Except Fault RunOutcome}, m.Untouched m₁ →
      m.Aftermath (j.ListRefused m) cache r m₁ := fun hm₁ =>
    .of_none (Machine.temporaries_of_gained hm₁.2) (hm₁.restored cache)
  suffices h : m.Aftermath (j.ListRefused m) cache (j.run cache false o m).1
      (j.run cache false o m).2 from ⟨h.restored, h.strewn⟩
  have hcourse := j.run_course cache false o m
  generalize j.run cache false o m = result at hcourse hfresh ⊢
  cases hcourse with
  | refused f => exact huntouched (refl_of Untouched m)
  | single j' file resolve files =>
    exact huntouched (untouched_encode (j'.onlyProbes_session .null) o m)
  | several j' first second rest resolve files =>
    have hfiles : j.files = .ok (first :: second :: rest) := by
      rw [← files, files_of_resolve resolve]
    have hrefused : j.ListRefused m =
        (⟨first :: second :: rest, j'.tool, cache, false⟩ : Joining).ListRefused m :=
      funext fun path => funext fun f => propext (listRefused_iff hfiles _ _ _ path f)
    rw [hrefused]
    exact Joining.withJoined_aftermath rfl
      (fun joined => untouched_encode (j'.onlyProbes_sessionOfJoined joined) o) hcwd hfresh

/-- Two files are joined in a private directory below a cache directory that was missing. -/
theorem run_restores_duet : Path.isAbsolute Machine.withSongs.cwd = true ∧
    Machine.withSongs.temporaries (duet.run (.text "cache") false .standard .withSongs).2 =
      ["cache/stillcast-concat-24jan01A00A-XXXXXXXX"] ∧
    Machine.withSongs.holds (Machine.withSongs.key "cache/stillcast-concat-24jan01A00A-XXXXXXXX") =
      false ∧
    (∀ path ∈ Machine.withSongs.temporaries
        (duet.run (.text "cache") false .standard .withSongs).2,
      ∀ f, ¬ duet.ListRefused .withSongs path f) ∧
    Machine.withSongs.Restored (.text "cache")
      (duet.run (.text "cache") false .standard .withSongs).2 := by
  have hcreated : Machine.withSongs.temporaries
      (duet.run (.text "cache") false .standard .withSongs).2 =
      ["cache/stillcast-concat-24jan01A00A-XXXXXXXX"] := by decide +kernel
  have hfree : Machine.withSongs.holds
      (Machine.withSongs.key "cache/stillcast-concat-24jan01A00A-XXXXXXXX") = false := by
    decide +kernel
  have htaken : ∀ path ∈ Machine.withSongs.temporaries
      (duet.run (.text "cache") false .standard .withSongs).2,
      ∀ f, ¬ duet.ListRefused .withSongs path f := by
    rintro path - f ⟨files, -, hrefused⟩
    exact absurd hrefused (by simp [Machine.withSongs, Machine.bare])
  refine ⟨by decide +kernel, hcreated, hfree, htaken, ?_⟩
  refine (run_restores duet (.text "cache") .standard .withSongs (by decide +kernel) ?_).1 htaken
  rw [hcreated, List.forall_mem_singleton]
  exact hfree

/-- Two files, one of which is named by half a pair alone. -/
def unencodable : FlatJob :=
  { duet with audio := .sequence [.text "first.mp3", .text (String.singleton (charOfCode 0xdcff))] }

/-- A machine with these files that refuses texts without an encoding. -/
def withUnencodable : Machine :=
  { Machine.withSongs with
    files := [("/work/first.mp3", .media),
      ("/work/" ++ String.singleton (charOfCode 0xdcff), .media)]
    refuses := refusedForm }

/-- The list of these files cannot be written, and the private directory stays. -/
theorem run_restores_not_unencodable :
    withUnencodable.temporaries
      (unencodable.run .null false .standard withUnencodable).2 =
        ["/tmp/stillcast-concat-24jan01A00A-XXXXXXXX"] ∧
    withUnencodable.holds "/tmp/stillcast-concat-24jan01A00A-XXXXXXXX" = false ∧
    (unencodable.run .null false .standard withUnencodable).1.isOk = false ∧
    (unencodable.run .null false .standard withUnencodable).2.holds
      "/tmp/stillcast-concat-24jan01A00A-XXXXXXXX" = true := by
  decide +kernel

end FlatJob

end StillVideo
