import StillVideo.Proofs.RecordedEvents

/-!
# The course of a job of whole files

Files are joined in three stages: the place is prepared, one command joins the files, and somebody
works with the joined file. Whatever happens behind the first stage, the place is tidied up
(`Joining.withJoined_passage`); within the first stage it is not (`Joining.Prepared`). A job of
whole files is refused at once, reads its only file, or joins its files (`FlatJob.run_course`).
-/

namespace StillVideo

variable {α : Type} {m m' : Machine}

theorem Document.eq_text_of_toPath {d : Document} {path : String} (h : d.toPath = .ok path) :
    d = .text path := by
  unfold toPath at h
  split at h
  · rw [Except.ok.inj h]
  · exact absurd h (by simp)

namespace Job

theorem note_bind {e : Event} {f : Unit → Job α} : (note e >>= f) m = f () (m.note e) :=
  bind_of_ok rfl

theorem modify_bind {g : Machine → Machine} {f : Unit → Job α} :
    ((modify g : Job Unit) >>= f) m = f () (g m) := bind_of_ok rfl

theorem ne_ok_of_error {x : Job α} {f : Fault} {a : α} {m'' : Machine}
    (h : x m = (.error f, m')) : x m ≠ (.ok a, m'') := by
  rw [h]
  exact fun hok => absurd (Prod.mk.inj hok).1 (by simp)

end Job

namespace Joining

/-! ## The private directory -/

/-- The name of the private directory of a joining. -/
def directoryName (t : LocalTime) : List Char :=
  ("stillcast-concat-" ++ t.stamp ++ "-" ++ "XXXXXXXX").toList

/-- The private directory of a joining, in the cache if there is one. -/
def privateDirectory (cache : Option String) (t : LocalTime) : String :=
  Job.temporaryPath ("stillcast-concat-" ++ t.stamp ++ "-") cache

theorem endsIn_privateDirectory (cache : Option String) (t : LocalTime) :
    Path.EndsIn (privateDirectory cache t) (directoryName t) := by
  unfold privateDirectory Job.temporaryPath directoryName
  exact ⟨_, by simp only [String.toList_append, List.append_assoc]; rfl⟩

theorem isPlain_directoryName (t : LocalTime) : Path.IsPlain (directoryName t) := by
  refine Path.isPlain_of_length ?_ ?_ <;> unfold directoryName
  · simp only [String.toList_append, List.mem_append, not_or]
    exact ⟨⟨⟨by decide +kernel, t.slash_not_mem_stamp⟩, by decide +kernel⟩, by decide +kernel⟩
  · simp only [String.toList_append, List.length_append]
    have : "XXXXXXXX".toList.length = 8 := by decide +kernel
    omega

theorem isPlain_joinedName (audio : List String) : Path.IsPlain (joinedName audio).toList := by
  have hextension : '/' ∉ (joinedExtension audio).toList := by
    unfold joinedExtension
    dsimp only
    split
    · decide +kernel
    · exact Path.slash_not_mem_extension _
  unfold joinedName
  refine Path.isPlain_of_length ?_ ?_
  · rw [String.toList_append, List.mem_append, not_or]
    exact ⟨by decide +kernel, hextension⟩
  · rw [String.toList_append, List.length_append]
    have : "temp_combined".toList.length = 13 := by decide +kernel
    omega

/-- The place of a joining in a directory. -/
def placeIn (directory : String) (audio : List String) : JoinPlace :=
  ⟨directory, Path.join directory "concat_list.txt", Path.join directory (joinedName audio)⟩

/-- The machine with a private directory. -/
def withPrivate (m : Machine) (directory : String) : Machine :=
  (m.note (.madeTemporary directory)).withDirectory directory

theorem sameHost_withPrivate (m : Machine) (directory : String) :
    m.SameHost (withPrivate m directory) :=
  (m.sameHost_note _).trans (Machine.sameHost_withDirectory _ _)

theorem cwd_withPrivate (m : Machine) (directory : String) :
    (withPrivate m directory).cwd = m.cwd := Machine.cwd_withDirectory directory

/-- The machine with a private directory and a list in it. -/
def withList (m : Machine) (directory : String) (audio : List String) (text : String) : Machine :=
  let list := (placeIn directory audio).list
  ((withPrivate m directory).note (.wrote list text)).withFile list (.text text)

/-- The machine with a place that has been prepared for joining files. -/
def withPlace (m : Machine) (directory : String) (audio : List String) : Machine :=
  withList m directory audio (joinList m.cwd audio)

/-- What is checked before the private directory is created. -/
def check (j : Joining) : Job (List String × Document × Option String) := do
  let audio ← j.audio.mapM requireFile
  let tool ← requireEncoder j.tool
  let cache ← requireCache j.cache
  return (audio, tool, cache)

/-- From one machine to the next, no more has happened than that the cache directory has been
created. -/
inductive Cached (cache : Document) (m : Machine) : Machine → Prop
  | unchanged : Cached cache m m
  | created (path : String) (given : cache = .text path) :
    Cached cache m ((m.note (.madeDirectories path)).withDirectory path)

namespace Cached

variable {cache : Document} (h : Cached cache m m')
include h

theorem cwd : m'.cwd = m.cwd := by
  cases h with
  | unchanged => rfl
  | created path given => exact Machine.cwd_withDirectory path

theorem files : m'.files = m.files := by
  cases h with
  | unchanged => rfl
  | created path given => exact Machine.files_withDirectory path

theorem kept {d : String} (hd : d ∈ m.directories) : d ∈ m'.directories := by
  cases h with
  | unchanged => exact hd
  | created path given => exact Machine.directory_mem_withDirectory hd path

theorem new {d : String} (hd : d ∈ m'.directories) : d ∈ m.directories ∨
    ∃ path, cache = .text path ∧ (d = m.key path ∨ d ∈ Path.parents (m.key path)) := by
  cases h with
  | unchanged => exact .inl hd
  | created path given =>
    rcases List.mem_append.mp hd with hd | hd
    · exact .inr ⟨path, given, List.mem_cons.mp (List.mem_of_mem_filter hd)⟩
    · exact .inl hd

theorem gained {f : Event → Option α} (hf : ∀ path, f (.madeDirectories path) = none) :
    Machine.Gained f m m' [] := by
  cases h with
  | unchanged => exact .refl m
  | created path given =>
    exact Machine.gained_nothing_of_note (Machine.record_withDirectory _ path) (hf path)

theorem token : m'.token = m.token := by
  cases h with
  | unchanged => rfl
  | created path given => rfl

theorem sameHost : m.SameHost m' := by
  cases h with
  | unchanged => exact .refl m
  | created path given => exact (m.sameHost_note _).trans (Machine.sameHost_withDirectory _ path)

end Cached

theorem requireCache_cached (cache : Document) (m : Machine) :
    Cached cache m (requireCache cache m).2 := by
  unfold requireCache
  split
  · exact .unchanged
  cases hpath : cache.toPath with
  | error f => exact .unchanged
  | ok path =>
    have hgiven : cache = .text path := Document.eq_text_of_toPath hpath
    have hmade := Job.makeDirectories_eq path m
    rw [Job.ofExcept_ok_bind, Job.machine_bind]
    split
    · cases hrefused : m.refuses (.madeDirectories path) <;> rw [hrefused] at hmade
      · show Cached cache m ((Job.makeDirectories path >>= _) m).2
        rw [Job.bind_of_ok hmade]
        exact .created path hgiven
      · show Cached cache m ((Job.makeDirectories path >>= _) m).2
        rw [Job.bind_of_error hmade]
        exact .unchanged
    · exact .unchanged

theorem check_cached (j : Joining) (m : Machine) : Cached j.cache m (j.check m).2 := by
  have hsame : (j.audio.mapM requireFile).Leads (fun m m' => m = m') :=
    Job.leads_mapM (fun d => (Job.leads_ofExcept _).bind fun path =>
      (Job.leads_requirePath path).bind fun _ => Job.leads_pure _) j.audio
  unfold check
  have hfiles := hsame m
  rcases haudio : j.audio.mapM requireFile m with ⟨f | audio, m₁⟩ <;> rw [haudio] at hfiles <;>
    obtain rfl : m = m₁ := hfiles
  · rw [Job.bind_of_error haudio]
    exact .unchanged
  rw [Job.bind_of_ok haudio]
  have htool := requireEncoder_machine j.tool m
  rcases hencoder : requireEncoder j.tool m with ⟨f | tool, m₂⟩ <;> rw [hencoder] at htool <;>
    obtain rfl : m₂ = m := htool
  · rw [Job.bind_of_error hencoder]
    exact .unchanged
  rw [Job.bind_of_ok hencoder]
  have hcached := requireCache_cached j.cache m₂
  rcases hcache : requireCache j.cache m₂ with ⟨f | cache, m₃⟩ <;> rw [hcache] at hcached
  · rw [Job.bind_of_error hcache]
    exact hcached
  · rw [Job.bind_of_ok hcache]
    exact hcached

/-- Prepares a place for files that have been checked. -/
def place (audio : List String) (tool : Document) (cache : Option String) :
    Job (Document × JoinPlace) := do
  let stamp := (← Job.machine).now.stamp
  let directory ← Job.makeTemporary ("stillcast-concat-" ++ stamp ++ "-") cache
  Job.writeText (placeIn directory audio).list (joinList (← Job.machine).cwd audio)
  return (tool, placeIn directory audio)

theorem place_eq (audio : List String) (tool : Document) (cache : Option String) (m : Machine) :
    place audio tool cache m =
      match m.refuses (.madeTemporary (privateDirectory cache m.now)),
        m.refuses (.wrote (placeIn (privateDirectory cache m.now) audio).list
          (joinList m.cwd audio)) with
      | some f, _ => (.error (.host f), m)
      | none, none => (.ok (tool, placeIn (privateDirectory cache m.now) audio),
          withPlace m (privateDirectory cache m.now) audio)
      | none, some (.system reason) =>
        (.error (.host (.system reason)), withPrivate m (privateDirectory cache m.now))
      | none, some (.value reason) =>
        (.error (.host (.value reason)), withList m (privateDirectory cache m.now) audio "") := by
  unfold place
  rw [Job.machine_bind]
  have hmade := Job.makeTemporary_eq ("stillcast-concat-" ++ m.now.stamp ++ "-") cache m
  rw [← privateDirectory, ← withPrivate] at hmade
  have hlisted : ∀ text, withList m (privateDirectory cache m.now) audio text =
      ((withPrivate m (privateDirectory cache m.now)).note
        (.wrote (placeIn (privateDirectory cache m.now) audio).list text)).withFile
          (placeIn (privateDirectory cache m.now) audio).list (.text text) := fun _ => rfl
  have hrefuses := (sameHost_withPrivate m (privateDirectory cache m.now)).refuses
  have hcwd := cwd_withPrivate m (privateDirectory cache m.now)
  generalize withPrivate m (privateDirectory cache m.now) = m₁ at *
  have hwrite := Job.writeText_eq (placeIn (privateDirectory cache m.now) audio).list
    (joinList m.cwd audio) m₁
  rw [hrefuses] at hwrite
  unfold withPlace
  cases hdirectory : m.refuses (.madeTemporary (privateDirectory cache m.now)) with
  | some f =>
    rw [hdirectory] at hmade
    rw [Job.bind_of_error hmade]
  | none =>
    rw [hdirectory] at hmade
    rw [Job.bind_of_ok hmade, Job.machine_bind, hcwd, hlisted, hlisted]
    cases hlist : m.refuses (.wrote (placeIn (privateDirectory cache m.now) audio).list
        (joinList m.cwd audio)) with
    | none =>
      rw [hlist] at hwrite
      exact Job.bind_of_ok hwrite
    | some f =>
      rw [hlist] at hwrite
      cases f <;> exact Job.bind_of_error hwrite

theorem prepare_eq (j : Joining) :
    j.prepare = j.check >>= fun (audio, tool, cache) => place audio tool cache := by
  unfold prepare check place
  simp only [bind_assoc, pure_bind]
  rfl

/-- How a place is prepared: something is not as it must be, the system refuses the private
directory, it refuses the list, or all is done. A list that is refused leaves the directory behind,
with nothing in it or with an empty list. -/
inductive Prepared (j : Joining) (m : Machine) :
    Except Fault (Document × JoinPlace) × Machine → Prop
  | unchecked (f : Fault) (m₀ : Machine) (check : j.check m = (.error f, m₀)) :
    Prepared j m (.error f, m₀)
  | homeless (audio : List String) (tool : Document) (cache : Option String) (m₀ : Machine)
    (f : HostFault) (check : j.check m = (.ok (audio, tool, cache), m₀))
    (refused : m₀.refuses (.madeTemporary (privateDirectory cache m₀.now)) = some f) :
    Prepared j m (.error (.host f), m₀)
  | unlisted (audio : List String) (tool : Document) (cache : Option String) (m₀ : Machine)
    (f : HostFault) (left : Machine) (check : j.check m = (.ok (audio, tool, cache), m₀))
    (refused : m₀.refuses (.wrote (placeIn (privateDirectory cache m₀.now) audio).list
      (joinList m₀.cwd audio)) = some f)
    (leaves : left = withPrivate m₀ (privateDirectory cache m₀.now) ∨
      left = withList m₀ (privateDirectory cache m₀.now) audio "") :
    Prepared j m (.error (.host f), left)
  | placed (audio : List String) (tool : Document) (cache : Option String) (m₀ : Machine)
    (check : j.check m = (.ok (audio, tool, cache), m₀))
    (listed : m₀.refuses (.wrote (placeIn (privateDirectory cache m₀.now) audio).list
      (joinList m₀.cwd audio)) = none) :
    Prepared j m (.ok (tool, placeIn (privateDirectory cache m₀.now) audio),
      withPlace m₀ (privateDirectory cache m₀.now) audio)

theorem prepare_prepared (j : Joining) (m : Machine) : Prepared j m (j.prepare m) := by
  rw [prepare_eq]
  rcases hcheck : j.check m with ⟨f | ⟨audio, tool, cache⟩, m₀⟩
  · rw [Job.bind_of_error hcheck]
    exact .unchecked f m₀ hcheck
  rw [Job.bind_of_ok hcheck]
  dsimp only
  rw [place_eq]
  split
  · exact .homeless audio tool cache m₀ _ hcheck ‹_›
  · exact .placed audio tool cache m₀ hcheck ‹_›
  · exact .unlisted audio tool cache m₀ _ _ hcheck ‹_› (.inl rfl)
  · exact .unlisted audio tool cache m₀ _ _ hcheck ‹_› (.inr rfl)

/-- What is prepared is the place in the private directory. -/
theorem prepare_eq_ok {j : Joining} {tool : Document} {p : JoinPlace}
    (h : j.prepare m = (.ok (tool, p), m')) : ∃ audio cache m₀,
      j.check m = (.ok (audio, tool, cache), m₀) ∧
      p = placeIn (privateDirectory cache m₀.now) audio ∧
      m' = withPlace m₀ (privateDirectory cache m₀.now) audio := by
  have hprepared := j.prepare_prepared m
  rw [h] at hprepared
  cases hprepared with
  | placed audio tool cache m₀ check => exact ⟨audio, cache, m₀, check, rfl, rfl⟩

/-! ## The command that joins files -/

/-- The machine on which a command has been tried. -/
def tried (m : Machine) (args : List Document) : Machine :=
  (m.note (.commandStarted (commandOf args))).note (.started args)

/-- The machine on which a command has been started and has taken its time. -/
def begun (m : Machine) (args : List Document) : Machine :=
  (tried m args).after m.joiner.seconds

/-- The machine on which a command has written its last argument, if it joins files. -/
def written (m : Machine) (args : List Document) : Machine :=
  if m.joiner.creates && (args.map (·.display)).contains "-f" then
    m.withFile (args.getLastD .null).display .media
  else m

theorem joiner_withLine (m : Machine) (line : String) : (m.withLine line).joiner = m.joiner := by
  unfold Machine.withLine
  split <;> rfl

theorem clock_withLine (m : Machine) (line : String) : (m.withLine line).clock = m.clock := by
  unfold Machine.withLine
  split <;> rfl

theorem refuses_withLine (m : Machine) (line : String) :
    (m.withLine line).refuses = m.refuses := by
  unfold Machine.withLine
  split <;> rfl

/-- The machine on which a command has been run. -/
def commanded (m : Machine) (args : List Document) : Machine :=
  let done := written (begun (m.withLine ("CMD: '" ++ commandOf args ++ "'")) args) args
  done.note (.commandEnded (commandOf args) m.joiner.exitCode (done.clock - m.clock))

/-- A command is run unless its line is not printed or it is refused. -/
theorem runCommand_eq (args : List Document) (m : Machine) :
    runCommand args m =
      match m.unprinted? ("CMD: '" ++ commandOf args ++ "'"), m.refuses (.started args) with
      | some f, _ => (.error (.host f), m)
      | none, some f =>
        (.error (.host f), tried (m.withLine ("CMD: '" ++ commandOf args ++ "'")) args)
      | none, none => (.ok m.joiner.exitCode, commanded m args) := by
  have hjoiner := joiner_withLine m ("CMD: '" ++ commandOf args ++ "'")
  have hclock := clock_withLine m ("CMD: '" ++ commandOf args ++ "'")
  have hrefuses := refuses_withLine m ("CMD: '" ++ commandOf args ++ "'")
  have hprint := Job.printLoud_eq ("CMD: '" ++ commandOf args ++ "'") m
  unfold runCommand commanded
  cases hline : m.unprinted? ("CMD: '" ++ commandOf args ++ "'") with
  | some f =>
    rw [hline] at hprint
    exact Job.bind_of_error hprint
  | none =>
    rw [hline] at hprint
    rw [Job.bind_of_ok hprint, ← hjoiner, ← hclock, ← hrefuses]
    dsimp only
    generalize m.withLine ("CMD: '" ++ commandOf args ++ "'") = m
    have hattempt := Job.attempt_eq (.started args) (m.note (.commandStarted (commandOf args)))
    rw [show (m.note (.commandStarted (commandOf args))).refuses = m.refuses from rfl] at hattempt
    rw [Job.note_bind, Job.machine_bind]
    cases hrefused : m.refuses (.started args) <;> rw [hrefused] at hattempt
    case some f => exact Job.bind_of_error hattempt
    rw [Job.bind_of_ok hattempt, Job.machine_bind, Job.modify_bind]
    by_cases hwrites : (m.joiner.creates && (args.map (·.display)).contains "-f") = true
    · have hwritten : written (begun m args) args =
          (begun m args).withFile (args.getLastD .null).display .media := if_pos hwrites
      refine (congrFun (if_pos hwrites) _).trans ?_
      rw [hwritten]
      rfl
    · have hwritten : written (begun m args) args = begun m args := if_neg hwrites
      refine (congrFun (if_neg hwrites) _).trans ?_
      rw [hwritten]
      rfl

/-! ## The three stages -/

/-- The command that joins the files. -/
def command (tool : Document) (p : JoinPlace) : List Document :=
  tool :: ["-y", "-f", "concat", "-safe", "0", "-i", p.list, "-c", "copy", p.result].map .text

/-- Joins the files; what a failure leaves behind is not removed. -/
def attempt (tool : Document) (p : JoinPlace) : Job Unit := do
  let code ← runCommand (command tool p)
  if code ≠ 0 then Job.refuse (.concatenation code)
  Job.requirePath p.result

/-- What is left when somebody has tried to join the files: the command is not announced, it is not
started, or it has been run. -/
theorem attempt_cases (tool : Document) (p : JoinPlace) (m : Machine) :
    (∃ f, attempt tool p m = (.error (.host f), m)) ∨
    (∃ f, attempt tool p m = (.error (.host f),
      tried (m.withLine ("CMD: '" ++ commandOf (command tool p) ++ "'")) (command tool p))) ∨
    (attempt tool p m).2 = commanded m (command tool p) := by
  have hcommand := runCommand_eq (command tool p) m
  unfold attempt
  split at hcommand
  · exact .inl ⟨_, Job.bind_of_error hcommand⟩
  · exact .inr (.inl ⟨_, Job.bind_of_error hcommand⟩)
  · rw [Job.bind_of_ok hcommand]
    have hrequire := Job.leads_requirePath (R := fun m m' => m = m') p.result
    dsimp only
    split
    · exact .inr (.inr (((Job.leads_refuse _).bind fun _ => hrequire) _).symm)
    · exact .inr (.inr (hrequire _).symm)

theorem attempt_eq_ok {tool : Document} {p : JoinPlace} (h : attempt tool p m = (.ok (), m')) :
    m' = commanded m (command tool p) := by
  rcases attempt_cases tool p m with ⟨f, hf⟩ | ⟨f, hf⟩ | hdone
  · exact absurd (Prod.mk.inj (h.symm.trans hf)).1 (by simp)
  · exact absurd (Prod.mk.inj (h.symm.trans hf)).1 (by simp)
  · rwa [h] at hdone

/-- The machine without a place unless it is to be kept. -/
def tidied (j : Joining) (p : JoinPlace) (m : Machine) : Machine :=
  if j.keep then m else (m.note (.removedTree p.directory)).withoutTree p.directory

theorem cleanup_eq (j : Joining) (p : JoinPlace) (m : Machine) :
    j.cleanup p m = (.ok (), j.tidied p m) := by
  unfold cleanup tidied
  cases j.keep <;> rfl

theorem join_eq (j : Joining) (tool : Document) (p : JoinPlace) (m : Machine) :
    j.join tool p m = match attempt tool p m with
      | (.ok (), m') => (.ok (), m')
      | (.error f, m') => (.error f, j.tidied p m') := by
  show Job.onFault (fun _ => true) (attempt tool p) (j.cleanup p) m = _
  unfold Job.onFault
  rcases attempt tool p m with ⟨f | a, m'⟩
  · dsimp only
    rw [if_pos rfl, cleanup_eq]
  · rfl

theorem always_cleanup_eq (j : Joining) (p : JoinPlace) (work : Job α) (m : Machine) :
    Job.always work (j.cleanup p) m = ((work m).1, j.tidied p (work m).2) := by
  unfold Job.always
  rcases work m with ⟨f | a, m'⟩ <;> dsimp only <;> rw [cleanup_eq]

/-- How the work with a joined file goes: there is no place for it, the files cannot be joined, or
it is done. -/
inductive Passage (j : Joining) (work : String → Job α) (m : Machine) :
    Except Fault α × Machine → Prop
  | unprepared (f : Fault) (m₁ : Machine) (prepare : j.prepare m = (.error f, m₁)) :
    Passage j work m (.error f, m₁)
  | unjoined (tool : Document) (p : JoinPlace) (m₁ : Machine) (f : Fault) (m₂ : Machine)
    (prepare : j.prepare m = (.ok (tool, p), m₁)) (attempt : attempt tool p m₁ = (.error f, m₂)) :
    Passage j work m (.error f, j.tidied p m₂)
  | worked (tool : Document) (p : JoinPlace) (m₁ m₂ : Machine)
    (prepare : j.prepare m = (.ok (tool, p), m₁)) (attempt : attempt tool p m₁ = (.ok (), m₂)) :
    Passage j work m ((work p.result m₂).1, j.tidied p (work p.result m₂).2)

theorem withJoined_passage (j : Joining) (work : String → Job α) (m : Machine) :
    Passage j work m (j.withJoined work m) := by
  unfold withJoined
  rcases hprepare : j.prepare m with ⟨f | ⟨tool, p⟩, m₁⟩
  · rw [Job.bind_of_error hprepare]
    exact .unprepared f m₁ hprepare
  rw [Job.bind_of_ok hprepare]
  dsimp only
  have hjoin := j.join_eq tool p m₁
  rcases hattempt : attempt tool p m₁ with ⟨f | ⟨⟩, m₂⟩ <;> rw [hattempt] at hjoin
  · rw [Job.bind_of_error hjoin]
    exact .unjoined tool p m₁ f m₂ hprepare hattempt
  · rw [Job.bind_of_ok hjoin, always_cleanup_eq]
    exact .worked tool p m₁ m₂ hprepare hattempt

theorem make_eq (audio tool cache : Document) (keep : Bool) : make audio tool cache keep =
    audio.countedParts >>= fun files =>
      if files.isEmpty then refuse .noAudioFiles else .ok ⟨files, tool, cache, keep⟩ := rfl

end Joining

/-! ## Jobs of whole files -/

namespace FlatJob

/-- A job is refused before its directory and its encoder are decided, or they are. -/
theorem resolve_cases (j : FlatJob) (m : Machine) : (∃ f, j.resolve m = (.error f, m)) ∨
    ∃ tool directory, tool.isNull = false ∧ directory.isNull = false ∧
      j.resolve m = (.ok { j with tool, options.outputDirectory := directory }, m) := by
  have hsame := j.resolve_machine m
  rcases h : j.resolve m with ⟨f | j', m'⟩ <;> rw [h] at hsame <;> obtain rfl : m' = m := hsame
  · exact .inl ⟨f, rfl⟩
  obtain ⟨directory, m₁, hdirectory, hrest⟩ := Job.bind_eq_ok_iff.mp h
  obtain ⟨tool, m₂, htool, hrest⟩ := Job.bind_eq_ok_iff.mp hrest
  obtain ⟨rfl, -⟩ := Job.pure_eq_ok_iff.mp hrest
  refine .inr ⟨tool, directory, ?_, ?_, rfl⟩
  · unfold requireEncoder at htool
    split at htool
    · obtain ⟨path, m₃, -, hpure⟩ := Job.bind_eq_ok_iff.mp htool
      rw [← (Job.pure_eq_ok_iff.mp hpure).1]
      rfl
    · rename_i hgiven
      rw [← (Job.pure_eq_ok_iff.mp htool).1]
      simpa using hgiven
  · unfold outputDirectory at hdirectory
    obtain ⟨files, m₃, -, hdirectory⟩ := Job.bind_eq_ok_iff.mp hdirectory
    split at hdirectory
    · exact absurd (Prod.mk.inj hdirectory).1 (by simp)
    · split at hdirectory
      · obtain ⟨first, m₄, -, hdirectory⟩ := Job.bind_eq_ok_iff.mp hdirectory
        obtain ⟨_, m₅, -, hdirectory⟩ := Job.bind_eq_ok_iff.mp hdirectory
        obtain ⟨path, m₆, -, hdirectory⟩ := Job.bind_eq_ok_iff.mp hdirectory
        rw [← (Job.pure_eq_ok_iff.mp hdirectory).1]
        rfl
      · rename_i hgiven
        rw [← (Job.pure_eq_ok_iff.mp hdirectory).1]
        simpa using hgiven

/-- The files of a job are the same when its directory and its encoder are decided. -/
theorem files_of_resolve {j j' : FlatJob} (h : j.resolve m = (.ok j', m')) :
    j'.files = j.files := by
  rcases j.resolve_cases m with ⟨f, hrefused⟩ | ⟨tool, directory, -, -, hdecided⟩
  · exact absurd h (Job.ne_ok_of_error hrefused)
  · rw [← Except.ok.inj (Prod.mk.inj (hdecided.symm.trans h)).1]
    rfl

/-- Encodes with the session that a job gives. -/
def encode (o : Observers) (session : Job Session) : Job RunOutcome := do
  (Supervisor.ofSession (← session)).job o

/-- How a run of a job goes: it is refused at once, it reads the only file, or it joins the
files. -/
inductive Course (j : FlatJob) (cache : Document) (keep : Bool) (o : Observers) (m : Machine) :
    Except Fault RunOutcome × Machine → Prop
  | refused (f : Fault) : Course j cache keep o m (.error f, m)
  | single (j' : FlatJob) (file : Document) (resolve : j.resolve m = (.ok j', m))
    (files : j'.files = .ok [file]) : Course j cache keep o m (encode o (j'.session .null) m)
  | several (j' : FlatJob) (first second : Document) (rest : List Document)
    (resolve : j.resolve m = (.ok j', m)) (files : j'.files = .ok (first :: second :: rest)) :
    Course j cache keep o m
      ((⟨first :: second :: rest, j'.tool, cache, keep⟩ : Joining).withJoined
        (fun joined => encode o (j'.sessionOfJoined joined)) m)

section

variable {j j' : FlatJob} (hresolve : j.resolve m = (.ok j', m)) (cache : Document) (keep : Bool)
  (o : Observers)
include hresolve

theorem run_of_single {file : Document} (hfiles : j'.files = .ok [file]) :
    j.run cache keep o m = encode o (j'.session .null) m := by
  unfold run
  rw [Job.bind_of_ok hresolve, hfiles, Job.ofExcept_ok_bind]
  rfl

theorem run_of_several {first second : Document} {rest : List Document}
    (hfiles : j'.files = .ok (first :: second :: rest)) :
    j.run cache keep o m =
      (⟨first :: second :: rest, j'.tool, cache, keep⟩ : Joining).withJoined
        (fun joined => encode o (j'.sessionOfJoined joined)) m := by
  have hcounted : j'.audio.countedParts = .ok (first :: second :: rest) := hfiles
  unfold run
  rw [Job.bind_of_ok hresolve, hfiles, Job.ofExcept_ok_bind]
  dsimp only
  rw [Joining.make_eq, hcounted]
  rfl

end

theorem run_course (j : FlatJob) (cache : Document) (keep : Bool) (o : Observers) (m : Machine) :
    Course j cache keep o m (j.run cache keep o m) := by
  rcases j.resolve_cases m with ⟨f, hresolve⟩ | ⟨tool, directory, -, -, hresolve⟩
  · unfold run
    rw [Job.bind_of_error hresolve]
    exact .refused f
  generalize { j with tool, options.outputDirectory := directory } = j' at hresolve
  match hfiles : j'.files with
  | .ok [file] =>
    rw [run_of_single hresolve cache keep o hfiles]
    exact .single j' file hresolve hfiles
  | .ok (first :: second :: rest) =>
    rw [run_of_several hresolve cache keep o hfiles]
    exact .several j' first second rest hresolve hfiles
  | .error f =>
    unfold run
    rw [Job.bind_of_ok hresolve, hfiles]
    exact .refused f
  | .ok [] =>
    have hcounted : j'.audio.countedParts = .ok [] := hfiles
    unfold run
    rw [Job.bind_of_ok hresolve, hfiles, Job.ofExcept_ok_bind]
    dsimp only
    rw [Joining.make_eq, hcounted]
    exact .refused (.refused .noAudioFiles)

/-- A job of two files with given durations. -/
def duet : FlatJob where
  image := .text "cover.png"
  audio := .sequence [.text "first.mp3", .text "second.mp3"]
  durations := .sequence [.int 2, .int 3]
  tool := .null
  width := .int 1280
  height := .int 720
  options := .standard

end FlatJob

/-- A machine with the two files and an encoder that ends well at once. -/
def Machine.withSongs : Machine :=
  { Machine.bare with
    cwd := "/work"
    files := [("/work/first.mp3", .media), ("/work/second.mp3", .media)]
    directories := ["/work"]
    onPath := some "ffmpeg"
    encoder := .script [] 0 false false }

end StillVideo
