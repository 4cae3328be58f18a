import StillVideo.Proofs.Housekeeping
import StillVideo.Proofs.PictureDirectory

/-!
# Sessions that are kept

A project keeps the session of its first validation and starts every encoder with it, even when the
picture of the session has been removed in the meantime (`Production.picture_at_start`).
-/

namespace StillVideo

open Project (ownDirectory picturePath)

/-! ## Processes of a call -/

/-- The arguments of the process that an event starts. -/
def Event.process? : Event → Option (List Document)
  | .started args => some args
  | _ => none

/-- From one machine to the next, processes have been started with these arguments, the latest one
first. -/
def Machine.Starts (m m' : Machine) (processes : List (List Document)) : Prop :=
  ∃ events, m'.record = events ++ m.record ∧ events.filterMap Event.process? = processes

namespace Machine

variable {m m' m'' : Machine}

theorem Starts.refl (m : Machine) : m.Starts m [] := Gained.refl m

theorem Starts.trans {ps qs : List (List Document)} (h : m.Starts m' ps) (h' : m'.Starts m'' qs) :
    m.Starts m'' (qs ++ ps) := Gained.trans h h'

theorem Starts.then_nothing {ps : List (List Document)} (h : m.Starts m' ps)
    (h' : m'.Starts m'' []) : m.Starts m'' ps := Gained.then_nothing h h'

theorem Starts.after_nothing {ps : List (List Document)} (h : m.Starts m' [])
    (h' : m'.Starts m'' ps) : m.Starts m'' ps := Gained.after_nothing h h'

/-- Nothing is started by an event of another kind. -/
theorem starts_of_record {e : Event} (h : m'.record = e :: m.record) (he : e.process? = none) :
    m.Starts m' [] := gained_nothing_of_note h he

end Machine

theorem Machine.KeepsHouse.starts {m m' : Machine} (h : m.KeepsHouse m') : m.Starts m' [] :=
  h.gained fun ev hev => by cases ev <;> simp_all [Event.isHousekeeping, Event.process?]

theorem Machine.withLine_starts (m : Machine) (line : String) :
    m.Starts (m.withLine line) [] := (m.keepsHouse_withLine line).starts

/-- Unless it is held back, a run of a supervisor tries one process. -/
theorem Supervisor.run_starts (session : Session) (o : Observers) (m : Machine) :
    m.Starts ((ofSession session).run o m).2
      (if heldBack session m then [] else [session.args]) := by
  have hrun := run_lifecycle session o m
  cases hheld : heldBack session m with
  | true =>
    rw [hrun.silent (heldBack_eq_true_iff.mp hheld)]
    exact .refl m
  | false =>
    obtain ⟨hlive, hannounced⟩ := heldBack_eq_false_iff.mp hheld
    obtain ⟨events, seconds, hrecord, hcommands⟩ := hrun.announced hlive hannounced
    refine ⟨events.reverse, hrecord, ?_⟩
    have hprocesses : events.filterMap Event.process? =
        (events.filter Event.isCommand).filterMap Event.process? := by
      rw [List.filterMap_filter]
      refine List.filterMap_congr fun e _ => ?_
      cases e <;> rfl
    rw [List.filterMap_reverse, hprocesses, hcommands]
    rfl

section

variable {w w' : Production}

theorem Production.tidied_starts (w : Production) : w.machine.Starts w.tidied.machine [] :=
  w.keepsHouse_tidied.starts

namespace ProjectJob

/-- A run starts the process that it is to start, and no other one. -/
theorem run_starts (w : Production) :
    w.machine.Starts (run w).2.machine (w.starts?.toList.map (·.1.args)) := by
  have hvalidate := (keepsHouse_validate w).starts
  unfold Production.starts?
  rcases h : validate w with ⟨f | s, w'⟩ <;> rw [h] at hvalidate
  · rw [run_of_error h]
    exact hvalidate
  dsimp only
  cases hdry : w'.project.dryRun with
  | true =>
    have hline := hvalidate.then_nothing (w'.machine.withLine_starts dryRunLine)
    rw [run_of_dry h hdry, Bool.true_or]
    split
    · exact (hline.then_nothing (Machine.withLine_starts _ _)).then_nothing
        (Production.tidied_starts ⟨_, _, _⟩)
    · exact hline
    · exact hvalidate
  | false =>
    have hencode : w'.machine.Starts (encode s w').2.machine
        (if Supervisor.heldBack s w'.machine then [] else [s.args]) := by
      rw [encode_eq]
      exact (Supervisor.run_starts s w'.observers w'.machine).then_nothing
        (Production.tidied_starts _)
    have hrun : w.machine.Starts (run w).2.machine
        (if Supervisor.heldBack s w'.machine then [] else [s.args]) := by
      rw [run_of_encode h hdry]
      rcases h : encode s w' with ⟨f | path, w₂⟩ <;> rw [h] at hencode
      · exact hvalidate.after_nothing hencode
      · have hencoded := hvalidate.after_nothing hencode
        dsimp only
        split
        · exact hencoded.then_nothing (Machine.withLine_starts _ _)
        · exact hencoded
    rw [Bool.false_or]
    cases hheld : Supervisor.heldBack s w'.machine <;> rw [hheld] at hrun <;> exact hrun

end ProjectJob

end

/-! ## Sessions -/

theorem Document.isNull_eq_false {d : Document} (h : d ≠ .null) : d.isNull = false := by
  unfold Document.isNull
  split
  · exact absurd rfl h
  · rfl

/-- The first input is the picture. -/
theorem Session.first_input (s : Session) :
    (optionValues "-i" s.args.tail).head? = some s.image := by
  rw [s.optionValues_inputs]
  rfl

namespace ProjectJob

variable {w w' : Production}

theorem session_requireCache {directory : String} (h : requireCache w = (.ok directory, w')) :
    w'.project.session = w.project.session := by
  rcases requireCache_eq_ok h with ⟨-, rfl⟩ | ⟨given, rfl⟩
  · rfl
  · rfl

theorem session_buildSession (w : Production) :
    (buildSession w).2.project.session = w.project.session := by
  refine buildSession_invariant (P := fun w' => w'.project.session = w.project.session) rfl
    session_requireCache fun {w'} directory picture h => ?_
  rwa [Production.project_drawn]

end ProjectJob

namespace Production

variable {w w' : Production} {s : Session}

/-- A session is never replaced. -/
theorem session_afterCalls (h : w.project.session = some s) (calls : List ProjectCall) :
    (w.afterCalls calls).project.session = some s := by
  induction calls using List.reverseRecOn with
  | nil => exact h
  | append_singleton calls call ih =>
    have hvalidate := ProjectJob.validate_of_some ih
    rw [afterCalls_concat]
    cases call with
    | validate => rw [ProjectCall.act_validate, hvalidate]; exact ih
    | plan => rw [ProjectCall.act_plan, hvalidate]; exact ih
    | run => rw [ProjectCall.act_run]; exact session_run hvalidate
    | cleanup => rw [ProjectCall.act_cleanup]; exact (session_tidied _).trans ih

theorem validate_of_starts? {m : Machine} (h : w.starts? = some (s, m)) :
    ∃ w', ProjectJob.validate w = (.ok s, w') ∧ w'.machine = m ∧ w.project.dryRun = false := by
  unfold starts? at h
  rcases hvalidate : ProjectJob.validate w with ⟨f | s', w'⟩ <;> rw [hvalidate] at h
  · exact absurd h (by simp)
  · dsimp only at h
    split at h
    · exact absurd h (by simp)
    · rename_i hgoes
      obtain ⟨rfl, rfl⟩ := Prod.mk.inj (Option.some.inj h)
      have hcontinues := ProjectJob.continues_validate w
      rw [hvalidate] at hcontinues
      rw [Bool.not_eq_true, Bool.or_eq_false_iff, hcontinues.dryRun] at hgoes
      exact ⟨w', rfl, rfl, hgoes.1⟩

/-- All processes are started for one session. -/
theorem session_eq_of_starts? {m m' : Machine} {s' : Session} (before between : List ProjectCall)
    (h : (w.afterCalls before).starts? = some (s, m))
    (h' : (w.afterCalls (before ++ .run :: between)).starts? = some (s', m')) : s = s' := by
  obtain ⟨_, hvalidate, -⟩ := validate_of_starts? h
  obtain ⟨w₂, hvalidate', -⟩ := validate_of_starts? h'
  have hafter : w.afterCalls (before ++ .run :: between) =
      (w.afterCalls (before ++ [.run])).afterCalls between := by
    unfold afterCalls
    rw [← List.foldl_append, List.append_assoc]
    rfl
  have hrun : (w.afterCalls (before ++ [.run])).project.session = some s := by
    rw [afterCalls_concat, ProjectCall.act_run]
    exact session_run hvalidate
  rw [hafter, ProjectJob.validate_of_some (session_afterCalls hrun between)] at hvalidate'
  exact Except.ok.inj (Prod.mk.inj hvalidate').1

/-! ## Pictures -/

/-- The picture of the session, if there is one, exists. -/
def Shows (w : Production) : Prop :=
  ∀ s, w.project.session = some s → ∃ path, s.image = .text path ∧
    w.machine.pathExists path = true

theorem Alike.shows (h : w.Alike w') (hshows : w.Shows) : w'.Shows := by
  obtain ⟨hfiles, supervisor, hproject⟩ := h
  intro s hs
  rw [hproject] at hs
  obtain ⟨path, himage, hexists⟩ := hshows s hs
  exact ⟨path, himage, (hfiles.pathExists_eq _).trans hexists⟩

/-- The picture is there when its session has been built. -/
theorem exists_picture_of_build (himage : w.project.file.image = none)
    (h : ProjectJob.buildSession w = (.ok s, w')) :
    ∃ path, s.image = .text path ∧ w'.machine.pathExists path = true := by
  have hdrawing := ProjectJob.buildSession_drawing himage
  rw [h] at hdrawing
  generalize hr : (Except.ok s : Except Fault Session) = r at hdrawing
  cases hdrawing with
  | clipless => exact absurd hr (by simp)
  | unreachable => exact absurd hr (by simp)
  | refused => exact absurd hr (by simp)
  | drawn picture r _ himage =>
    exact ⟨_, himage s hr.symm,
      Machine.pathExists_withFile (Project.picturePath_ne_empty _ _) _⟩

/-- The project removes nothing: it is to keep its directory, or has been given one. -/
def RemovesNothing (w : Production) : Prop :=
  w.project.keep = true ∨ w.project.cache.isNull = false ∧ w.project.created = false

theorem RemovesNothing.tidied_eq (h : w.RemovesNothing) : w.tidied = w := by
  rcases h with hkeep | ⟨-, hcreated⟩
  · exact tidied_of_keep hkeep
  · exact tidied_of_not_created hcreated

theorem RemovesNothing.continues (h : w.RemovesNothing)
    (hcontinues : w.project.Continues w'.project) : w'.RemovesNothing := by
  rcases h with hkeep | ⟨hnull, hcreated⟩
  · exact .inl (hcontinues.keep.trans hkeep)
  · exact .inr ⟨by rwa [hcontinues.cache hnull], hcontinues.created hnull hcreated⟩

theorem Shows.validate (hshows : w.Shows) (himage : w.project.file.image = none) :
    (ProjectJob.validate w).2.Shows := by
  cases hsession : w.project.session with
  | some s =>
    rw [ProjectJob.validate_of_some hsession]
    exact hshows
  | none =>
    have hsame := ProjectJob.session_buildSession w
    rw [ProjectJob.validate_of_none hsession]
    rcases hbuild : ProjectJob.buildSession w with ⟨f | s, w'⟩
    · have hnone : w'.project.session = none := by rw [← hsession, ← hsame, hbuild]
      intro s hs
      have hsession' : (if f.isExplained then w'.tidied else w').project.session = none := by
        split
        · rw [session_tidied, hnone]
        · exact hnone
      exact absurd (hs.symm.trans hsession') (by simp)
    · intro s' hs'
      obtain rfl := Option.some.inj hs'
      obtain ⟨path, hpath, hexists⟩ := exists_picture_of_build himage hbuild
      exact ⟨path, hpath, hexists⟩

theorem RemovesNothing.shows_act (h : w.RemovesNothing)
    (himage : w.project.file.image = none) (hshows : w.Shows) (call : ProjectCall) :
    (call.act w).2.Shows := by
  have hvalidate := hshows.validate himage
  cases call with
  | validate => rw [ProjectCall.act_validate]; exact hvalidate
  | plan => rw [ProjectCall.act_plan]; exact hvalidate
  | cleanup => rw [ProjectCall.act_cleanup, h.tidied_eq]; exact hshows
  | run =>
    rw [ProjectCall.act_run]
    have hcontinues := ProjectJob.continues_validate w
    rcases hv : ProjectJob.validate w with ⟨f | s, w'⟩ <;> rw [hv] at hvalidate hcontinues
    · rw [ProjectJob.run_of_error hv]
      exact hvalidate
    · rcases (ProjectJob.run_cases hv).1 with ⟨w₂, halike, hrun, -⟩ | ⟨-, halike, -⟩
      · have hremoves := (h.continues hcontinues).continues halike.continues
        rw [hremoves.tidied_eq] at hrun
        exact hrun.shows (halike.shows hvalidate)
      · exact halike.shows hvalidate

/-- A project that removes nothing keeps the picture of its session. -/
theorem RemovesNothing.shows_afterCalls (h : w.RemovesNothing)
    (himage : w.project.file.image = none) (hshows : w.Shows) (calls : List ProjectCall) :
    (w.afterCalls calls).Shows := by
  induction calls using List.reverseRecOn with
  | nil => exact hshows
  | append_singleton calls call ih =>
    have hcontinues := w.continues_afterCalls calls
    rw [afterCalls_concat]
    exact (h.continues hcontinues).shows_act (by rw [hcontinues.file]; exact himage) ih call

/-- A project that removes its directory and starts its encoder still has the picture of its session
exactly if its directory is forgotten or it has not cleaned up since. -/
theorem Fresh.picture_iff (h : w.Fresh) (himage : w.project.file.image = none)
    (hwet : w.project.dryRun = false) (calls : List ProjectCall)
    (hvalidate : ProjectJob.validate (w.afterCalls calls) = (.ok s, w')) :
    ∃ path, s.image = .text path ∧
      (w'.machine.pathExists path = true ↔ w.Revalidated calls ∨ ¬ w.Spent calls) := by
  obtain ⟨c, hstanding⟩ := h.exists_standing calls
  have hcontinues := w.continues_afterCalls calls
  obtain ⟨c', hpassage⟩ := exists_passage hstanding.custody (hcontinues.keep.trans h.keep)
  rw [hvalidate] at hpassage
  have hsession := session_validate hvalidate
  have himage' : w'.project.file.image = none := by
    have hcontinues' := ProjectJob.continues_validate (w.afterCalls calls)
    rw [hvalidate] at hcontinues'
    rw [hcontinues'.file, hcontinues.file, himage]
  have hstray := hpassage.stray
  have hheld := hpassage.held
  have hremoved := hpassage.removed
  cases hpassage.after with
  | untouched _ _ _ hnone => exact absurd (hsession.symm.trans (hnone himage')) (by simp)
  | held _ _ _ _ picture =>
    obtain ⟨t, hpath, hexists⟩ := picture s hsession
    have hunspent : ¬ w.Spent calls := by
      rcases hheld rfl with hc | hunsessioned
      · exact hstanding.held hwet hc
      · exact hstanding.unsessioned hunsessioned
    exact ⟨_, hpath, iff_of_true hexists (.inr hunspent)⟩
  | stray _ _ _ _ picture =>
    obtain ⟨t, hpath, hexists⟩ := picture s hsession
    refine ⟨_, hpath, iff_of_true hexists ?_⟩
    rcases hstray.mp rfl with hc | hforgotten
    · exact .inl (hstanding.stray.mp hc)
    · exact .inr (hstanding.unsessioned (Project.session_of_hasRemoved hforgotten.1))
  | removed _ _ _ holds picture =>
    obtain ⟨t, hpath⟩ := picture s hsession
    obtain ⟨hc, hsession'⟩ := hremoved rfl (by rw [hsession]; exact Option.some_ne_none s)
    have hgone : w'.machine.pathExists (picturePath ownDirectory t) ≠ true := fun hexists =>
      absurd (Project.holds_of_picturePath hexists) (by rw [holds]; exact Bool.false_ne_true)
    refine ⟨_, hpath, iff_of_false hgone ?_⟩
    rintro (hrevalidated | hunspent)
    · exact absurd (hc.symm.trans (hstanding.stray.mpr hrevalidated)) (by decide)
    · exact hunspent (hstanding.removed hc hsession')

theorem exists_picture_of_removesNothing (hnew : w.project.IsNew)
    (himage : w.project.file.image = none)
    (hremoves : w.project.keep = true ∨ w.project.cache ≠ .null) (calls : List ProjectCall)
    (hvalidate : ProjectJob.validate (w.afterCalls calls) = (.ok s, w')) :
    ∃ path, s.image = .text path ∧ w'.machine.pathExists path = true := by
  have hnothing : w.RemovesNothing := by
    rcases hremoves with hkeep | hcache
    · exact .inl hkeep
    · exact .inr ⟨Document.isNull_eq_false hcache, hnew.created⟩
  have hnone : w.Shows := fun s hs => absurd (hs.symm.trans hnew.session) (by simp)
  have hshows := (hnothing.shows_afterCalls himage hnone calls).validate
    (by rw [(w.continues_afterCalls calls).file]; exact himage)
  rw [hvalidate] at hshows
  exact hshows s (session_validate hvalidate)

/-- **Pictures and sessions.** A run starts the processes that it is to start, none or one. When it
starts one, the first input is the picture of the session; the picture exists at that moment if the
project removes nothing, and otherwise exactly if its directory has been forgotten or no call has
tidied up while there was a session. Every process before was started for the same session. -/
theorem picture_at_start (hnew : w.project.IsNew) (himage : w.project.file.image = none)
    (hfresh : w.project.cache = .null → w.machine.holds ownDirectory = false)
    (calls : List ProjectCall) :
    (w.afterCalls calls).machine.Starts (w.afterCalls (calls ++ [.run])).machine
      ((w.afterCalls calls).starts?.toList.map (·.1.args)) ∧
    ∀ s m, (w.afterCalls calls).starts? = some (s, m) →
      (∃ path, (optionValues "-i" s.args.tail).head? = some (.text path) ∧
        (m.pathExists path = true ↔ w.project.keep = true ∨ w.project.cache ≠ .null ∨
          w.Revalidated calls ∨ ¬ w.Spent calls)) ∧
      ∀ before between, calls = before ++ .run :: between →
        ∀ s' m', (w.afterCalls before).starts? = some (s', m') → s' = s := by
  constructor
  · rw [afterCalls_concat, ProjectCall.act_run]
    exact ProjectJob.run_starts _
  intro s m hstarts
  obtain ⟨w', hvalidate, rfl, hgoes⟩ := validate_of_starts? hstarts
  have hwet := (w.continues_afterCalls calls).dryRun.symm.trans hgoes
  constructor
  · have hcontinues := w.continues_afterCalls calls
    have hpicture : ∃ path, s.image = .text path ∧ (w'.machine.pathExists path = true ↔
        w.project.keep = true ∨ w.project.cache ≠ .null ∨ w.Revalidated calls ∨
          ¬ w.Spent calls) := by
      by_cases hremoves : w.project.keep = true ∨ w.project.cache ≠ .null
      · obtain ⟨path, hpath, hexists⟩ := exists_picture_of_removesNothing hnew himage hremoves
          calls hvalidate
        refine ⟨path, hpath, iff_of_true hexists ?_⟩
        rcases hremoves with hkeep | hcache
        · exact .inl hkeep
        · exact .inr (.inl hcache)
      · obtain ⟨hkeep, hcache⟩ := not_or.mp hremoves
        rw [not_not] at hcache
        have hfresh : w.Fresh := ⟨hnew, hcache, Bool.eq_false_iff.mpr hkeep, hfresh hcache⟩
        obtain ⟨path, hpath, hiff⟩ := hfresh.picture_iff himage hwet calls hvalidate
        refine ⟨path, hpath, hiff.trans ?_⟩
        rw [or_iff_right hkeep, or_iff_right (not_not.mpr hcache)]
    obtain ⟨path, hpath, hiff⟩ := hpicture
    exact ⟨path, by rw [s.first_input, hpath], hiff⟩
  · rintro before between rfl s' m' hbefore
    exact session_eq_of_starts? before between hbefore hstarts

/-- The blue project with an encoder that ends well at once. -/
def blueEncoding : Production where
  machine := { Machine.bare with encoder := .script [] 0 false false }
  observers := .standard
  project := { blue.project with tool := .text "ffmpeg" }

theorem fresh_blueEncoding : blueEncoding.Fresh := ⟨⟨rfl, rfl⟩, rfl, rfl, by decide +kernel⟩

/-- The first run starts its encoder while the picture is there. -/
theorem picture_at_start_blueEncoding : blueEncoding.project.IsNew ∧
    blueEncoding.project.file.image = none ∧ ∃ s m path, blueEncoding.starts? = some (s, m) ∧
      (optionValues "-i" s.args.tail).head? = some (.text path) ∧ m.pathExists path = true := by
  have hsome : blueEncoding.starts?.isSome = true := by decide +kernel
  obtain ⟨⟨s, m⟩, hstarts⟩ := Option.isSome_iff_exists.mp hsome
  obtain ⟨⟨path, hinput, hiff⟩, -⟩ := (picture_at_start fresh_blueEncoding.toIsNew rfl
    (fun _ => fresh_blueEncoding.holds) []).2 s m hstarts
  exact ⟨fresh_blueEncoding.toIsNew, rfl, s, m, path, hstarts, hinput,
    hiff.mpr (.inr (.inr (.inr (not_ever_nil _))))⟩

/-- The second run starts its encoder with the session of the first one, whose picture is gone. -/
theorem picture_gone_blueEncoding : blueEncoding.Fresh ∧
    blueEncoding.project.file.image = none ∧ ∃ s m m' path,
      blueEncoding.starts? = some (s, m) ∧
      (blueEncoding.afterCalls [.run]).starts? = some (s, m') ∧
      (optionValues "-i" s.args.tail).head? = some (.text path) ∧ m'.pathExists path = false := by
  have hfirst : blueEncoding.starts?.isSome = true := by decide +kernel
  have hsecond : (blueEncoding.afterCalls [.run]).starts?.isSome = true := by decide +kernel
  obtain ⟨⟨s, m⟩, hstarts⟩ := Option.isSome_iff_exists.mp hfirst
  obtain ⟨⟨s', m'⟩, hstarts'⟩ := Option.isSome_iff_exists.mp hsecond
  obtain rfl : s = s' := session_eq_of_starts? (w := blueEncoding) [] [] hstarts hstarts'
  obtain ⟨w', hvalidate, rfl, -⟩ := validate_of_starts? hstarts'
  obtain ⟨path, hpath, hiff⟩ := fresh_blueEncoding.picture_iff rfl rfl [.run] hvalidate
  refine ⟨fresh_blueEncoding, rfl, s, m, w'.machine, path, hstarts, hstarts',
    by rw [s.first_input, hpath], ?_⟩
  rw [← Bool.not_eq_true, hiff, not_or, not_not]
  constructor
  · intro hrevalidated
    exact absurd (ever_singleton.mp hrevalidated).2.1 (by decide)
  · refine ever_singleton.mpr ⟨.inr rfl, ?_⟩
    obtain ⟨w₁, hvalidate₁, -⟩ := validate_of_starts? hstarts
    have hrun := session_run hvalidate₁
    rw [afterCalls_concat, afterCalls_nil, ProjectCall.act_run, hrun]
    exact Option.some_ne_none s

end Production

end StillVideo
