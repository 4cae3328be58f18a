import StillVideo.Proofs.ExitCodes
import StillVideo.Proofs.Posting

/-!
# The work of a dashboard

Whatever is wrong with a project and whenever somebody leaves, the work of a dashboard comes to an
end (`Dashboard.work_concluded`): the dashboard knows how its attempt has ended, the machine is loud
again and reports to nobody, and what was drawn and written is what looks at the token have let
through, none of them after the first cancellation. A post that a look has let through may still
come after somebody has left (`Dashboard.work_posts_late`).
-/

namespace StillVideo

open Machine (Proceeds)

theorem Job.tryCatch_eq {α : Type} (x : Job α) (handle : Fault → Job α) (m : Machine) :
    (tryCatch x handle) m = match x m with
      | (.ok a, m') => (.ok a, m')
      | (.error f, m') => handle f m' := by
  simp only [tryCatch, tryCatchThe, MonadExceptOf.tryCatch, ExceptT.tryCatch, ExceptT.mk, bind,
    StateT.bind]
  rcases x m with ⟨f | a, m'⟩ <;> rfl

theorem Project.load_machine (path : Document) (o : ProjectOptions) (m : Machine) :
    (load path o m).2 = m := by
  rw [load_eq]

namespace Dashboard

variable {d : Dashboard} {m m' : Machine}

/-- What the dashboard attempts with a project that it has read: to validate it, to show it and to
run it. -/
def attemptRead (d : Dashboard) (leaves : Moment → Bool) (p : Project) : Job (Option String) := do
  let (validated, production) ← p.work observers ProjectJob.validate
  let session ← Job.ofExcept validated
  let d ← { d with info := sessionInfo production.project session }.pass (leaves .validated)
  let looked ← Job.machine
  let d ← (d.ask .project).pass (leaves .looked)
  let d ← Job.ofExcept (d.showProject looked)
  let _ ← d.pass (leaves .shown)
  let (result, _) ← production.project.work production.observers ProjectJob.run
  Job.ofExcept result

/-- What the dashboard attempts: to read the project, to validate it, to show it and to run it. -/
def attempt (d : Dashboard) (leaves : Moment → Bool) : Job (Option String) := do
  let p ← Project.load d.path d.projectOptions
  (← d.pass (leaves .read)).attemptRead leaves p

/-! ## What is asked -/

/-- From one machine to the next, the work has gone on, and this has been asked of the screen. -/
structure Asks (m m' : Machine) (asked : List Request) : Prop where
  proceeds : m.Proceeds m'
  signals : asked.filterMap Request.signal? = (newEvents m m').filterMap (Signal.ofEvent true)
  quits : asked.any Request.isQuit = (newEvents m m').any Event.isCancellation

variable {asked more : List Request}

theorem Asks.token (h : Asks m m' asked) :
    m'.token.cancelled = (m.token.cancelled || asked.any Request.isQuit) := by
  rw [h.quits, h.proceeds.token]

theorem Asks.trans {m'' : Machine} (h : Asks m m' asked) (h' : Asks m' m'' more) :
    Asks m m'' (asked ++ more) := by
  have happend := newEvents_append h.proceeds.record h'.proceeds.record
  refine ⟨trans_of Proceeds h.proceeds h'.proceeds, ?_, ?_⟩
  · rw [happend, List.filterMap_append, List.filterMap_append, h.signals, h'.signals]
  · rw [happend, List.any_append, List.any_append, h.quits, h'.quits]

theorem asks_of_proceeds (h : m.Proceeds m') : Asks m m' (requestsOf (newEvents m m')) :=
  ⟨h, signals_requestsOf _, any_isQuit_requestsOf _⟩

/-- Housekeeping asks nothing of the screen. -/
theorem asks_of_keepsHouse (h : m.KeepsHouse m') : Asks m m' [] := by
  have hnothing : requestsOf (newEvents m m') = [] := by
    refine List.filterMap_eq_nil_iff.mpr fun ev hev => ?_
    have hhouse := h.forall_newEvents ev hev
    cases ev <;> simp_all [Event.isHousekeeping, Request.ofEvent, Signal.ofEvent]
  exact hnothing ▸ asks_of_proceeds h.proceeds

/-- The worker asks for a post that no event tells of. -/
theorem asks_look (m : Machine) {post : Post} (h : Request.signal? (.look .worker post) = none) :
    Asks m m [.look .worker post] := by
  refine ⟨refl_of Proceeds m, ?_, ?_⟩
  · rw [newEvents_self, List.filterMap_cons_none h]
    rfl
  · rw [newEvents_self]
    rfl

/-- What is asked at a moment at which somebody leaves, or not. -/
def quits (leaves : Bool) : List Request := if leaves then [.quit] else []

/-- The machine behind a moment at which somebody leaves, or not. -/
def left (m : Machine) (leaves : Bool) : Machine := if leaves then m.cancel else m

theorem pass_eq (d : Dashboard) (leaves : Bool) (m : Machine) :
    d.pass leaves m =
      (.ok { d with requests := d.requests ++ quits leaves }, left m leaves) := by
  cases leaves
  · show (Except.ok d, m) = _
    rw [quits, if_neg Bool.false_ne_true, List.append_nil]
    rfl
  · rfl

theorem pass_bind {α : Type} (d : Dashboard) (leaves : Bool) (f : Dashboard → Job α)
    (m : Machine) : (d.pass leaves >>= f) m =
      f { d with requests := d.requests ++ quits leaves } (left m leaves) :=
  Job.bind_of_ok (d.pass_eq leaves m)

theorem asks_left (m : Machine) (leaves : Bool) : Asks m (left m leaves) (quits leaves) := by
  cases leaves
  · exact asks_of_keepsHouse (refl_of Machine.KeepsHouse m)
  · refine ⟨m.proceeds_cancel, ?_, ?_⟩ <;> rw [left, if_pos rfl, m.newEvents_cancel] <;> rfl

theorem admitted_quits (cancelled leaves : Bool) : admitted cancelled (quits leaves) = [] := by
  cases leaves <;> rfl

/-! ## What is seen -/

/-- The post is the panel of the project. -/
def Post.isProject : Post → Bool
  | .project => true
  | _ => false

/-- The post is the outcome. -/
def Post.isOutcome : Post → Bool
  | .outcome => true
  | _ => false

/-- How many posts are of a kind. -/
def countOf (kind : Post → Bool) (posts : List (Poster × Post)) : Nat :=
  posts.countP fun p => kind p.2

/-- What a dashboard has got to see from one machine to another, while this was asked: the entries
of what looks have let through, and a panel of the project for each that they have let through,
unless it could not be drawn and so not the `whole` of it is seen. -/
structure Watches (whole : Prop) (d : Dashboard) (m : Machine) (asked : List Request) (m' : Machine)
    (d' : Dashboard) : Prop where
  asks : Asks m m' asked
  requests : d'.requests = d.requests ++ asked
  screen : ∀ e : Dashboard, d'.screen = d.screen ++
    (admitted m.token.cancelled asked).flatMap fun p => e.entriesOf p.2
  errorText : d'.errorText = d.errorText
  runPanels : d'.runPanels = d.runPanels
  project : ∃ panels, d'.projectPanels = d.projectPanels ++ panels ∧
    panels.length ≤ countOf Post.isProject (admitted m.token.cancelled asked) ∧
    (whole → panels.length = countOf Post.isProject (admitted m.token.cancelled asked))

variable {whole : Prop} {d' d'' : Dashboard} {m'' : Machine}

/-- Nothing is seen while nothing is let through. -/
theorem Asks.watches (h : Asks m m' asked) (hnone : admitted m.token.cancelled asked = [])
    (hrequests : d'.requests = d.requests ++ asked) (hscreen : d'.screen = d.screen)
    (herror : d'.errorText = d.errorText) (hrun : d'.runPanels = d.runPanels)
    (hproject : d'.projectPanels = d.projectPanels) : Watches whole d m asked m' d' where
  asks := h
  requests := hrequests
  screen _ := by rw [hnone, List.flatMap_nil, List.append_nil, hscreen]
  errorText := herror
  runPanels := hrun
  project := ⟨[], by rw [List.append_nil, hproject], Nat.zero_le _, fun _ => by rw [hnone]; rfl⟩

/-- Who sees the whole of it sees it in any case. -/
theorem Watches.of_whole (h : Watches True d m asked m' d') : Watches whole d m asked m' d' :=
  { h with
    project := h.project.imp fun _ ⟨hpanels, hlength, hall⟩ =>
      ⟨hpanels, hlength, fun _ => hall trivial⟩ }

theorem Watches.trans (h : Watches True d m asked m' d') (h' : Watches whole d' m' more m'' d'') :
    Watches whole d m (asked ++ more) m'' d'' := by
  have hadmitted : admitted m.token.cancelled (asked ++ more) =
      admitted m.token.cancelled asked ++ admitted m'.token.cancelled more := by
    rw [admitted_append, h.asks.token]
  refine ⟨h.asks.trans h'.asks, ?_, fun e => ?_, h'.errorText.trans h.errorText,
    h'.runPanels.trans h.runPanels, ?_⟩
  · rw [h'.requests, h.requests, List.append_assoc]
  · rw [h'.screen e, h.screen e, hadmitted, List.flatMap_append, List.append_assoc]
  · obtain ⟨panels, hpanels, -, hall⟩ := h.project
    obtain ⟨panels', hpanels', hlength, hwhole⟩ := h'.project
    have hcount := hall trivial
    refine ⟨panels ++ panels', by rw [hpanels', hpanels, List.append_assoc], ?_, fun hw => ?_⟩ <;>
      rw [hadmitted, countOf, List.countP_append, List.length_append]
    · exact Nat.add_le_add hcount.le hlength
    · exact congrArg₂ _ hcount (hwhole hw)

/-- How far the dashboard says it has come has no part in what it sees. -/
theorem Watches.withPhase (h : Watches whole d m asked m' d') (phase : Phase) :
    Watches whole d m asked m' { d' with phase } :=
  ⟨h.asks, h.requests, h.screen, h.errorText, h.runPanels, h.project⟩

/-- Somebody leaves, or not. -/
theorem watches_left (d : Dashboard) (m : Machine) (leaves : Bool) :
    Watches True d m (quits leaves) (left m leaves)
      { d with requests := d.requests ++ quits leaves } :=
  (asks_left m leaves).watches (admitted_quits _ leaves) rfl rfl rfl rfl rfl

/-- What is asked when the worker looks whether it may show the project; somebody may leave then. -/
def lookAtProject (leaves : Bool) : List Request := .look .worker .project :: quits leaves

theorem admitted_lookAtProject (cancelled leaves : Bool) :
    admitted cancelled (lookAtProject leaves) =
      if cancelled then [] else [(.worker, .project)] := by
  cases cancelled <;> cases leaves <;> rfl

/-- The worker looks, and its post has no entry. -/
theorem watches_look (d : Dashboard) (m : Machine) (leaves : Bool) :
    Watches False d m (lookAtProject leaves) (left m leaves)
      { d with requests := d.requests ++ lookAtProject leaves } where
  asks := (asks_look m rfl).trans (asks_left m leaves)
  requests := rfl
  screen e := by
    rw [admitted_lookAtProject]
    cases m.token.cancelled <;> exact (List.append_nil _).symm
  errorText := rfl
  runPanels := rfl
  project := ⟨[], (List.append_nil _).symm, Nat.zero_le _, False.elim⟩

/-- The project is shown if the look has let its panel through. -/
theorem Watches.showProject {d d' d₁ : Dashboard} (h : Watches False d m asked m' d₁)
    (hadmitted : admitted m.token.cancelled asked =
      if m.token.cancelled then [] else [(.worker, .project)])
    (hpanels : d₁.projectPanels = d.projectPanels) (hshow : d₁.showProject m = .ok d') :
    Watches True d m asked m' d' := by
  unfold Dashboard.showProject at hshow
  cases hcancelled : m.token.cancelled <;> rw [hcancelled] at hshow hadmitted
  · obtain ⟨panel, -, hdrawn⟩ := bind_eq_ok_iff.mp hshow
    obtain rfl := Except.ok.inj hdrawn
    refine ⟨h.asks, h.requests, h.screen, h.errorText, h.runPanels, [panel], ?_, ?_, fun _ => ?_⟩
    · exact congrArg (· ++ [panel]) hpanels
    · rw [hcancelled, hadmitted]
      exact Nat.le_refl 1
    · rw [hcancelled, hadmitted]
      rfl
  · obtain rfl := Except.ok.inj hshow
    refine ⟨h.asks, h.requests, h.screen, h.errorText, h.runPanels, [], ?_, Nat.zero_le _, ?_⟩
    · rw [List.append_nil, hpanels]
    · rw [hcancelled, hadmitted]
      exact fun _ => rfl

/-- What a run has written to the log, and what is known of its samples. -/
def encoded (d : Dashboard) (m : Machine) (p : Production) : Dashboard :=
  { d with
    requests := d.requests ++ requestsOf (newEvents m p.machine)
    screen := d.screen ++ (admitted m.token.cancelled (requestsOf (newEvents m p.machine))).flatMap
      fun post => d.entriesOf post.2
    sample := (p.observers.received.getLast?.map Sample.fields) <|> d.sample }

/-- A run that is reported is logged, and the dashboard concludes its result. -/
theorem encode_of_run (d : Dashboard) {p p' : Production} {r : Except Fault (Option String)}
    (hm : m.reporting = true) (h : ProjectJob.run ⟨m, p.project, p.observers⟩ = (r, p')) :
    encode d p m = (.ok ((d.encoded m p').conclude r), p'.machine) := by
  have hproceeds := ProjectJob.proceeds_run ⟨m, p.project, p.observers⟩
  rw [h] at hproceeds
  have hwork : p.project.work p.observers ProjectJob.run m = (.ok (r, p'), p'.machine) := by
    rw [Project.work_eq, h]
  unfold encode
  rw [Job.machine_bind, Job.bind_of_ok hwork]
  dsimp only
  rw [Job.machine_bind, hm, screenEntries_eq d hproceeds.plain, Job.ofExcept_ok_bind]
  rfl

/-- What events ask of the screen are no panels and no outcomes. -/
theorem signal_of_mem_requestsOf {events : List Event} {who : Poster} {post : Post}
    (h : .look who post ∈ requestsOf events) : ∃ s, post = .signal s := by
  obtain ⟨ev, -, hev⟩ := List.mem_filterMap.mp h
  unfold Request.ofEvent at hev
  split at hev
  · exact absurd hev (by simp)
  · exact absurd hev (by simp)
  · exact ⟨_, (Request.look.inj (Option.some.inj hev)).2.symm⟩

theorem mem_of_mem_admitted {cancelled : Bool} {p : Poster × Post}
    (h : p ∈ admitted cancelled asked) : .look p.1 p.2 ∈ asked := by
  induction asked generalizing cancelled with
  | nil => exact absurd h List.not_mem_nil
  | cons r asked ih =>
    cases r with
    | quit => exact List.mem_cons_of_mem _ (ih h)
    | look who post =>
      rcases List.mem_append.mp h with h | h
      · cases cancelled with
        | true => exact absurd h List.not_mem_nil
        | false =>
          obtain rfl := List.mem_singleton.mp h
          exact List.mem_cons_self
      · exact List.mem_cons_of_mem _ (ih h)

/-- A run is seen by its entries. -/
theorem watches_encoded (d : Dashboard) {p p' : Production} {r : Except Fault (Option String)}
    (h : ProjectJob.run ⟨m, p.project, p.observers⟩ = (r, p')) :
    Watches True d m (requestsOf (newEvents m p'.machine)) p'.machine (d.encoded m p') := by
  have hproceeds := ProjectJob.proceeds_run ⟨m, p.project, p.observers⟩
  rw [h] at hproceeds
  have hsignal : ∀ post ∈ admitted m.token.cancelled (requestsOf (newEvents m p'.machine)),
      ∃ s, post.2 = .signal s := fun post hpost =>
    signal_of_mem_requestsOf (mem_of_mem_admitted hpost)
  have hnone : countOf Post.isProject
      (admitted m.token.cancelled (requestsOf (newEvents m p'.machine))) = 0 := by
    refine List.countP_eq_zero.mpr fun post hpost => ?_
    obtain ⟨s, hs⟩ := hsignal post hpost
    rw [hs]
    exact Bool.false_ne_true
  refine ⟨asks_of_proceeds hproceeds, rfl, fun e => ?_, rfl, rfl,
    [], ?_, Nat.zero_le _, fun _ => ?_⟩
  · refine congrArg (d.screen ++ ·) (List.flatMap_congr fun post hpost => ?_)
    obtain ⟨s, hs⟩ := hsignal post hpost
    rw [hs]
    rfl
  · exact (List.append_nil _).symm
  · exact hnone.symm

/-- A run that ends well gives a path, unless it is dry. -/
theorem exists_path_of_run {w : Production} (hdry : w.project.dryRun = false) {out : Option String}
    (h : (ProjectJob.run w).1 = .ok out) : ∃ path, out = some path := by
  have hcontinues := ProjectJob.continues_validate w
  rcases hvalidate : ProjectJob.validate w with ⟨f | s, w'⟩ <;> rw [hvalidate] at hcontinues
  · rw [ProjectJob.run_of_error hvalidate] at h
    exact absurd h (by simp)
  · rw [ProjectJob.run_of_encode hvalidate (hcontinues.dryRun.trans hdry)] at h
    rcases hend : ProjectJob.encode s w' with ⟨f | path, w₂⟩ <;> rw [hend] at h <;> dsimp only at h
    · exact absurd h (by simp)
    · split at h
      · exact ⟨path, (Except.ok.inj h).symm⟩
      · exact absurd h (by simp)

/-! ## What is seen of an attempt -/

/-- What a dashboard has got to see when an attempt with a result has come from one machine to
another. If it ends well, it has a path and the worker was to show the project. -/
structure Ends (d : Dashboard) (m : Machine) (asked : List Request)
    (r : Except Fault (Option String)) (m' : Machine) (d' : Dashboard) : Prop where
  watches : Watches (∃ out, r = .ok out) d m asked m' d'
  returned : ∀ out, r = .ok out → ∃ path, out = some path
  asksProject : ∀ out, r = .ok out → .look .worker .project ∈ asked

theorem Watches.ends_error (h : Watches False d m asked m' d') (f : Fault) :
    Ends d m asked (.error f) m' d' where
  watches := { h with
    project := h.project.imp fun _ ⟨hpanels, hlength, _⟩ =>
      ⟨hpanels, hlength, fun ⟨_, hok⟩ => absurd hok (by simp)⟩ }
  returned _ hok := absurd hok (by simp)
  asksProject _ hok := absurd hok (by simp)

theorem Watches.ends {r : Except Fault (Option String)} (h : Watches True d m asked m' d')
    (h' : Ends d' m' more r m'' d'') : Ends d m (asked ++ more) r m'' d'' :=
  ⟨h.trans h'.watches, h'.returned, fun out hr => List.mem_append_right _ (h'.asksProject out hr)⟩

/-- The worker looks at the machine and is about to show the project. -/
theorem lookAtProject_bind {α : Type} (d : Dashboard) (leaves : Bool)
    (f : Machine → Dashboard → Job α) (m : Machine) :
    (Job.machine >>= fun looked => (d.ask .project).pass leaves >>= fun d => f looked d) m =
      f m { d with requests := d.requests ++ lookAtProject leaves } (left m leaves) := by
  rw [Job.machine_bind, pass_bind]
  unfold ask lookAtProject
  dsimp only
  rw [List.append_assoc]
  rfl

theorem exists_produce (d : Dashboard) (leaves : Moment → Bool) {p : Project}
    (hdry : p.dryRun = false) (hm : m.reporting = true) : ∃ d' asked,
    Ends d m asked (d.attemptRead leaves p m).1 (d.attemptRead leaves p m).2 d' ∧
    d.produce leaves p m =
      (.ok (d'.conclude (d.attemptRead leaves p m).1), (d.attemptRead leaves p m).2) := by
  have hhouse := ProjectJob.keepsHouse_validate ⟨m, p, observers⟩
  have hcontinues := ProjectJob.continues_validate ⟨m, p, observers⟩
  have hwork := Project.work_eq p observers ProjectJob.validate m
  unfold produce attemptRead
  rcases hvalidate : ProjectJob.validate ⟨m, p, observers⟩ with ⟨f | s, w⟩ <;>
    rw [hvalidate] at hhouse hwork hcontinues <;> rw [Job.bind_of_ok hwork, Job.bind_of_ok hwork]
  · have hvalidated : Watches False d m [] w.machine d :=
      (asks_of_keepsHouse hhouse).watches rfl (List.append_nil _).symm rfl rfl rfl rfl
    exact ⟨d, [], hvalidated.ends_error f, rfl⟩
  dsimp only
  rw [Job.ofExcept_ok_bind, pass_bind, pass_bind, lookAtProject_bind, lookAtProject_bind]
  have hvalidated : Watches True d m [] w.machine { d with info := sessionInfo w.project s } :=
    (asks_of_keepsHouse hhouse).watches rfl (List.append_nil _).symm rfl rfl rfl rfl
  have hlooks := hvalidated.trans (watches_left _ w.machine (leaves .validated))
  have hreporting := hlooks.asks.proceeds.reporting.trans hm
  generalize left w.machine (leaves .validated) = m₁ at hlooks hreporting ⊢
  generalize ({ { d with info := sessionInfo w.project s } with
    requests := d.requests ++ quits (leaves .validated) } : Dashboard) = d₁ at hlooks ⊢
  have hlook := watches_look d₁ m₁ (leaves .looked)
  rcases hshow : ({ d₁ with requests := d₁.requests ++ lookAtProject (leaves .looked) } :
    Dashboard).showProject m₁ with f | d₂
  · exact ⟨_, _, hlooks.ends (hlook.ends_error f), rfl⟩
  dsimp only
  rw [Job.ofExcept_ok_bind, pass_bind, pass_bind]
  have hshown := ((hlook.showProject (admitted_lookAtProject _ _) rfl hshow).trans
    (watches_left d₂ _ (leaves .shown))).withPhase .encoding
  have hm₂ := hshown.asks.proceeds.reporting.trans hreporting
  generalize left (left m₁ (leaves .looked)) (leaves .shown) = m₂ at hshown hm₂ ⊢
  have hrunning := Project.work_eq w.project w.observers ProjectJob.run m₂
  rcases hrun : ProjectJob.run ⟨m₂, w.project, w.observers⟩ with ⟨r, w₂⟩
  rw [hrun] at hrunning
  rw [encode_of_run _ hm₂ hrun, Job.bind_of_ok hrunning]
  dsimp only
  rw [Job.ofExcept_eq]
  have hseen := hlooks.trans (hshown.trans (watches_encoded _ hrun))
  refine ⟨_, _, ⟨hseen.of_whole, fun out hr => ?_, fun _ _ => ?_⟩, rfl⟩
  · obtain rfl : r = .ok out := hr
    exact exists_path_of_run (w := ⟨m₂, w.project, w.observers⟩) (hcontinues.dryRun.trans hdry)
      (congrArg Prod.fst hrun)
  · simp [lookAtProject]

/-- The dashboard after its attempt: what it reads, validates, shows and runs, and however that
ends, the dashboard concludes it. -/
theorem exists_attempted (d : Dashboard) (leaves : Moment → Bool) (hm : m.reporting = true) :
    ∃ d' asked, Ends d m asked (d.attempt leaves m).1 (d.attempt leaves m).2 d' ∧
    (tryCatch (do
        let p ← Project.load d.path d.projectOptions
        (← d.pass (leaves .read)).produce leaves p)
      (fun f => pure (d.conclude (.error f))) : Job Dashboard) m =
      (.ok (d'.conclude (d.attempt leaves m).1), (d.attempt leaves m).2) := by
  have hload := Project.load_machine d.path d.projectOptions m
  rw [Job.tryCatch_eq]
  unfold attempt
  rcases h : Project.load d.path d.projectOptions m with ⟨f | p, m₁⟩ <;> rw [h] at hload <;>
    obtain rfl : m₁ = m := hload
  · rw [Job.bind_of_error h, Job.bind_of_error h]
    have hnothing : Watches False d m₁ [] m₁ d :=
      (asks_of_keepsHouse (refl_of Machine.KeepsHouse m₁)).watches rfl (List.append_nil _).symm rfl
        rfl rfl rfl
    exact ⟨d, [], hnothing.ends_error f, rfl⟩
  · have hdry : p.dryRun = false := by
      obtain ⟨file, _, -, hp⟩ := Job.bind_eq_ok_iff.mp h
      obtain ⟨rfl, -⟩ := Job.pure_eq_ok_iff.mp hp
      rfl
    have hleft := watches_left d m₁ (leaves .read)
    obtain ⟨d', asked, hends, hproduce⟩ := exists_produce
      { d with requests := d.requests ++ quits (leaves .read) } leaves hdry
      (hleft.asks.proceeds.reporting.trans hm)
    rw [Job.bind_of_ok h, Job.bind_of_ok h, pass_bind, pass_bind, hproduce]
    exact ⟨d', _, hleft.ends hends, rfl⟩

/-! ## The end of the work -/

/-- The dashboard knows how its attempt has ended: with the path of a video, with a cancelled run,
or with another fault. -/
structure Knows (r : Except Fault (Option String)) (d : Dashboard) : Prop where
  settled : d.phase = .done ∨ d.phase = .cancelled ∨ d.phase = .failed
  done_iff : d.phase = .done ↔ ∃ path, r = .ok (some path)
  cancelled_iff : d.phase = .cancelled ↔ ∃ f, r = .error f ∧ f.IsCancellation
  failed_iff : d.phase = .failed ↔ ∃ f, r = .error f ∧ ¬ f.IsCancellation
  returned : ∀ path, r = .ok path → d.outputFile = path ∧ d.errorText = none
  raised : ∀ f, r = .error f → d.errorText = some f.message

theorem faultPhase_cases (f : Fault) :
    (faultPhase f = .cancelled ∧ f.IsCancellation) ∨
      (faultPhase f = .failed ∧ ¬ f.IsCancellation) := by
  unfold Fault.IsCancellation
  cases f with
  | encode e => cases he : e.cancelled.isGiven <;> simp [faultPhase, he]
  | _ => simp [faultPhase]

theorem knows_conclude {r : Except Fault (Option String)} (herror : d.errorText = none)
    (hpath : ∀ out, r = .ok out → ∃ path, out = some path) : Knows r (d.conclude r) := by
  cases r with
  | ok out =>
    obtain ⟨path, rfl⟩ := hpath out rfl
    exact ⟨.inl rfl, by simp [conclude], by simp [conclude], by simp [conclude],
      by simp [conclude, herror], by simp⟩
  | error f =>
    rcases faultPhase_cases f with ⟨hphase, hf⟩ | ⟨hphase, hf⟩
    · exact ⟨by simp [conclude, hphase], by simp [conclude, hphase], by simp [conclude, hphase, hf],
        by simp [conclude, hphase, hf], by simp, by simp [conclude]⟩
    · exact ⟨by simp [conclude, hphase], by simp [conclude, hphase], by simp [conclude, hphase, hf],
        by simp [conclude, hphase, hf], by simp, by simp [conclude]⟩

theorem screen_conclude (d : Dashboard) (r : Except Fault (Option String)) :
    (d.conclude r).screen = d.screen := by
  cases r <;> rfl

theorem projectPanels_conclude (d : Dashboard) (r : Except Fault (Option String)) :
    (d.conclude r).projectPanels = d.projectPanels := by
  cases r <;> rfl

theorem runPanels_conclude (d : Dashboard) (r : Except Fault (Option String)) :
    (d.conclude r).runPanels = d.runPanels := by
  cases r <;> rfl

theorem requests_conclude (d : Dashboard) (r : Except Fault (Option String)) :
    (d.conclude r).requests = d.requests := by
  cases r <;> rfl

/-- What is shown of the outcome: its entry and the panel of the run, if a look has let it
through. -/
theorem exists_showOutcome (d : Dashboard) (looked : Machine) : ∃ panels : List Panel,
    d.showOutcome looked = { d with
      screen := d.screen ++ (if looked.token.cancelled then [] else d.outcomeEntry)
      runPanels := d.runPanels ++ panels } ∧
    panels.length ≤ if looked.token.cancelled then 0 else 1 := by
  unfold showOutcome
  cases looked.token.cancelled with
  | true => exact ⟨[], by simp, Nat.zero_le 0⟩
  | false =>
    rw [if_neg Bool.false_ne_true, if_neg Bool.false_ne_true]
    dsimp only
    rcases hdraw : drawRun _ (.real looked.clock) with f | drawn
    · exact ⟨[], by simp, Nat.zero_le _⟩
    · obtain ⟨_, -, h⟩ := bind_eq_ok_iff.mp hdraw
      obtain ⟨panel, -, h⟩ := bind_eq_ok_iff.mp h
      exact ⟨[panel], (Except.ok.inj h).symm, Nat.le_refl 1⟩

/-- A machine that is quiet and reports its commands to the dashboard. -/
def attended (m : Machine) : Machine := { m with quiet := true, reporting := true }

/-- A machine that is loud and reports to nobody. -/
def dismissed (m : Machine) : Machine := { m with quiet := false, reporting := false }

/-- What is asked at the end: the worker looks whether it may show the outcome, and somebody may
leave before and after that. -/
def lookAtOutcome (leaves : Moment → Bool) : List Request :=
  quits (leaves .over) ++ .look .worker .outcome :: quits (leaves .closing)

theorem admitted_lookAtOutcome (cancelled : Bool) (leaves : Moment → Bool) :
    admitted cancelled (lookAtOutcome leaves) =
      if cancelled || leaves .over then [] else [(.worker, .outcome)] := by
  unfold lookAtOutcome
  cases cancelled <;> cases leaves .over <;> cases leaves .closing <;> rfl

/-- What follows an attempt that has left the machine `m`: from a machine that is loud and reports
to nobody to the last one, the worker looks at the machine `looked` whether it may show the outcome.
-/
structure Closes (m looked m' : Machine) (asked : List Request) : Prop where
  asks : Asks (dismissed m) m' asked
  clock : m'.clock = m.clock
  loud : m'.quiet = false
  asksOutcome : .look .worker .outcome ∈ asked
  admitted : admitted m.token.cancelled asked =
    if looked.token.cancelled then [] else [(.worker, .outcome)]

theorem closes_lookAtOutcome (m : Machine) (leaves : Moment → Bool) :
    Closes m (left (dismissed m) (leaves .over))
      (left (left (dismissed m) (leaves .over)) (leaves .closing)) (lookAtOutcome leaves) where
  asks := (asks_left _ (leaves .over)).trans
    ((asks_look _ rfl).trans (asks_left _ (leaves .closing)))
  clock := by cases leaves .over <;> cases leaves .closing <;> rfl
  loud := by cases leaves .over <;> cases leaves .closing <;> rfl
  asksOutcome := List.mem_append_right _ List.mem_cons_self
  admitted := by
    rw [admitted_lookAtOutcome, (asks_left (dismissed m) (leaves .over)).token]
    cases leaves .over <;> rfl

/-- The work of a dashboard: its attempt, what it concludes from the result, and what is shown of
the outcome. -/
theorem exists_workLeaving (d : Dashboard) (leaves : Moment → Bool) (m : Machine) :
    ∃ d' asked r m', d.attempt leaves (attended m) = (r, m') ∧
    Ends d (attended m) asked r m' d' ∧
    d.workLeaving leaves m = (.ok (({ d'.conclude r with
      stoppedAt := .real m'.clock
      requests := d'.requests ++ lookAtOutcome leaves } :
        Dashboard).showOutcome (left (dismissed m') (leaves .over))),
      left (left (dismissed m') (leaves .over)) (leaves .closing)) := by
  obtain ⟨d', asked, hends, hattempted⟩ := exists_attempted (m := attended m) d leaves rfl
  rcases hattempt : d.attempt leaves (attended m) with ⟨r, m'⟩
  rw [hattempt] at hends hattempted
  refine ⟨d', asked, r, m', rfl, hends, ?_⟩
  unfold workLeaving
  rw [Job.modify_bind]
  refine (Job.bind_of_ok hattempted).trans ?_
  rw [Job.machine_bind, Job.modify_bind, pass_bind, Job.machine_bind, pass_bind]
  unfold ask lookAtOutcome
  dsimp only
  rw [requests_conclude, List.append_assoc, List.append_assoc]
  rfl

/-- How the work of a dashboard ends whose attempt has the result `r`: the dashboard knows it, and
the machine is loud and reports to nobody. Meanwhile this was asked of the screen: what the events
of the machine tell, the panel of the project if it came to that, and the outcome. What is written
and drawn is what looks have let through; and whatever the order of looks, posts and leaving, a post
that comes after the cancellation was let through before it. -/
structure Concluded (d : Dashboard) (m : Machine) (r : Except Fault (Option String))
    (asked : List Request) (d' : Dashboard) (m' : Machine) : Prop where
  knows : Knows r d'
  stopped : d'.stoppedAt = .real m'.clock
  loud : m'.quiet = false
  unreported : m'.reporting = false
  cancelled : m'.token.cancelled = (m.token.cancelled || asked.any Request.isQuit)
  requests : d'.requests = d.requests ++ asked
  signals : asked.filterMap Request.signal? = (newEvents m m').filterMap (Signal.ofEvent true)
  asksProject : ∀ out, r = .ok out → .look .worker .project ∈ asked
  asksOutcome : .look .worker .outcome ∈ asked
  screen : d'.screen = d.screen ++
    (admitted m.token.cancelled asked).flatMap fun p => d'.entriesOf p.2
  projectPanels : ∃ panels, d'.projectPanels = d.projectPanels ++ panels ∧
    panels.length ≤ countOf Post.isProject (admitted m.token.cancelled asked) ∧
    ∀ out, r = .ok out →
      panels.length = countOf Post.isProject (admitted m.token.cancelled asked)
  runPanels : ∃ panels, d'.runPanels = d.runPanels ++ panels ∧
    panels.length ≤ countOf Post.isOutcome (admitted m.token.cancelled asked)
  posting : Posting.Respects m.token.cancelled asked

/-- **The work of a dashboard.** Whatever project and machine there are and whenever somebody
leaves, the work ends and the dashboard knows how: it is done with the path that the run has
returned, or cancelled or failed with the text of the fault. Afterwards the machine is loud and
reports to nobody, and no look from the cancellation on has let anything be logged or drawn. -/
theorem work_concluded (herror : d.errorText = none) (leaves : Moment → Bool) (m : Machine) :
    ∃ d' m' asked, d.workLeaving leaves m = (.ok d', m') ∧
      d.Concluded m (d.attempt leaves (attended m)).1 asked d' m' := by
  obtain ⟨d₁, asked, r, m₁, hattempt, hends, hwork⟩ := exists_workLeaving d leaves m
  rw [hattempt]
  have hwatches := hends.watches
  have hknows := knows_conclude (hwatches.errorText.trans herror) hends.returned
  have hlast := closes_lookAtOutcome m₁ leaves
  generalize left (dismissed m₁) (leaves .over) = m₂ at hlast hwork
  generalize left m₂ (leaves .closing) = m₃ at hlast hwork
  generalize lookAtOutcome leaves = last at hlast hwork
  have hadmitted := hlast.admitted
  obtain ⟨panels, hshown, hlength⟩ := exists_showOutcome { d₁.conclude r with
    stoppedAt := .real m₁.clock, requests := d₁.requests ++ last } m₂
  rw [hshown] at hwork
  refine ⟨_, m₃, asked ++ last, hwork, ?_⟩
  -- the record and the token do not depend on whether the machine is quiet or reports
  have hevents : newEvents m m₃ = newEvents (attended m) m₁ ++ newEvents (dismissed m₁) m₃ :=
    newEvents_append (show m.record <:+ (dismissed m₁).record from hwatches.asks.proceeds.record)
      hlast.asks.proceeds.record
  have happend : admitted m.token.cancelled (asked ++ last) =
      admitted m.token.cancelled asked ++ admitted m₁.token.cancelled last := by
    rw [admitted_append, hwatches.asks.token]
    rfl
  constructor
  case knows => exact ⟨hknows.settled, hknows.done_iff, hknows.cancelled_iff, hknows.failed_iff,
    hknows.returned, hknows.raised⟩
  case stopped => exact congrArg Document.real hlast.clock.symm
  case loud => exact hlast.loud
  case unreported => exact hlast.asks.proceeds.reporting
  case cancelled =>
    rw [List.any_append, ← Bool.or_assoc]
    exact hlast.asks.token.trans (congrArg (· || _) hwatches.asks.token)
  case requests =>
    show d₁.requests ++ last = _
    rw [hwatches.requests, List.append_assoc]
  case signals =>
    rw [hevents, List.filterMap_append, List.filterMap_append, hlast.asks.signals]
    exact congrArg (· ++ _) hwatches.asks.signals
  case asksProject => exact fun out hr => List.mem_append_left _ (hends.asksProject out hr)
  case asksOutcome => exact List.mem_append_right _ hlast.asksOutcome
  case screen =>
    rw [happend, List.flatMap_append, ← List.append_assoc, hadmitted]
    refine congrArg₂ (· ++ ·) ((screen_conclude d₁ r).trans (hwatches.screen _)) ?_
    cases m₂.token.cancelled
    · exact (List.append_nil _).symm
    · rfl
  case projectPanels =>
    obtain ⟨drawn, hdrawn, hcount, hall⟩ := hwatches.project
    have hsame : countOf Post.isProject (admitted m.token.cancelled (asked ++ last)) =
        countOf Post.isProject (admitted m.token.cancelled asked) := by
      rw [happend, countOf, List.countP_append, hadmitted]
      cases m₂.token.cancelled <;> rfl
    rw [hsame]
    exact ⟨drawn, (projectPanels_conclude d₁ r).trans hdrawn, hcount, fun out hr => hall ⟨out, hr⟩⟩
  case runPanels =>
    have hruns : (d₁.conclude r).runPanels = d.runPanels :=
      (runPanels_conclude d₁ r).trans hwatches.runPanels
    refine ⟨panels, congrArg (· ++ panels) hruns, hlength.trans ?_⟩
    rw [happend, countOf, List.countP_append, hadmitted]
    cases m₂.token.cancelled
    · exact Nat.le_add_left 1 _
    · exact Nat.zero_le _
  case posting => exact Posting.respects _ _

/-- A machine with a project file of one clip, whose encoder is cancelled just before its second
line. -/
def interruptedShow : Machine :=
  let clip := Document.mapping [(.text "source", .text "a.mp3"), (.text "duration", .int 1)]
  let track := Document.mapping [(.text "clips", .sequence [clip])]
  { Machine.bare with
    onPath := some "/usr/bin/ffmpeg"
    encoder := .script [⟨.errors, .line "first", 0, false⟩, ⟨.errors, .line "second", 0, true⟩] 0
      false false
    files := [("/show.yaml", .data (.mapping [(.text "stillcast", .int 1),
      (.text "image", .text "c.png"), (.text "tracks", .sequence [track])]))] }

/-- The work on it is cancelled: the start of the command and the first line have been logged, the
project was drawn, and nothing else. -/
theorem work_concluded_interrupted : ∃ d' m',
    (ofPath (.text "/show.yaml") .null false .null).workLeaving (fun _ => false) interruptedShow =
      (.ok d', m') ∧
    d'.phase = .cancelled ∧ d'.screen.length = 2 ∧ d'.projectPanels.length = 1 ∧
    d'.runPanels.length = 0 ∧ m'.quiet = false ∧ m'.reporting = false ∧
    Posting.Respects false d'.requests := by
  have hends : (((ofPath (.text "/show.yaml") .null false .null).workLeaving (fun _ => false)
      interruptedShow).1.toOption.any fun d' => d'.phase == .cancelled &&
        d'.screen.length == 2 && d'.projectPanels.length == 1 && d'.runPanels.length == 0) =
      true := by decide +kernel
  obtain ⟨d', m', asked, hwork, hconcluded⟩ := work_concluded
    (d := ofPath (.text "/show.yaml") .null false .null) rfl (fun _ => false) interruptedShow
  rw [hwork] at hends
  simp only [Except.toOption, Option.any_some, Bool.and_eq_true, beq_iff_eq] at hends
  obtain rfl : d'.requests = asked := hconcluded.requests
  exact ⟨d', m', hwork, hends.1.1.1, hends.1.1.2, hends.1.2, hends.2, hconcluded.loud,
    hconcluded.unreported, hconcluded.posting⟩

/-- Somebody leaves right after the worker has looked whether it may show the project. -/
def isLeftLate : List Request → Bool
  | .look .worker .project :: .quit :: _ => true
  | _ => false

theorem exists_of_isLeftLate (h : isLeftLate asked = true) :
    ∃ rest, asked = .look .worker .project :: .quit :: rest := by
  unfold isLeftLate at h
  split at h
  · exact ⟨_, rfl⟩
  · exact absurd h (by simp)

/-- A look and its post are two steps: when somebody leaves in between, the panel of the project is
posted although the work has been cancelled. -/
theorem work_posts_late : ∃ d' m' rest before after,
    (ofPath (.text "/show.yaml") .null false .null).workLeaving (fun moment => moment = .looked)
      interruptedShow = (.ok d', m') ∧
    d'.projectPanels.length = 1 ∧
    d'.requests = [.look .worker .project, .quit] ++ rest ∧
    Moves.run? Posting.move? (.start false) [.take (.look .worker .project), .take .quit] =
      some before ∧
    before.cancelled = true ∧ before.made = [] ∧
    before.move? (.post .worker) = some after ∧ after.made = [(.worker, .project)] := by
  have hends : (((ofPath (.text "/show.yaml") .null false .null).workLeaving
      (fun moment => moment = .looked) interruptedShow).1.toOption.any fun d' =>
        d'.projectPanels.length == 1 && isLeftLate d'.requests) = true := by decide +kernel
  rcases hwork : (ofPath (.text "/show.yaml") .null false .null).workLeaving
    (fun moment => moment = .looked) interruptedShow with ⟨f | d', m'⟩ <;> rw [hwork] at hends
  · exact absurd hends Bool.false_ne_true
  · simp only [Except.toOption, Option.any_some, Bool.and_eq_true, beq_iff_eq] at hends
    obtain ⟨rest, hrest⟩ := exists_of_isLeftLate hends.2
    exact ⟨d', m', rest, _, _, rfl, hends.1, hrest, rfl, rfl, rfl, rfl, rfl⟩

end Dashboard

end StillVideo
