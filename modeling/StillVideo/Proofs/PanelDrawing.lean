import StillVideo.Dashboard.Worker
import StillVideo.Proofs.ProjectNumbers
import StillVideo.Proofs.RunCancellation

/-!
# Drawing the panels of the dashboard

A panel is drawn unless a number that it shows has no whole part. Whatever an encoder writes, the
percentage of a sample lies between zero and one hundred (`Accumulator.isMade_sample`), so the bar
and the sample can always be shown. A clip without an end makes the length of the project infinite,
and a tiny percentage makes the estimate of the time that is left infinite.
`Dashboard.panels_drawn_iff` says exactly when the panels are drawn.
-/

namespace StillVideo

-- Powers are those of the core library, whatever else is imported.
attribute [local instance (2000)] instPowNat

namespace Binary64

/-! ## Percentages -/

/-- A number from zero to one hundred. -/
def IsPercentage (x : Binary64) : Prop := x.isFinite = true ∧ x.lt 0 = false ∧ lt 100 x = false

theorem IsPercentage.atMost {x : Binary64} (h : x.IsPercentage) : x.AtMost (100 * one) := by
  rw [IsPercentage, hundred_eq] at h
  exact (atMost_iff representable_hundred).mpr h

theorem isPercentage_zero : IsPercentage 0 :=
  ⟨isFinite_zero, not_lt_self 0, by decide +kernel⟩

theorem isPercentage_hundred : IsPercentage 100 := by
  refine ⟨?_, ?_, not_lt_self 100⟩ <;> decide +kernel

theorem isPercentage_of_lt {x : Binary64} (hlow : x.lt 0 = false) (hhigh : x.lt 100 = true) :
    x.IsPercentage := by
  refine ⟨?_, hlow, ?_⟩
  · rcases cases_of_not_lt_zero hlow with rfl | rfl | ⟨s, u, hu, rfl, -⟩
    · exact absurd hhigh (by decide)
    · rw [hundred_eq] at hhigh
      exact absurd hhigh (by simp [lt, rank])
    · rfl
  · refine Bool.eq_false_iff.mpr fun h => ?_
    have hself := lt_of_lt_of_lt hhigh h
    rw [not_lt_self] at hself
    exact Bool.false_ne_true hself

end Binary64

/-- Whatever part of a whole there is, its percentage lies between zero and one hundred. -/
theorem isPercentage_percentOfPart (part : Binary64) : (percentOfPart part).IsPercentage := by
  unfold percentOfPart
  dsimp only
  cases hlow : (part * 100).lt 0 with
  | true => exact Binary64.isPercentage_zero
  | false =>
    rw [if_neg Bool.false_ne_true]
    cases hhigh : (part * 100).lt 100 with
    | true => exact Binary64.isPercentage_of_lt hlow hhigh
    | false => exact Binary64.isPercentage_hundred

theorem isPercentage_percentComplete (elapsed total : Binary64) :
    (percentComplete elapsed total).IsPercentage := by
  unfold percentComplete
  split
  · exact Binary64.isPercentage_zero
  · exact isPercentage_percentOfPart _

/-! ## Samples -/

/-- A sample as a run makes it: its rate is a floating number, and so is its percentage, which lies
between zero and one hundred. -/
structure Sample.IsMade (s : Sample) : Prop where
  fps : ∃ fps, s.fps = .real fps
  progress : ∃ percent : Binary64, s.progress = .real percent ∧ percent.IsPercentage

theorem Accumulator.isMade_sample (a : Accumulator) : a.sample.IsMade :=
  ⟨⟨_, rfl⟩, _, rfl, isPercentage_percentComplete _ _⟩

theorem Accumulator.isMade_of_mem_samples {a : Accumulator} {lines : List String} {s : Sample}
    (h : s ∈ a.samples lines) : s.IsMade := by
  induction lines generalizing a with
  | nil => exact absurd h List.not_mem_nil
  | cons line lines ih =>
    rcases List.mem_append.mp h with hfirst | hrest
    · unfold readLine at hfirst
      split at hfirst
      · unfold feed at hfirst
        split at hfirst
        · obtain rfl := List.mem_singleton.mp hfirst
          exact a.isMade_sample
        · exact absurd hfirst List.not_mem_nil
      · exact absurd hfirst List.not_mem_nil
    · exact ih hrest

/-! ## Bars -/

namespace Number

theorem ofDocument_real (x : Binary64) : ofDocument (.real x) = .ok (.real x) := rfl

theorem ofDocument_int (i : Int) : ofDocument (.int i) = .ok (.whole i) := rfl

theorem lt_real (x y : Binary64) : (Number.real x).lt (.real y) = x.lt y := rfl

end Number

theorem clampPercent_eq {x : Binary64} (h : x.IsPercentage) :
    ∃ y : Binary64, y.IsPercentage ∧ clampPercent (.real x) = .real y := by
  have hmin : (Number.real x).min (.real 100) = .real x := by
    unfold Number.min
    rw [Number.lt_real, h.2.2, if_neg Bool.false_ne_true]
  unfold clampPercent Number.max
  rw [hmin]
  split
  · exact ⟨x, h, rfl⟩
  · exact ⟨0, Binary64.isPercentage_zero, rfl⟩

theorem exists_toReal_barWidth :
    ∃ w : Binary64, (Number.whole defaultBarWidth).toReal = .ok w ∧
      w.AtMost (30 * Binary64.one) := by
  have hrep : Binary64.Representable (30 * Binary64.one) :=
    Binary64.representable_mul_one (by decide)
  have hreal : Binary64.ofInt 30 = .finite false (30 * Binary64.one) hrep :=
    Binary64.ofNat_eq (n := 30) (by decide)
  refine ⟨_, ?_, false, _, hrep, rfl, fun h => absurd h Bool.false_ne_true, Nat.le_refl _⟩
  show realOfInt 30 = _
  unfold realOfInt
  rw [hreal]
  rfl

/-- As many cells of the bar are filled as there are at most. -/
theorem filledCells_percentage {x : Binary64} (h : x.IsPercentage) :
    ∃ n : Int, filledCells (.real x) (.whole defaultBarWidth) = .ok n ∧ 0 ≤ n ∧
      n ≤ defaultBarWidth := by
  obtain ⟨y, hy, hclamp⟩ := clampPercent_eq h
  obtain ⟨w, hw, hwle⟩ := exists_toReal_barWidth
  have hproduct : (w * y).AtMost (3000 * Binary64.one) := by
    refine hwle.mul hy.atMost (Binary64.representable_mul_one (by decide)) (Nat.le_of_eq ?_)
    ring
  have hquotient : (w * y / 100).AtMost (30 * Binary64.one) := by
    rw [Binary64.hundred_eq]
    refine hproduct.div (Nat.mul_pos (by decide) Binary64.one_pos)
      (Binary64.representable_mul_one (by decide)) (Nat.le_of_eq ?_)
    ring
  obtain ⟨n, hround, hlow, hhigh⟩ := hquotient.round
  refine ⟨n, ?_, hlow, hhigh⟩
  have hmul : (Number.whole defaultBarWidth).mul (.real y) = .ok (.real (w * y)) := by
    show (do return Number.real ((← (Number.whole defaultBarWidth).toReal) * (← .ok y))) = _
    rw [hw]
    rfl
  have hdiv : (Number.real (w * y)).div (.real 100) = .ok (w * y / 100) := rfl
  unfold filledCells
  rw [hclamp, hmul]
  dsimp only [bind, Except.bind]
  rw [hdiv]
  dsimp only
  rw [hround]
  rfl

theorem cells_eq {n : Int} (kind : Char) (hlow : 0 ≤ n) (hhigh : n ≤ defaultBarWidth) :
    cells kind n = .ok (List.replicate n.toNat kind) := by
  unfold defaultBarWidth at hhigh
  unfold cells cellLimit
  rw [if_neg (by omega), if_neg (by omega)]

theorem exists_bar {x : Binary64} (h : x.IsPercentage) :
    ∃ bar, barOfValues (.real x) (.int defaultBarWidth) = .ok bar := by
  obtain ⟨n, hfilled, hlow, hhigh⟩ := filledCells_percentage h
  refine ⟨String.ofList (List.replicate n.toNat '█' ++
    List.replicate (defaultBarWidth - n).toNat '░'), ?_⟩
  unfold barOfValues
  rw [Number.ofDocument_real, ok_bind, Number.ofDocument_int, ok_bind]
  dsimp only
  unfold barText
  rw [hfilled, ok_bind, cells_eq _ hlow hhigh, ok_bind, cells_eq _ (by omega) (by omega), ok_bind]
  rfl

/-! ## Times -/

theorem exists_clockOfValue_iff {x : Binary64} :
    (∃ clock, clockOfValue (.real x) = .ok clock) ↔ x.isFinite = true := by
  rw [← exists_wholeOfReal_iff]
  unfold clockOfValue
  constructor
  · rintro ⟨clock, h⟩
    obtain ⟨i, hi, -⟩ := bind_eq_ok_iff.mp h
    exact ⟨i, hi⟩
  · rintro ⟨i, hi⟩
    exact ⟨clockText i, bind_eq_ok_iff.mpr ⟨i, hi, rfl⟩⟩

theorem exists_remainingText_iff {x : Binary64} :
    (∃ text, remainingText (some x) = .ok text) ↔ x.isFinite = true := by
  cases x with
  | finite s u hu => exact iff_of_true ⟨_, rfl⟩ rfl
  | nan => exact iff_of_false (fun ⟨_, h⟩ => nomatch h) Bool.false_ne_true
  | infinite s => exact iff_of_false (fun ⟨_, h⟩ => nomatch h) Bool.false_ne_true

namespace Number

theorem rank_whole_zero : (Number.whole 0).rank = (Number.real 0).rank := by
  rw [Binary64.zero_eq]
  exact congrArg (some <| Prod.mk (0 : Int) ·) (Int.zero_mul _)

theorem rank_whole_hundred : (Number.whole 100).rank = (Number.real 100).rank := by
  rw [Binary64.hundred_eq]
  exact congrArg (some <| Prod.mk (0 : Int) ·) (Nat.cast_mul 100 Binary64.one).symm

/-- A finite number is above zero, or it is not. -/
theorem le_whole_zero {x : Binary64} (h : x.isFinite = true) :
    (Number.real x).le (.whole 0) = !Binary64.lt 0 x := by
  rw [← Binary64.le_eq_not_lt (Binary64.ne_nan_of_isFinite h)
    (Binary64.ne_nan_of_isFinite Binary64.isFinite_zero)]
  unfold Number.le Number.lt Number.eq
  rw [rank_whole_zero]
  rfl

theorem lt_whole_hundred (x : Binary64) : (Number.real x).lt (.whole 100) = x.lt 100 := by
  unfold Number.lt
  rw [rank_whole_hundred]
  rfl

end Number

/-- The time that is left from a percentage and a finite time. -/
theorem estimateOfValues_eq {elapsed percent : Binary64} (he : elapsed.isFinite = true)
    (hp : percent.IsPercentage) :
    estimateOfValues (.real elapsed) (.real percent) = .ok (
      if Binary64.lt 0 percent && Binary64.lt 0 elapsed then
        some (if percent.lt 100 then elapsed * (100 - percent) / percent else 0)
      else none) := by
  have hnan : (Number.real percent).isNaN = false := by
    obtain ⟨a, m, h⟩ := Binary64.exists_rank (Binary64.ne_nan_of_isFinite hp.1)
    show percent.rank.isNone = false
    rw [h]
    rfl
  unfold estimateOfValues estimateRemaining
  simp only [Number.ofDocument_real, ok_bind, Number.le_whole_zero hp.1, Number.le_whole_zero he,
    Number.lt_whole_hundred, hnan]
  cases Binary64.lt 0 percent with
  | false => rfl
  | true =>
    cases Binary64.lt 0 elapsed with
    | false => rfl
    | true => cases percent.lt 100 <;> rfl

/-! ## Panels -/

namespace Dashboard

/-- The panel is drawn. -/
def Draws (r : Except Fault Panel) : Prop := ∃ panel, r = .ok panel

theorem fixed_real (places : Nat) (x : Binary64) :
    (Document.real x).fixed places = .ok (x.fixed places) := rfl

/-- The percentage that a panel shows. -/
theorem exists_percent {sample : Option Sample} (hmade : ∀ s ∈ sample, s.IsMade) :
    ∃ percent : Binary64, percent.IsPercentage ∧
      ((sample.map Sample.fields).map (·.progress)).getD (.real 0) = .real percent ∧
      (∀ s, sample = some s → s.progress = .real percent) ∧
      (sample = none → percent = 0) := by
  cases sample with
  | none => exact ⟨0, Binary64.isPercentage_zero, rfl, fun _ h => (nomatch h), fun _ => rfl⟩
  | some s =>
    obtain ⟨percent, hprogress, hpercent⟩ := (hmade s rfl).progress
    refine ⟨percent, hpercent, congrArg Number.toDocument hprogress, ?_, fun h => (nomatch h)⟩
    rintro s' hs
    obtain rfl := Option.some.inj hs
    exact hprogress

theorem exists_details {sample : Option Sample} (hmade : ∀ s ∈ sample, s.IsMade) :
    ∃ details, ((sample.map Sample.fields).map sampleText).getD (.ok "") = .ok details := by
  cases sample with
  | none => exact ⟨"", rfl⟩
  | some s =>
    obtain ⟨fps, hfps⟩ := (hmade s rfl).fps
    refine ⟨"frame " ++ s.fields.frame.display ++ "  " ++ fps.fixed 1 ++ " fps  " ++
      s.fields.time.display, ?_⟩
    show sampleText s.fields = _
    unfold sampleText
    rw [show s.fields.fps = .real fps from congrArg Number.toDocument hfps, fixed_real, ok_bind]
    rfl

/-- The time that is left as the panel shows it. -/
def remaining? (phase : Phase) (elapsed percent : Binary64) : Option Binary64 :=
  if phase = .encoding ∧ Binary64.lt 0 percent = true ∧ Binary64.lt 0 elapsed = true then
    some (if percent.lt 100 then elapsed * (100 - percent) / percent else 0)
  else none

/-- At a finite time, the panel of a run is drawn if the time that is left can be. -/
theorem draws_runPanel_iff_remaining (phase : Phase) {elapsed percent : Binary64}
    (he : elapsed.isFinite = true) (hpercent : percent.IsPercentage) {sample : Option Sample}
    (hmade : ∀ s ∈ sample, s.IsMade)
    (hshown : ((sample.map Sample.fields).map (·.progress)).getD (.real 0) = .real percent) :
    Draws (runPanel phase (.real elapsed) (sample.map Sample.fields)) ↔
      ∃ text, remainingText (remaining? phase elapsed percent) = .ok text := by
  obtain ⟨details, hdetails⟩ := exists_details hmade
  obtain ⟨clock, hclock⟩ := exists_clockOfValue_iff.mpr he
  obtain ⟨bar, hbar⟩ := exists_bar hpercent
  unfold Draws runPanel remaining?
  dsimp only
  rw [hshown]
  by_cases hphase : phase = .encoding
  · rw [if_pos hphase, estimateOfValues_eq he hpercent]
    simp only [hphase, true_and, ← Bool.and_eq_true, hclock, hbar, fixed_real, hdetails, ok_bind,
      exists_bind_eq_ok_iff]
    exact exists_congr fun text => and_iff_left ⟨_, rfl⟩
  · rw [if_neg hphase, if_neg fun h => hphase h.1]
    simp only [pure_bind, hclock, hbar, fixed_real, hdetails, ok_bind, exists_bind_eq_ok_iff]
    exact exists_congr fun text => and_iff_left ⟨_, rfl⟩

/-- At a finite time, the panel of a run is drawn unless the run goes on and the estimate of the
time that is left is beyond all numbers. -/
theorem draws_runPanel_iff (phase : Phase) {elapsed : Binary64} (he : elapsed.isFinite = true)
    {sample : Option Sample} (hmade : ∀ s ∈ sample, s.IsMade) :
    Draws (runPanel phase (.real elapsed) (sample.map Sample.fields)) ↔
      (phase = .encoding → ∀ s percent, sample = some s → s.progress = .real percent →
        Binary64.lt 0 percent = true → percent.lt 100 = true → Binary64.lt 0 elapsed = true →
        (elapsed * (100 - percent) / percent).isFinite = true) := by
  obtain ⟨percent, hpercent, hshown, hsample, hnone⟩ := exists_percent hmade
  rw [draws_runPanel_iff_remaining phase he hpercent hmade hshown]
  unfold remaining?
  constructor
  · rintro ⟨text, h⟩ hphase s percent' hs hprogress hpos hless hbegun
    obtain rfl := Number.real.inj ((hsample s hs).symm.trans hprogress)
    rw [if_pos ⟨hphase, hpos, hbegun⟩, if_pos hless] at h
    exact exists_remainingText_iff.mp ⟨text, h⟩
  · intro h
    split
    · rename_i hleft
      refine exists_remainingText_iff.mpr ?_
      split
      · rename_i hless
        cases sample with
        | none =>
          have hself := hleft.2.1
          rw [hnone rfl, Binary64.not_lt_self] at hself
          exact absurd hself Bool.false_ne_true
        | some s => exact h hleft.1 s percent rfl (hsample s rfl) hleft.2.1 hless hleft.2.2
      · exact Binary64.isFinite_zero
    · exact ⟨"-", rfl⟩

theorem draws_projectPanel_nothing (path output : Document) :
    Draws (projectPanel path output []) := ⟨_, rfl⟩

/-- The panel of a validated project is drawn exactly if the project has a finite length. -/
theorem draws_projectPanel_iff (path output : Document) (p : Project) (s : Session) :
    Draws (projectPanel path output (sessionInfo p s)) ↔ s.totalDuration.isFinite = true := by
  have hlength : Document.field "length" (sessionInfo p s) = .real s.totalDuration := rfl
  rw [← exists_clockOfValue_iff]
  unfold Draws projectPanel
  dsimp only
  rw [hlength, if_neg (show ¬ (Document.real s.totalDuration).isNull = true from
    Bool.false_ne_true), exists_bind_eq_ok_iff]
  exact exists_congr fun clock => and_iff_left ⟨_, rfl⟩

/-! ## Whole runs -/

/-- The latest sample that the dashboard has at a moment of a run: when the encoder has taken some
steps. -/
def latestSample (s : Session) (m : Machine) (steps : List EncoderStep) (stubborn : Bool) :
    Option Sample :=
  (Supervisor.taken s observers m steps stubborn).observers.received.getLast?

theorem isMade_latestSample (s : Session) (m : Machine) (steps : List EncoderStep)
    (stubborn : Bool) : ∀ sample ∈ latestSample s m steps stubborn, sample.IsMade := by
  intro sample hsample
  obtain ⟨-, -, -, -, hpublished⟩ :=
    Control.start_eq m.token s.totalDuration stubborn (observers.unshown? m)
  have hmade : ∀ sample ∈ (Supervisor.taken s observers m steps stubborn).control.published,
      sample.IsMade := by
    intro sample hmem
    unfold Supervisor.taken at hmem
    rw [Run.published_foldl_step,
      show ((Supervisor.ofSession s).begin observers ((Supervisor.ofSession s).announce m)
        stubborn).control.published = [] from hpublished, List.nil_append] at hmem
    exact Accumulator.isMade_of_mem_samples hmem
  have hserved : Run.Served (fun _ => ⟨false, none⟩) []
      (Supervisor.taken s observers m steps stubborn).control.published
      (Supervisor.taken s observers m steps stubborn) :=
    (Run.served_begin (o := observers) rfl _ _ _).foldl_step steps
  have hmem := List.mem_of_getLast? hsample
  rcases hserved.accepts_or_failsAt with ⟨-, hreceived⟩ | ⟨n, -, hreceived⟩
  · rw [hreceived, List.nil_append] at hmem
    exact hmade sample hmem
  · rw [hreceived, List.nil_append] at hmem
    exact hmade sample (List.mem_of_mem_take hmem)

/-- **Panels.** The panel of a project is drawn until its session is known, and then exactly if no
clip goes on for ever. At any moment of a run and any finite time since its beginning, the panel of
the run is drawn whatever the encoder has written, unless the run goes on and the percentage is so
small that the estimate of the time that is left is beyond all numbers. -/
theorem panels_drawn_iff (path output : Document) (p : Project) (s : Session) (m : Machine)
    (steps : List EncoderStep) (stubborn : Bool) (phase : Phase) {elapsed : Binary64}
    (he : elapsed.isFinite = true) :
    Draws (projectPanel path output []) ∧
    (Draws (projectPanel path output (sessionInfo p s)) ↔
      ∀ c ∈ s.timeline.clips, c.endTime ≠ .infinite false) ∧
    (Draws (runPanel phase (.real elapsed) ((latestSample s m steps stubborn).map Sample.fields)) ↔
      (phase = .encoding → ∀ sample percent, latestSample s m steps stubborn = some sample →
        sample.progress = .real percent → Binary64.lt 0 percent = true →
        percent.lt 100 = true → Binary64.lt 0 elapsed = true →
        (elapsed * (100 - percent) / percent).isFinite = true)) := by
  refine ⟨draws_projectPanel_nothing path output, ?_,
    draws_runPanel_iff phase he (isMade_latestSample s m steps stubborn)⟩
  rw [draws_projectPanel_iff]
  exact Timeline.isFinite_totalDuration_iff s.timeline

/-- An encoder that tells of a time and completes a block. -/
def tellingTime (time : String) : List EncoderStep :=
  [⟨.output, .line ("out_time=" ++ time), 0, false⟩, ⟨.output, .line "progress=continue", 0, false⟩]

/-- The estimate at a time that the latest sample leads to. -/
def estimateAt? (elapsed : Binary64) (sample : Option Sample) : Option Binary64 :=
  match sample with
  | some ⟨_, _, _, .real percent⟩ => some (elapsed * (100 - percent) / percent)
  | _ => none

/-- Ten seconds into a run that is half done, the panels of the project at half the volume are
drawn. -/
theorem panels_drawn_halfDone : Binary64.isFinite 10 = true ∧
    ∃ p s, ProjectJob.IsSessionAt (.int 50) p s ∧
      Draws (projectPanel (.text "/show.yaml") .null (sessionInfo p s)) ∧
      Draws (runPanel .encoding (.real 10)
        ((latestSample s .bare (tellingTime "0.5") false).map Sample.fields)) := by
  have hten : Binary64.isFinite 10 = true := by decide +kernel
  have hok : (ProjectJob.sessionAt? (.int 50)).isOk = true := by decide +kernel
  have hends : (match ProjectJob.sessionAt? (.int 50) with
      | .ok s => s.timeline.clips.all fun c => c.endTime != .infinite false
      | .error _ => false) = true := by decide +kernel
  have hestimate : (match ProjectJob.sessionAt? (.int 50) with
      | .ok s => (estimateAt? 10 (latestSample s .bare (tellingTime "0.5") false)).all (·.isFinite)
      | .error _ => false) = true := by decide +kernel
  obtain ⟨p, s, hsession, hs⟩ := ProjectJob.exists_isSessionAt hok
  rw [hs] at hends hestimate
  obtain ⟨-, hproject, hrun⟩ := panels_drawn_iff (.text "/show.yaml") .null p s .bare
    (tellingTime "0.5") false .encoding hten
  refine ⟨hten, p, s, hsession, hproject.mpr ?_, hrun.mpr ?_⟩
  · intro c hc
    simpa using List.all_eq_true.mp hends c hc
  · rintro - ⟨frame, fps, time, progress⟩ percent hsample hprogress - - -
    dsimp only at hprogress hestimate
    rw [hsample, hprogress] at hestimate
    rw [estimateAt?, Option.all_some] at hestimate
    exact hestimate

/-- A machine with a project file of one clip that never ends. -/
def endlessShow : Machine :=
  let clip := Document.mapping [(.text "source", .text "a.mp3"),
    (.text "duration", .real (.infinite false))]
  let track := Document.mapping [(.text "clips", .sequence [clip])]
  { Machine.bare with
    files := [("/show.yaml", .data (.mapping [(.text "stillcast", .int 1),
      (.text "image", .text "c.png"), (.text "tracks", .sequence [track])]))] }

/-- The project of a machine with its session, if it is read and validated. -/
def validated? (m : Machine) : Except Fault (Project × Session) := do
  let p ← (Project.load (.text "/show.yaml") ⟨.null, false, false, .null, .text "ffmpeg"⟩ m).1
  let s ← (ProjectJob.validate ⟨m, p, .standard⟩).1
  return (p, s)

/-- The project of a machine has been read, and its validation has given the session. -/
def IsValidated (m : Machine) (p : Project) (s : Session) : Prop :=
  ∃ o m' w', Project.load (.text "/show.yaml") o m = (.ok p, m') ∧
    ProjectJob.validate ⟨m, p, .standard⟩ = (.ok s, w')

theorem isValidated_of_eq {m : Machine} {p : Project} {s : Session}
    (h : validated? m = .ok (p, s)) : IsValidated m p s := by
  obtain ⟨p', hload, hrest⟩ := bind_eq_ok_iff.mp h
  obtain ⟨s', hvalidate, hfound⟩ := bind_eq_ok_iff.mp hrest
  obtain ⟨rfl, rfl⟩ := Prod.mk.inj (Except.ok.inj hfound)
  exact ⟨_, _, _, Prod.ext hload rfl, Prod.ext hvalidate rfl⟩

/-- The panel is not drawn, as an infinity has no whole part. -/
def failsOnInfinity : Except Fault Panel → Bool
  | .error .infiniteToWhole => true
  | _ => false

theorem eq_of_failsOnInfinity {r : Except Fault Panel} (h : failsOnInfinity r = true) :
    r = .error .infiniteToWhole := by
  unfold failsOnInfinity at h
  split at h
  · rfl
  · exact absurd h Bool.false_ne_true

/-- A project is accepted whose panel is not drawn, as its clip never ends; and the panel of a run
is not drawn any more, as its encoder has told of a tiny time. -/
theorem panels_fail_endless :
    (∃ p s, IsValidated endlessShow p s ∧
      projectPanel (.text "/show.yaml") .null (sessionInfo p s) = .error .infiniteToWhole) ∧
    runPanel .encoding (.real 10) ((latestSample Supervisor.oneSecond .bare
      (tellingTime "1e-320") false).map Sample.fields) = .error .infiniteToWhole := by
  have hpanel : (match validated? endlessShow with
      | .ok (p, s) => failsOnInfinity (projectPanel (.text "/show.yaml") .null (sessionInfo p s))
      | .error _ => false) = true := by decide +kernel
  have hrun : failsOnInfinity (runPanel .encoding (.real 10) ((latestSample Supervisor.oneSecond
      .bare (tellingTime "1e-320") false).map Sample.fields)) = true := by decide +kernel
  refine ⟨?_, eq_of_failsOnInfinity hrun⟩
  cases hs : validated? endlessShow with
  | error f =>
    rw [hs] at hpanel
    exact absurd hpanel Bool.false_ne_true
  | ok found =>
    rw [hs] at hpanel
    exact ⟨found.1, found.2, isValidated_of_eq hs, eq_of_failsOnInfinity hpanel⟩

end Dashboard

end StillVideo
