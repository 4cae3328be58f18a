import StillVideo.Proofs.CancelRace
import StillVideo.Proofs.RunLifecycle

/-!
# Scripted runs among all runs

In the run of a script nothing happens while something else is going on: who cancels returns before
the encoder goes on. Such a run is one of the runs of moves, with the same token and the same
encoder at its end (`Supervisor.exists_run_script`), so what holds of those holds of it.
-/

namespace StillVideo

namespace CancelRace

open Moves

variable {ι : Type} [DecidableEq ι] {s s' s'' : CancelRace ι}

/-! ## Several moves -/

/-- Some moves lead from a state to another. -/
def Leads (s s' : CancelRace ι) : Prop := ∃ moves, run? move? s moves = some s'

theorem Leads.refl (s : CancelRace ι) : s.Leads s := ⟨[], rfl⟩

theorem Leads.trans (h : s.Leads s') (h' : s'.Leads s'') : s.Leads s'' := by
  obtain ⟨moves, hrun⟩ := h
  obtain ⟨more, hmore⟩ := h'
  exact ⟨moves ++ more, (run?_append hrun).trans hmore⟩

theorem Leads.of_move (move : Move ι) (h : s.move? move = some s') : s.Leads s' := by
  exact ⟨[move], run?_cons h⟩

/-- Somebody who cancels runs the next action. -/
theorem leads_action {i : ι} {rest : List StopAction} {p : EncoderProcess}
    (hi : s.callers i = .calling .looking (.stopEncoder :: rest)) (hp : s.process = some p) :
    s.Leads ({ s with process := some p.terminate }.withCaller i (.calling .looking rest)) := by
  cases hcode : p.exitCode with
  | none =>
    have hlook : s.move? (.look (.caller i)) = some (s.withCaller i (.calling .sending rest)) := by
      simp [move?, hi, Caller.look?, isRunning, hp, hcode]
    have hsend : (s.withCaller i (.calling .sending rest)).move? (.send (.caller i)) =
        some ({ s with process := some p.terminate }.withCaller i (.calling .looking rest)) := by
      simp [move?, withCaller, Caller.send?, stopEncoder, hp]
    exact (Leads.of_move _ hlook).trans (.of_move _ hsend)
  | some code =>
    have hlook : s.Leads (s.withCaller i (.calling .looking rest)) :=
      .of_move (.look (.caller i)) (by simp [move?, hi, Caller.look?, isRunning, hp, hcode])
    rwa [EncoderProcess.terminate_of_exited (by simp [hcode]), ← hp]

/-- Somebody who cancels runs all actions and returns. -/
theorem leads_actions {i : ι} {rest : List StopAction} {p : EncoderProcess}
    (hi : s.callers i = .calling .looking rest) (hp : s.process = some p) :
    s.Leads ({ s with process := some (rest.foldl (fun p _ => p.terminate) p) }.withCaller i
      .returned) := by
  induction rest generalizing s p with
  | nil =>
    rw [List.foldl_nil, ← hp]
    exact .of_move (.leave i) (by rw [move?, if_pos hi])
  | cons action rest ih =>
    have hlater := ih (p := p.terminate)
      (s := { s with process := some p.terminate }.withCaller i (.calling .looking rest))
      (Function.update_self i _ _) rfl
    simp only [withCaller, Function.update_idem] at hlater
    exact (leads_action hi hp).trans hlater

/-- The run stops the encoder, late or when it reads no more. -/
theorem leads_stop (point : Stop → Phase) {next : Phase} {p : EncoderProcess}
    (hphase : s.phase = point .looking) (hp : s.process = some p)
    (hlook : ∀ b, (point .looking).look? b = some (if b then point .sending else next))
    (hsend : (point .sending).send? = some next) :
    s.Leads { s with process := some p.terminate, phase := next } := by
  cases hcode : p.exitCode with
  | none =>
    have hlooked : s.move? (.look .runner) = some { s with phase := point .sending } := by
      simp [move?, hphase, hlook, isRunning, hp, hcode]
    have hsent : { s with phase := point .sending }.move? (.send .runner) =
        some { s with process := some p.terminate, phase := next } := by
      simp [move?, hsend, stopEncoder, hp]
    exact (Leads.of_move _ hlooked).trans (.of_move _ hsent)
  | some code =>
    have hlooked : s.Leads { s with phase := next } :=
      .of_move (.look .runner) (by simp [move?, hphase, hlook, isRunning, hp, hcode])
    rwa [EncoderProcess.terminate_of_exited (by simp [hcode]), ← hp]

/-! ## Control -/

/-- The run is at a point, nobody is cancelling it right now, and its token and its encoder are
those of a control. -/
structure Mirrors (phase : Phase) (s : CancelRace ι) (c : Control) : Prop where
  phase : s.phase = phase
  token : s.token = c.token
  process : s.process = some c.process
  free : ∀ i, (s.callers i).isFree = true

theorem free_update (hfree : ∀ j, (s.callers j).isFree = true) (i j : ι) :
    (Function.update s.callers i .returned j).isFree = true := by
  by_cases hj : j = i
  · rw [hj, Function.update_self]
    rfl
  · rw [Function.update_of_ne hj]
    exact hfree j

variable {phase : Phase} {c : Control}

theorem Mirrors.cancel (h : Mirrors phase s c) (i : ι) :
    ∃ s', s.Leads s' ∧ Mirrors phase s' c.cancel := by
  have hrequest := Leads.of_move (s := s) (.request i) (by rw [move?, if_pos (h.free i)])
  have hactions := leads_actions (i := i)
    (s := { s with token := s.token.request.1 }.withCaller i (.calling .looking s.token.request.2))
    (Function.update_self i _ _) h.process
  refine ⟨_, hrequest.trans hactions, h.phase, ?_, ?_, fun j => ?_⟩
  · rw [Control.cancel_eq, ← h.token]
    rfl
  · rw [Control.cancel_eq, ← h.token]
    rfl
  · simp only [withCaller, Function.update_idem]
    exact free_update h.free i j

/-- The run registers what stops the encoder, or stops it if that is late. -/
theorem exists_leads_start (hphase : s.phase = .started) {stubborn : Bool}
    (hp : s.process = some (.start stubborn)) (hfree : ∀ i, (s.callers i).isFree = true)
    (total : Binary64) (refused : String → Option HostFault) :
    ∃ s', s.Leads s' ∧ Mirrors .reading s' (.start s.token total stubborn refused) := by
  cases hcancelled : s.token.cancelled with
  | false =>
    refine ⟨{ s with token.callbacks := s.token.callbacks ++ [.stopEncoder], phase := .reading },
      .of_move .register ?_, rfl, ?_, ?_, hfree⟩
    · simp [move?, hphase, CancelToken.register, hcancelled]
    · simp [Control.start, CancelToken.register, hcancelled]
    · simp [Control.start, CancelToken.register, hcancelled, hp]
  | true =>
    have hregister : s.Leads { s with phase := .late .looking } :=
      .of_move .register (by simp [move?, hphase, CancelToken.register, hcancelled])
    have hstop := leads_stop (s := { s with phase := .late .looking }) .late rfl hp
      (fun b => by cases b <;> rfl) rfl
    refine ⟨_, hregister.trans hstop, rfl, ?_, ?_, hfree⟩
    · simp [Control.start, CancelToken.register, hcancelled]
    · simp [Control.start, CancelToken.register, hcancelled]

/-- A run that reads or waits, as its control does. -/
abbrev Follows (s : CancelRace ι) (c : Control) : Prop :=
  Mirrors (if c.reading then .reading else .waiting) s c

/-- Reading ends with a request to the encoder to stop. -/
theorem leads_stopReading (h : s.Follows c) (move : Move ι) {c' : Control}
    (hmove : s.move? move = some { s with phase := .stopping .looking })
    (hreading : c'.reading = false) (htoken : c'.token = c.token)
    (hprocess : c'.process = c.process.terminate) : ∃ s', s.Leads s' ∧ s'.Follows c' := by
  have hstop := leads_stop (s := { s with phase := .stopping .looking }) .stopping rfl h.process
    (fun b => by cases b <;> rfl) rfl
  refine ⟨_, (Leads.of_move _ hmove).trans hstop, ?_, h.token.trans htoken.symm, ?_, h.free⟩
  · rw [hreading]
    rfl
  · rw [hprocess]

omit [DecidableEq ι] in
theorem Mirrors.congr {c' : Control} (h : s.Follows c) (hreading : c'.reading = c.reading)
    (htoken : c'.token = c.token) (hprocess : c'.process = c.process) : s.Follows c' := by
  refine ⟨?_, h.token.trans htoken.symm, h.process.trans (congrArg some hprocess.symm), h.free⟩
  rw [hreading]
  exact h.phase

/-- The error pipe leaves the encoder alone. -/
theorem deliver_errors (c : Control) (d : Delivery) :
    (c.deliver .errors d).1.reading = c.reading ∧ (c.deliver .errors d).1.process = c.process := by
  cases d with
  | failure reason => exact ⟨rfl, rfl⟩
  | line text =>
    show (c.readErrors text).1.reading = _ ∧ (c.readErrors text).1.process = _
    rw [Control.readErrors_eq]
    cases EncoderLine.noted? .errors text with
    | none => exact ⟨rfl, rfl⟩
    | some noted =>
      dsimp only
      cases hr : c.refused noted with
      | none => rw [Control.note_of_shown hr]; exact ⟨rfl, rfl⟩
      | some f => rw [Control.note_of_refused hr]; exact ⟨rfl, rfl⟩

/-- A line of output in time leaves the encoder alone, unless it cannot be shown. -/
theorem readOutput_of_live (hc : c.token.cancelled = false) (line : String) :
    ((c.readOutput line).1.reading = c.reading ∧ (c.readOutput line).1.process = c.process) ∨
      (c.readOutput line).1.reading = false ∧
        (c.readOutput line).1.process = c.process.terminate := by
  rcases Control.readOutput_eq hc line with ⟨key, value, -, -, heq⟩ | ⟨-, heq⟩ <;> rw [heq]
  · unfold Control.feed
    split <;> exact .inl ⟨rfl, rfl⟩
  · cases EncoderLine.noted? .output line with
    | none => exact .inl ⟨rfl, rfl⟩
    | some noted =>
      dsimp only
      cases hr : c.refused noted with
      | none => rw [Control.note_of_shown hr]; exact .inl ⟨rfl, rfl⟩
      | some f => rw [Control.note_of_refused hr]; exact .inr ⟨rfl, rfl⟩

theorem exists_leads_deliver (h : s.Follows c) {pipe : Pipe} (hread : c.isRead pipe = true)
    (d : Delivery) : ∃ s', s.Leads s' ∧ s'.Follows (c.deliver pipe d).1 := by
  have htoken := (c.kept_deliver pipe d).1
  cases pipe with
  | errors =>
    obtain ⟨hsame, hprocess⟩ := deliver_errors c d
    exact ⟨s, .refl s, h.congr hsame htoken hprocess⟩
  | output =>
    have hreading : s.phase = .reading := by
      rw [h.phase, if_pos (show c.reading = true from hread)]
    cases d with
    | failure reason =>
      exact leads_stopReading h .failToRead (by rw [move?, if_pos hreading]) rfl rfl rfl
    | line text =>
      cases hcancelled : c.token.cancelled with
      | true =>
        refine leads_stopReading h .line ?_ ?_ htoken ?_
        · rw [move?, if_pos hreading, h.token, if_pos hcancelled]
        · simp [Control.deliver, Control.readOutput, hcancelled]
        · simp [Control.deliver, Control.readOutput, Control.terminate, hcancelled]
      | false =>
        rcases readOutput_of_live hcancelled text with ⟨hsame, hprocess⟩ | ⟨hstops, hprocess⟩
        · exact ⟨s, .refl s, h.congr hsame htoken hprocess⟩
        · exact leads_stopReading h .failToRead (by rw [move?, if_pos hreading]) hstops htoken
            hprocess

theorem exists_leads_step (h : s.Follows c) (i : ι) (e : EncoderStep) :
    ∃ s', s.Leads s' ∧ s'.Follows (c.step e).1 := by
  unfold Control.step
  split
  · rename_i hread
    have hadvance : ∃ t, s.Leads t ∧ t.Follows (c.advance e) := by
      unfold Control.advance
      split
      · obtain ⟨t, hlead, ht⟩ := h.cancel i
        rw [← c.agree_cancel.reading] at ht
        exact ⟨t, hlead, ht⟩
      · exact ⟨s, .refl s, h⟩
    obtain ⟨t, hlead, ht⟩ := hadvance
    have hread' : (c.advance e).isRead e.pipe = true := by
      cases hpipe : e.pipe <;> rw [hpipe] at hread
      · exact (c.agree_advance e).reading.trans hread
      · rw [Control.isRead, (c.agree_advance e).streamError]
        exact hread
    obtain ⟨s', hmore, hs'⟩ := exists_leads_deliver ht hread' e.delivery
    exact ⟨s', hlead.trans hmore, hs'⟩
  · exact ⟨s, .refl s, h⟩

/-! ## Runs of a script -/

variable {r : Run}

theorem exists_leads_runStep (h : s.Follows r.control) (i : ι) (e : EncoderStep) :
    ∃ s', s.Leads s' ∧ s'.Follows (r.step e).control := by
  obtain ⟨t, hlead, ht⟩ := exists_leads_step h i e
  rcases r.control_step e with hstep | hstep
  · rw [hstep]
    exact ⟨t, hlead, ht⟩
  · obtain ⟨s', hmore, hs'⟩ := ht.cancel i
    rw [← (r.control.step e).1.agree_cancel.reading] at hs'
    rw [hstep]
    exact ⟨s', hlead.trans hmore, hs'⟩

theorem exists_leads_runSteps (h : s.Follows r.control) (i : ι) (steps : List EncoderStep) :
    ∃ s', s.Leads s' ∧ s'.Follows (steps.foldl Run.step r).control := by
  induction steps generalizing s r with
  | nil => exact ⟨s, .refl s, h⟩
  | cons e steps ih =>
    obtain ⟨t, hlead, ht⟩ := exists_leads_runStep h i e
    obtain ⟨s', hmore, hs'⟩ := ih ht
    exact ⟨s', hlead.trans hmore, hs'⟩

/-- The encoder exits as it is told to, or it is killed. -/
theorem leads_wait (h : Mirrors .waiting s c) (code : Int) :
    s.Leads { s with process := some (c.process.wait code), phase := .ended } := by
  have hended : ∀ p, p.exitCode ≠ none →
      { s with process := some p }.Leads { s with process := some p, phase := .ended } := by
    intro p hp
    refine .of_move .wait ?_
    have hexited : { s with process := some p }.isRunning = false := by
      simpa [isRunning, Option.isSome_iff_ne_none] using hp
    rw [move?, if_pos ⟨h.phase, hexited⟩]
  unfold EncoderProcess.wait
  cases hcode : c.process.exitCode with
  | some exit =>
    have hsame : { s with process := some c.process } = s := by rw [← h.process]
    have hwait := hended c.process (by rw [hcode]; exact Option.some_ne_none exit)
    rwa [hsame] at hwait
  | none =>
    dsimp only
    split
    · refine (Leads.of_move (.exit code) ?_).trans (hended _ (Option.some_ne_none code))
      simp [move?, h.process, EncoderProcess.exit?, hcode]
    · rename_i hasked
      refine (Leads.of_move .kill ?_).trans (hended _ (Option.some_ne_none _))
      simp [move?, h.process, EncoderProcess.kill?, hcode, hasked]

theorem exists_leads_finish (h : s.Follows r.control) (i : ι) (code : Int) (cancelAtExit : Bool) :
    ∃ s', s.Leads s' ∧ Mirrors .ended s' (r.finish code cancelAtExit).control := by
  have hend : ∃ t, s.Leads t ∧ Mirrors .waiting t r.control := by
    cases hreading : r.control.reading with
    | false =>
      refine ⟨s, .refl s, ?_, h.token, h.process, h.free⟩
      rw [h.phase, hreading]
      rfl
    | true =>
      have hphase : s.phase = .reading := by rw [h.phase, if_pos hreading]
      have hmove : s.move? .endOfOutput = some { s with phase := .waiting } := by
        rw [move?, if_pos hphase]
      exact ⟨_, .of_move _ hmove, rfl, h.token, h.process, h.free⟩
  obtain ⟨t, hlead, ht⟩ := hend
  have hended : Mirrors .ended
      { t with process := some (r.control.process.wait code), phase := .ended }
      (r.control.wait code) := ⟨rfl, ht.token, rfl, ht.free⟩
  have hwait := hlead.trans (leads_wait ht code)
  unfold Run.finish
  split
  · obtain ⟨s', hmore, hs'⟩ := hended.cancel i
    exact ⟨s', hwait.trans hmore, hs'⟩
  · exact ⟨_, hwait, hended⟩

end CancelRace

namespace Supervisor

open CancelRace Moves

theorem process_conclude (s : Supervisor) (r : Run) :
    (s.conclude r).supervisor.process = some r.control.process := by
  unfold conclude fail
  dsimp only
  split <;> rfl

/-- **Scripted runs are runs of moves.** The run of a script ends with the token and the encoder of
a run of moves that is over and in which nobody is cancelling any more. -/
theorem exists_run_script (session : Session) (o : Observers) {m : Machine} (hm : m.token = .fresh)
    (hbegins : Begins session m) (steps : List EncoderStep) (code : Int)
    (stubborn cancelAtExit : Bool) :
    ∃ moves s, run? move? (CancelRace.start : CancelRace Unit) moves = some s ∧ s.phase = .ended ∧
      (∀ i, (s.callers i).isFree = true) ∧
      s.token = ((taken session o m steps stubborn).finish code cancelAtExit).control.token ∧
      s.process =
        (runScript session o m steps code stubborn cancelAtExit).1.supervisor.process := by
  let s₀ : CancelRace Unit := ⟨m.token, some (.start stubborn), .started, fun _ => .idle⟩
  have hspawned : CancelRace.start.Leads s₀ := by
    refine ⟨[.check, .spawn stubborn], ?_⟩
    simp [s₀, hm, CancelRace.start, run?, move?, CancelToken.fresh]
  obtain ⟨s₁, hstarted, h₁⟩ := exists_leads_start (s := s₀) rfl rfl (fun _ => rfl)
    session.totalDuration (o.unshown? m)
  have hreading := (Control.start_eq m.token session.totalDuration stubborn (o.unshown? m)).1
  have h₁ : s₁.Follows
      ((ofSession session).begin o ((ofSession session).announce m) stubborn).control := by
    refine ⟨?_, h₁.token, h₁.process, h₁.free⟩
    rw [h₁.phase]
    exact (if_pos hreading).symm
  obtain ⟨s₂, htaken, h₂⟩ := exists_leads_runSteps h₁ () steps
  obtain ⟨s₃, hfinished, h₃⟩ := exists_leads_finish h₂ () code cancelAtExit
  obtain ⟨moves, hrun⟩ := ((hspawned.trans hstarted).trans htaken).trans hfinished
  refine ⟨moves, s₃, hrun, h₃.phase, h₃.free, h₃.token, ?_⟩
  rw [runScript_of_begins session o hbegins, process_conclude]
  exact h₃.process

end Supervisor

end StillVideo
