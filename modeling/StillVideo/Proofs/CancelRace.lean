import Mathlib.Logic.Function.Basic
import StillVideo.Proofs.Moves
import StillVideo.Proofs.RunSteps

/-!
# Cancelling at any interleaving

A run looks at its token, starts the encoder, registers the action that stops it, and reads, while
anybody may cancel and the encoder may exit. `CancelRace.move?` is one uninterrupted move of one of
them. In `CancelRace.Kept` every point of the run and every point of a call has an assertion about
the token and the encoder; a move leads from the assertion of its point to that of the next and
leaves those of all others true (`CancelRace.Happens.later`). So no call falls through between the
look at the token and the registration, and nobody asks the encoder to stop without a reason
(`CancelRace.run_race`). The runs of a script are such runs (`Supervisor.exists_run_script`).
-/

namespace StillVideo

namespace CancelRace

/-- Where somebody is who stops the encoder: about to look whether it is running or, if it is, about
to ask it to stop. -/
inductive Stop
  | looking | sending
  deriving DecidableEq, Repr

/-- How far a run is. It has no encoder yet, or never gets one; then it has one and registers the
action that stops it, which is late if the token is cancelled already; then it reads, may stop the
encoder itself, and waits for the exit. -/
inductive Phase
  | entered | refused | admitted | notStarted
  | started
  | late (stop : Stop)
  | reading
  | stopping (stop : Stop)
  | waiting | ended
  deriving DecidableEq, Repr

/-- How far somebody is who cancels: with an action at hand or not, and with further ones to run. -/
inductive Caller
  | idle
  | calling (stop : Stop) (rest : List StopAction)
  | returned
  deriving DecidableEq, Repr

/-- Who stops the encoder: the run itself or somebody who cancels. -/
inductive Thread (ι : Type)
  | runner
  | caller (i : ι)

/-- What somebody does without being interrupted. The run looks at the token, starts the encoder or
fails to, registers, reads a line or fails to or comes to the end of the output, and sees the exit;
anybody requests to cancel and returns; whoever is to stop the encoder looks and sends; the encoder
exits, or is killed when it was asked to stop before. -/
inductive Move (ι : Type)
  | check
  | spawn (stubborn : Bool)
  | failToSpawn
  | register
  | line
  | failToRead
  | endOfOutput
  | wait
  | request (i : ι)
  | leave (i : ι)
  | look (thread : Thread ι)
  | send (thread : Thread ι)
  | exit (code : Int)
  | kill

/-- A look at the encoder, which is running or not. -/
def Phase.look? (running : Bool) : Phase → Option Phase
  | .late .looking => some (if running then .late .sending else .reading)
  | .stopping .looking => some (if running then .stopping .sending else .waiting)
  | _ => none

/-- Asking the encoder to stop. -/
def Phase.send? : Phase → Option Phase
  | .late .sending => some .reading
  | .stopping .sending => some .waiting
  | _ => none

/-- The run has got past the registration, or past the point where it would have got to it. -/
def Phase.isPast : Phase → Bool
  | .entered | .admitted | .started | .late _ => false
  | _ => true

/-- A look at the encoder, which is running or not. -/
def Caller.look? (running : Bool) : Caller → Option Caller
  | .calling .looking (.stopEncoder :: rest) =>
    some (.calling (if running then .sending else .looking) rest)
  | _ => none

/-- Asking the encoder to stop. -/
def Caller.send? : Caller → Option Caller
  | .calling .sending rest => some (.calling .looking rest)
  | _ => none

/-- Who is not cancelling right now. -/
def Caller.isFree : Caller → Bool
  | .calling _ _ => false
  | _ => true

end CancelRace

/-- A token, the encoder when there is one, the run, and all who may cancel it. -/
structure CancelRace (ι : Type) where
  token : CancelToken StopAction
  process : Option EncoderProcess
  phase : CancelRace.Phase
  callers : ι → CancelRace.Caller

namespace EncoderProcess

/-- A running encoder exits. -/
def exit? (p : EncoderProcess) (code : Int) : Option EncoderProcess :=
  if p.exitCode = none then some { p with exitCode := some code } else none

/-- A running encoder that was asked to stop is killed. -/
def kill? (p : EncoderProcess) : Option EncoderProcess :=
  if p.exitCode = none ∧ p.terminations ≠ 0 then
    some { p with exitCode := some killedCode, killed := true }
  else none

/-- The encoder has exited, or somebody has asked it to. -/
def ExitedOrAsked (p : EncoderProcess) : Prop := p.exitCode ≠ none ∨ p.terminations ≠ 0

variable {p p' : EncoderProcess}

theorem exitCode_of_exit? {code : Int} (h : p.exit? code = some p') : p'.exitCode ≠ none := by
  simp only [exit?, Option.ite_none_right_eq_some, Option.some.injEq] at h
  obtain ⟨-, rfl⟩ := h
  exact Option.some_ne_none _

theorem exitCode_of_kill? (h : p.kill? = some p') : p'.exitCode ≠ none := by
  simp only [kill?, Option.ite_none_right_eq_some, Option.some.injEq] at h
  obtain ⟨-, rfl⟩ := h
  exact Option.some_ne_none _

theorem exitedOrAsked_terminate (p : EncoderProcess) : p.terminate.ExitedOrAsked := by
  unfold terminate
  split
  · rename_i code hcode
    left
    rw [hcode]
    exact Option.some_ne_none code
  · exact .inr (Nat.succ_ne_zero _)

end EncoderProcess

namespace CancelRace

open Moves

variable {ι : Type} [DecidableEq ι]

/-- A token that nobody has cancelled, and a run that has just been entered. -/
def start : CancelRace ι := ⟨.fresh, none, .entered, fun _ => .idle⟩

/-- There is an encoder, and it has not exited. -/
def isRunning (s : CancelRace ι) : Bool := s.process.any (·.exitCode.isNone)

/-- With another point of a caller. -/
def withCaller (s : CancelRace ι) (i : ι) (c : Caller) : CancelRace ι :=
  { s with callers := Function.update s.callers i c }

/-- The encoder, if there is one, is asked to stop. -/
def stopEncoder (s : CancelRace ι) : CancelRace ι :=
  { s with process := s.process.map (·.terminate) }

/-- A move, if it is possible. -/
def move? (s : CancelRace ι) : Move ι → Option (CancelRace ι)
  | .check =>
    if s.phase = .entered then
      some { s with phase := if s.token.cancelled then .refused else .admitted }
    else none
  | .spawn stubborn =>
    if s.phase = .admitted then
      some { s with process := some (.start stubborn), phase := .started }
    else none
  | .failToSpawn => if s.phase = .admitted then some { s with phase := .notStarted } else none
  | .register =>
    if s.phase = .started then
      match s.token.register .stopEncoder with
      | (token, none) => some { s with token, phase := .reading }
      | (token, some .stopEncoder) => some { s with token, phase := .late .looking }
    else none
  | .line =>
    if s.phase = .reading then
      some { s with phase := if s.token.cancelled then .stopping .looking else .reading }
    else none
  | .failToRead => if s.phase = .reading then some { s with phase := .stopping .looking } else none
  | .endOfOutput => if s.phase = .reading then some { s with phase := .waiting } else none
  | .wait =>
    if s.phase = .waiting ∧ s.isRunning = false then some { s with phase := .ended } else none
  | .request i =>
    if (s.callers i).isFree then
      some ({ s with token := s.token.request.1 }.withCaller i
        (.calling .looking s.token.request.2))
    else none
  | .leave i =>
    if s.callers i = .calling .looking [] then some (s.withCaller i .returned) else none
  | .look .runner => (s.phase.look? s.isRunning).map fun phase => { s with phase }
  | .look (.caller i) => ((s.callers i).look? s.isRunning).map (s.withCaller i)
  | .send .runner => s.phase.send?.map fun phase => { s.stopEncoder with phase }
  | .send (.caller i) => (s.callers i).send?.map (s.stopEncoder.withCaller i)
  | .exit code =>
    (s.process.bind (·.exit? code)).map fun process => { s with process := some process }
  | .kill => (s.process.bind (·.kill?)).map fun process => { s with process := some process }

/-- A thread that stops the encoder does so because the token was cancelled. -/
def IsCallback (s : CancelRace ι) : Thread ι → Prop
  | .runner => ∃ stop, s.phase = .late stop
  | .caller _ => True

/-- A callback of the token has looked when the encoder had exited, or asked it to stop. -/
def Served (moves : List (Move ι)) : Prop :=
  ∃ before after s thread, run? move? start before = some s ∧ s.IsCallback thread ∧
    ((moves = before ++ .look thread :: after ∧ ∃ p, s.process = some p ∧ p.exitCode ≠ none) ∨
      moves = before ++ .send thread :: after)

/-! ## Runs -/

variable {s s' : CancelRace ι} {moves : List (Move ι)} {move : Move ι}

theorem Served.append (h : Served moves) (more : List (Move ι)) : Served (moves ++ more) := by
  obtain ⟨before, after, t, thread, hrun, hcallback, hserved⟩ := h
  refine ⟨before, after ++ more, t, thread, hrun, hcallback, ?_⟩
  rcases hserved with ⟨rfl, hexited⟩ | rfl
  · exact .inl ⟨by simp, hexited⟩
  · exact .inr (by simp)

/-! ## What a move can do -/

/-- All that can happen in a move. -/
inductive Happens (s : CancelRace ι) : Move ι → CancelRace ι → Prop
  | check (turn : s.phase = .entered) :
    Happens s .check { s with phase := if s.token.cancelled then .refused else .admitted }
  | spawn (stubborn : Bool) (turn : s.phase = .admitted) :
    Happens s (.spawn stubborn) { s with process := some (.start stubborn), phase := .started }
  | failToSpawn (turn : s.phase = .admitted) :
    Happens s .failToSpawn { s with phase := .notStarted }
  | register (turn : s.phase = .started) (live : s.token.cancelled = false) :
    Happens s .register { s with
      token.callbacks := s.token.callbacks ++ [.stopEncoder]
      phase := .reading }
  | registerLate (turn : s.phase = .started) (cancelled : s.token.cancelled = true) :
    Happens s .register { s with phase := .late .looking }
  | line (turn : s.phase = .reading) :
    Happens s .line { s with phase := if s.token.cancelled then .stopping .looking else .reading }
  | failToRead (turn : s.phase = .reading) :
    Happens s .failToRead { s with phase := .stopping .looking }
  | endOfOutput (turn : s.phase = .reading) : Happens s .endOfOutput { s with phase := .waiting }
  | wait (turn : s.phase = .waiting) : Happens s .wait { s with phase := .ended }
  | request (i : ι) :
    Happens s (.request i) ({ s with token.cancelled := true }.withCaller i
      (.calling .looking s.token.callbacks))
  | leave (i : ι) (turn : s.callers i = .calling .looking []) :
    Happens s (.leave i) (s.withCaller i .returned)
  | lookLate (turn : s.phase = .late .looking) :
    Happens s (.look .runner) { s with phase := if s.isRunning then .late .sending else .reading }
  | lookStopping (turn : s.phase = .stopping .looking) :
    Happens s (.look .runner) { s with
      phase := if s.isRunning then .stopping .sending else .waiting }
  | lookCaller (i : ι) (rest : List StopAction)
      (turn : s.callers i = .calling .looking (.stopEncoder :: rest)) :
    Happens s (.look (.caller i))
      (s.withCaller i (.calling (if s.isRunning then .sending else .looking) rest))
  | sendLate (turn : s.phase = .late .sending) :
    Happens s (.send .runner) { s.stopEncoder with phase := .reading }
  | sendStopping (turn : s.phase = .stopping .sending) :
    Happens s (.send .runner) { s.stopEncoder with phase := .waiting }
  | sendCaller (i : ι) (rest : List StopAction) (turn : s.callers i = .calling .sending rest) :
    Happens s (.send (.caller i)) (s.stopEncoder.withCaller i (.calling .looking rest))
  | exit (code : Int) (p p' : EncoderProcess) (running : s.process = some p)
      (exited : p'.exitCode ≠ none) :
    Happens s (.exit code) { s with process := some p' }
  | kill (p p' : EncoderProcess) (running : s.process = some p) (exited : p'.exitCode ≠ none) :
    Happens s .kill { s with process := some p' }

theorem happens_of_register (hmove : s.move? .register = some s') : Happens s .register s' := by
  simp only [move?, Option.ite_none_right_eq_some] at hmove
  obtain ⟨hturn, hmove⟩ := hmove
  unfold CancelToken.register at hmove
  cases hcancelled : s.token.cancelled with
  | false =>
    rw [if_neg (by rw [hcancelled]; exact Bool.false_ne_true)] at hmove
    obtain rfl := Option.some.inj hmove
    exact .register hturn hcancelled
  | true =>
    rw [if_pos hcancelled] at hmove
    obtain rfl := Option.some.inj hmove
    exact .registerLate hturn hcancelled

theorem happens_of_look {thread : Thread ι} (hmove : s.move? (.look thread) = some s') :
    Happens s (.look thread) s' := by
  cases thread with
  | runner =>
    obtain ⟨phase, hlook, rfl⟩ := Option.map_eq_some_iff.mp hmove
    unfold Phase.look? at hlook
    split at hlook
    · rename_i hturn
      obtain rfl := Option.some.inj hlook
      exact .lookLate hturn
    · rename_i hturn
      obtain rfl := Option.some.inj hlook
      exact .lookStopping hturn
    · exact absurd hlook.symm (Option.some_ne_none phase)
  | caller i =>
    obtain ⟨c, hlook, rfl⟩ := Option.map_eq_some_iff.mp hmove
    unfold Caller.look? at hlook
    split at hlook
    · rename_i rest hturn
      obtain rfl := Option.some.inj hlook
      exact .lookCaller i rest hturn
    · exact absurd hlook.symm (Option.some_ne_none c)

theorem happens_of_send {thread : Thread ι} (hmove : s.move? (.send thread) = some s') :
    Happens s (.send thread) s' := by
  cases thread with
  | runner =>
    obtain ⟨phase, hsend, rfl⟩ := Option.map_eq_some_iff.mp hmove
    unfold Phase.send? at hsend
    split at hsend
    · rename_i hturn
      obtain rfl := Option.some.inj hsend
      exact .sendLate hturn
    · rename_i hturn
      obtain rfl := Option.some.inj hsend
      exact .sendStopping hturn
    · exact absurd hsend.symm (Option.some_ne_none phase)
  | caller i =>
    obtain ⟨c, hsend, rfl⟩ := Option.map_eq_some_iff.mp hmove
    unfold Caller.send? at hsend
    split at hsend
    · rename_i rest hturn
      obtain rfl := Option.some.inj hsend
      exact .sendCaller i rest hturn
    · exact absurd hsend.symm (Option.some_ne_none c)

theorem happens_of_move (hmove : s.move? move = some s') : Happens s move s' := by
  cases move with
  | check =>
    simp only [move?, Option.ite_none_right_eq_some, Option.some.injEq] at hmove
    obtain ⟨hturn, rfl⟩ := hmove
    exact .check hturn
  | spawn stubborn =>
    simp only [move?, Option.ite_none_right_eq_some, Option.some.injEq] at hmove
    obtain ⟨hturn, rfl⟩ := hmove
    exact .spawn stubborn hturn
  | failToSpawn =>
    simp only [move?, Option.ite_none_right_eq_some, Option.some.injEq] at hmove
    obtain ⟨hturn, rfl⟩ := hmove
    exact .failToSpawn hturn
  | register => exact happens_of_register hmove
  | line =>
    simp only [move?, Option.ite_none_right_eq_some, Option.some.injEq] at hmove
    obtain ⟨hturn, rfl⟩ := hmove
    exact .line hturn
  | failToRead =>
    simp only [move?, Option.ite_none_right_eq_some, Option.some.injEq] at hmove
    obtain ⟨hturn, rfl⟩ := hmove
    exact .failToRead hturn
  | endOfOutput =>
    simp only [move?, Option.ite_none_right_eq_some, Option.some.injEq] at hmove
    obtain ⟨hturn, rfl⟩ := hmove
    exact .endOfOutput hturn
  | wait =>
    simp only [move?, Option.ite_none_right_eq_some, Option.some.injEq] at hmove
    obtain ⟨⟨hturn, -⟩, rfl⟩ := hmove
    exact .wait hturn
  | request i =>
    simp only [move?, Option.ite_none_right_eq_some, Option.some.injEq] at hmove
    obtain ⟨-, rfl⟩ := hmove
    exact .request i
  | leave i =>
    simp only [move?, Option.ite_none_right_eq_some, Option.some.injEq] at hmove
    obtain ⟨hturn, rfl⟩ := hmove
    exact .leave i hturn
  | look thread => exact happens_of_look hmove
  | send thread => exact happens_of_send hmove
  | exit code =>
    obtain ⟨p', hexit, rfl⟩ := Option.map_eq_some_iff.mp hmove
    obtain ⟨p, hp, hexit⟩ := Option.bind_eq_some_iff.mp hexit
    exact .exit code p p' hp (EncoderProcess.exitCode_of_exit? hexit)
  | kill =>
    obtain ⟨p', hkill, rfl⟩ := Option.map_eq_some_iff.mp hmove
    obtain ⟨p, hp, hkill⟩ := Option.bind_eq_some_iff.mp hkill
    exact .kill p p' hp (EncoderProcess.exitCode_of_kill? hkill)

/-! ## Assertions -/

/-- The token has been served, and the encoder has exited or was asked to stop. -/
structure Met (moves : List (Move ι)) (process : Option EncoderProcess) : Prop where
  served : Served moves
  stopped : ∃ p, process = some p ∧ p.ExitedOrAsked

section

variable (moves : List (Move ι)) (token : CancelToken StopAction) (process : Option EncoderProcess)

/-- What holds of the token and the encoder when the run is at a point. -/
def Phase.Holds : Phase → Prop
  | .entered | .refused | .admitted | .notStarted => process = none ∧ token.callbacks = []
  | .started => process ≠ none ∧ token.callbacks = []
  | .late _ => process ≠ none ∧ token.callbacks = [] ∧ token.cancelled = true
  | .reading | .waiting | .ended => process ≠ none ∧ (token.callbacks ≠ [] ∨ Met moves process)
  | .stopping _ => process ≠ none ∧ (token.callbacks ≠ [] ∨ Met moves process) ∧
      (token.cancelled = true ∨ .failToRead ∈ moves)

/-- What holds of the token and the encoder when somebody who cancels is at a point. -/
def Caller.Holds : Caller → Prop
  | .idle => True
  | .calling .looking rest => token.cancelled = true ∧ (rest ≠ [] → process ≠ none) ∧
      (rest = [] → token.callbacks = [] ∨ Met moves process)
  | .calling .sending _ => token.cancelled = true ∧ process ≠ none
  | .returned => token.cancelled = true ∧ (token.callbacks = [] ∨ Met moves process)

end

/-- All assertions hold after a run, and who finds the token cancelled can say who did it. -/
structure Kept (moves : List (Move ι)) (s : CancelRace ι) : Prop where
  ran : run? move? start moves = some s
  requested : s.token.cancelled = true → ∃ i, .request i ∈ moves
  phase : s.phase.Holds moves s.token s.process
  caller : ∀ i, (s.callers i).Holds moves s.token s.process

theorem kept_start : Kept [] (start : CancelRace ι) :=
  ⟨rfl, (nomatch ·), ⟨rfl, rfl⟩, fun _ => trivial⟩

theorem Kept.holds_of_phase (hk : Kept moves s) {p : Phase} (hp : s.phase = p) :
    p.Holds moves s.token s.process := hp ▸ hk.phase

theorem Kept.holds_of_caller (hk : Kept moves s) {i : ι} {c : Caller} (hc : s.callers i = c) :
    c.Holds moves s.token s.process := hc ▸ hk.caller i

theorem Phase.Holds.process_ne_none {p : Phase} (h : p.Holds moves s.token s.process)
    (hstored : s.token.callbacks ≠ []) : s.process ≠ none := by
  cases p
  case entered | refused | admitted | notStarted | started => exact absurd h.2 hstored
  case late => exact absurd h.2.1 hstored
  case reading | stopping | waiting | ended => exact h.1

/-! ## Moves of others -/

/-- What assertions depend on, in a state and a later one. -/
structure Later (moves : List (Move ι)) (s : CancelRace ι) (moves' : List (Move ι))
    (s' : CancelRace ι) : Prop where
  cancelled : s.token.cancelled = true →
    s'.token.cancelled = true ∧ s'.token.callbacks = s.token.callbacks
  process : s.process ≠ none → s'.process ≠ none
  met : Met moves s.process → Met moves' s'.process

/-- A move of anybody makes a state later. -/
theorem Happens.later (hk : Kept moves s) (hh : Happens s move s') :
    Later moves s (moves ++ [move]) s' := by
  have hasked : s.process ≠ none → s.stopEncoder.process ≠ none := by
    intro hp
    obtain ⟨p, hp⟩ := Option.ne_none_iff_exists'.mp hp
    simp [stopEncoder, hp]
  have hmet : Met moves s.process → Met (moves ++ [move]) s.process :=
    fun h => ⟨h.served.append _, h.stopped⟩
  have hmet_asked : Met moves s.process → Met (moves ++ [move]) s.stopEncoder.process := by
    intro h
    obtain ⟨p, hp, -⟩ := h.stopped
    exact ⟨h.served.append _, p.terminate, by simp [stopEncoder, hp], p.exitedOrAsked_terminate⟩
  cases hh with
  | check | failToSpawn | registerLate | line | failToRead | endOfOutput | wait | leave | lookLate |
      lookStopping | lookCaller => exact ⟨fun h => ⟨h, rfl⟩, id, hmet⟩
  | request i => exact ⟨fun _ => ⟨rfl, rfl⟩, id, hmet⟩
  | spawn stubborn turn =>
    -- without an encoder nobody can have served the token yet
    have hnone : s.process = none := (hk.holds_of_phase turn).1
    refine ⟨fun h => ⟨h, rfl⟩, fun h => absurd hnone h, fun h => ?_⟩
    obtain ⟨p, hp, -⟩ := h.stopped
    exact absurd (hnone.symm.trans hp).symm (Option.some_ne_none p)
  -- callbacks are added only while nobody has cancelled
  | register turn live => exact ⟨fun h => absurd h (by simp [live]), id, hmet⟩
  | sendLate | sendStopping | sendCaller => exact ⟨fun h => ⟨h, rfl⟩, hasked, hmet_asked⟩
  | exit code p p' running exited =>
    exact ⟨fun h => ⟨h, rfl⟩, fun _ => Option.some_ne_none p',
      fun h => ⟨h.served.append _, p', rfl, .inl exited⟩⟩
  | kill p p' running exited =>
    exact ⟨fun h => ⟨h, rfl⟩, fun _ => Option.some_ne_none p',
      fun h => ⟨h.served.append _, p', rfl, .inl exited⟩⟩

variable {moves' : List (Move ι)}

/-- Nobody interferes with one who cancels. -/
theorem Caller.Holds.later {c : Caller} (h : c.Holds moves s.token s.process)
    (hl : Later moves s moves' s') : c.Holds moves' s'.token s'.process := by
  cases c with
  | idle => trivial
  | calling stop rest =>
    cases stop with
    | looking =>
      obtain ⟨hcancelled, hcallbacks⟩ := hl.cancelled h.1
      refine ⟨hcancelled, fun hrest => hl.process (h.2.1 hrest), fun hrest => ?_⟩
      rw [hcallbacks]
      exact (h.2.2 hrest).imp_right hl.met
    | sending => exact ⟨(hl.cancelled h.1).1, hl.process h.2⟩
  | returned =>
    obtain ⟨hcancelled, hcallbacks⟩ := hl.cancelled h.1
    refine ⟨hcancelled, ?_⟩
    rw [hcallbacks]
    exact h.2.imp_right hl.met

/-- Who neither registers nor starts an encoder does not interfere with the run. -/
theorem Phase.Holds.later {p : Phase} (h : p.Holds moves s.token s.process)
    (hl : Later moves s moves' s') (hmem : ∀ move ∈ moves, move ∈ moves')
    (hcallbacks : s'.token.callbacks = s.token.callbacks)
    (hnone : s.process = none → s'.process = none) : p.Holds moves' s'.token s'.process := by
  cases p with
  | entered | refused | admitted | notStarted => exact ⟨hnone h.1, hcallbacks.trans h.2⟩
  | started => exact ⟨hl.process h.1, hcallbacks.trans h.2⟩
  | late => exact ⟨hl.process h.1, hcallbacks.trans h.2.1, (hl.cancelled h.2.2).1⟩
  | reading | waiting | ended =>
    refine ⟨hl.process h.1, ?_⟩
    rw [hcallbacks]
    exact h.2.imp_right hl.met
  | stopping =>
    refine ⟨hl.process h.1, ?_, ?_⟩
    · rw [hcallbacks]
      exact h.2.1.imp_right hl.met
    · exact h.2.2.imp (fun h => (hl.cancelled h).1) (hmem _)

/-! ## Steps -/

/-- A callback has looked, and the encoder had exited. -/
theorem met_of_look (thread : Thread ι) (hrun : run? move? start moves = some s)
    (hcallback : s.IsCallback thread) (hprocess : s.process ≠ none)
    (hexited : ¬ s.isRunning = true) : Met (moves ++ [.look thread]) s.process := by
  obtain ⟨p, hp⟩ := Option.ne_none_iff_exists'.mp hprocess
  have hcode : p.exitCode ≠ none := by simpa [isRunning, hp] using hexited
  exact ⟨⟨moves, [], s, thread, hrun, hcallback, .inl ⟨rfl, p, hp, hcode⟩⟩, p, hp, .inl hcode⟩

/-- A callback has asked the encoder to stop. -/
theorem met_of_send (thread : Thread ι) (hrun : run? move? start moves = some s)
    (hcallback : s.IsCallback thread) (hprocess : s.process ≠ none) :
    Met (moves ++ [.send thread]) s.stopEncoder.process := by
  obtain ⟨p, hp⟩ := Option.ne_none_iff_exists'.mp hprocess
  exact ⟨⟨moves, [], s, thread, hrun, hcallback, .inr rfl⟩, p.terminate, by simp [stopEncoder, hp],
    p.exitedOrAsked_terminate⟩

namespace Kept

variable (hk : Kept moves s)
include hk

theorem requested_step (hh : Happens s move s') (hcancelled : s'.token.cancelled = true) :
    ∃ i, .request i ∈ moves ++ [move] := by
  cases hh with
  | request i => exact ⟨i, by simp⟩
  | _ =>
    obtain ⟨i, hi⟩ := hk.requested hcancelled
    exact ⟨i, List.mem_append_left _ hi⟩

/-- The run gets from one point to the next. -/
theorem phase_step (hh : Happens s move s') :
    s'.phase.Holds (moves ++ [move]) s'.token s'.process := by
  have hl := hh.later hk
  have hmem : ∀ m ∈ moves, m ∈ moves ++ [move] := fun m hm => List.mem_append_left _ hm
  cases hh with
  | check turn =>
    have h := hk.holds_of_phase turn
    show Phase.Holds _ _ _ (if _ then _ else _)
    split <;> exact h
  | spawn stubborn turn =>
    have h := hk.holds_of_phase turn
    exact ⟨Option.some_ne_none _, h.2⟩
  | failToSpawn turn => exact hk.holds_of_phase turn
  | register turn live =>
    have h := hk.holds_of_phase turn
    exact ⟨h.1, .inl (List.append_ne_nil_of_right_ne_nil _ (List.cons_ne_nil _ _))⟩
  | registerLate turn cancelled =>
    have h := hk.holds_of_phase turn
    exact ⟨h.1, h.2, cancelled⟩
  | line turn =>
    have h := hk.holds_of_phase turn
    show Phase.Holds _ _ _ (if _ then _ else _)
    split
    · rename_i hcancelled
      exact ⟨h.1, h.2.imp_right hl.met, .inl hcancelled⟩
    · exact ⟨h.1, h.2.imp_right hl.met⟩
  | failToRead turn =>
    have h := hk.holds_of_phase turn
    exact ⟨h.1, h.2.imp_right hl.met, .inr (by simp)⟩
  | endOfOutput turn | wait turn =>
    have h := hk.holds_of_phase turn
    exact ⟨h.1, h.2.imp_right hl.met⟩
  | lookLate turn =>
    have h := hk.holds_of_phase turn
    have hmet := met_of_look .runner hk.ran ⟨_, turn⟩ h.1
    show Phase.Holds _ _ _ (if _ then _ else _)
    split
    · exact h
    · rename_i hexited
      exact ⟨h.1, .inr (hmet hexited)⟩
  | lookStopping turn =>
    have h := hk.holds_of_phase turn
    have hmet := h.2.1.imp_right hl.met
    show Phase.Holds _ _ _ (if _ then _ else _)
    split
    · exact ⟨h.1, hmet, h.2.2.imp_right (hmem _)⟩
    · exact ⟨h.1, hmet⟩
  | sendLate turn =>
    have h := hk.holds_of_phase turn
    exact ⟨hl.process h.1, .inr (met_of_send .runner hk.ran ⟨_, turn⟩ h.1)⟩
  | sendStopping turn =>
    have h := hk.holds_of_phase turn
    exact ⟨hl.process h.1, h.2.1.imp_right hl.met⟩
  | request | leave | lookCaller => exact hk.phase.later hl hmem rfl id
  | sendCaller =>
    refine hk.phase.later hl hmem rfl fun h => ?_
    show s.process.map _ = none
    rw [h]
    rfl
  | exit code p p' running | kill p p' running =>
    refine hk.phase.later hl hmem rfl fun h => ?_
    exact absurd (h.symm.trans running).symm (Option.some_ne_none p)

/-- One of those who cancel gets to the next point, and the others stay where they are. -/
theorem of_withCaller {t : CancelRace ι} {i : ι} {c : Caller}
    (hl : Later moves s moves' (t.withCaller i c)) (hcallers : t.callers = s.callers)
    (hc : c.Holds moves' t.token t.process) (j : ι) :
    ((t.withCaller i c).callers j).Holds moves' t.token t.process := by
  show Caller.Holds _ _ _ (Function.update t.callers i c j)
  by_cases hj : j = i
  · rw [hj, Function.update_self]
    exact hc
  · rw [Function.update_of_ne hj, hcallers]
    have hothers := (hk.caller j).later hl
    exact hothers

theorem caller_step (hh : Happens s move s') (j : ι) :
    (s'.callers j).Holds (moves ++ [move]) s'.token s'.process := by
  have hl := hh.later hk
  cases hh with
  | request i =>
    exact hk.of_withCaller hl rfl ⟨rfl, hk.phase.process_ne_none, .inl⟩ j
  | leave i turn =>
    have h := (hk.holds_of_caller turn).later hl
    exact hk.of_withCaller hl rfl ⟨h.1, h.2.2 rfl⟩ j
  | lookCaller i rest turn =>
    have h := hk.holds_of_caller turn
    have hprocess := h.2.1 (List.cons_ne_nil _ _)
    refine hk.of_withCaller hl rfl ?_ j
    split
    · exact ⟨h.1, hprocess⟩
    · rename_i hexited
      exact ⟨h.1, fun _ => hprocess, fun _ =>
        .inr (met_of_look (.caller i) hk.ran trivial hprocess hexited)⟩
  | sendCaller i rest turn =>
    have h := hk.holds_of_caller turn
    refine hk.of_withCaller hl rfl ⟨h.1, fun _ => hl.process h.2, fun _ => ?_⟩ j
    exact .inr (met_of_send (.caller i) hk.ran trivial h.2)
  | _ => exact (hk.caller j).later hl

theorem step (hmove : s.move? move = some s') : Kept (moves ++ [move]) s' :=
  let hh := happens_of_move hmove
  ⟨run?_concat hk.ran hmove, hk.requested_step hh, hk.phase_step hh, hk.caller_step hh⟩

/-- A run that is ready to stop its encoder has not missed anybody who has returned. -/
theorem met_of_returned {i : ι} (hreturned : s.callers i = .returned)
    (harmed : s.token.callbacks ≠ [] ∨ Met moves s.process) : Met moves s.process := by
  -- nothing was stored when the call was made, or the call has run it
  rcases (hk.holds_of_caller hreturned).2 with hempty | hmet
  · exact harmed.resolve_left (not_not_intro hempty)
  · exact hmet

/-- Who is about to ask the encoder to stop has a reason. -/
theorem reason_of_send {thread : Thread ι} (hmove : s.move? (.send thread) = some s') :
    (∃ i, .request i ∈ moves) ∨ .failToRead ∈ moves := by
  have hcancelled : s.token.cancelled = true → (∃ i, .request i ∈ moves) ∨ .failToRead ∈ moves :=
    fun h => .inl (hk.requested h)
  cases happens_of_move hmove with
  | sendLate turn => exact hcancelled (hk.holds_of_phase turn).2.2
  | sendStopping turn => exact (hk.holds_of_phase turn).2.2.elim hcancelled .inr
  | sendCaller i rest turn => exact hcancelled (hk.holds_of_caller turn).1

end Kept

/-! ## Whole runs -/

/-- What becomes of cancelling in a run. When one who cancels has returned and the run is past the
registration, there is no encoder, or a callback has served the token and the encoder has exited or
was asked to stop. Nobody asks it to stop before somebody has cancelled or the output could not be
read. -/
structure Honours (moves : List (Move ι)) (s : CancelRace ι) : Prop where
  noneLost : ∀ i, s.callers i = .returned → s.phase.isPast = true →
    s.process = none ∨ Met moves s.process
  justified : ∀ before thread after, moves = before ++ .send thread :: after →
    (∃ i, .request i ∈ before) ∨ .failToRead ∈ before

/-- **Cancelling.** Whatever the order is in which the run, those who cancel it and the encoder make
their moves, no cancellation is lost, and the encoder is not asked to stop without a reason. -/
theorem run_race {moves : List (Move ι)} {s : CancelRace ι}
    (hrun : run? move? (start : CancelRace ι) moves = some s) : Honours moves s := by
  have hk : Kept moves s := invariant Kept.step kept_start hrun
  constructor
  case noneLost =>
    intro i hreturned hpast
    cases hp : s.phase <;> have h := hk.holds_of_phase hp <;> rw [hp] at hpast
    case entered | admitted | started | late => exact absurd hpast Bool.false_ne_true
    case refused | notStarted => exact .inl h.1
    case reading | waiting | ended => exact .inr (hk.met_of_returned hreturned h.2)
    case stopping => exact .inr (hk.met_of_returned hreturned h.2.1)
  case justified =>
    rintro before thread after rfl
    obtain ⟨t, u, hbefore, hsend⟩ := exists_run_of_append hrun
    have hk : Kept before t := invariant Kept.step kept_start hbefore
    exact hk.reason_of_send hsend

/-- Somebody cancels between the look at the token and the start of an encoder that does not stop at
once: the registration is late, and the encoder is asked to stop. -/
theorem run_race_inWindow :
    (run? move? (start : CancelRace Unit) [.check, .request (), .spawn true, .leave (), .register,
      .look .runner, .send .runner, .line, .look .runner, .exit 1] = some
        ⟨⟨true, []⟩, some ⟨some 1, true, 1, false⟩, .stopping .sending, fun _ => .returned⟩) ∧
    Honours [.check, .request (), .spawn true, .leave (), .register, .look .runner, .send .runner,
      .line, .look .runner, .exit 1]
      (⟨⟨true, []⟩, some ⟨some 1, true, 1, false⟩, .stopping .sending, fun _ => .returned⟩ :
        CancelRace Unit) :=
  ⟨rfl, run_race rfl⟩

end CancelRace

end StillVideo
