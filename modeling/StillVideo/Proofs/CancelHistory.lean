import Mathlib.Data.List.TakeWhile
import StillVideo.CancelToken

/-!
# What a token has run

A callback only ever runs on a token that is cancelled, so what it registers runs at once and is not
stored: it leaves the names of all callbacks of its chain, and the token as it was
(`run_of_cancelled`). Hence the callbacks that are stored are those from before the first request
(`Follows.act`), and each action does what its history says (`perform_history`).
-/

namespace StillVideo

namespace CancelToken

variable {κ : Type} {t : CancelToken κ}

theorem register_of_cancelled (h : t.cancelled = true) (callback : κ) :
    t.register callback = (t, some callback) := if_pos h

theorem register_of_uncancelled (h : t.cancelled = false) (callback : κ) :
    t.register callback = ({ t with callbacks := t.callbacks ++ [callback] }, none) :=
  if_neg (Bool.eq_false_iff.mp h)

end CancelToken

namespace NamedCallback

/-! ## Callbacks that run -/

/-- The name that a callback leaves. -/
def name : NamedCallback → String
  | plain name => name
  | failing name => name
  | registering name _ => name

/-- A callback with the one that it registers, the one that this one registers, and so on. -/
def chain : NamedCallback → List NamedCallback
  | plain name => [plain name]
  | failing name => [failing name]
  | registering name further => registering name further :: further.chain

/-- A callback fails itself, or one of its chain does. -/
def fails : NamedCallback → Bool
  | plain _ => false
  | failing _ => true
  | registering _ further => further.fails

/-- The names that the callbacks of a chain leave, each once. -/
def leaves (c : NamedCallback) : List String := c.chain.map name

variable {t : CancelToken NamedCallback}

/-- On a cancelled token the whole chain runs, and nothing is stored. -/
theorem run_of_cancelled (h : t.cancelled = true) (c : NamedCallback) :
    c.run t = (t, c.leaves, !c.fails) := by
  induction c with
  | plain name => rfl
  | failing name => rfl
  | registering name further ih =>
    unfold run
    rw [CancelToken.register_of_cancelled h]
    dsimp only
    rw [ih]
    rfl

/-- Which of some callbacks run when they are called in order, and whether all come to a good end:
they run up to and including the first that fails. -/
inductive Runs : List NamedCallback → List NamedCallback → Bool → Prop
  | all {cs : List NamedCallback} (h : ∀ c ∈ cs, c.fails = false) : Runs cs cs true
  | failed {before : List NamedCallback} {c : NamedCallback} (h : ∀ b ∈ before, b.fails = false)
      (hc : c.fails = true) (after : List NamedCallback) :
      Runs (before ++ c :: after) (before ++ [c]) false

theorem Runs.cons {cs ran : List NamedCallback} {good : Bool} (h : Runs cs ran good)
    {c : NamedCallback} (hc : c.fails = false) : Runs (c :: cs) (c :: ran) good := by
  cases h with
  | all h => exact .all (List.forall_mem_cons.mpr ⟨hc, h⟩)
  | failed h hfails after => exact .failed (List.forall_mem_cons.mpr ⟨hc, h⟩) hfails after

theorem Runs.eq_of_calm {cs ran : List NamedCallback} {good : Bool} (h : Runs cs ran good)
    (hcalm : ∀ c ∈ cs, c.fails = false) : ran = cs := by
  cases h with
  | all => rfl
  | @failed before c _ hc after =>
    have hcalm := hcalm c (List.mem_append_right before List.mem_cons_self)
    exact absurd (hc.symm.trans hcalm) Bool.noConfusion

theorem runAll_of_cancelled (h : t.cancelled = true) (cs : List NamedCallback) :
    ∃ ran good, Runs cs ran good ∧ runAll cs t = (t, ran.flatMap leaves, good) := by
  induction cs with
  | nil => exact ⟨[], true, .all (List.forall_mem_nil _), rfl⟩
  | cons c cs ih =>
    unfold runAll
    rw [run_of_cancelled h]
    cases hc : c.fails with
    | true => exact ⟨[c], false, .failed (List.forall_mem_nil _) hc cs, by simp⟩
    | false =>
      obtain ⟨ran, good, hruns, hrun⟩ := ih
      refine ⟨c :: ran, good, hruns.cons hc, ?_⟩
      show ((runAll cs t).1, c.leaves ++ (runAll cs t).2.1, (runAll cs t).2.2) = _
      rw [hrun]
      rfl

/-! ## Single actions -/

/-- A request runs the callbacks that are stored. -/
theorem act_cancel (t : CancelToken NamedCallback) : ∃ ran good, Runs t.callbacks ran good ∧
    act t .cancel = ({ t with cancelled := true }, ran.flatMap leaves, good) :=
  runAll_of_cancelled (t := { t with cancelled := true }) rfl t.callbacks

theorem act_register_of_uncancelled (h : t.cancelled = false) (c : NamedCallback) :
    act t (.register c) = ({ t with callbacks := t.callbacks ++ [c] }, [], true) := by
  unfold act
  dsimp only
  rw [CancelToken.register_of_uncancelled h]
  rfl

theorem act_register_of_cancelled (h : t.cancelled = true) (c : NamedCallback) :
    act t (.register c) = (t, c.leaves, !c.fails) := by
  unfold act
  dsimp only
  rw [CancelToken.register_of_cancelled h]
  show runAll [c] t = _
  unfold runAll
  rw [run_of_cancelled h]
  cases c.fails with
  | true => rfl
  | false => simp [runAll]

/-! ## Histories -/

/-- The action is a request to cancel. -/
def Action.isCancel : Action → Bool
  | .register _ => false
  | .cancel => true

/-- The callback that an action registers. -/
def Action.callback? : Action → Option NamedCallback
  | .register c => some c
  | .cancel => none

/-- The callbacks that actions register, in order. -/
def registered (actions : List Action) : List NamedCallback := actions.filterMap Action.callback?

/-- The callbacks that actions register before the first request to cancel. -/
def early (actions : List Action) : List NamedCallback :=
  registered (actions.takeWhile fun a => !a.isCancel)

/-- The token after some actions, and the names that the callbacks have left that ran. -/
def perform (t : CancelToken NamedCallback) :
    List Action → CancelToken NamedCallback × List String
  | [] => (t, [])
  | a :: rest => ((perform (act t a).1 rest).1, (act t a).2.1 ++ (perform (act t a).1 rest).2)

variable {actions : List Action}

theorem registered_append (before after : List Action) :
    registered (before ++ after) = registered before ++ registered after :=
  List.filterMap_append

theorem early_append (h : actions.any Action.isCancel = false) (more : List Action) :
    early (actions ++ more) = registered actions ++ early more := by
  unfold early
  rw [List.takeWhile_append_of_pos (by simpa using h), registered_append]

theorem early_of_uncancelled (h : actions.any Action.isCancel = false) :
    early actions = registered actions := by
  have hall := early_append h []
  rwa [List.append_nil, show early [] = [] from rfl, List.append_nil] at hall

/-- What comes after the first request does not count as early. -/
theorem early_append_of_cancelled (h : actions.any Action.isCancel = true) (more : List Action) :
    early (actions ++ more) = early actions := by
  refine congrArg registered ?_
  induction actions with
  | nil => exact absurd h Bool.false_ne_true
  | cons a rest ih =>
    rw [List.cons_append, List.takeWhile_cons, List.takeWhile_cons]
    cases ha : a.isCancel with
    | true => rfl
    | false =>
      rw [List.any_cons, ha, Bool.false_or] at h
      rw [Bool.not_false, if_pos rfl, if_pos rfl, ih h]

/-- A token after some actions: it is cancelled if there was a request, and what is stored comes
from before the first. -/
structure Follows (actions : List Action) (t : CancelToken NamedCallback) : Prop where
  cancelled_eq : t.cancelled = actions.any Action.isCancel
  callbacks_eq : t.callbacks = early actions

theorem follows_fresh : Follows [] .fresh := ⟨rfl, rfl⟩

theorem Follows.act (h : Follows actions t) (a : Action) :
    Follows (actions ++ [a]) (act t a).1 := by
  obtain ⟨hcancelled, hcallbacks⟩ := h
  have hany : (actions ++ [a]).any Action.isCancel = (t.cancelled || a.isCancel) := by
    simp [hcancelled]
  cases hc : t.cancelled with
  | true =>
    have hact : (NamedCallback.act t a).1 = t := by
      cases a with
      | register c => rw [act_register_of_cancelled hc]
      | cancel =>
        obtain ⟨ran, good, -, hact⟩ := act_cancel t
        rw [hact, ← hc]
    rw [hact]
    refine ⟨?_, ?_⟩
    · rw [hany, hc, Bool.true_or]
    · rw [early_append_of_cancelled (hcancelled.symm.trans hc), hcallbacks]
  | false =>
    have hnone : actions.any Action.isCancel = false := hcancelled.symm.trans hc
    rw [early_of_uncancelled hnone] at hcallbacks
    cases a with
    | register c =>
      rw [act_register_of_uncancelled hc]
      refine ⟨?_, ?_⟩
      · rw [hany]
        exact (Bool.or_false _).symm
      · rw [early_append hnone, hcallbacks]
        rfl
    | cancel =>
      obtain ⟨ran, good, -, hact⟩ := act_cancel t
      rw [hact]
      refine ⟨?_, ?_⟩
      · rw [hany]
        exact (Bool.or_true _).symm
      · rw [early_append hnone, hcallbacks]
        exact (List.append_nil _).symm

theorem Follows.perform (h : Follows actions t) (more : List Action) :
    Follows (actions ++ more) (perform t more).1 := by
  induction more generalizing actions t with
  | nil => rwa [List.append_nil]
  | cons a more ih =>
    rw [← List.singleton_append, ← List.append_assoc]
    exact ih (h.act a)

theorem perform_append (t : CancelToken NamedCallback) (before after : List Action) :
    perform t (before ++ after) =
      ((perform (perform t before).1 after).1,
        (perform t before).2 ++ (perform (perform t before).1 after).2) := by
  induction before generalizing t with
  | nil => rfl
  | cons a rest ih => simp [perform, ih]

/-- Before a request, callbacks are stored and none runs. -/
theorem perform_of_uncancelled (ht : t.cancelled = false)
    (h : actions.any Action.isCancel = false) :
    perform t actions = ({ t with callbacks := t.callbacks ++ registered actions }, []) := by
  induction actions generalizing t with
  | nil => simp [perform, registered]
  | cons a rest ih =>
    cases a with
    | cancel => exact absurd h Bool.noConfusion
    | register c =>
      unfold perform
      rw [act_register_of_uncancelled ht]
      dsimp only
      rw [ih (t := { t with callbacks := t.callbacks ++ [c] }) ht h]
      simp [registered, Action.callback?]

/-- After a request, callbacks run and none is stored. -/
theorem perform_of_cancelled (ht : t.cancelled = true)
    (h : actions.any Action.isCancel = false) :
    perform t actions = (t, (registered actions).flatMap leaves) := by
  induction actions with
  | nil => rfl
  | cons a rest ih =>
    cases a with
    | cancel => exact absurd h Bool.noConfusion
    | register c =>
      unfold perform
      rw [act_register_of_cancelled ht, ih h]
      rfl

/-- If there is one request and no callback fails, then each that is registered runs once, and so
does each that is registered by one that runs. -/
theorem perform_once {before after : List Action}
    (hone : (before ++ after).any Action.isCancel = false)
    (hcalm : ∀ c ∈ registered (before ++ after), c.fails = false) :
    (perform .fresh (before ++ .cancel :: after)).2 =
      (registered (before ++ after)).flatMap leaves := by
  obtain ⟨hbefore, hafter⟩ := Bool.or_eq_false_iff.mp (List.any_append.symm.trans hone)
  rw [registered_append] at hcalm ⊢
  obtain ⟨ran, good, hruns, hact⟩ := act_cancel ⟨false, registered before⟩
  obtain rfl := hruns.eq_of_calm fun c hc => hcalm c (List.mem_append_left _ hc)
  rw [perform_append, perform_of_uncancelled rfl hbefore, perform]
  dsimp only [CancelToken.fresh, List.nil_append]
  rw [hact, perform_of_cancelled rfl hafter, List.flatMap_append]

/-- What the history of a token says of it and of the next action. -/
structure History (actions : List Action) (t : CancelToken NamedCallback) (names : List String) :
    Prop where
  cancelled_eq : t.cancelled = actions.any Action.isCancel
  callbacks_eq : t.callbacks = early actions
  cancel : ∃ ran good, Runs (early actions) ran good ∧
    act t .cancel = ({ t with cancelled := true }, ran.flatMap leaves, good)
  stored : actions.any Action.isCancel = false → ∀ c,
    act t (.register c) = ({ t with callbacks := t.callbacks ++ [c] }, [], true)
  at_once : actions.any Action.isCancel = true → ∀ c,
    act t (.register c) = (t, c.leaves, !c.fails)
  once : ∀ before after, actions = before ++ .cancel :: after →
    (before ++ after).any Action.isCancel = false →
    (∀ c ∈ registered actions, c.fails = false) → names = (registered actions).flatMap leaves

/-- **Cancelling.** After any actions a token is cancelled if there was a request, and it stores
what was registered before the first. A request runs just these callbacks, up to the first that
fails; a callback that comes later runs at once and is not stored. With one request and no failure,
all callbacks run once. -/
theorem perform_history (actions : List Action) :
    History actions (perform .fresh actions).1 (perform .fresh actions).2 := by
  obtain ⟨hcancelled, hcallbacks⟩ := follows_fresh.perform actions
  rw [List.nil_append] at hcancelled hcallbacks
  refine ⟨hcancelled, hcallbacks, ?_, ?_, ?_, ?_⟩
  · rw [← hcallbacks]
    exact act_cancel _
  · exact fun h c => act_register_of_uncancelled (hcancelled.trans h) c
  · exact fun h c => act_register_of_cancelled (hcancelled.trans h) c
  · rintro before after rfl hone hcalm
    have hall : registered (before ++ .cancel :: after) = registered (before ++ after) := by
      rw [registered_append, registered_append]
      rfl
    rw [hall] at hcalm ⊢
    exact perform_once hone hcalm

example : (perform .fresh
    [.register (.registering "a" (.plain "b")), .cancel, .register (.plain "c")]).2 =
      ["a", "b", "c"] := by decide

end NamedCallback

end StillVideo
