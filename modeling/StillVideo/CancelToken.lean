/-!
Tokens by which a run is cancelled.

A token is cancelled for good. Callbacks that are registered before that are stored, and every
request to cancel runs all of them in the order of registration; one that is registered later is run
at once and not stored. `request` and `register` are the two steps that no other step interrupts;
running the callbacks comes after them.
-/

namespace StillVideo

/-- Whether a run is cancelled, and the callbacks to run when it is. -/
structure CancelToken (κ : Type) where
  cancelled : Bool
  callbacks : List κ

namespace CancelToken

variable {κ : Type}

/-- A token that is not cancelled. -/
def fresh : CancelToken κ := ⟨false, []⟩

/-- Marks the token as cancelled and gives the callbacks to run. -/
def request (t : CancelToken κ) : CancelToken κ × List κ :=
  ({ t with cancelled := true }, t.callbacks)

/-- Stores a callback, or gives it back to be run at once if the token is cancelled already. -/
def register (t : CancelToken κ) (callback : κ) : CancelToken κ × Option κ :=
  if t.cancelled then (t, some callback)
  else ({ t with callbacks := t.callbacks ++ [callback] }, none)

end CancelToken

/-- A callback that leaves its name: it does no more, it fails then, or it registers another one
then. -/
inductive NamedCallback
  | plain (name : String)
  | failing (name : String)
  | registering (name : String) (further : NamedCallback)

namespace NamedCallback

/-- Runs a callback on its token: the token then, the names that are left, and whether it came to a
good end. A further callback that the token gives back runs at once. -/
def run : NamedCallback → CancelToken NamedCallback → CancelToken NamedCallback × List String × Bool
  | plain name, t => (t, [name], true)
  | failing name, t => (t, [name], false)
  | registering name further, t =>
    match t.register further with
    | (t, none) => (t, [name], true)
    | (t, some _) =>
      let (t, names, good) := further.run t
      (t, name :: names, good)

/-- Runs callbacks in order up to the first that fails. -/
def runAll :
    List NamedCallback → CancelToken NamedCallback → CancelToken NamedCallback × List String × Bool
  | [], t => (t, [], true)
  | c :: cs, t =>
    match c.run t with
    | (t, names, false) => (t, names, false)
    | (t, names, true) =>
      let (t, more, good) := runAll cs t
      (t, names ++ more, good)

/-- What can happen to a token. -/
inductive Action
  | register (callback : NamedCallback)
  | cancel

/-- The token after an action, the names left by the callbacks that ran, and whether all of them
came to a good end. -/
def act (t : CancelToken NamedCallback) : Action → CancelToken NamedCallback × List String × Bool
  | .register callback =>
    let (t, due) := t.register callback
    runAll due.toList t
  | .cancel =>
    let (t, due) := t.request
    runAll due t

end NamedCallback

end StillVideo
