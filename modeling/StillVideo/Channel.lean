/-!
A channel that hands the latest value to a slow consumer.

Publishing never waits: a value that has not been taken yet is replaced by the next one. A
dispatcher takes the pending value, hands it to the consumer and waits for the next one. Taking a
value, it notices whether the channel is closed, and ends after the value that it took then. A
consumer that fails ends the dispatcher at once.

Each operation is one step that no other step interrupts, so a run of the channel is a sequence of
operations in any order.
-/

namespace StillVideo

/-- What the dispatcher is doing: nothing, as there is no consumer; waiting; consuming a value,
knowing whether it is the last one; it has ended, or the consumer has failed on a value. -/
inductive Dispatcher (α : Type)
  | absent
  | waiting
  | consuming (value : α) (last : Bool)
  | ended
  | failed (value : α) (reason : String)

/-- A channel: the value to be taken next, whether it is closed, the dispatcher, and the values that
the consumer has finished, in order. -/
structure Channel (α : Type) where
  pending : Option α
  closed : Bool
  dispatcher : Dispatcher α
  finished : List α

namespace Channel

variable {α : Type}

/-- A new channel, with or without a consumer. -/
def start (hasConsumer : Bool) : Channel α :=
  ⟨none, false, if hasConsumer then .waiting else .absent, []⟩

/-- The dispatcher is at work. -/
def isAlive (c : Channel α) : Bool :=
  match c.dispatcher with
  | .waiting | .consuming .. => true
  | .absent | .ended | .failed .. => false

/-- The value that is being consumed. -/
def current (c : Channel α) : Option α :=
  match c.dispatcher with
  | .consuming value _ => some value
  | _ => none

/-- What the consumer failed with. -/
def failure? (c : Channel α) : Option String :=
  match c.dispatcher with
  | .failed _ reason => some reason
  | _ => none

/-- All values that were handed to the consumer, in order. -/
def handed (c : Channel α) : List α :=
  match c.dispatcher with
  | .consuming value _ | .failed value _ => c.finished ++ [value]
  | _ => c.finished

/-- Offers a value; one that is pending is given up. -/
def publish (c : Channel α) (value : α) : Channel α :=
  match c.dispatcher with
  | .absent => c
  | _ => { c with pending := some value }

/-- Announces that nothing more is published. -/
def close (c : Channel α) : Channel α := { c with closed := true }

/-- The waiting dispatcher takes the pending value, or ends if the channel is closed and empty. -/
def take? (c : Channel α) : Option (Channel α) :=
  match c.dispatcher, c.pending with
  | .waiting, some value =>
    some { c with pending := none, dispatcher := .consuming value c.closed }
  | .waiting, none => if c.closed then some { c with dispatcher := .ended } else none
  | _, _ => none

/-- The consumer finishes its value. -/
def finish? (c : Channel α) : Option (Channel α) :=
  match c.dispatcher with
  | .consuming value last =>
    some { c with
      dispatcher := if last then .ended else .waiting
      finished := c.finished ++ [value] }
  | _ => none

/-- The consumer fails on its value. -/
def fail? (c : Channel α) (reason : String) : Option (Channel α) :=
  match c.dispatcher with
  | .consuming value _ => some { c with dispatcher := .failed value reason }
  | _ => none

/-- What is noted down when a consumer fails. -/
def failureNote (reason : String) : String := "progress consumer failed: " ++ reason

/-- The dispatcher takes what it can. -/
def settle (c : Channel α) : Channel α := c.take?.getD c

/-- What can happen to a channel from outside its dispatcher. -/
inductive Action (α : Type)
  | publish (value : α)
  | finish
  | fail (reason : String)
  | close

/-- An action, after which an idle dispatcher takes what it can; an idle consumer neither finishes
nor fails. -/
def act (c : Channel α) : Action α → Channel α
  | .publish value => (c.publish value).settle
  | .finish => (c.finish?.getD c).settle
  | .fail reason => ((c.fail? reason).getD c).settle
  | .close => c.close.settle

end Channel

end StillVideo
