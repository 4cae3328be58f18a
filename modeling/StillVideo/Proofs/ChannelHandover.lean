import StillVideo.Channel
import StillVideo.Diagnostics
import StillVideo.EncoderLine
import StillVideo.Proofs.Moves

/-!
# Handing over at any interleaving

A thread publishes values and closes the channel at the end, the dispatcher takes them, and the
consumer finishes with each or fails on it. `Handover.move?` is one uninterrupted move of one of
them, and a run is any sequence of moves that are possible one after the other. Whatever their order
is, the values handed over are published ones at increasing positions, a value is passed over only
if the next one replaced it while it was pending, the last value is handed over if the dispatcher
comes to a good end, and a failure ends the dispatcher and is noted once (`Handover.run_delivers`).
The actions of a channel in the run of a script are such runs (`Handover.exists_run_act`).
-/

namespace StillVideo

/-- How far the publishing thread is: it may publish, it has closed the channel and waits for the
dispatcher, or it is done. -/
inductive Publisher
  | publishing | joining | done
  deriving DecidableEq, Repr

/-- A channel and those who work on it: the publishing thread, the dispatcher with a failure that it
has not noted down yet, and the lines that it notes failures in, if there are any. -/
structure Handover (α : Type) where
  channel : Channel α
  publisher : Publisher
  unnoted : Option String
  sink : Option Diagnostics

namespace Handover

open Moves

variable {α : Type}

/-- What somebody does without being interrupted. The publishing thread publishes, closes, and then
waits for the end of the dispatcher or not any longer; the dispatcher takes a value or ends, and
notes a failure down; the consumer finishes with a value or fails on it. -/
inductive Move (α : Type)
  | publish (value : α)
  | close
  | join
  | giveUp
  | take
  | finish
  | fail (reason : String)
  | note

/-- Nothing published, nothing taken. -/
def start (sink : Option Diagnostics) : Handover α := ⟨.start true, .publishing, none, sink⟩

/-- The dispatcher has nothing left to do. -/
def hasEnded (h : Handover α) : Bool := !h.channel.isAlive && h.unnoted.isNone

/-- The lines with the note of a failure. -/
def noted (sink : Option Diagnostics) (reason : String) : Option Diagnostics :=
  sink.map (·.record (.text Pipe.errors.name) (.text (Channel.failureNote reason)))

/-- A move, if it is possible. -/
def move? (h : Handover α) : Move α → Option (Handover α)
  | .publish value =>
    if h.publisher = .publishing then some { h with channel := h.channel.publish value } else none
  | .close =>
    if h.publisher = .publishing then
      some { h with channel := h.channel.close, publisher := .joining }
    else none
  | .join =>
    if h.publisher = .joining ∧ h.hasEnded = true then some { h with publisher := .done } else none
  | .giveUp => if h.publisher = .joining then some { h with publisher := .done } else none
  | .take => h.channel.take?.map fun channel => { h with channel }
  | .finish => h.channel.finish?.map fun channel => { h with channel }
  | .fail reason =>
    (h.channel.fail? reason).map fun channel => { h with channel, unnoted := some reason }
  | .note => h.unnoted.map fun reason => { h with unnoted := none, sink := noted h.sink reason }

/-- The values that moves publish, in order. -/
def published : List (Move α) → List α
  | [] => []
  | .publish value :: moves => value :: published moves
  | _ :: moves => published moves

/-- A later value was published while the value at a position was still pending. -/
def Replaced (sink : Option Diagnostics) (moves : List (Move α)) (i : Nat) : Prop :=
  ∃ before value after h, moves = before ++ .publish value :: after ∧
    run? move? (start sink) before = some h ∧ (published before).length = i + 1 ∧
    h.channel.pending = (published before)[i]?

/-! ## Runs -/

variable {sink : Option Diagnostics} {h h' : Handover α} {moves : List (Move α)}

theorem published_append (moves more : List (Move α)) :
    published (moves ++ more) = published moves ++ published more := by
  induction moves with
  | nil => rfl
  | cons move moves ih => cases move <;> simp [published, ih]

theorem Replaced.append {i : Nat} (hr : Replaced sink moves i)
    (more : List (Move α)) : Replaced sink (moves ++ more) i := by
  obtain ⟨before, value, after, g, rfl, hrun, hlen, hpending⟩ := hr
  exact ⟨before, value, after ++ more, g, by simp, hrun, hlen, hpending⟩

/-- A value that was replaced is not the last one. -/
theorem Replaced.lt {i : Nat} (hr : Replaced sink moves i) :
    i + 1 < (published moves).length := by
  obtain ⟨before, value, after, g, rfl, -, hlen, -⟩ := hr
  rw [published_append, List.length_append, hlen, published, List.length_cons]
  omega

/-! ## What a move can do -/

/-- All that can happen in a move when there is a dispatcher: a take hands the pending value over or
is the end of the dispatcher, which notices whether the channel is closed. -/
inductive Happens (h : Handover α) : Move α → Handover α → Prop
  | publish (value : α) (turn : h.publisher = .publishing) :
    Happens h (.publish value) { h with channel.pending := some value }
  | close (turn : h.publisher = .publishing) :
    Happens h .close { h with channel.closed := true, publisher := .joining }
  | join (turn : h.publisher = .joining) (ended : h.hasEnded = true) :
    Happens h .join { h with publisher := .done }
  | giveUp (turn : h.publisher = .joining) : Happens h .giveUp { h with publisher := .done }
  | take (value : α) (turn : h.channel.dispatcher = .waiting)
      (pending : h.channel.pending = some value) :
    Happens h .take { h with
      channel.pending := none
      channel.dispatcher := .consuming value h.channel.closed }
  | leave (turn : h.channel.dispatcher = .waiting) (pending : h.channel.pending = none)
      (closed : h.channel.closed = true) :
    Happens h .take { h with channel.dispatcher := .ended }
  | finish (value : α) (last : Bool) (turn : h.channel.dispatcher = .consuming value last) :
    Happens h .finish { h with
      channel.dispatcher := if last then .ended else .waiting
      channel.finished := h.channel.finished ++ [value] }
  | fail (value : α) (last : Bool) (reason : String)
      (turn : h.channel.dispatcher = .consuming value last) :
    Happens h (.fail reason) { h with
      channel.dispatcher := .failed value reason
      unnoted := some reason }
  | note (reason : String) (due : h.unnoted = some reason) :
    Happens h .note { h with unnoted := none, sink := noted h.sink reason }

theorem happens_of_move {move : Move α} (hpresent : h.channel.dispatcher ≠ .absent)
    (hmove : h.move? move = some h') : Happens h move h' := by
  cases move with
  | publish value =>
    simp only [move?, Option.ite_none_right_eq_some, Option.some.injEq] at hmove
    obtain ⟨hturn, rfl⟩ := hmove
    have hpublish : h.channel.publish value = { h.channel with pending := some value } := by
      unfold Channel.publish
      split
      · rename_i habsent
        exact absurd habsent hpresent
      · rfl
    rw [hpublish]
    exact .publish value hturn
  | close =>
    simp only [move?, Option.ite_none_right_eq_some, Option.some.injEq] at hmove
    obtain ⟨hturn, rfl⟩ := hmove
    exact .close hturn
  | join =>
    simp only [move?, Option.ite_none_right_eq_some, Option.some.injEq] at hmove
    obtain ⟨⟨hturn, hended⟩, rfl⟩ := hmove
    exact .join hturn hended
  | giveUp =>
    simp only [move?, Option.ite_none_right_eq_some, Option.some.injEq] at hmove
    obtain ⟨hturn, rfl⟩ := hmove
    exact .giveUp hturn
  | take =>
    obtain ⟨c, htake, rfl⟩ := Option.map_eq_some_iff.mp hmove
    unfold Channel.take? at htake
    split at htake
    · rename_i value hturn hpending
      obtain rfl := Option.some.inj htake
      exact .take value hturn hpending
    · rename_i hturn hpending
      simp only [Option.ite_none_right_eq_some, Option.some.injEq] at htake
      obtain ⟨hclosed, rfl⟩ := htake
      exact .leave hturn hpending hclosed
    · exact absurd htake.symm (Option.some_ne_none c)
  | finish =>
    obtain ⟨c, hfinish, rfl⟩ := Option.map_eq_some_iff.mp hmove
    unfold Channel.finish? at hfinish
    split at hfinish
    · rename_i value last hturn
      obtain rfl := Option.some.inj hfinish
      exact .finish value last hturn
    · exact absurd hfinish.symm (Option.some_ne_none c)
  | fail reason =>
    obtain ⟨c, hfail, rfl⟩ := Option.map_eq_some_iff.mp hmove
    unfold Channel.fail? at hfail
    split at hfail
    · rename_i value last hturn
      obtain rfl := Option.some.inj hfail
      exact .fail value last reason hturn
    · exact absurd hfail.symm (Option.some_ne_none c)
  | note =>
    obtain ⟨reason, hdue, rfl⟩ := Option.map_eq_some_iff.mp hmove
    exact .note reason hdue

/-! ## What is taken -/

/-- The positions of the published values that the dispatcher has taken, in a run. -/
structure Taken (sink : Option Diagnostics) (moves : List (Move α)) (h : Handover α)
    (taken : List Nat) : Prop where
  ran : run? move? (start sink) moves = some h
  present : h.channel.dispatcher ≠ .absent
  increasing : taken.Pairwise (· < ·)
  lt : ∀ i ∈ taken, i < (published moves).length
  handed : h.channel.handed.map some = taken.map ((published moves)[·]?)
  pending : ∀ value, h.channel.pending = some value → ∃ n, (published moves).length = n + 1 ∧
    (published moves)[n]? = some value ∧ ∀ i ∈ taken, i < n
  passed : ∀ i < (published moves).length, i ∈ taken ∨
    (i + 1 = (published moves).length ∧ h.channel.pending = (published moves)[i]?) ∨
    Replaced sink moves i

theorem taken_start (sink : Option Diagnostics) : Taken (α := α) sink [] (start sink) [] where
  ran := rfl
  present := fun h => nomatch h
  increasing := .nil
  lt := fun _ h => nomatch h
  handed := rfl
  pending := fun _ h => nomatch h
  passed := fun _ h => absurd h (Nat.not_lt_zero _)

namespace Taken

variable {taken : List Nat} (ht : Taken sink moves h taken)
include ht

/-- A move that publishes nothing and hands nothing over. -/
theorem of_quiet {move : Move α} (hmove : h.move? move = some h')
    (hpublished : published [move] = []) (hpresent : h'.channel.dispatcher ≠ .absent)
    (hhanded : h'.channel.handed = h.channel.handed)
    (hpending : h'.channel.pending = h.channel.pending) :
    Taken sink (moves ++ [move]) h' taken := by
  have hsame : published (moves ++ [move]) = published moves := by
    rw [published_append, hpublished, List.append_nil]
  refine ⟨run?_concat ht.ran hmove, hpresent, ht.increasing, ?_, ?_, ?_, ?_⟩
  · rw [hsame]
    exact ht.lt
  · rw [hsame, hhanded]
    exact ht.handed
  · rw [hsame, hpending]
    exact ht.pending
  · intro i hi
    rw [hsame] at hi ⊢
    rw [hpending]
    exact (ht.passed i hi).imp_right (·.imp_right (·.append [move]))

/-- A value is published: one that is still pending is replaced. -/
theorem publish {value : α} (hmove : h.move? (.publish value) = some h')
    (hpresent : h'.channel.dispatcher ≠ .absent)
    (hhanded : h'.channel.handed = h.channel.handed)
    (hpending : h'.channel.pending = some value) :
    Taken sink (moves ++ [.publish value]) h' taken := by
  have hmore : published (moves ++ [.publish value]) = published moves ++ [value] := by
    rw [published_append]
    rfl
  have hfront : ∀ i < (published moves).length,
      (published moves ++ [value])[i]? = (published moves)[i]? :=
    fun i hi => List.getElem?_append_left hi
  refine ⟨run?_concat ht.ran hmove, hpresent, ht.increasing, ?_, ?_, ?_, ?_⟩
  · intro i hi
    rw [hmore, List.length_append]
    exact Nat.lt_add_right _ (ht.lt i hi)
  · rw [hmore, hhanded, ht.handed]
    exact List.map_congr_left fun i hi => (hfront i (ht.lt i hi)).symm
  · intro other hother
    rw [hpending] at hother
    obtain rfl := Option.some.inj hother
    refine ⟨(published moves).length, by rw [hmore, List.length_append]; rfl, ?_, ht.lt⟩
    rw [hmore, List.getElem?_concat_length]
  · intro i hi
    rw [hmore, List.length_append, List.length_singleton] at hi
    rw [hmore, List.length_append, List.length_singleton, hpending]
    by_cases hlast : i = (published moves).length
    · refine .inr (.inl ⟨by omega, ?_⟩)
      rw [hlast, List.getElem?_concat_length]
    · rcases ht.passed i (by omega) with htaken | ⟨hlen, hold⟩ | hreplaced
      · exact .inl htaken
      · exact .inr (.inr ⟨moves, value, [], h, rfl, ht.ran, hlen.symm, hold⟩)
      · exact .inr (.inr (hreplaced.append _))

/-- The pending value is taken. -/
theorem take {value : α} (hmove : h.move? .take = some h')
    (hpresent : h'.channel.dispatcher ≠ .absent) (hold : h.channel.pending = some value)
    (hhanded : h'.channel.handed = h.channel.handed ++ [value])
    (hpending : h'.channel.pending = none) :
    ∃ n, Taken sink (moves ++ [.take]) h' (taken ++ [n]) := by
  have hsame : published (moves ++ [.take]) = published moves := by
    rw [published_append]
    exact List.append_nil _
  obtain ⟨n, hlen, hvalue, hlt⟩ := ht.pending value hold
  refine ⟨n, run?_concat ht.ran hmove, hpresent, ?_, ?_, ?_, ?_, ?_⟩
  · rw [List.pairwise_append]
    refine ⟨ht.increasing, List.pairwise_singleton _ _, ?_⟩
    intro i hi j hj
    rw [List.mem_singleton.mp hj]
    exact hlt i hi
  · intro i hi
    rw [hsame]
    rcases List.mem_append.mp hi with hi | hi
    · exact ht.lt i hi
    · rw [List.mem_singleton.mp hi]
      omega
  · rw [hsame, hhanded, List.map_append, List.map_append, ht.handed]
    simp [hvalue]
  · intro other hother
    rw [hpending] at hother
    exact absurd hother.symm (Option.some_ne_none other)
  · intro i hi
    rw [hsame] at hi
    rcases ht.passed i hi with htaken | ⟨hlast, -⟩ | hreplaced
    · exact .inl (List.mem_append_left _ htaken)
    · refine .inl (List.mem_append_right _ (List.mem_singleton.mpr ?_))
      omega
    · exact .inr (.inr (hreplaced.append _))

theorem step {move : Move α} (hmove : h.move? move = some h') :
    ∃ taken', Taken sink (moves ++ [move]) h' taken' := by
  have hpresent := ht.present
  cases happens_of_move hpresent hmove with
  | publish value turn => exact ⟨_, ht.publish hmove hpresent rfl rfl⟩
  | close turn => exact ⟨_, ht.of_quiet hmove rfl hpresent rfl rfl⟩
  | join turn ended => exact ⟨_, ht.of_quiet hmove rfl hpresent rfl rfl⟩
  | giveUp turn => exact ⟨_, ht.of_quiet hmove rfl hpresent rfl rfl⟩
  | take value turn pending =>
    obtain ⟨n, hn⟩ := ht.take hmove (by simp) pending
      (by simp [Channel.handed, turn]) rfl
    exact ⟨_, hn⟩
  | leave turn pending closed =>
    exact ⟨_, ht.of_quiet hmove rfl (by simp) (by simp [Channel.handed, turn]) rfl⟩
  | finish value last turn =>
    refine ⟨_, ht.of_quiet hmove rfl ?_ ?_ rfl⟩
    · cases last <;> simp
    · cases last <;> simp [Channel.handed, turn]
  | fail value last reason turn =>
    exact ⟨_, ht.of_quiet hmove rfl (by simp) (by simp [Channel.handed, turn]) rfl⟩
  | note reason due => exact ⟨_, ht.of_quiet hmove rfl hpresent rfl rfl⟩

end Taken

/-! ## The end of the dispatcher -/

/-- The channel is closed when the publishing thread has closed it, and nothing is pending any more
when the dispatcher has noticed that. -/
structure Closing (h : Handover α) : Prop where
  closed_iff : h.channel.closed = true ↔ h.publisher ≠ .publishing
  last : ∀ value, h.channel.dispatcher = .consuming value true →
    h.channel.closed = true ∧ h.channel.pending = none
  ended : h.channel.dispatcher = .ended → h.channel.closed = true ∧ h.channel.pending = none

theorem closing_start (sink : Option Diagnostics) : (start sink : Handover α).Closing where
  closed_iff := ⟨fun h => (nomatch h), fun h => absurd rfl h⟩
  last := fun _ h => nomatch h
  ended := fun h => nomatch h

theorem Closing.step {move : Move α} (hc : h.Closing) (hmove : Happens h move h') :
    h'.Closing := by
  cases hmove with
  | publish value turn =>
    have hopen : h.channel.closed ≠ true := fun hclosed => hc.closed_iff.mp hclosed turn
    exact ⟨hc.closed_iff, fun v hv => absurd (hc.last v hv).1 hopen,
      fun hd => absurd (hc.ended hd).1 hopen⟩
  | close turn =>
    exact ⟨by simp, fun v hv => ⟨rfl, (hc.last v hv).2⟩, fun hd => ⟨rfl, (hc.ended hd).2⟩⟩
  | join turn ended =>
    have hclosed : h.channel.closed = true := hc.closed_iff.mpr (by simp [turn])
    exact ⟨by simp [hclosed], hc.last, hc.ended⟩
  | giveUp turn =>
    have hclosed : h.channel.closed = true := hc.closed_iff.mpr (by simp [turn])
    exact ⟨by simp [hclosed], hc.last, hc.ended⟩
  | take value turn pending =>
    refine ⟨hc.closed_iff, fun v hv => ⟨?_, rfl⟩, fun hd => (nomatch hd)⟩
    exact (Dispatcher.consuming.inj hv).2
  | leave turn pending closed =>
    exact ⟨hc.closed_iff, fun v hv => (nomatch hv), fun _ => ⟨closed, pending⟩⟩
  | finish value last turn =>
    refine ⟨hc.closed_iff, fun v hv => ?_, fun hd => ?_⟩
    · cases last <;> exact nomatch hv
    · cases last with
      | false => exact nomatch hd
      | true => exact hc.last value turn
  | fail value last reason turn =>
    exact ⟨hc.closed_iff, fun v hv => (nomatch hv), fun hd => (nomatch hd)⟩
  | note reason due => exact ⟨hc.closed_iff, hc.last, hc.ended⟩

/-- A list of increasing numbers up to one that it contains. -/
theorem getLast?_of_increasing {taken : List Nat} {n : Nat} (hincreasing : taken.Pairwise (· < ·))
    (hmem : n ∈ taken) (hle : ∀ i ∈ taken, i ≤ n) : taken.getLast? = some n := by
  have hne : taken ≠ [] := List.ne_nil_of_mem hmem
  rw [List.getLast?_eq_some_getLast hne]
  rw [← List.dropLast_concat_getLast hne, List.pairwise_append] at hincreasing
  rw [← List.dropLast_concat_getLast hne, List.mem_append, List.mem_singleton] at hmem
  rcases hmem with hfront | hlast
  · have hlt := hincreasing.2.2 n hfront _ (List.mem_singleton_self _)
    have := hle _ (List.getLast_mem hne)
    omega
  · rw [← hlast]

/-- A dispatcher that comes to a good end has handed the last value over. -/
theorem Taken.last {taken : List Nat} (ht : Taken sink moves h taken) (hc : h.Closing)
    (hended : h.channel.dispatcher = .ended) :
    h.channel.handed.getLast? = (published moves).getLast? := by
  have hnone : h.channel.pending = none := (hc.ended hended).2
  have hhanded : (h.channel.handed.map some).getLast? = _ := congrArg List.getLast? ht.handed
  rw [List.getLast?_map, List.getLast?_map] at hhanded
  cases hlen : (published moves).length with
  | zero =>
    have htaken : taken = [] := by
      refine List.eq_nil_iff_forall_not_mem.mpr fun i hi => ?_
      have := ht.lt i hi
      omega
    rw [htaken] at hhanded
    rw [List.length_eq_zero_iff.mp hlen]
    simpa using hhanded
  | succ n =>
    have hmem : n ∈ taken := by
      rcases ht.passed n (by omega) with htaken | ⟨-, hpending⟩ | hreplaced
      · exact htaken
      · have hsome := List.getElem?_eq_getElem (l := published moves) (i := n) (by omega)
        rw [hnone, hsome] at hpending
        exact absurd hpending.symm (Option.some_ne_none _)
      · have := hreplaced.lt
        omega
    rw [getLast?_of_increasing ht.increasing hmem fun i hi => by
      have := ht.lt i hi
      omega] at hhanded
    rw [List.getLast?_eq_getElem? (l := published moves), hlen, Nat.add_sub_cancel]
    cases hlast : h.channel.handed.getLast? with
    | none => simp [hlast] at hhanded
    | some value => simpa [hlast] using hhanded

/-- A dispatcher that waits at a closed channel hands over what is pending and ends. -/
theorem exists_end_of_waiting (hclosed : h.channel.closed = true)
    (hd : h.channel.dispatcher = .waiting) :
    ∃ more h', (∀ move ∈ more, move = .take ∨ move = .finish) ∧ run? move? h more = some h' ∧
      h'.channel.dispatcher = .ended := by
  cases hp : h.channel.pending with
  | none =>
    exact ⟨[.take], _, by simp, by simp [run?, move?, Channel.take?, hd, hp, hclosed]; rfl, rfl⟩
  | some value =>
    exact ⟨[.take, .finish], _, by simp,
      by simp [run?, move?, Channel.take?, Channel.finish?, hd, hp, hclosed]; rfl, rfl⟩

/-- A dispatcher whose channel is closed can come to a good end, unless the consumer fails. -/
theorem exists_end (hc : h.Closing) (hpresent : h.channel.dispatcher ≠ .absent)
    (hclosed : h.publisher ≠ .publishing) (hgood : h.channel.failure? = none) :
    ∃ more h', (∀ move ∈ more, move = .take ∨ move = .finish) ∧ run? move? h more = some h' ∧
      h'.channel.dispatcher = .ended := by
  have hclosed := hc.closed_iff.mpr hclosed
  cases hd : h.channel.dispatcher with
  | absent => exact absurd hd hpresent
  | waiting => exact exists_end_of_waiting hclosed hd
  | ended => exact ⟨[], h, by simp, rfl, hd⟩
  | failed value reason => simp [Channel.failure?, hd] at hgood
  | consuming value last =>
    cases last with
    | true => exact ⟨[.finish], _, by simp, by simp [run?, move?, Channel.finish?, hd]; rfl, rfl⟩
    | false =>
      obtain ⟨more, h', hmoves, hrun, hended⟩ := exists_end_of_waiting
        (h := { h with
          channel.dispatcher := .waiting
          channel.finished := h.channel.finished ++ [value] }) hclosed rfl
      refine ⟨.finish :: more, h', by simpa using hmoves, ?_, hended⟩
      rw [run?_cons (by rw [move?, Channel.finish?, hd]; rfl)]
      exact hrun

/-! ## Failures -/

/-- What has been noted down: nothing unless the consumer has failed, and one note after that. -/
inductive Noting (sink : Option Diagnostics) (h : Handover α) : Prop
  | good (dispatcher : ∀ value reason, h.channel.dispatcher ≠ .failed value reason)
      (unnoted : h.unnoted = none) (sink_eq : h.sink = sink)
  | due (value : α) (reason : String) (dispatcher : h.channel.dispatcher = .failed value reason)
      (unnoted : h.unnoted = some reason) (sink_eq : h.sink = sink)
  | made (value : α) (reason : String) (dispatcher : h.channel.dispatcher = .failed value reason)
      (unnoted : h.unnoted = none) (sink_eq : h.sink = noted sink reason)

theorem noting_start (sink : Option Diagnostics) : Noting sink (start sink : Handover α) :=
  .good (fun _ _ h => nomatch h) rfl rfl

/-- A failed dispatcher takes nothing, and its consumer is not asked again. -/
theorem Happens.of_failed {move : Move α} {value : α} {reason : String} (hmove : Happens h move h')
    (hd : h.channel.dispatcher = .failed value reason) :
    h'.channel.dispatcher = .failed value reason ∧ h'.channel.finished = h.channel.finished := by
  cases hmove with
  | publish | close | join | giveUp | note => exact ⟨hd, rfl⟩
  | take _ turn | leave turn | finish _ _ turn | fail _ _ _ turn => exact nomatch hd.symm.trans turn

theorem Noting.step {move : Move α} (hn : Noting sink h) (hmove : Happens h move h') :
    Noting sink h' := by
  cases hn with
  | good dispatcher unnoted sink_eq =>
    cases hmove with
    | publish | close | join | giveUp => exact .good dispatcher unnoted sink_eq
    | take | leave => exact .good (fun _ _ h => nomatch h) unnoted sink_eq
    | finish value last turn =>
      refine .good (fun _ _ h => ?_) unnoted sink_eq
      cases last <;> exact nomatch h
    | fail value last reason turn => exact .due value reason rfl rfl sink_eq
    | note reason due => exact nomatch unnoted.symm.trans due
  | due value reason dispatcher unnoted sink_eq =>
    have hd := (hmove.of_failed dispatcher).1
    cases hmove with
    | publish | close | join | giveUp => exact .due value reason hd unnoted sink_eq
    | take _ turn | leave turn | finish _ _ turn | fail _ _ _ turn =>
      exact nomatch dispatcher.symm.trans turn
    | note other due =>
      obtain rfl := Option.some.inj (unnoted.symm.trans due)
      exact .made value reason hd rfl (congrArg (noted · reason) sink_eq)
  | made value reason dispatcher unnoted sink_eq =>
    have hd := (hmove.of_failed dispatcher).1
    cases hmove with
    | publish | close | join | giveUp => exact .made value reason hd unnoted sink_eq
    | take _ turn | leave turn | finish _ _ turn | fail _ _ _ turn =>
      exact nomatch dispatcher.symm.trans turn
    | note other due => exact nomatch unnoted.symm.trans due

theorem run_of_failed {value : α} {reason : String} {more : List (Move α)}
    (hd : h.channel.dispatcher = .failed value reason) (hrun : run? move? h more = some h') :
    h'.channel.dispatcher = .failed value reason ∧ h'.channel.finished = h.channel.finished := by
  induction more generalizing h with
  | nil =>
    obtain rfl := Option.some.inj hrun
    exact ⟨hd, rfl⟩
  | cons move more ih =>
    obtain ⟨g, hmove, hrest⟩ := run?_cons_eq_some_iff.mp hrun
    obtain ⟨hg, hfinished⟩ := (happens_of_move (by simp [hd]) hmove).of_failed hd
    obtain ⟨hd', hfinished'⟩ := ih hg hrest
    exact ⟨hd', hfinished'.trans hfinished⟩

/-- Whatever the others do, the publishing thread can go on publishing. -/
theorem run_publish (values : List α) (hturn : h.publisher = .publishing)
    (hpresent : h.channel.dispatcher ≠ .absent) : ∃ pending,
    run? move? h (values.map .publish) = some { h with channel.pending := pending } := by
  induction values generalizing h with
  | nil => exact ⟨h.channel.pending, rfl⟩
  | cons value values ih =>
    obtain ⟨pending, hrun⟩ := ih (h := { h with channel.pending := some value }) hturn hpresent
    refine ⟨pending, ?_⟩
    have hmove : h.move? (.publish value) = some { h with channel.pending := some value } := by
      rw [move?, if_pos hturn, Channel.publish]
      split
      · rename_i habsent
        exact absurd habsent hpresent
      · rfl
    rw [List.map_cons, run?_cons hmove]
    exact hrun

/-- The consumer has failed: the dispatcher is at an end and hands nothing over any more, the
failure is noted once or about to be, and the publishing thread comes to its end without giving up,
whatever it still publishes. -/
structure EndedBy (sink : Option Diagnostics) (h : Handover α) (reason : String) : Prop where
  dispatcher : h.channel.isAlive = false
  silent : ∀ more h', run? move? h more = some h' →
    h'.channel.handed = h.channel.handed ∧ h'.channel.failure? = some reason
  noting : h.unnoted = some reason ∧ h.sink = sink ∨ h.unnoted = none ∧ h.sink = noted sink reason
  completes : ∀ values : List α, h.publisher = .publishing → ∃ h',
    run? move? h
      (h.unnoted.toList.map (fun _ => .note) ++ (values.map .publish ++ [.close, .join])) =
      some h' ∧ h'.publisher = .done ∧ h'.sink = noted sink reason
  joins : h.publisher = .joining → ∃ h',
    run? move? h (h.unnoted.toList.map (fun _ => .note) ++ [.join]) = some h' ∧
      h'.publisher = .done ∧
      h'.sink = noted sink reason

/-- The note is made, if it was not. -/
theorem run_note (hn : Noting sink h) {reason : String}
    (hfailed : h.channel.failure? = some reason) :
    run? move? h (h.unnoted.toList.map fun _ => .note) =
      some { h with unnoted := none, sink := noted sink reason } := by
  cases hn with
  | good dispatcher =>
    cases hd : h.channel.dispatcher <;> simp [Channel.failure?, hd] at hfailed dispatcher
  | due value other dispatcher unnoted sink_eq =>
    obtain rfl : other = reason := by simpa [Channel.failure?, dispatcher] using hfailed
    rw [unnoted]
    simp [run?, move?, unnoted, sink_eq]
  | made value other dispatcher unnoted sink_eq =>
    obtain rfl : other = reason := by simpa [Channel.failure?, dispatcher] using hfailed
    obtain ⟨channel, publisher, unnoted', lines⟩ := h
    obtain rfl : unnoted' = none := unnoted
    obtain rfl : lines = noted sink other := sink_eq
    rfl

theorem endedBy_of_failure (hn : Noting sink h) {reason : String}
    (hfailed : h.channel.failure? = some reason) : EndedBy sink h reason := by
  have hd : ∃ value, h.channel.dispatcher = .failed value reason := by
    cases hd : h.channel.dispatcher <;> simp [Channel.failure?, hd] at hfailed ⊢
    exact hfailed
  obtain ⟨value, hd⟩ := hd
  have hnote := run_note hn hfailed
  constructor
  case dispatcher => simp [Channel.isAlive, hd]
  case silent =>
    intro more h' hrun
    obtain ⟨hd', hfinished⟩ := run_of_failed hd hrun
    simp [Channel.handed, Channel.failure?, hd, hd', hfinished]
  case noting =>
    cases hn with
    | good dispatcher => exact absurd hd (dispatcher value reason)
    | due _ other dispatcher unnoted sink_eq =>
      obtain ⟨-, rfl⟩ := Dispatcher.failed.inj (dispatcher.symm.trans hd)
      exact .inl ⟨unnoted, sink_eq⟩
    | made _ other dispatcher unnoted sink_eq =>
      obtain ⟨-, rfl⟩ := Dispatcher.failed.inj (dispatcher.symm.trans hd)
      exact .inr ⟨unnoted, sink_eq⟩
  case completes =>
    intro values hturn
    obtain ⟨pending, hpublish⟩ := run_publish values hturn
      (h := { h with unnoted := none, sink := noted sink reason }) (by simp [hd])
    refine ⟨⟨{ h.channel with pending := pending, closed := true }, .done, none,
      noted sink reason⟩, ?_, rfl, rfl⟩
    rw [run?_append hnote, run?_append hpublish]
    simp [run?, move?, hturn, Channel.close, hasEnded, Channel.isAlive, hd]
  case joins =>
    intro hturn
    refine ⟨⟨h.channel, .done, none, noted sink reason⟩, ?_, rfl, rfl⟩
    rw [run?_append hnote]
    simp [run?, move?, hturn, hasEnded, Channel.isAlive, hd]

/-! ## Whole runs -/

/-- What is handed over in a run: values at increasing positions among the published ones, where any
other value is still pending as the last one or was replaced by the next; the last value when the
dispatcher has come to a good end, which it can if the channel is closed and the consumer does not
fail; and what becomes of a failure. -/
structure Delivers (sink : Option Diagnostics) (moves : List (Move α)) (h : Handover α) : Prop where
  order : ∃ taken : List Nat, taken.Pairwise (· < ·) ∧
    h.channel.handed.map some = taken.map ((published moves)[·]?) ∧
    ∀ i < (published moves).length, i ∉ taken →
      (i + 1 = (published moves).length ∧ h.channel.pending = (published moves)[i]?) ∨
        Replaced sink moves i
  last : h.channel.dispatcher = .ended →
    h.channel.handed.getLast? = (published moves).getLast? ∧
      (h.channel.handed = [] ↔ published moves = [])
  ends : h.publisher ≠ .publishing → h.channel.failure? = none → ∃ more h',
    (∀ move ∈ more, move = .take ∨ move = .finish) ∧ run? move? h more = some h' ∧
      h'.channel.dispatcher = .ended
  unfailed : h.channel.failure? = none → h.sink = sink
  failed : ∀ reason, h.channel.failure? = some reason → EndedBy sink h reason

/-- What holds after a run. -/
structure Kept (sink : Option Diagnostics) (moves : List (Move α)) (h : Handover α) : Prop where
  taken : ∃ taken, Taken sink moves h taken
  closing : h.Closing
  noting : Noting sink h

theorem kept_start (sink : Option Diagnostics) : Kept sink [] (start sink : Handover α) :=
  ⟨⟨[], taken_start sink⟩, closing_start sink, noting_start sink⟩

theorem Kept.step {move : Move α} (hk : Kept sink moves h) (hmove : h.move? move = some h') :
    Kept sink (moves ++ [move]) h' := by
  obtain ⟨taken, ht⟩ := hk.taken
  have hhappens := happens_of_move ht.present hmove
  exact ⟨ht.step hmove, hk.closing.step hhappens, hk.noting.step hhappens⟩

/-- **Handing over.** Whatever the order in which the publishing thread, the dispatcher and the
consumer make their moves, the channel delivers what is published. -/
theorem run_delivers (sink : Option Diagnostics) {moves : List (Move α)} {h : Handover α}
    (hrun : run? move? (start sink) moves = some h) : Delivers sink moves h := by
  obtain ⟨⟨taken, ht⟩, hc, hn⟩ : Kept sink moves h := invariant Kept.step (kept_start sink) hrun
  constructor
  case order =>
    refine ⟨taken, ht.increasing, ht.handed, fun i hi hnot => ?_⟩
    exact (ht.passed i hi).resolve_left hnot
  case last =>
    intro hended
    have hlast := ht.last hc hended
    refine ⟨hlast, ?_⟩
    rw [← List.getLast?_eq_none_iff, ← List.getLast?_eq_none_iff, hlast]
  case ends => exact exists_end hc ht.present
  case unfailed =>
    intro hgood
    cases hn with
    | good _ _ sink_eq => exact sink_eq
    | due value reason dispatcher => simp [Channel.failure?, dispatcher] at hgood
    | made value reason dispatcher => simp [Channel.failure?, dispatcher] at hgood
  case failed => exact fun reason hfailed => endedBy_of_failure hn hfailed

/-- Two values are published while a third one is consumed, and the consumer fails on the later. -/
theorem run_delivers_slowConsumer :
    run? move? (start none : Handover Nat) [.publish 1, .take, .publish 2, .publish 3, .finish,
        .take, .fail "gone", .publish 4, .note, .close, .join] =
      some ⟨⟨some 4, true, .failed 3 "gone", [1]⟩, .done, none, none⟩ ∧
    Delivers none [.publish 1, .take, .publish 2, .publish 3, .finish, .take, .fail "gone",
        .publish 4, .note, .close, .join]
      (⟨⟨some 4, true, .failed 3 "gone", [1]⟩, .done, none, none⟩ : Handover Nat) :=
  ⟨rfl, run_delivers none rfl⟩

/-- A dispatcher that is never late takes what it can. -/
theorem exists_run_settle (h : Handover α) :
    ∃ moves h', run? move? h moves = some h' ∧ h'.channel = h.channel.settle := by
  unfold Channel.settle
  cases htake : h.channel.take? with
  | none => exact ⟨[], h, rfl, rfl⟩
  | some c => exact ⟨[.take], { h with channel := c }, by simp [run?, move?, htake], rfl⟩

/-- An action of a channel whose dispatcher is never late is a run of moves. -/
theorem exists_run_act (h : Handover α) (action : Channel.Action α)
    (hpublish : ∀ value, action = .publish value → h.publisher = .publishing)
    (hclose : action = .close → h.publisher = .publishing) :
    ∃ moves h', run? move? h moves = some h' ∧ h'.channel = h.channel.act action := by
  -- the action itself, which may be none, and then the dispatcher
  have after : ∀ (moves : List (Move α)) (g : Handover α), run? move? h moves = some g →
      ∃ moves h', run? move? h moves = some h' ∧ h'.channel = g.channel.settle := by
    intro moves g hrun
    obtain ⟨more, h', hmore, hsettle⟩ := exists_run_settle g
    exact ⟨moves ++ more, h', (run?_append hrun).trans hmore, hsettle⟩
  cases action with
  | publish value =>
    exact after [.publish value] { h with channel := h.channel.publish value }
      (by simp [run?, move?, hpublish value rfl])
  | close =>
    exact after [.close] { h with channel := h.channel.close, publisher := .joining }
      (by simp [run?, move?, hclose rfl])
  | finish =>
    rw [Channel.act]
    cases hfinish : h.channel.finish? with
    | none => exact after [] h rfl
    | some c => exact after [.finish] { h with channel := c } (by simp [run?, move?, hfinish])
  | fail reason =>
    rw [Channel.act]
    cases hfail : h.channel.fail? reason with
    | none => exact after [] h rfl
    | some c =>
      exact after [.fail reason] { h with channel := c, unnoted := some reason }
        (by simp [run?, move?, hfail])

end Handover

end StillVideo
