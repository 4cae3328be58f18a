import Mathlib.Order.Defs.Unbundled
import StillVideo.Dashboard.Worker
import StillVideo.Proofs.Housekeeping
import StillVideo.Proofs.PanelDrawing

/-!
# What is written to the log

A run on a project only goes on (`ProjectJob.proceeds_run`): it adds events to the record, and the
work is cancelled from the first of them on that tells so. Each event asks something of the screen
or nothing; a look lets a post through until somebody leaves (`Dashboard.admitted`). A dashboard
that posts at once writes the entries of what is let through, in order
(`Dashboard.screenEntries_eq`).
-/

namespace StillVideo

/-- The event tells that the work is cancelled. -/
def Event.isCancellation : Event → Bool
  | .cancelled => true
  | _ => false

/-- A line that is heard is a text. -/
def Event.IsPlain : Event → Prop
  | .heard _ line => ∃ text, line = .text text
  | _ => True

theorem Event.isPlain_of_isHousekeeping {ev : Event} (h : ev.isHousekeeping = true) :
    ev.IsPlain ∧ ev.isCancellation = false := by
  cases ev <;> simp_all [isHousekeeping, IsPlain, isCancellation]

theorem any_isCancellation_eq_false {events : List Event}
    (h : ∀ ev ∈ events, ev.IsPlain ∧ ev.isCancellation = false) :
    events.any Event.isCancellation = false :=
  List.any_eq_false.mpr fun ev hev => Bool.eq_false_iff.mp (h ev hev).2

/-! ## Going on -/

namespace Dashboard

variable {m m' m'' : Machine}

theorem newEvents_eq {events : List Event} (h : m'.record = events.reverse ++ m.record) :
    newEvents m m' = events := by
  unfold newEvents
  rw [h, List.length_append, Nat.add_sub_cancel, List.take_left, List.reverse_reverse]

theorem newEvents_self (m : Machine) : newEvents m m = [] := newEvents_eq rfl

theorem record_of_suffix (h : m.record <:+ m'.record) :
    m'.record = (newEvents m m').reverse ++ m.record := by
  obtain ⟨events, hevents⟩ := h
  have hrecord : m'.record = events.reverse.reverse ++ m.record := by
    rw [List.reverse_reverse, hevents]
  rwa [newEvents_eq hrecord]

theorem newEvents_append (h : m.record <:+ m'.record) (h' : m'.record <:+ m''.record) :
    newEvents m m'' = newEvents m m' ++ newEvents m' m'' := by
  apply newEvents_eq
  rw [List.reverse_append, List.append_assoc, ← record_of_suffix h, ← record_of_suffix h']

end Dashboard

open Dashboard (newEvents newEvents_eq newEvents_self newEvents_append)

namespace Machine

/-- From one machine to the next, events have been added to the record, and the token is cancelled
exactly if one of them tells so or if it was cancelled already. -/
structure Proceeds (m m' : Machine) : Prop where
  record : m.record <:+ m'.record
  token : m'.token.cancelled =
    (m.token.cancelled || (newEvents m m').any Event.isCancellation)
  plain : ∀ ev ∈ newEvents m m', ev.IsPlain
  reporting : m'.reporting = m.reporting

variable {m m' : Machine}

instance : IsPreorder Machine Proceeds where
  refl m := by
    refine ⟨List.suffix_rfl, ?_, ?_, rfl⟩
    · rw [newEvents_self, List.any_nil, Bool.or_false]
    · rw [newEvents_self]
      exact List.forall_mem_nil _
  trans m m' m'' h h' := by
    have happend := newEvents_append h.record h'.record
    refine ⟨h.record.trans h'.record, ?_, ?_, h'.reporting.trans h.reporting⟩
    · rw [h'.token, h.token, happend, List.any_append, Bool.or_assoc]
    · rw [happend]
      exact List.forall_mem_append.mpr ⟨h.plain, h'.plain⟩

theorem proceeds_of_record (events : List Event) (hrecord : m'.record = events.reverse ++ m.record)
    (htoken : m'.token.cancelled = (m.token.cancelled || events.any Event.isCancellation))
    (hplain : ∀ ev ∈ events, ev.IsPlain) (hreporting : m'.reporting = m.reporting) :
    m.Proceeds m' := by
  have hevents := newEvents_eq hrecord
  exact ⟨⟨_, hrecord.symm⟩, by rwa [hevents], by rwa [hevents], hreporting⟩

theorem newEvents_cancel (m : Machine) : newEvents m m.cancel = [.cancelled] := newEvents_eq rfl

theorem proceeds_cancel (m : Machine) : m.Proceeds m.cancel :=
  proceeds_of_record [.cancelled] rfl (Bool.or_true _).symm
    (List.forall_mem_singleton.mpr trivial) rfl

theorem KeepsHouse.forall_newEvents (h : m.KeepsHouse m') :
    ∀ ev ∈ newEvents m m', ev.isHousekeeping = true := by
  obtain ⟨_, _, events, rfl, hevents⟩ := h
  have hnew : newEvents m { m with record := events ++ m.record } = events.reverse :=
    newEvents_eq (by rw [List.reverse_reverse])
  intro ev hev
  exact hevents ev (List.mem_reverse.mp (hnew ▸ hev))

theorem KeepsHouse.proceeds (h : m.KeepsHouse m') : m.Proceeds m' := by
  have hplain := fun ev hev => Event.isPlain_of_isHousekeeping (h.forall_newEvents ev hev)
  obtain ⟨_, _, events, rfl, -⟩ := h
  refine ⟨⟨events, rfl⟩, ?_, fun ev hev => (hplain ev hev).1, rfl⟩
  rw [any_isCancellation_eq_false hplain, Bool.or_false]

end Machine

/-! ## Runs -/

namespace Run

/-- The events of a run tell when it is cancelled. -/
structure Tracks (cancelled : Bool) (r : Run) : Prop where
  token : r.control.token.cancelled = (cancelled || r.events.any Event.isCancellation)
  plain : ∀ ev ∈ r.events, ev.IsPlain

theorem kept_tracks (cancelled : Bool) : Kept (Tracks cancelled) where
  congr h hevents htoken := ⟨by rw [htoken, hevents]; exact h.token, by rw [hevents]; exact h.plain⟩
  cancel h := by
    refine ⟨(Control.cancelled_cancel _).trans ?_, List.forall_mem_cons.mpr ⟨trivial, h.plain⟩⟩
    exact (Bool.or_true cancelled).symm
  record {r} h pipe line := by
    unfold record
    split
    · -- a line that cannot be shown is kept, and nobody hears of it
      exact ⟨h.token, h.plain⟩
    have hnew : ∀ ev ∈ (r.observers.record r.quiet (.text pipe.name) (.text line)).2,
        ev.IsPlain ∧ ev.isCancellation = false := by
      intro ev hev
      rcases List.mem_append.mp hev with hev | hev <;> split at hev
      · rw [List.mem_singleton.mp hev]
        exact ⟨trivial, rfl⟩
      · exact absurd hev List.not_mem_nil
      · rw [List.mem_singleton.mp hev]
        exact ⟨⟨line, rfl⟩, rfl⟩
      · exact absurd hev List.not_mem_nil
    generalize r.observers.record r.quiet (.text pipe.name) (.text line) = recorded at hnew
    have hreverse := fun ev hev => hnew ev (List.mem_reverse.mp hev)
    constructor
    · rw [List.any_append, any_isCancellation_eq_false hreverse, Bool.false_or]
      exact h.token
    · exact List.forall_mem_append.mpr ⟨fun ev hev => (hreverse ev hev).1, h.plain⟩

end Run

namespace Supervisor

theorem announcement_plain (s : Supervisor) (m : Machine) :
    ∀ ev ∈ s.announcement m, ev.IsPlain ∧ ev.isCancellation = false := by
  unfold announcement announcedLine
  cases m.quiet <;> simp [Event.IsPlain, Event.isCancellation]

/-- A run whose encoder does not start goes on. -/
theorem proceeds_unstarted (session : Session) (m : Machine) :
    m.Proceeds ((ofSession session).unstarted ((ofSession session).announce m)) := by
  have hannounced := (ofSession session).announcement_plain m
  refine Machine.proceeds_of_record ((ofSession session).announcement m ++
    [.commandEnded session.command noExitCode (m.clock - m.clock)]) ?_ ?_ ?_ rfl
  · rw [List.reverse_append]
    rfl
  · rw [List.any_append, any_isCancellation_eq_false hannounced]
    exact (Bool.or_false _).symm
  · exact List.forall_mem_append.mpr ⟨fun ev hev => (hannounced ev hev).1,
      List.forall_mem_singleton.mpr trivial⟩

/-- The events of a run that takes the steps of a script tell when it is cancelled. -/
theorem tracks_taken (session : Session) (o : Observers) (m : Machine) (steps : List EncoderStep)
    (code : Int) (stubborn cancelAtExit : Bool) :
    ((taken session o m steps stubborn).finish code cancelAtExit).Tracks m.token.cancelled := by
  have hbegun : ((ofSession session).begin o ((ofSession session).announce m) stubborn).Tracks
      m.token.cancelled := by
    refine ⟨?_, List.forall_mem_nil _⟩
    exact (Control.cancelled_start _ _ _ _).trans (Bool.or_false _).symm
  have htracks := (Run.kept_tracks m.token.cancelled).foldl_step hbegun steps
  exact (Run.kept_tracks m.token.cancelled).finish htracks code cancelAtExit

/-- A run of a supervisor goes on. -/
theorem proceeds_run (session : Session) (o : Observers) (m : Machine) :
    m.Proceeds ((ofSession session).run o m).2 := by
  cases hcancelled : m.token.cancelled with
  | true =>
    rw [run_of_cancelled session o hcancelled]
    exact refl_of Machine.Proceeds m
  | false =>
    cases hannounced : (ofSession session).unannounced? m with
    | some f =>
      rw [run_of_unannounced session o hcancelled hannounced]
      exact refl_of Machine.Proceeds m
    | none =>
      rw [run_of_announced session o hcancelled hannounced]
      cases m.encoderFor session.args with
      | missing reason => exact proceeds_unstarted session m
      | unusable reason => exact proceeds_unstarted session m
      | script steps code stubborn cancelAtExit =>
        dsimp only
        have hplain := (ofSession session).announcement_plain m
        have hfinished := tracks_taken session o m steps code stubborn cancelAtExit
        generalize (taken session o m steps stubborn).finish code cancelAtExit = r at hfinished ⊢
        refine Machine.proceeds_of_record ((ofSession session).announcement m ++
          (r.events.reverse ++ [.commandEnded session.command
            (r.control.process.exitCode.getD noExitCode) (r.clock - m.clock)])) ?_ ?_ ?_ rfl
        · simp only [List.reverse_append, List.reverse_reverse, List.append_assoc]
          rfl
        · rw [List.any_append, any_isCancellation_eq_false hplain, Bool.false_or, List.any_append,
            List.any_reverse]
          refine hfinished.token.trans ?_
          exact congrArg _ (Bool.or_false _).symm
        · refine List.forall_mem_append.mpr ⟨fun ev hev => (hplain ev hev).1, ?_⟩
          refine List.forall_mem_append.mpr ⟨fun ev hev => ?_,
            List.forall_mem_singleton.mpr trivial⟩
          exact hfinished.plain ev (List.mem_reverse.mp hev)

end Supervisor

open Machine (Proceeds)

/-- However it ends, a run of a project goes on. -/
theorem ProjectJob.proceeds_run (w : Production) : w.machine.Proceeds (run w).2.machine := by
  have hline : ∀ (m : Machine) (line : String), m.Proceeds (m.withLine line) :=
    fun m line => (m.keepsHouse_withLine line).proceeds
  have hvalidate := (keepsHouse_validate w).proceeds
  rcases h : validate w with ⟨f | s, w'⟩ <;> rw [h] at hvalidate
  · rw [run_of_error h]
    exact hvalidate
  · refine trans_of Proceeds hvalidate ?_
    cases hdry : w'.project.dryRun with
    | true =>
      have hfirst := hline w'.machine dryRunLine
      rw [run_of_dry h hdry]
      split
      · refine trans_of Proceeds hfirst (trans_of Proceeds (hline _ s.command) ?_)
        exact (Production.keepsHouse_tidied { w' with machine := _ }).proceeds
      · exact hfirst
      · exact refl_of Proceeds _
    | false =>
      have hencode : w'.machine.Proceeds (encode s w').2.machine := by
        rw [encode_eq]
        refine trans_of Proceeds (Supervisor.proceeds_run s w'.observers w'.machine) ?_
        exact (Production.keepsHouse_tidied ⟨_, _, _⟩).proceeds
      rw [run_of_encode h hdry]
      rcases hend : encode s w' with ⟨f | path, w₂⟩ <;> rw [hend] at hencode
      · exact hencode
      · dsimp only
        split
        · exact trans_of Proceeds hencode (hline _ _)
        · exact hencode

/-! ## Requests -/

namespace Dashboard

/-- The request is that somebody leaves. -/
def Request.isQuit : Request → Bool
  | .quit => true
  | .look .. => false

/-- The signal of a request, if it is made for one. -/
def Request.signal? : Request → Option Signal
  | .quit => some .cancelled
  | .look _ (.signal s) => some s
  | .look _ _ => none

/-- The posts that looks let through, each with who makes it: those asked for before the work is
cancelled. -/
def admitted (cancelled : Bool) : List Request → List (Poster × Post)
  | [] => []
  | .quit :: rest => admitted true rest
  | .look who post :: rest => (if cancelled then [] else [(who, post)]) ++ admitted cancelled rest

/-- The entry of a signal that is posted, if its line is a text. -/
def Signal.entries (s : Signal) : List ScreenEntry :=
  match s.line? >>= Option.mapM LogLine.entry with
  | .ok entry => entry.toList
  | .error _ => []

/-- What a post writes to the log of a dashboard. -/
def entriesOf (d : Dashboard) : Post → List ScreenEntry
  | .project => []
  | .signal s => s.entries
  | .outcome => d.outcomeEntry

variable {cancelled : Bool}

theorem admitted_append (cancelled : Bool) (asked more : List Request) :
    admitted cancelled (asked ++ more) =
      admitted cancelled asked ++ admitted (cancelled || asked.any Request.isQuit) more := by
  induction asked generalizing cancelled with
  | nil => rw [List.any_nil, Bool.or_false]; rfl
  | cons r asked ih =>
    cases r with
    | quit =>
      rw [List.any_cons, Request.isQuit, Bool.true_or, Bool.or_true]
      exact (ih true).trans (by rw [Bool.true_or]; rfl)
    | look who post =>
      rw [List.any_cons, Request.isQuit, Bool.false_or, List.cons_append, admitted, admitted, ih,
        List.append_assoc]

/-- From a cancellation on no look lets anything through. -/
theorem admitted_true (asked : List Request) : admitted true asked = [] := by
  induction asked with
  | nil => rfl
  | cons r asked ih => cases r <;> exact ih

/-- A signal that is posted makes one entry. -/
structure Signal.Makes (s : Signal) (entry : ScreenEntry) : Prop where
  stays : s.isCancellation = false
  line : ∃ l : LogLine, s.line? = .ok (some l) ∧ l.entry = .ok entry

theorem Signal.Makes.entries_eq {s : Signal} {entry : ScreenEntry} (h : s.Makes entry) :
    s.entries = [entry] := by
  obtain ⟨l, hline, hentry⟩ := h.line
  unfold entries
  rw [hline, ok_bind, Option.mapM_some, hentry]
  rfl

theorem Signal.Makes.screenEntries_cons {s : Signal} {entry : ScreenEntry} (h : s.Makes entry)
    (cancelled : Bool) (ss : List Signal) : screenEntries cancelled (s :: ss) =
      ((if cancelled then [] else [entry]) ++ ·) <$> screenEntries cancelled ss := by
  obtain ⟨l, hline, hentry⟩ := h.line
  show (s.line? >>= fun line => _) = _
  rw [hline, ok_bind, h.stays, Bool.or_false]
  cases cancelled with
  | true => rfl
  | false =>
    dsimp only
    rw [if_neg Bool.false_ne_true, Option.mapM_some, hentry]
    rfl

theorem screenEntries_cancelled (cancelled : Bool) (ss : List Signal) :
    screenEntries cancelled (.cancelled :: ss) = screenEntries true ss := by
  rw [screenEntries, Signal.isCancellation, Bool.or_true]
  cases cancelled <;> cases screenEntries true ss <;> rfl

/-- An event asks for nothing, tells that somebody leaves, or has a signal that makes an entry. -/
theorem request_cases {ev : Event} (h : ev.IsPlain) :
    (Signal.ofEvent true ev = none ∧ Request.ofEvent true ev = none) ∨
    (Signal.ofEvent true ev = some .cancelled ∧ Request.ofEvent true ev = some .quit) ∨
    ∃ s entry, Signal.ofEvent true ev = some s ∧
      Request.ofEvent true ev = some (.look (.ofEvent ev) (.signal s)) ∧ s.Makes entry := by
  cases ev with
  | commandStarted command =>
    exact .inr (.inr ⟨_, _, rfl, rfl, rfl, _, rfl, rfl⟩)
  | commandEnded command code seconds =>
    have hline : (Signal.ended (.int code) (.real seconds)).line? = .ok (some
        ⟨.text ("ffmpeg exited " ++ (Document.int code).display ++ " after " ++ seconds.fixed 1 ++
          "s"), if Signal.isZero (.int code) then .good else .bad⟩) := by
      show ((Document.real seconds).fixed 1 >>= fun shown => _) = _
      rw [fixed_real, ok_bind]
      rfl
    exact .inr (.inr ⟨_, _, rfl, rfl, rfl, _, hline, rfl⟩)
  | heard pipe line =>
    obtain ⟨text, rfl⟩ := h
    exact .inr (.inr ⟨_, _, rfl, rfl, rfl, _, rfl, rfl⟩)
  | cancelled => exact .inr (.inl ⟨rfl, rfl⟩)
  | _ => exact .inl ⟨rfl, rfl⟩

/-- What events ask of the screen when they are reported. -/
def requestsOf (events : List Event) : List Request := events.filterMap (Request.ofEvent true)

/-- A dashboard that posts at once whatever is let through writes these entries. -/
theorem screenEntries_eq (d : Dashboard) {events : List Event} (h : ∀ ev ∈ events, ev.IsPlain)
    (cancelled : Bool) : screenEntries cancelled (events.filterMap (Signal.ofEvent true)) =
      .ok ((admitted cancelled (requestsOf events)).flatMap fun p => d.entriesOf p.2) := by
  induction events generalizing cancelled with
  | nil => rfl
  | cons ev events ih =>
    obtain ⟨hev, hrest⟩ := List.forall_mem_cons.mp h
    rcases request_cases hev with ⟨hs, hr⟩ | ⟨hs, hr⟩ | ⟨s, entry, hs, hr, hmakes⟩
    · rw [requestsOf, List.filterMap_cons_none hs, List.filterMap_cons_none hr]
      exact ih hrest cancelled
    · rw [requestsOf, List.filterMap_cons_some hs, List.filterMap_cons_some hr,
        screenEntries_cancelled]
      exact ih hrest true
    · rw [requestsOf, List.filterMap_cons_some hs, List.filterMap_cons_some hr,
        hmakes.screenEntries_cons, ih hrest, admitted, List.flatMap_append]
      cases cancelled with
      | true => rfl
      | false =>
        rw [if_neg Bool.false_ne_true, if_neg Bool.false_ne_true, List.flatMap_singleton,
          entriesOf, hmakes.entries_eq]
        rfl

/-- Somebody leaves exactly if an event tells so. -/
theorem any_isQuit_requestsOf (events : List Event) :
    (requestsOf events).any Request.isQuit = events.any Event.isCancellation := by
  induction events with
  | nil => rfl
  | cons ev events ih =>
    rw [List.any_cons, ← ih, requestsOf]
    cases ev <;> rfl

/-- The signals of what events ask are those of the events. -/
theorem signals_requestsOf (events : List Event) :
    (requestsOf events).filterMap Request.signal? =
      events.filterMap (Signal.ofEvent true) := by
  unfold requestsOf
  rw [List.filterMap_filterMap]
  refine List.filterMap_congr fun ev _ => ?_
  cases ev <;> rfl

end Dashboard

end StillVideo
