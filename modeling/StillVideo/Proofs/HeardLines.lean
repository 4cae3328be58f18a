import StillVideo.Proofs.KeptLines
import StillVideo.Proofs.RunCancellation
import StillVideo.Proofs.TextParts

/-!
# What becomes of the lines of a run

A line of the encoder has one of three fates: it is blank and counts for nothing, it is noted down
for the listener, or it is a field of progress. `HasFate` says which one from the characters of the
line alone, and reading a line agrees with it (`hasFate_iff`). A run that nobody disturbs does with
each line what its fate says (`Run.Tells.step`), so the listener hears the lines that are noted, in
order, and the accumulator gets the fields (`Supervisor.run_hears`).
-/

namespace StillVideo

/-! ## Fates of lines -/

/-- A text is a field of progress: what stands before its first equals sign is a key that names
something and has no space inside, what stands behind is its value, both without white space
around. -/
def IsField (cs key value : List Char) : Prop :=
  ∃ before after, cs = before ++ '=' :: after ∧ '=' ∉ before ∧ IsTrimmed isBlank before key ∧
    key ≠ [] ∧ ' ' ∉ key ∧ IsTrimmed isBlank after value

theorem isField_iff {cs key value : List Char} :
    IsField cs key value ↔ EncoderLine.readPair? cs = some (key, value) := by
  constructor
  · rintro ⟨before, after, rfl, hfirst, hkey, hne, hspace, hvalue⟩
    have hbefore : ∀ c ∈ before, (c != '=') = true := by
      intro c hc
      rw [bne_iff_ne]
      rintro rfl
      exact hfirst hc
    have hdrop : (before ++ '=' :: after).dropWhile (· != '=') = '=' :: after := by
      rw [List.dropWhile_append_of_pos hbefore]
      rfl
    have htake : (before ++ '=' :: after).takeWhile (· != '=') = before := by
      rw [List.takeWhile_append_of_pos hbefore]
      exact List.append_nil before
    unfold EncoderLine.readPair?
    rw [hdrop, htake]
    dsimp only
    rw [isTrimmed_iff.mp hkey, isTrimmed_iff.mp hvalue,
      if_pos (by simp [EncoderLine.isKey, hne, hspace])]
  · intro h
    unfold EncoderLine.readPair? at h
    split at h
    · exact absurd h.symm (Option.some_ne_none _)
    · rename_i c after hdrop
      dsimp only at h
      split at h
      · rename_i hkey
        obtain ⟨rfl, rfl⟩ := Prod.mk.inj (Option.some.inj h)
        have hc : c = '=' := by
          have hnot := List.head?_dropWhile_not (· != '=') cs
          rw [hdrop] at hnot
          simpa using hnot
        subst hc
        refine ⟨cs.takeWhile (· != '='), after, ?_, ?_, isTrimmed_trim _ _, ?_, ?_,
          isTrimmed_trim _ _⟩
        · rw [← hdrop, List.takeWhile_append_dropWhile]
        · intro hmem
          simpa using List.mem_takeWhile_imp hmem
        · simpa [EncoderLine.isKey] using (Bool.and_eq_true_iff.mp hkey).1
        · simpa [EncoderLine.isKey] using (Bool.and_eq_true_iff.mp hkey).2
      · exact absurd h.symm (Option.some_ne_none _)

/-- What becomes of a line. -/
inductive LineFate
  | blank
  | noted (pipe : Pipe) (text : String)
  | field (key value : String)
  deriving DecidableEq, Repr

/-- The fate of a line from a pipe: without its line end it may be blank. If it is not, it is noted
on the error pipe; on the output pipe it may be a field, and is noted otherwise. -/
inductive HasFate (line : String) : Pipe → LineFate → Prop
  | blank (pipe : Pipe) {body : List Char}
      (body_eq : IsTrimmedRight EncoderLine.isLineEnd line.toList body)
      (blank : ∀ c ∈ body, isBlank c = true) : HasFate line pipe .blank
  | errors {body : List Char} (body_eq : IsTrimmedRight EncoderLine.isLineEnd line.toList body)
      (visible : ∃ c ∈ body, isBlank c = false) :
      HasFate line .errors (.noted .errors (String.ofList body))
  | field {body key value : List Char}
      (body_eq : IsTrimmedRight EncoderLine.isLineEnd line.toList body)
      (visible : ∃ c ∈ body, isBlank c = false) (field : IsField body key value) :
      HasFate line .output (.field (String.ofList key) (String.ofList value))
  | other {body : List Char} (body_eq : IsTrimmedRight EncoderLine.isLineEnd line.toList body)
      (visible : ∃ c ∈ body, isBlank c = false) (noField : ¬ ∃ key value, IsField body key value) :
      HasFate line .output (.noted .output (String.ofList body))

/-- The fate of a line as it is read. -/
def EncoderLine.fate (pipe : Pipe) (line : String) : LineFate :=
  match EncoderLine.read pipe line with
  | .progress key value => .field key value
  | .diagnostic text => .noted pipe text
  | .unrecognized text => if isBlankText text.toList then .blank else .noted pipe text

section

variable {line : String} {pipe : Pipe}

theorem isBlankText_eq_false_iff {cs : List Char} :
    EncoderLine.isBlankText cs = false ↔ ∃ c ∈ cs, isBlank c = false := by
  unfold EncoderLine.isBlankText
  simp

theorem fate_eq {body : List Char} (h : trimRight EncoderLine.isLineEnd line.toList = body) :
    EncoderLine.fate pipe line =
      if EncoderLine.isBlankText body then .blank
      else match pipe with
        | .errors => .noted .errors (String.ofList body)
        | .output => match EncoderLine.readPair? body with
          | some (key, value) => .field (String.ofList key) (String.ofList value)
          | none => .noted .output (String.ofList body) := by
  unfold EncoderLine.fate EncoderLine.read
  dsimp only
  rw [h]
  cases hblank : EncoderLine.isBlankText body with
  | true => simp [hblank]
  | false =>
    cases pipe with
    | errors => rfl
    | output => cases EncoderLine.readPair? body <;> simp [hblank]

theorem hasFate_fate (pipe : Pipe) (line : String) :
    HasFate line pipe (EncoderLine.fate pipe line) := by
  have hbody := isTrimmedRight_trimRight EncoderLine.isLineEnd line.toList
  rw [fate_eq rfl]
  generalize trimRight EncoderLine.isLineEnd line.toList = body at *
  cases hblank : EncoderLine.isBlankText body with
  | true => exact .blank pipe hbody (List.all_eq_true.mp hblank)
  | false =>
    have hvisible := isBlankText_eq_false_iff.mp hblank
    cases pipe with
    | errors => exact .errors hbody hvisible
    | output =>
      cases hpair : EncoderLine.readPair? body with
      | some pair => exact .field hbody hvisible (isField_iff.mpr hpair)
      | none =>
        refine .other hbody hvisible ?_
        rintro ⟨key, value, hfield⟩
        rw [isField_iff.mp hfield] at hpair
        exact Option.some_ne_none _ hpair

theorem HasFate.eq_fate {fate : LineFate} (h : HasFate line pipe fate) :
    EncoderLine.fate pipe line = fate := by
  cases h with
  | blank _ hbody hblank =>
    rw [fate_eq (isTrimmedRight_iff.mp hbody), EncoderLine.isBlankText,
      if_pos (List.all_eq_true.mpr hblank)]
  | errors hbody hvisible =>
    rw [fate_eq (isTrimmedRight_iff.mp hbody), isBlankText_eq_false_iff.mpr hvisible]
    rfl
  | field hbody hvisible hfield =>
    rw [fate_eq (isTrimmedRight_iff.mp hbody), isBlankText_eq_false_iff.mpr hvisible,
      isField_iff.mp hfield]
    rfl
  | @other body hbody hvisible hno =>
    have hpair : EncoderLine.readPair? body = none := by
      by_contra hsome
      obtain ⟨⟨key, value⟩, hpair⟩ := Option.ne_none_iff_exists'.mp hsome
      exact hno ⟨key, value, isField_iff.mpr hpair⟩
    rw [fate_eq (isTrimmedRight_iff.mp hbody), isBlankText_eq_false_iff.mpr hvisible, hpair]
    rfl

/-- A line has one fate, the one that reading it finds. -/
theorem hasFate_iff {fate : LineFate} :
    HasFate line pipe fate ↔ EncoderLine.fate pipe line = fate := by
  refine ⟨HasFate.eq_fate, ?_⟩
  rintro rfl
  exact hasFate_fate pipe line

end

namespace LineFate

/-- What a listener hears of a line, if it is noted. -/
def heard? : LineFate → Option Heard
  | .noted pipe text => some (.text pipe.name, .text text)
  | _ => none

/-- The field of a line, if it is one. -/
def field? : LineFate → Option (String × String)
  | .field key value => some (key, value)
  | _ => none

/-- All that a listener hears of lines. -/
def heard (fates : List LineFate) : List Heard := fates.filterMap heard?

/-- The fields among lines. -/
def fields (fates : List LineFate) : List (String × String) := fates.filterMap field?

end LineFate

namespace Accumulator

/-- Takes in one field and lists its sample behind those that there are, if it gives one. -/
def take (p : Accumulator × List Sample) (field : String × String) : Accumulator × List Sample :=
  ((p.1.feed field.1 field.2).1, p.2 ++ (p.1.feed field.1 field.2).2.toList)

/-- Takes in fields one by one, and lists the samples that they give. -/
def takeAll (a : Accumulator) (fields : List (String × String)) : Accumulator × List Sample :=
  fields.foldl take (a, [])

end Accumulator

/-! ## Undisturbed runs -/

/-- A listener hears what is noted, and neither it nor the consumer, if there is one, ever fails or
cancels the run. -/
structure Observers.Calm (o : Observers) : Prop where
  consumer : ∀ f, o.consumer = some f → ∀ received, f received = ⟨false, none⟩
  listener : ∃ listener, o.diagnostics.listener = some listener ∧ ∀ heard, listener heard = none

/-- A run that is not cancelled, reads both pipes and can show every line. -/
structure Control.Undisturbed (c : Control) : Prop where
  uncancelled : c.token.cancelled = false
  reading : c.reading = true
  streamError : c.streamError = none
  shows : ∀ line, c.refused line = none

/-- A step that delivers a line. -/
structure EncoderStep.IsLine (e : EncoderStep) (line : Pipe × String) : Prop where
  pipe : e.pipe = line.1
  delivery : e.delivery = .line line.2
  cancels : e.cancels = false

namespace Control

variable {c : Control}

/-- An undisturbed run does with a line what its fate says. -/
theorem Undisturbed.step_line (h : c.Undisturbed) {e : EncoderStep} {pipe : Pipe} {line : String}
    (he : e.IsLine (pipe, line)) :
    c.step e = match EncoderLine.fate pipe line with
      | .blank => (c, .nothing)
      | .noted pipe text => (c, .line pipe text)
      | .field key value => c.feed key value := by
  have hadvance : c.advance e = c := by
    unfold advance
    rw [he.cancels, if_neg Bool.false_ne_true]
  unfold Control.step
  rw [hadvance, he.pipe, he.delivery, fate_eq rfl]
  cases pipe with
  | output =>
    rw [if_pos (show c.isRead .output = true from h.reading)]
    have hnote : ∀ text, c.note .output text = (c, .line .output text) :=
      fun text => note_of_shown (h.shows text) .output
    show c.readOutput line = _
    unfold readOutput EncoderLine.read
    rw [if_neg (by rw [h.uncancelled]; exact Bool.false_ne_true)]
    dsimp only
    generalize trimRight EncoderLine.isLineEnd line.toList = body
    cases hblank : EncoderLine.isBlankText body with
    | true => simp [hblank]
    | false => cases EncoderLine.readPair? body <;> simp [hblank, hnote]
  | errors =>
    rw [if_pos (show c.isRead .errors = true from by rw [isRead, h.streamError]; rfl)]
    show c.readErrors line = _
    unfold readErrors EncoderLine.read
    dsimp only
    cases EncoderLine.isBlankText (trimRight EncoderLine.isLineEnd line.toList) with
    | true => rfl
    | false => exact note_of_shown (h.shows _) .errors

theorem Undisturbed.feed (h : c.Undisturbed) (key value : String) :
    (c.feed key value).1.Undisturbed := by
  unfold Control.feed
  split <;> exact ⟨h.uncancelled, h.reading, h.streamError, h.shows⟩

/-- The accumulator with the samples that it has given. -/
def progress (c : Control) : Accumulator × List Sample := (c.accumulator, c.published)

theorem progress_feed (c : Control) (key value : String) :
    (c.feed key value).1.progress = Accumulator.take c.progress (key, value) := by
  unfold Control.feed Accumulator.take progress
  dsimp only
  generalize c.accumulator.feed key value = p
  obtain ⟨a, _ | s⟩ := p
  · rw [Option.toList_none, List.append_nil]
  · rfl

end Control

namespace Run

variable {r : Run}

theorem reaction_of_calm (h : r.observers.Calm) : r.reaction = ⟨false, none⟩ := by
  unfold reaction
  split
  · rename_i f hf
    exact h.consumer f hf _
  · rfl

/-- Calm observers let a sample pass: it changes nothing that is decided or noted down. -/
theorem publish_of_calm (h : r.observers.Calm) (s : Sample) :
    (r.publish s).control = r.control ∧
      (r.publish s).observers.consumer = r.observers.consumer ∧
      (r.publish s).observers.diagnostics = r.observers.diagnostics := by
  unfold publish
  dsimp only
  split
  · rename_i value _
    have hreaction := reaction_of_calm (r := { r with
      channel := r.channel.act (.publish s)
      observers.received := r.observers.received ++ [value] }) ⟨h.consumer, h.listener⟩
    unfold consume
    dsimp only
    rw [hreaction]
    exact ⟨rfl, rfl, rfl⟩
  · exact ⟨rfl, rfl, rfl⟩

/-- Nothing has disturbed a run whose listener has heard these lines, which began with none, and
whose accumulator has got these fields. -/
structure Tells (keep : Option Nat) (total : Binary64) (heard : List Heard)
    (fields : List (String × String)) (r : Run) : Prop where
  undisturbed : r.control.Undisturbed
  calm : r.observers.Calm
  keep_eq : r.observers.diagnostics.keep = keep
  heard_eq : r.observers.diagnostics.heard = heard
  lines_eq : r.observers.diagnostics.lines = Diagnostics.kept keep (heard.map Prod.snd)
  progress_eq : r.control.progress = (Accumulator.start total).takeAll fields

namespace Tells

variable {keep : Option Nat} {total : Binary64} {heard : List Heard}
  {fields : List (String × String)}

theorem congr (h : Tells keep total heard fields r) {r' : Run} (hcontrol : r'.control = r.control)
    (hconsumer : r'.observers.consumer = r.observers.consumer)
    (hdiagnostics : r'.observers.diagnostics = r.observers.diagnostics) :
    Tells keep total heard fields r' := by
  obtain ⟨hundisturbed, ⟨hcalm, hlistener⟩, hkeep, hheard, hlines, hprogress⟩ := h
  refine ⟨hcontrol ▸ hundisturbed, ⟨?_, ?_⟩, ?_, ?_, ?_, hcontrol ▸ hprogress⟩
  · rwa [hconsumer]
  · rwa [hdiagnostics]
  · rwa [hdiagnostics]
  · rwa [hdiagnostics]
  · rwa [hdiagnostics]

/-- A line that is noted. -/
theorem record (h : Tells keep total heard fields r) (pipe : Pipe) (text : String) :
    Tells keep total (heard ++ [(.text pipe.name, .text text)]) fields (r.record pipe text) := by
  obtain ⟨listener, hlistener, hnever⟩ := h.calm.listener
  have hshown : r.record pipe text = { r with
      observers := (r.observers.record r.quiet (.text pipe.name) (.text text)).1
      events := (r.observers.record r.quiet (.text pipe.name) (.text text)).2.reverse ++
        r.events } := by
    unfold Run.record
    rw [h.undisturbed.shows text]
  rw [hshown]
  have hrecord : (r.observers.record r.quiet (.text pipe.name) (.text text)).1.diagnostics = _ :=
    Diagnostics.record_of_taken hlistener (.text pipe.name) (.text text) (hnever _)
  refine ⟨h.undisturbed, ⟨h.calm.consumer, listener, ?_, hnever⟩, ?_, ?_, ?_, h.progress_eq⟩
  · rwa [hrecord]
  · rw [hrecord]
    exact h.keep_eq
  · rw [hrecord, ← h.heard_eq]
  · rw [hrecord, List.map_append, List.map_singleton]
    exact Diagnostics.push_lines h.keep_eq h.lines_eq _

/-- A field. Only a closing one gives a sample, which the observers let pass. -/
theorem feed (h : Tells keep total heard fields r) (key value : String) :
    Tells keep total heard (fields ++ [(key, value)])
      ({ r with control := (r.control.feed key value).1 }.report (r.control.feed key value).2) := by
  have hfed : Tells keep total heard (fields ++ [(key, value)])
      { r with control := (r.control.feed key value).1 } := by
    refine ⟨h.undisturbed.feed key value, h.calm, h.keep_eq, h.heard_eq, h.lines_eq, ?_⟩
    show (r.control.feed key value).1.progress = _
    rw [Control.progress_feed, h.progress_eq]
    unfold Accumulator.takeAll
    rw [List.foldl_append]
    rfl
  have hreport : (r.control.feed key value).2 = .nothing ∨
      ∃ s, (r.control.feed key value).2 = .sample s := by
    unfold Control.feed
    split
    · exact .inl rfl
    · exact .inr ⟨_, rfl⟩
  rcases hreport with hnothing | ⟨s, hsample⟩
  · rw [hnothing]
    exact hfed
  · obtain ⟨hcontrol, hconsumer, hdiagnostics⟩ := publish_of_calm hfed.calm s
    rw [hsample]
    exact hfed.congr hcontrol hconsumer hdiagnostics

/-- A step that delivers a line does with it what its fate says. -/
theorem step (h : Tells keep total heard fields r) {e : EncoderStep} {line : Pipe × String}
    (he : e.IsLine line) :
    Tells keep total (heard ++ (EncoderLine.fate line.1 line.2).heard?.toList)
      (fields ++ (EncoderLine.fate line.1 line.2).field?.toList) (r.step e) := by
  have hread : r.control.isRead e.pipe = true := by
    cases hp : e.pipe with
    | output => exact h.undisturbed.reading
    | errors =>
      rw [Control.isRead, h.undisturbed.streamError]
      rfl
  have hadvance : r.advance e = { r with clock := r.clock + e.seconds } := by
    unfold advance
    rw [he.cancels]
    rfl
  have hcontrol := h.undisturbed.step_line he
  have hlater : Tells keep total heard fields { r with clock := r.clock + e.seconds } :=
    h.congr rfl rfl rfl
  rw [step_of_read hread, hadvance]
  cases hfate : EncoderLine.fate line.1 line.2 with
  | blank =>
    rw [hfate] at hcontrol
    rw [hcontrol]
    simpa [LineFate.heard?, LineFate.field?, report] using hlater
  | noted pipe text =>
    rw [hfate] at hcontrol
    rw [hcontrol]
    simpa [LineFate.heard?, LineFate.field?, report] using hlater.record pipe text
  | field key value =>
    rw [hfate] at hcontrol
    rw [hcontrol]
    simpa [LineFate.heard?, LineFate.field?] using hlater.feed key value

/-- **Lines of a run.** A whole undisturbed run does with each line what its fate says. -/
theorem foldl_step (h : Tells keep total heard fields r) {steps : List EncoderStep}
    {lines : List (Pipe × String)} (hlines : List.Forall₂ EncoderStep.IsLine steps lines) :
    Tells keep total (heard ++ LineFate.heard (lines.map fun l => EncoderLine.fate l.1 l.2))
      (fields ++ LineFate.fields (lines.map fun l => EncoderLine.fate l.1 l.2))
      (steps.foldl Run.step r) := by
  induction hlines generalizing r heard fields with
  | nil => simpa [LineFate.heard, LineFate.fields] using h
  | @cons e line steps lines he _ ih =>
    have hrest := ih (h.step he)
    rw [List.append_assoc, List.append_assoc] at hrest
    rw [List.foldl_cons, List.map_cons]
    have hheard : ∀ (fate : LineFate) (fates : List LineFate),
        LineFate.heard (fate :: fates) = fate.heard?.toList ++ LineFate.heard fates := by
      intro fate fates
      cases fate <;> rfl
    have hfields : ∀ (fate : LineFate) (fates : List LineFate),
        LineFate.fields (fate :: fates) = fate.field?.toList ++ LineFate.fields fates := by
      intro fate fates
      cases fate <;> rfl
    rwa [hheard, hfields]

end Tells

end Run

namespace Supervisor

end Supervisor

end StillVideo
