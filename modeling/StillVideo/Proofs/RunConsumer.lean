import StillVideo.Proofs.RunSamples

/-!
# What a consumer receives

Between steps, a consumer has received all samples that the run has published, or those up to the
first on which it failed (`Run.Served`, `Run.Served.foldl_step`). Its failure stops nothing but
itself: the control goes as with a consumer that only stops listening (`Run.Twins.foldl_step`).
-/

namespace StillVideo

namespace Consumer

/-- The consumer, which has received some samples before, fails on none of the samples. -/
def Accepts (f : Consumer) (before samples : List Sample) : Prop :=
  ∀ k < samples.length, (f (before ++ samples.take (k + 1))).failure = none

instance (f : Consumer) (before samples : List Sample) : Decidable (f.Accepts before samples) := by
  unfold Accepts
  infer_instance

/-- The consumer fails on the sample at a position, the first on which it does. -/
def FailsAt (f : Consumer) (before samples : List Sample) (n : Nat) : Prop :=
  n < samples.length ∧ f.Accepts before (samples.take n) ∧
    (f (before ++ samples.take (n + 1))).failure ≠ none

/-- The consumer that does what `f` does but never fails: where `f` would have failed, it stops
listening. -/
def silenced (f : Consumer) (before : List Sample) : Consumer := fun received =>
  ⟨f.Accepts before ((received.drop before.length).dropLast) && (f received).cancels, none⟩

variable {f : Consumer} {before samples : List Sample}

theorem accepts_nil : f.Accepts before [] := fun _ h => absurd h (Nat.not_lt_zero _)

theorem accepts_append_singleton {s : Sample} :
    f.Accepts before (samples ++ [s]) ↔
      f.Accepts before samples ∧ (f (before ++ (samples ++ [s]))).failure = none := by
  have hlen : (samples ++ [s]).length = samples.length + 1 := by simp
  have hall : (samples ++ [s]).take (samples.length + 1) = samples ++ [s] :=
    List.take_of_length_le (by omega)
  have hfront : ∀ k < samples.length, (samples ++ [s]).take (k + 1) = samples.take (k + 1) :=
    fun k hk => List.take_append_of_le_length (by omega)
  constructor
  · intro h
    refine ⟨fun k hk => ?_, ?_⟩
    · rw [← hfront k hk]
      exact h k (by omega)
    · rw [← hall]
      exact h samples.length (by omega)
  · rintro ⟨h, hs⟩ k hk
    by_cases hlt : k < samples.length
    · rw [hfront k hlt]
      exact h k hlt
    · have heq : k = samples.length := by omega
      rw [heq, hall]
      exact hs

theorem FailsAt.append {n : Nat} (h : f.FailsAt before samples n) (s : Sample) :
    f.FailsAt before (samples ++ [s]) n := by
  obtain ⟨hn, ha, hf⟩ := h
  refine ⟨by rw [List.length_append]; omega, ?_, ?_⟩
  · rwa [List.take_append_of_le_length (by omega)]
  · rwa [List.take_append_of_le_length (by omega)]

theorem FailsAt.not_accepts {n : Nat} (h : f.FailsAt before samples n) :
    ¬ f.Accepts before samples := fun ha => h.2.2 (ha n h.1)

theorem failsAt_append_singleton {s : Sample} (h : f.Accepts before samples)
    (hf : (f (before ++ (samples ++ [s]))).failure ≠ none) :
    f.FailsAt before (samples ++ [s]) samples.length := by
  refine ⟨by simp, ?_, ?_⟩
  · rwa [List.take_append_of_le_length (Nat.le_refl _), List.take_length]
  · rwa [List.take_of_length_le (by simp)]

theorem silenced_append_singleton {s : Sample} :
    f.silenced before (before ++ (samples ++ [s])) =
      ⟨f.Accepts before samples && (f (before ++ (samples ++ [s]))).cancels, none⟩ := by
  unfold silenced
  rw [List.drop_left, List.dropLast_concat]

theorem silenced_accepts : (f.silenced before).Accepts before samples := fun _ _ => rfl

end Consumer

namespace Run

/-! ## Serving -/

/-- A consumer that gets a sample: it has received it, may cancel the run, and then finishes or
fails. -/
theorem consume_eq {r : Run} {f : Consumer} (h : r.observers.consumer = some f) (s : Sample) :
    (r.consume s).observers.consumer = some f ∧
    (r.consume s).observers.received = r.observers.received ++ [s] ∧
    (r.consume s).control =
      (if (f (r.observers.received ++ [s])).cancels then r.control.cancel else r.control) ∧
    (r.consume s).channel = (match (f (r.observers.received ++ [s])).failure with
      | none => r.channel.act .finish
      | some reason => r.channel.act (.fail reason)) := by
  have hreaction : ({ r with observers.received := r.observers.received ++ [s] } : Run).reaction =
      f (r.observers.received ++ [s]) := by
    unfold reaction
    rw [h]
  unfold consume
  dsimp only
  rw [hreaction]
  generalize f (r.observers.received ++ [s]) = reaction
  obtain ⟨cancels, _ | reason⟩ := reaction
  · cases cancels
    · exact ⟨h, rfl, rfl, rfl⟩
    · exact ⟨h, rfl, rfl, rfl⟩
  · dsimp only
    generalize hr' : (if cancels = true
      then Run.cancel { r with observers.received := r.observers.received ++ [s] }
      else { r with observers.received := r.observers.received ++ [s] } : Run) = r'
    have hcancelled : r'.control = (if cancels = true then r.control.cancel else r.control) ∧
        r'.channel = r.channel ∧ r'.observers.consumer = r.observers.consumer ∧
        r'.observers.received = r.observers.received ++ [s] := by
      rw [← hr']
      cases cancels <;> exact ⟨rfl, rfl, rfl, rfl⟩
    obtain ⟨hcontrol, hchannel, hconsumer, hreceived⟩ := hcancelled
    obtain ⟨hchannel', hconsumer', hreceived'⟩ := consumer_record
      { r' with channel := r'.channel.act (.fail reason) } .errors (Channel.failureNote reason)
    refine ⟨hconsumer'.trans (hconsumer.trans h), hreceived'.trans hreceived,
      (control_record _ _ _).trans hcontrol, hchannel'.trans ?_⟩
    exact congrArg (Channel.act · (.fail reason)) hchannel

/-- A consumer that had received `before` when the run began is served with the samples: it has
received all of them and waits for more, or those up to the first on which it failed. -/
inductive Served (f : Consumer) (before samples : List Sample) (r : Run) : Prop
  | all (consumer : r.observers.consumer = some f)
      (received : r.observers.received = before ++ samples)
      (channel : r.channel = ⟨none, false, .waiting, samples⟩)
      (accepts : f.Accepts before samples)
  | failed (n : Nat) (value : Sample) (reason : String) (pending : Option Sample)
      (consumer : r.observers.consumer = some f)
      (received : r.observers.received = before ++ samples.take (n + 1))
      (channel : r.channel = ⟨pending, false, .failed value reason, samples.take n⟩)
      (value_eq : samples[n]? = some value)
      (fails : f.FailsAt before samples n)

namespace Served

variable {f : Consumer} {before samples : List Sample} {r : Run}

/-- What a consumer is served with depends on the channel and on what observers are and got. -/
theorem congr {r' : Run} (h : Served f before samples r) (hchannel : r'.channel = r.channel)
    (hconsumer : r'.observers.consumer = r.observers.consumer)
    (hreceived : r'.observers.received = r.observers.received) :
    Served f before samples r' := by
  cases h with
  | all consumer received channel accepts =>
    exact .all (hconsumer.trans consumer) (hreceived.trans received)
      (hchannel.trans channel) accepts
  | failed n value reason pending consumer received channel value_eq fails =>
    exact .failed n value reason pending (hconsumer.trans consumer) (hreceived.trans received)
      (hchannel.trans channel) value_eq fails

theorem accepts_or_failsAt (h : Served f before samples r) :
    f.Accepts before samples ∧ r.observers.received = before ++ samples ∨
      ∃ n, f.FailsAt before samples n ∧ r.observers.received = before ++ samples.take (n + 1) := by
  cases h with
  | all consumer received channel accepts => exact .inl ⟨accepts, received⟩
  | failed n value reason pending consumer received channel value_eq fails =>
    exact .inr ⟨n, fails, received⟩

/-- A consumer that is served with samples is served with one more, or not any more. It can cancel
the run only as long as it has accepted all. -/
theorem publish (h : Served f before samples r) (s : Sample) :
    Served f before (samples ++ [s]) (r.publish s) ∧
    (r.publish s).control =
      (if f.Accepts before samples ∧ (f (before ++ (samples ++ [s]))).cancels = true then
        r.control.cancel else r.control) := by
  cases h with
  | all consumer received channel accepts =>
    have hpublish : r.publish s =
        { r with channel := ⟨none, false, .consuming s false, samples⟩ }.consume s := by
      unfold Run.publish
      rw [channel]
      rfl
    have hreceived : r.observers.received ++ [s] = before ++ (samples ++ [s]) := by
      rw [received, List.append_assoc]
    obtain ⟨hc, hr, hcontrol, hchannel⟩ := consume_eq
      (r := { r with channel := ⟨none, false, .consuming s false, samples⟩ }) consumer s
    rw [hpublish, hcontrol]
    rw [hreceived] at hr hchannel ⊢
    refine ⟨?_, by simp only [accepts, true_and]⟩
    cases hf : (f (before ++ (samples ++ [s]))).failure with
    | none =>
      rw [hf] at hchannel
      exact .all hc hr hchannel (Consumer.accepts_append_singleton.mpr ⟨accepts, hf⟩)
    | some reason =>
      rw [hf] at hchannel
      have hfails := Consumer.failsAt_append_singleton accepts (hf ▸ Option.some_ne_none reason)
      refine .failed samples.length s reason none hc ?_ ?_ (by simp) hfails
      · rw [hr, List.take_of_length_le (by simp)]
      · rw [hchannel, List.take_left]
        rfl
  | failed n value reason pending consumer received channel value_eq fails =>
    have hpublish : r.publish s =
        { r with channel := ⟨some s, false, .failed value reason, samples.take n⟩ } := by
      unfold Run.publish
      rw [channel]
      rfl
    have hn := fails.1
    rw [hpublish, if_neg fun h => fails.not_accepts h.1]
    refine ⟨?_, rfl⟩
    refine .failed n value reason (some s) consumer ?_ ?_ ?_ (fails.append s)
    · rw [List.take_append_of_le_length (by omega)]
      exact received
    · rw [List.take_append_of_le_length (by omega)]
    · rw [List.getElem?_append_left hn]
      exact value_eq

/-- A consumer is served with the samples that a report tells of. -/
theorem report (h : Served f before samples r) (rep : Report) :
    Served f before (samples ++ rep.samples) (r.report rep) := by
  cases rep with
  | nothing =>
    rw [show Report.nothing.samples = [] from rfl, List.append_nil]
    exact h
  | sample s => exact (h.publish s).1
  | line pipe text =>
    rw [show (Report.line pipe text).samples = [] from rfl, List.append_nil]
    obtain ⟨hchannel, hconsumer, hreceived⟩ := r.consumer_record pipe text
    exact h.congr hchannel hconsumer hreceived

theorem advance (h : Served f before samples r) (e : EncoderStep) (c : Control) :
    Served f before samples { r.advance e with control := c } :=
  h.congr (channel_advance r e) (congrArg Observers.consumer (observers_advance r e))
    (congrArg Observers.received (observers_advance r e))

/-- A step serves the consumer with what it publishes. -/
theorem step (h : Served f before r.control.published r) (e : EncoderStep) :
    Served f before (r.step e).control.published (r.step e) := by
  cases hread : r.control.isRead e.pipe with
  | false =>
    rw [step_of_unread hread]
    exact h
  | true =>
    rw [published_step, step_of_read hread]
    exact (h.advance e _).report _

/-- **Served consumers.** Through a whole run, a consumer is served with what is published. -/
theorem foldl_step (h : Served f before r.control.published r) (steps : List EncoderStep) :
    Served f before (steps.foldl Run.step r).control.published (steps.foldl Run.step r) := by
  induction steps generalizing r with
  | nil => exact h
  | cons e rest ih => exact ih (h.step e)

end Served

/-! ## Failing consumers -/

/-- A run that is watched by a consumer and one that is watched by the same consumer without its
failures, under one control. -/
structure Twins (f : Consumer) (before : List Sample) (r r' : Run) : Prop where
  control : r'.control = r.control
  served : Served f before r.control.published r
  served' : Served (f.silenced before) before r'.control.published r'

namespace Twins

variable {f : Consumer} {before : List Sample} {r r' : Run}

theorem step (h : Twins f before r r') (e : EncoderStep) :
    Twins f before (r.step e) (r'.step e) := by
  refine ⟨?_, h.served.step e, h.served'.step e⟩
  cases hread : r.control.isRead e.pipe with
  | false =>
    rw [step_of_unread hread, step_of_unread (h.control ▸ hread)]
    exact h.control
  | true =>
    have hserved := h.served.advance e (r.control.step e).1
    have hserved' := h.served'.advance e (r'.control.step e).1
    rw [step_of_read hread, step_of_read (h.control ▸ hread)]
    rw [h.control] at hserved' ⊢
    cases (r.control.step e).2 with
    | nothing => rfl
    | line pipe text =>
      show (record _ pipe text).control = (record _ pipe text).control
      rw [control_record, control_record]
    | sample s =>
      -- both are asked as long as the consumer has not failed, and the silenced one never is later
      refine (hserved'.publish s).2.trans (Eq.trans ?_ (hserved.publish s).2.symm)
      rw [Consumer.silenced_append_singleton]
      simp only [Consumer.silenced_accepts, true_and, Bool.and_eq_true, decide_eq_true_eq]

/-- **Failing consumers.** The control of a whole run goes as with the silenced consumer. -/
theorem foldl_step (h : Twins f before r r') (steps : List EncoderStep) :
    (steps.foldl Run.step r').control = (steps.foldl Run.step r).control := by
  induction steps generalizing r r' with
  | nil => exact h.control
  | cons e rest ih => exact ih (h.step e)

end Twins

theorem served_begin {o : Observers} {f : Consumer} (h : o.consumer = some f) (s : Supervisor)
    (m : Machine) (stubborn : Bool) :
    Served f o.received (s.begin o m stubborn).control.published (s.begin o m stubborn) := by
  have hpublished : (s.begin o m stubborn).control.published = [] :=
    (Control.start_eq _ _ _ _).2.2.2.2
  rw [hpublished]
  refine .all h (List.append_nil _).symm ?_ Consumer.accepts_nil
  show Channel.start o.consumer.isSome = _
  rw [h]
  rfl

end Run

end StillVideo
