import StillVideo.Proofs.ProjectCalls

/-!
# Faults of reading a project

A project file is refused with a reason, or a value in it has no result where it is read. This file
names the values of the second kind (`ProjectFile.Culprit`), and shows that nothing else makes the
reading end in a fault that the program does not explain (`Project.dueTo_load`).
-/

namespace StillVideo

/-- A computation that gives a result, or ends in a fault that the program explains or that has a
cause. -/
def DueTo {α : Type} (Cause : Fault → Prop) (r : Except Fault α) : Prop :=
  ∀ f, r = .error f → f.isExplained = true ∨ Cause f

namespace DueTo

variable {α β : Type} {Cause Cause' : Fault → Prop}

theorem ok (a : α) : DueTo Cause (.ok a) := fun _ h => absurd h (by simp)

theorem refuse (r : Refusal) : DueTo (α := α) Cause (StillVideo.refuse r) := by
  rintro f h
  obtain rfl := Except.error.inj h
  exact .inl rfl

theorem error {f : Fault} (h : Cause f) : DueTo (α := α) Cause (.error f) := by
  rintro g hg
  obtain rfl := Except.error.inj hg
  exact .inr h

theorem mono {r : Except Fault α} (h : DueTo Cause r) (hcause : ∀ f, Cause f → Cause' f) :
    DueTo Cause' r := fun f hf => (h f hf).imp_right (hcause f)

/-- A fault is the same whatever the result would have been. -/
theorem retype {f : Fault} (h : DueTo (α := α) Cause (.error f)) :
    DueTo (α := β) Cause (.error f) :=
  fun e he => h e (congrArg Except.error (Except.error.inj he))

theorem bind {x : Except Fault α} {g : α → Except Fault β} (hx : DueTo Cause x)
    (hg : ∀ a, x = .ok a → DueTo Cause (g a)) : DueTo Cause (x >>= g) := by
  cases x with
  | ok a => exact hg a rfl
  | error f => exact hx.retype

theorem refuseBind (r : Refusal) (g : α → Except Fault β) :
    DueTo Cause (StillVideo.refuse r >>= g) :=
  (DueTo.refuse r).bind fun _ h => absurd h (by simp [StillVideo.refuse])

theorem map {x : Except Fault α} (hx : DueTo Cause x) (g : α → β) : DueTo Cause (g <$> x) := by
  rw [map_eq_pure_bind]
  exact hx.bind fun a _ => .ok (g a)

theorem mapM {g : α → Except Fault β} {as : List α} (h : ∀ a ∈ as, DueTo Cause (g a)) :
    DueTo Cause (as.mapM g) := by
  induction as with
  | nil => exact .ok []
  | cons a as ih =>
    rw [List.mapM_cons]
    refine (h a List.mem_cons_self).bind fun b _ => ?_
    refine (ih fun a ha => h a (List.mem_cons_of_mem _ ha)).bind fun bs _ => ?_
    exact .ok (b :: bs)

end DueTo

/-- What a machine withholds from a later step, it has withheld from the start. -/
theorem Machine.SameHost.dueTo {α : Type} {Cause : Fault → Prop} {r : Except Fault α}
    {m m' : Machine} (h : m.SameHost m')
    (hr : DueTo (fun f => (∃ g, f = .host g ∧ m'.Withholds g) ∨ Cause f) r) :
    DueTo (fun f => (∃ g, f = .host g ∧ m.Withholds g) ∨ Cause f) r := by
  refine hr.mono fun f hf => hf.imp_left ?_
  rintro ⟨g, rfl, hg⟩
  exact ⟨g, rfl, h.withholds hg⟩

namespace Job

variable {α β : Type} {Cause : Fault → Prop} {m : Machine}

/-- A job on a machine that gives a result, or ends in a fault that the program explains, that the
machine withholds something for, or that has a cause. What the machine withholds stays the same. -/
structure DueTo (Cause : Fault → Prop) (j : Job α) (m : Machine) : Prop where
  fault : StillVideo.DueTo (fun f => (∃ g, f = .host g ∧ m.Withholds g) ∨ Cause f) (j m).1
  host : m.SameHost (j m).2

theorem DueTo.of_eq {j : Job α} {r : Except Fault α} {m' : Machine} (hj : j m = (r, m'))
    (hr : StillVideo.DueTo (fun f => (∃ g, f = .host g ∧ m.Withholds g) ∨ Cause f) r)
    (hm : m.SameHost m') : DueTo Cause j m := by
  constructor <;> rw [hj]
  exacts [hr, hm]

/-- The machine has no part in a job that only looks at it. -/
theorem dueTo_of_eq {j : Job α} {r : Except Fault α} (hj : j m = (r, m))
    (h : StillVideo.DueTo Cause r) : DueTo Cause j m :=
  .of_eq hj (h.mono fun _ => .inr) (.refl m)

theorem dueTo_pure (a : α) : DueTo Cause (pure a) m := dueTo_of_eq rfl (.ok a)

theorem dueTo_refuse (r : Refusal) : DueTo Cause (Job.refuse r : Job α) m :=
  dueTo_of_eq rfl (.refuse r)

theorem ofExcept_eq (r : Except Fault α) (m : Machine) : ofExcept r m = (r, m) := by
  cases r <;> rfl

theorem dueTo_ofExcept {r : Except Fault α} (h : StillVideo.DueTo Cause r) :
    DueTo Cause (ofExcept r) m := dueTo_of_eq (ofExcept_eq r m) h

theorem dueTo_note (e : Event) : DueTo Cause (note e) m := ⟨.ok (), m.sameHost_note e⟩

theorem dueTo_modify {g : Machine → Machine} (h : m.SameHost (g m)) :
    DueTo Cause (modify g : Job Unit) m := ⟨.ok (), h⟩

/-- The only reason not to do what an event says is that the system refuses it. -/
theorem dueTo_act (e : Event) : DueTo Cause (act e) m := by
  constructor <;> rw [act_eq] <;> cases h : m.refuses e with
  | none => first | exact .ok () | exact m.sameHost_note e
  | some f => first | exact .error (.inl ⟨f, rfl, .inl ⟨e, h⟩⟩) | exact .refl m

theorem dueTo_attempt (e : Event) : DueTo Cause (attempt e) m := by
  constructor <;> rw [attempt_eq] <;> cases h : m.refuses e with
  | none => first | exact .ok () | exact m.sameHost_note e
  | some f => first | exact .error (.inl ⟨f, rfl, .inl ⟨e, h⟩⟩) | exact m.sameHost_note e

/-- A job is accounted for step by step, each step on the machine that the one before has left. -/
theorem DueTo.bind {x : Job α} {g : α → Job β} (hx : DueTo Cause x m)
    (hg : ∀ a m', x m = (.ok a, m') → DueTo Cause (g a) m') : DueTo Cause (x >>= g) m := by
  obtain ⟨hfault, hhost⟩ := hx
  rcases h : x m with ⟨f | a, m'⟩ <;> rw [h] at hfault hhost
  · exact .of_eq (bind_of_error h) hfault.retype hhost
  · obtain ⟨hfault', hhost'⟩ := hg a m' h
    constructor <;> rw [bind_of_ok h]
    · exact hhost.dueTo hfault'
    · exact hhost.trans hhost'

theorem DueTo.mono {Cause' : Fault → Prop} {j : Job α} (h : DueTo Cause j m)
    (hcause : ∀ f, Cause f → Cause' f) : DueTo Cause' j m :=
  ⟨h.fault.mono fun f hf => hf.imp_right (hcause f), h.host⟩

theorem DueTo.machine {g : Machine → Job β} (h : DueTo Cause (g m) m) :
    DueTo Cause (Job.machine >>= g) m := by
  constructor <;> rw [machine_bind]
  exacts [h.fault, h.host]

/-- A job that only looks at the machine and gives a result, or ends in a fault that the program
explains or that has a cause. -/
def SeesDueTo (Cause : Fault → Prop) (j : Job α) (m : Machine) : Prop :=
  ∃ r, j m = (r, m) ∧ StillVideo.DueTo Cause r

theorem sees_pure (a : α) : SeesDueTo Cause (pure a) m := ⟨.ok a, rfl, .ok a⟩

theorem sees_refuse (r : Refusal) : SeesDueTo Cause (Job.refuse r : Job α) m :=
  ⟨.error (.refused r), rfl, .refuse r⟩

theorem sees_ofExcept {r : Except Fault α} (h : StillVideo.DueTo Cause r) :
    SeesDueTo Cause (ofExcept r) m := ⟨r, ofExcept_eq r m, h⟩

namespace SeesDueTo

theorem dueTo {j : Job α} (h : SeesDueTo Cause j m) : DueTo Cause j m := by
  obtain ⟨r, hj, hr⟩ := h
  exact dueTo_of_eq hj hr

theorem bind {x : Job α} {g : α → Job β} (hx : SeesDueTo Cause x m)
    (hg : ∀ a, SeesDueTo Cause (g a) m) : SeesDueTo Cause (x >>= g) m := by
  obtain ⟨⟨f⟩ | ⟨a⟩, hx, hr⟩ := hx
  · exact ⟨.error f, bind_of_error hx, hr.retype⟩
  · obtain ⟨r, hg, hr⟩ := hg a
    exact ⟨r, (bind_of_ok hx).trans hg, hr⟩

theorem machine {g : Machine → Job β} (h : SeesDueTo Cause (g m) m) :
    SeesDueTo Cause (Job.machine >>= g) m := by
  obtain ⟨r, hg, hr⟩ := h
  exact ⟨r, machine_bind.trans hg, hr⟩

theorem value {a : α} {g : α → Job β} (h : SeesDueTo Cause (g a) m) :
    SeesDueTo Cause (ofExcept (.ok a) >>= g) m := by
  obtain ⟨r, hg, hr⟩ := h
  exact ⟨r, ofExcept_ok_bind.trans hg, hr⟩

end SeesDueTo

/-- The machine has no part in a step that only computes. -/
theorem DueTo.except {r : Except Fault α} {g : α → Job β} (hr : StillVideo.DueTo Cause r)
    (hg : ∀ a, r = .ok a → DueTo Cause (g a) m) : DueTo Cause (ofExcept r >>= g) m := by
  refine (dueTo_ofExcept hr).bind fun a m' h => ?_
  obtain ⟨ha, rfl⟩ := ofExcept_eq_ok_iff.mp h
  exact hg a ha

theorem DueTo.value {a : α} {g : α → Job β} (h : DueTo Cause (g a) m) :
    DueTo Cause (ofExcept (.ok a) >>= g) m := by
  constructor <;> rw [ofExcept_ok_bind]
  exacts [h.fault, h.host]

theorem dueTo_refuse_bind (r : Refusal) (g : α → Job β) : DueTo Cause (Job.refuse r >>= g) m :=
  dueTo_of_eq (bind_of_error (x := Job.refuse r) rfl) (.refuse r)

theorem requirePath_eq (path : String) (m : Machine) : requirePath path m =
    (if m.pathExists path then .ok () else StillVideo.refuse (.fileNotFound path), m) := by
  unfold requirePath
  rw [machine_bind]
  cases m.pathExists path <;> rfl

theorem dueTo_requirePath (path : String) : DueTo Cause (requirePath path) m := by
  refine dueTo_of_eq (requirePath_eq path m) ?_
  split
  · exact .ok ()
  · exact .refuse (.fileNotFound path)

theorem dueTo_print (line : String) : DueTo Cause (print line) m := dueTo_act _

theorem dueTo_printLoud (line : String) : DueTo Cause (printLoud line) m := by
  unfold printLoud
  refine .machine ?_
  split
  · exact dueTo_print line
  · exact dueTo_pure ()

theorem dueTo_makeDirectories (path : String) : DueTo Cause (makeDirectories path) m :=
  (dueTo_act _).bind fun _ m' _ => dueTo_modify (m'.sameHost_withDirectory path)

theorem dueTo_makeTemporary (lead : String) (parent : Option String) :
    DueTo Cause (makeTemporary lead parent) m :=
  (dueTo_act _).bind fun _ m' _ =>
    (dueTo_modify (m'.sameHost_withDirectory _)).bind fun _ _ _ => dueTo_pure _

theorem dueTo_removeTree (path : String) : DueTo Cause (removeTree path) m :=
  (dueTo_note _).bind fun _ m' _ => dueTo_modify (m'.sameHost_withoutTree path)

theorem dueTo_writeText (path text : String) : DueTo Cause (writeText path text) m := by
  have hleft : ∀ text, m.SameHost ((m.note (.wrote path text)).withFile path (.text text)) :=
    fun text => (m.sameHost_note _).trans (Machine.sameHost_withFile _ _ _)
  have hwrite := writeText_eq path text m
  split at hwrite
  · exact .of_eq hwrite (.ok ()) (hleft text)
  · rename_i reason hrefused
    exact .of_eq hwrite (.error (.inl ⟨.system reason, rfl, .inl ⟨_, hrefused⟩⟩)) (.refl m)
  · rename_i reason hrefused
    exact .of_eq hwrite (.error (.inl ⟨.value reason, rfl, .inl ⟨_, hrefused⟩⟩)) (hleft "")

theorem dueTo_mapM {g : α → Job β} {as : List α} (h : ∀ a ∈ as, ∀ m, DueTo Cause (g a) m) :
    DueTo Cause (as.mapM g) m := by
  induction as generalizing m with
  | nil => exact dueTo_pure []
  | cons a as ih =>
    rw [List.mapM_cons]
    refine (h a List.mem_cons_self m).bind fun b _ _ => ?_
    refine (ih fun a ha => h a (List.mem_cons_of_mem _ ha)).bind fun bs _ _ => ?_
    exact dueTo_pure (b :: bs)

theorem dueTo_foldlM {g : β → α → Job β} {as : List α}
    (h : ∀ a ∈ as, ∀ b m, DueTo Cause (g b a) m) (b : β) : DueTo Cause (as.foldlM g b) m := by
  induction as generalizing b m with
  | nil => exact dueTo_pure b
  | cons a as ih =>
    rw [List.foldlM_cons]
    refine (h a List.mem_cons_self b m).bind fun b' _ _ => ?_
    exact ih (fun a ha => h a (List.mem_cons_of_mem _ ha)) b'

theorem dueTo_onFault {p : Fault → Bool} {job : Job α} {tidy : Job Unit}
    (hjob : DueTo Cause job m) (htidy : ∀ m, DueTo Cause tidy m) :
    DueTo Cause (onFault p job tidy) m := by
  obtain ⟨hfault, hhost⟩ := hjob
  rcases hresult : job m with ⟨f | a, m'⟩ <;> rw [hresult] at hfault hhost
  · obtain ⟨hgone, htidied⟩ := htidy m'
    rcases hcleaned : tidy m' with ⟨g | u, m''⟩ <;> rw [hcleaned] at hgone htidied <;>
      cases hp : p f
    · exact .of_eq (by simp [onFault, hresult, hp]) hfault hhost
    · exact .of_eq (by simp [onFault, hresult, hp, hcleaned]) (hhost.dueTo hgone.retype)
        (hhost.trans htidied)
    · exact .of_eq (by simp [onFault, hresult, hp]) hfault hhost
    · exact .of_eq (by simp [onFault, hresult, hp, hcleaned]) hfault (hhost.trans htidied)
  · exact .of_eq (by simp [onFault, hresult]) hfault hhost

theorem dueTo_always {job : Job α} {tidy : Job Unit} (hjob : DueTo Cause job m)
    (htidy : ∀ m, DueTo Cause tidy m) : DueTo Cause (always job tidy) m := by
  obtain ⟨hfault, hhost⟩ := hjob
  rcases hresult : job m with ⟨f | a, m'⟩ <;> rw [hresult] at hfault hhost <;>
    obtain ⟨hgone, htidied⟩ := htidy m' <;>
    rcases hcleaned : tidy m' with ⟨g | u, m''⟩ <;> rw [hcleaned] at hgone htidied
  · exact .of_eq (by simp [always, hresult, hcleaned]) (hhost.dueTo hgone.retype)
      (hhost.trans htidied)
  · exact .of_eq (by simp [always, hresult, hcleaned]) hfault (hhost.trans htidied)
  · exact .of_eq (by simp [always, hresult, hcleaned]) (hhost.dueTo hgone.retype)
      (hhost.trans htidied)
  · exact .of_eq (by simp [always, hresult, hcleaned]) hfault (hhost.trans htidied)

/-- What is tidied up afterwards does not change the result. -/
theorem always_eq_ok {job : Job α} {tidy : Job Unit} {a : α} {m' : Machine}
    (h : always job tidy m = (.ok a, m')) : ∃ m₁, job m = (.ok a, m₁) := by
  unfold always at h
  rcases hresult : job m with ⟨f | b, m₁⟩ <;> rw [hresult] at h <;> dsimp only at h <;>
    rcases htidied : tidy m₁ with ⟨g | u, m₂⟩ <;> rw [htidied] at h <;>
    have hfirst := (Prod.mk.inj h).1
  · exact absurd hfirst (by simp)
  · exact absurd hfirst (by simp)
  · exact absurd hfirst (by simp)
  · exact ⟨m₁, by rw [Except.ok.inj hfirst]⟩

/-! ## Results inside results -/

/-- A job that hands over a result of its own: the job is accounted for, and so is the fault that
the result may be. -/
structure EndsDueTo (Cause : Fault → Prop) (result : α → Except Fault β) (j : Job α) (m : Machine) :
    Prop where
  job : DueTo Cause j m
  result : ∀ a m', j m = (.ok a, m') →
    StillVideo.DueTo (fun f => (∃ g, f = .host g ∧ m.Withholds g) ∨ Cause f) (result a)

namespace EndsDueTo

variable {γ δ : Type} {result : α → Except Fault β}

theorem mono {Cause' : Fault → Prop} {j : Job α} (h : EndsDueTo Cause result j m)
    (hcause : ∀ f, Cause f → Cause' f) : EndsDueTo Cause' result j m :=
  ⟨h.job.mono hcause, fun a m' ha => (h.result a m' ha).mono fun f hf => hf.imp_right (hcause f)⟩

theorem pure {a : α} (h : StillVideo.DueTo Cause (result a)) :
    EndsDueTo Cause result (Pure.pure a) m := by
  refine ⟨dueTo_pure a, fun b m' hb => ?_⟩
  rw [← (pure_eq_ok_iff.mp hb).1]
  exact h.mono fun _ => .inr

theorem bind {x : Job γ} {g : γ → Job α} (hx : DueTo Cause x m)
    (hg : ∀ c m', x m = (.ok c, m') → EndsDueTo Cause result (g c) m') :
    EndsDueTo Cause result (x >>= g) m := by
  refine ⟨hx.bind fun c m' hc => (hg c m' hc).job, fun a m' ha => ?_⟩
  obtain ⟨c, m₁, hc, ha⟩ := bind_eq_ok_iff.mp ha
  have hhost := hx.host
  rw [hc] at hhost
  exact hhost.dueTo ((hg c m₁ hc).result a m' ha)

/-- The machine has no part in a step that only computes. -/
theorem except {r : Except Fault γ} {g : γ → Job α} (hr : StillVideo.DueTo Cause r)
    (hg : ∀ c, r = .ok c → EndsDueTo Cause result (g c) m) :
    EndsDueTo Cause result (ofExcept r >>= g) m := by
  refine bind (dueTo_ofExcept hr) fun c m' h => ?_
  obtain ⟨hc, rfl⟩ := ofExcept_eq_ok_iff.mp h
  exact hg c hc

theorem always {j : Job α} {tidy : Job Unit} (hj : EndsDueTo Cause result j m)
    (htidy : ∀ m, DueTo Cause tidy m) : EndsDueTo Cause result (Job.always j tidy) m := by
  refine ⟨dueTo_always hj.job htidy, fun a m' ha => ?_⟩
  obtain ⟨m₁, hjob⟩ := always_eq_ok ha
  exact hj.result a m₁ hjob

/-- What is made of a result keeps its fault. -/
theorem mapped {j : Job α} (hj : EndsDueTo Cause result j m) {g : α → γ}
    {result' : γ → Except Fault δ} (hg : ∀ a, ∃ k, result' (g a) = (result a).map k) :
    EndsDueTo Cause result' (j >>= fun a => Pure.pure (g a)) m := by
  refine ⟨hj.job.bind fun a _ _ => dueTo_pure (g a), fun c m' hc => ?_⟩
  obtain ⟨a, m₁, ha, hc⟩ := bind_eq_ok_iff.mp hc
  obtain ⟨k, hk⟩ := hg a
  rw [← (pure_eq_ok_iff.mp hc).1, hk]
  exact fun f hf => hj.result a m₁ ha f (eq_error_of_map_eq_error hf)

end EndsDueTo

end Job

/-! ## Values -/

namespace Document

variable {Cause : Fault → Prop}

theorem dueTo_shownText {d : Document} (h : d.isShowable = false → Cause .digitsShown) :
    DueTo Cause d.shownText := by
  unfold shownText
  split
  · exact .ok _
  · rename_i hshow
    exact .error (h (Bool.not_eq_true _ ▸ hshow))

theorem fieldOr_cases (key : String) (fields : ProjectFile.Fields) (d : Document) :
    lookup key fields = some (ProjectFile.fieldOr key fields d) ∨
      ProjectFile.fieldOr key fields d = d := by
  unfold ProjectFile.fieldOr
  cases lookup key fields with
  | some e => exact .inl rfl
  | none => exact .inr rfl

theorem lookup_of_field {key : String} {fields : ProjectFile.Fields}
    (h : (field key fields).isNull = false) : lookup key fields = some (field key fields) := by
  unfold field at h ⊢
  cases hlookup : lookup key fields with
  | some e => rfl
  | none =>
    rw [hlookup] at h
    exact absurd h (by decide)

end Document

namespace ProjectFile

variable {Cause : Fault → Prop}

theorem Base.dueTo_resolve {b : Base} {d : Document}
    (h : d.isShowable = false → Cause .digitsShown) : DueTo Cause (b.resolve d) :=
  (Document.dueTo_shownText h).bind fun _ _ => .ok _

/-- The only values that are too large for a whole number are the infinite ones. -/
theorem toWhole_range {d : Document} {f : Fault} (h : d.toWhole = .error f) (hf : f.kind = .range) :
    f = .infiniteToWhole ∧ ∃ s, d = .real (.infinite s) := by
  have htext : ∀ s literal, Document.wholeOfText s literal ≠ .error f := by
    intro s literal htext
    unfold Document.wholeOfText at htext
    split at htext
    · exact absurd htext (by simp)
    · split at htext <;> obtain rfl := Except.error.inj htext <;>
        exact absurd hf (by simp [Fault.kind])
  unfold Document.toWhole at h
  split at h
  · exact absurd h (by simp)
  · exact absurd h (by simp)
  · rename_i x
    cases x with
    | nan =>
      obtain rfl := Except.error.inj h
      exact absurd hf (by decide)
    | infinite s =>
      obtain rfl := Except.error.inj h
      exact ⟨rfl, s, rfl⟩
    | finite s u hu =>
      obtain ⟨i, hwhole⟩ : ∃ i, wholeOfReal (.finite s u hu) = .ok i := ⟨_, rfl⟩
      exact absurd (hwhole.symm.trans h) (by simp)
  · exact absurd h (htext _ _)
  · split at h
    · exact absurd h (htext _ _)
    · obtain rfl := Except.error.inj h
      exact absurd hf (by simp [Fault.kind])
  · obtain rfl := Except.error.inj h
    exact absurd hf (by simp [Fault.kind])

theorem dueTo_readExtent {d : Document}
    (h : ∀ s, d = .real (.infinite s) → Cause .infiniteToWhole) : DueTo Cause (readExtent d) := by
  unfold readExtent
  cases hwhole : d.toWhole with
  | ok i => exact .ok i
  | error f =>
    dsimp only
    split
    · rename_i hf
      obtain ⟨rfl, s, hs⟩ := toWhole_range hwhole hf
      exact .error (h s hs)
    · exact .refuse _

theorem dueTo_readPercent (d : Document) (name : String) : DueTo Cause (readPercent d name) := by
  unfold readPercent
  split
  · exact .refuse _
  · split
    · exact .refuse _
    · exact .ok d

end ProjectFile

/-! ## Times -/

namespace Decimal

theorem limit_eq_finite {s : Bool} {c : Nat} {e : Int} {d : Decimal} (h : limit s c e = .ok d) :
    ∃ s c e, d = .finite s c e := by
  unfold limit at h
  dsimp only at h
  split at h
  · exact ⟨_, _, _, (Except.ok.inj h).symm⟩
  · split at h
    · exact absurd h (by simp)
    · split at h
      · split at h
        · exact absurd h (by simp)
        · exact ⟨_, _, _, (Except.ok.inj h).symm⟩
      · exact ⟨_, _, _, (Except.ok.inj h).symm⟩

/-- A sum is never signalling. -/
theorem toBinary?_add {x y d : Decimal} (h : x.add y = .ok d) : d.toBinary? ≠ none := by
  have hlimit : ∀ {s c e}, limit s c e = .ok d → d.toBinary? ≠ none := by
    intro s c e hlimit
    obtain ⟨s, c, e, rfl⟩ := limit_eq_finite hlimit
    simp [toBinary?]
  have hzero : ∀ {t c f g}, addZero t c f g = .ok d → d.toBinary? ≠ none := by
    intro t c f g hzero
    unfold addZero at hzero
    dsimp only at hzero
    split at hzero <;> exact hlimit hzero
  have hnan : ∀ {r}, nanOperand? x y = some r → r = .ok d → d.toBinary? ≠ none := by
    intro r hr hd
    subst hd
    unfold nanOperand? at hr
    split at hr <;> simp only [Option.some.injEq, Except.ok.injEq, reduceCtorEq] at hr <;>
      subst hr <;> simp [limitPayload, toBinary?]
  unfold add at h
  split at h
  · exact hnan ‹_› h
  · split at h
    · split at h
      · obtain rfl := Except.ok.inj h
        simp [toBinary?]
      · exact absurd h (by simp)
    · obtain rfl := Except.ok.inj h
      simp [toBinary?]
    · obtain rfl := Except.ok.inj h
      simp [toBinary?]
    · split at h
      · exact hlimit h
      · split at h
        · exact hzero h
        · split at h
          · exact hzero h
          · unfold addNonzero at h
            dsimp only at h
            split at h
            · exact hlimit h
            · split at h
              · exact hlimit h
              · split at h <;> exact hlimit h
    · exact absurd h (by simp)

end Decimal

namespace Timecode

variable {Cause : Fault → Prop}

theorem dueTo_exact {r : Except DecimalFault Decimal} (h : ∀ e, r = .error e → Cause (.decimal e)) :
    DueTo Cause (exact r) := by
  cases r with
  | ok d => exact .ok d
  | error e => exact .error (h e rfl)

theorem dueTo_readPart (raw : String) (cs : List Char) : DueTo Cause (readPart raw cs) := by
  unfold readPart
  split
  · exact .ok _
  · exact .refuse _

theorem dueTo_seconds (h m s : Decimal) :
    DueTo (fun f => ∃ e, f = .decimal e) (seconds h m s) := by
  have hexact : ∀ r, DueTo (fun f => ∃ e, f = .decimal e) (exact r) := fun r =>
    dueTo_exact fun e _ => ⟨e, rfl⟩
  unfold seconds
  refine (hexact _).bind fun _ _ => (hexact _).bind fun _ _ => ?_
  exact (hexact _).bind fun _ _ => hexact _

theorem dueTo_readText (raw : String) : DueTo (fun f => ∃ e, f = .decimal e) (readText raw) := by
  unfold readText
  split
  · exact dueTo_readPart _ _
  · refine (dueTo_readPart _ _).bind fun _ _ => (dueTo_readPart _ _).bind fun _ _ => ?_
    exact dueTo_seconds _ _ _
  · refine (dueTo_readPart _ _).bind fun _ _ => (dueTo_readPart _ _).bind fun _ _ => ?_
    exact (dueTo_readPart _ _).bind fun _ _ => dueTo_seconds _ _ _
  · exact .refuse _

end Timecode

/-- A time is refused, or its parts come to no decimal. -/
theorem dueTo_readTimecode {Cause : Fault → Prop} {d : Document}
    (h : ∀ e, readTimecode d = .error (.decimal e) → Cause (.decimal e)) :
    DueTo Cause (readTimecode d) := by
  have hdecimal : DueTo (fun f => ∃ e, f = .decimal e) (readTimecode d) := by
    unfold readTimecode
    split
    · exact .refuse _
    · exact .ok _
    · split
      · exact .ok _
      · exact .refuse _
    · exact Timecode.dueTo_readText _
    · exact .refuse _
  intro f hf
  refine (hdecimal f hf).imp_right ?_
  rintro ⟨e, rfl⟩
  exact h e hf

/-! ## Clips and tracks -/

namespace ProjectFile

/-- The keys of the times of a clip. -/
def timeKeys : List String := ["start", "trim_in", "trim_out", "duration"]

/-- Why a clip cannot be read: a number in its source has too many digits, a time or the difference
of the ends of its window is beyond the limits of decimals, or a time is a signalling value. -/
inductive ClipCulprit (fields : Fields) : Fault → Prop
  | source {d : Document} (h : Document.lookup "source" fields = some d)
      (hd : d.isShowable = false) : ClipCulprit fields .digitsShown
  | time {key : String} {d : Document} {e : DecimalFault} (hkey : key ∈ timeKeys)
      (h : Document.lookup key fields = some d) (hd : readTimecode d = .error (.decimal e)) :
      ClipCulprit fields (.decimal e)
  | window {trimIn trimOut : Decimal} {e : DecimalFault}
      (hin : readTimecode (fieldOr "trim_in" fields (.int 0)) = .ok trimIn)
      (hout : readTimecode (Document.field "trim_out" fields) = .ok trimOut)
      (h : trimOut.sub trimIn = .error e) : ClipCulprit fields (.decimal e)
  | signalling {key : String} {d : Document} {t : Decimal} (hkey : key ∈ timeKeys)
      (h : Document.lookup key fields = some d) (hd : readTimecode d = .ok t)
      (ht : t.toBinary? = none) : ClipCulprit fields .signallingToReal

/-- Why a track cannot be read: one of its clips, or a volume beyond the floating numbers. -/
inductive TrackCulprit (fields : Fields) : Fault → Prop
  | clip {items : List Document} {d : Document} {clip : Fields} {f : Fault}
      (h : (fieldOr "clips" fields (.sequence [])).bare = .sequence items) (hmem : d ∈ items)
      (hd : d.bare = .mapping clip) (hclip : ClipCulprit clip f) : TrackCulprit fields f
  | volume {i : Int} (h : Document.lookup "volume" fields = some (.int i))
      (hi : (Binary64.ofInt i).isFinite = false) : TrackCulprit fields .wholeToReal

/-- Why the mapping of a project file cannot be read: a number in a text has too many digits, the
frame is infinite, or one of the tracks cannot be read. -/
inductive Culprit (fields : Fields) : Fault → Prop
  | shown {key : String} {d : Document} (hkey : key ∈ ["image", "fit"])
      (h : Document.lookup key fields = some d) (hd : d.isShowable = false) :
      Culprit fields .digitsShown
  | shownPath {key part : String} {inner : Fields} {d : Document}
      (hkey : (key, part) ∈ [("music", "file"), ("output", "dir")])
      (h : (Document.field key fields).bare = .mapping inner)
      (hpart : Document.lookup part inner = some d) (hd : d.isShowable = false) :
      Culprit fields .digitsShown
  | extent {width height : Document} {s : Bool}
      (h : (Document.field "resolution" fields).bare = .sequence [width, height])
      (hd : width = .real (.infinite s) ∨ height = .real (.infinite s)) :
      Culprit fields .infiniteToWhole
  | track {items : List Document} {d : Document} {track : Fields} {f : Fault}
      (h : (Document.field "tracks" fields).bare = .sequence items) (hmem : d ∈ items)
      (hd : d.bare = .mapping track) (htrack : TrackCulprit track f) : Culprit fields f

theorem dueTo_clipMake (source : String) (start duration trimIn : Binary64)
    (trimOut : Option Binary64) {Cause : Fault → Prop} :
    DueTo Cause (Clip.make source start duration trimIn trimOut) := by
  unfold Clip.make
  dsimp only
  split
  · split
    · split
      · split
        · exact .ok _
        · exact .refuse _
      · exact .refuse _
    · exact .refuse _
  · exact .refuse _

section

variable {fields : Fields} {b : Base}

theorem dueTo_time {key : String} (hkey : key ∈ timeKeys) :
    DueTo (ClipCulprit fields) (readTimecode (fieldOr key fields (.int 0))) := by
  refine dueTo_readTimecode fun e he => ?_
  rcases Document.fieldOr_cases key fields (.int 0) with h | h
  · exact .time hkey h he
  · rw [h] at he
    exact absurd he (by simp [readTimecode])

theorem dueTo_givenTime {key : String} (hkey : key ∈ timeKeys)
    (h : (Document.field key fields).isNull = false) :
    DueTo (ClipCulprit fields) (readTimecode (Document.field key fields)) :=
  dueTo_readTimecode fun _ he => .time hkey (Document.lookup_of_field h) he

theorem dueTo_toReal {Cause : Fault → Prop} {t : Decimal}
    (h : t.toBinary? = none → Cause .signallingToReal) : DueTo Cause (toReal t) := by
  unfold toReal
  cases ht : t.toBinary? with
  | some x => exact .ok x
  | none => exact .error (h ht)

theorem culprit_of_time {key : String} (hkey : key ∈ timeKeys) {t : Decimal}
    (h : readTimecode (fieldOr key fields (.int 0)) = .ok t) (ht : t.toBinary? = none) :
    ClipCulprit fields .signallingToReal := by
  rcases Document.fieldOr_cases key fields (.int 0) with hlookup | hlookup
  · exact .signalling hkey hlookup h ht
  · rw [hlookup] at h
    obtain rfl := Except.ok.inj h
    exact absurd ht (by simp [Decimal.ofInt, Decimal.toBinary?])

theorem culprit_of_givenTime {key : String} (hkey : key ∈ timeKeys) {t : Decimal}
    (hgiven : (Document.field key fields).isNull = false)
    (h : readTimecode (Document.field key fields) = .ok t) (ht : t.toBinary? = none) :
    ClipCulprit fields .signallingToReal :=
  .signalling hkey (Document.lookup_of_field hgiven) h ht

/-- The length of a clip is a time of it or the difference of two. -/
theorem dueTo_readLength {source : Document} {trimIn : Decimal} {trimOut : Option Decimal}
    (hsource : Document.lookup "source" fields = some source)
    (hin : readTimecode (fieldOr "trim_in" fields (.int 0)) = .ok trimIn)
    (hout : ∀ t, trimOut = some t → readTimecode (Document.field "trim_out" fields) = .ok t) :
    DueTo (ClipCulprit fields)
      (readLength source (Document.field "duration" fields) trimIn trimOut) := by
  unfold readLength
  split
  · rename_i hgiven
    exact dueTo_givenTime (by decide) (by simpa using hgiven)
  · cases trimOut with
    | some t => exact Timecode.dueTo_exact fun e he => .window hin (hout t rfl) he
    | none =>
      refine (Document.dueTo_shownText fun hshow => ?_).bind fun _ _ => .refuse _
      exact .source hsource hshow

theorem dueTo_readOptionalTime :
    DueTo (ClipCulprit fields) (readOptionalTime (Document.field "trim_out" fields)) := by
  unfold readOptionalTime
  split
  · exact .ok none
  · rename_i hgiven
    exact (dueTo_givenTime (by decide) (by simpa using hgiven)).map _

theorem readOptionalTime_eq_some {d : Document} {t : Decimal}
    (h : readOptionalTime d = .ok (some t)) : d.isNull = false ∧ readTimecode d = .ok t := by
  unfold readOptionalTime at h
  split at h
  · exact absurd h (by simp)
  · rename_i hgiven
    obtain ⟨t', ht, hsome⟩ := map_eq_ok_iff.mp h
    obtain rfl := Option.some.inj hsome
    exact ⟨by simpa using hgiven, ht⟩

/-- Of the two ways in which a clip gets its length, only a given one can be signalling. -/
theorem culprit_of_length {source : Document} {trimIn t : Decimal} {trimOut : Option Decimal}
    (h : readLength source (Document.field "duration" fields) trimIn trimOut = .ok t)
    (ht : t.toBinary? = none) : ClipCulprit fields .signallingToReal := by
  unfold readLength at h
  split at h
  · rename_i hgiven
    exact culprit_of_givenTime (by decide) (by simpa using hgiven) h ht
  · cases trimOut with
    | some trimOut =>
      cases hsub : trimOut.sub trimIn with
      | error e => exact absurd h (by simp [hsub, Timecode.exact])
      | ok d =>
        simp only [hsub, Timecode.exact, Except.ok.injEq] at h
        exact absurd ht (Decimal.toBinary?_add (h ▸ hsub))
    | none =>
      obtain ⟨_, -, h⟩ := bind_eq_ok_iff.mp h
      exact absurd h (by simp [refuse])

theorem dueTo_readClip (index : Nat) :
    DueTo (ClipCulprit fields) (readClip b index (.mapping fields)) := by
  unfold readClip
  dsimp only
  split
  · exact .refuseBind _ _
  rename_i hgiven
  have hsource := Document.lookup_of_field (by simpa using hgiven)
  refine (Base.dueTo_resolve fun hshow => .source hsource hshow).bind fun path _ => ?_
  refine (dueTo_time (by decide)).bind fun start hstart => ?_
  refine (dueTo_time (by decide)).bind fun trimIn hin => ?_
  refine dueTo_readOptionalTime.bind fun trimOut hout => ?_
  have hends : ∀ t, trimOut = some t → (Document.field "trim_out" fields).isNull = false ∧
      readTimecode (Document.field "trim_out" fields) = .ok t := fun t ht =>
    readOptionalTime_eq_some (ht ▸ hout)
  refine (dueTo_readLength hsource hin fun t ht => (hends t ht).2).bind fun duration hlength => ?_
  refine (dueTo_toReal (culprit_of_time (by decide) hstart)).bind fun _ _ => ?_
  refine (dueTo_toReal (culprit_of_length hlength)).bind fun _ _ => ?_
  refine (dueTo_toReal (culprit_of_time (by decide) hin)).bind fun _ _ => ?_
  have hlast : DueTo (ClipCulprit fields) (trimOut.mapM toReal) := by
    cases trimOut with
    | none => exact .ok none
    | some t =>
      obtain ⟨hgiven, ht⟩ := hends t rfl
      exact (dueTo_toReal (culprit_of_givenTime (by decide) hgiven ht)).map some
  exact hlast.bind fun _ _ => dueTo_clipMake _ _ _ _ _

end

/-! ## Tracks and project files -/

section

variable {fields : Fields} {b : Base}

theorem dueTo_readClips (index : Nat) {items : List Document}
    (h : (fieldOr "clips" fields (.sequence [])).bare = .sequence items) :
    DueTo (TrackCulprit fields) (readClips b index items) := by
  refine DueTo.mapM fun d hmem => ?_
  cases hd : d.bare with
  | mapping clip => exact (dueTo_readClip index).mono fun f hf => .clip h hmem hd hf
  | _ => exact .refuse _

/-- A number under the key of the volume is a floating one or may be too large to become one. -/
theorem dueTo_trackMake (clips : List Clip)
    (h : number? (fieldOr "volume" fields (.real 1)) ≠ none) :
    DueTo (TrackCulprit fields) (Track.make clips (fieldOr "volume" fields (.real 1))) := by
  have hreal : DueTo (TrackCulprit fields) (fieldOr "volume" fields (.real 1)).toReal := by
    rcases Document.fieldOr_cases "volume" fields (.real 1) with hlookup | hdefault
    · revert h hlookup
      generalize fieldOr "volume" fields (.real 1) = d
      intro h hlookup
      unfold number? at h
      split at h
      · rename_i i
        unfold Document.toReal realOfInt
        dsimp only
        split
        · exact .ok _
        · rename_i hfinite
          exact .error (.volume hlookup (by simpa using hfinite))
      · exact .ok _
      · exact absurd rfl h
    · rw [hdefault]
      exact .ok 1
  refine hreal.bind fun v _ => ?_
  split
  · exact .ok _
  · exact .refuse _

theorem dueTo_readTrack (index : Nat) :
    DueTo (TrackCulprit fields) (readTrack b index (.mapping fields)) := by
  unfold readTrack
  dsimp only
  split
  · exact .refuseBind _ _
  rename_i hvolume
  split
  · rename_i items hitems
    refine (dueTo_readClips index hitems).bind fun clips _ => dueTo_trackMake clips ?_
    simpa using hvolume
  · exact .refuse _

theorem dueTo_readTracksFrom {Cause : Fault → Prop} {items : List Document}
    (h : ∀ d ∈ items, ∀ index, DueTo Cause (readTrack b index d.bare)) (index : Nat) :
    DueTo Cause (readTracksFrom b index items) := by
  induction items generalizing index with
  | nil => exact .ok []
  | cons d rest ih =>
    refine (h d List.mem_cons_self index).bind fun track _ => ?_
    exact (ih (fun d hd => h d (List.mem_cons_of_mem _ hd)) _).bind fun tracks _ => .ok _

theorem dueTo_readTracks :
    DueTo (Culprit fields) (readTracks b (Document.field "tracks" fields).bare) := by
  cases h : (Document.field "tracks" fields).bare with
  | sequence items =>
    refine (dueTo_readTracksFrom (fun d hmem index => ?_) 1).bind fun tracks _ => .ok _
    cases hd : d.bare with
    | mapping track => exact (dueTo_readTrack index).mono fun f hf => .track h hmem hd hf
    | _ => exact .refuse _
  | _ => exact .refuse _

theorem dueTo_readPicture : DueTo (Culprit fields) (readPicture b fields) := by
  unfold readPicture
  dsimp only
  split
  · rename_i himage
    have himage := Document.lookup_of_field (by simpa using himage)
    refine (Base.dueTo_resolve fun hshow => ?_).bind fun _ _ => .ok _
    exact .shown (by decide) himage hshow
  · split
    · split
      · exact .refuse _
      · exact .ok _
    · exact .refuse _

theorem dueTo_readResolution :
    DueTo (Culprit fields) (readResolution (Document.field "resolution" fields).bare) := by
  unfold readResolution
  split
  · exact .ok _
  · rename_i w h hpair
    refine (dueTo_readExtent fun s hs => .extent hpair (.inl hs)).bind fun width _ => ?_
    refine (dueTo_readExtent fun s hs => .extent hpair (.inr hs)).bind fun height _ => ?_
    split
    · exact .refuse _
    · exact .ok _
  · exact .refuse _

theorem dueTo_readMusic :
    DueTo (Culprit fields) (readMusic b (Document.field "music" fields).bare) := by
  unfold readMusic
  split
  · exact .ok _
  · exact (Base.dueTo_resolve fun hshow => absurd hshow (by simp [Document.isShowable,
      Scalar.isShowable])).bind fun _ _ => .ok _
  · rename_i music hmusic
    dsimp only
    split
    · exact .refuseBind _ _
    rename_i hfile
    have hfile := Document.lookup_of_field (by simpa using hfile)
    refine (Base.dueTo_resolve fun hshow => ?_).bind fun path _ => ?_
    · exact .shownPath (by decide) hmusic hfile hshow
    · exact (dueTo_readPercent _ _).bind fun _ _ => .ok _
  · exact .refuse _

/-- Besides the values in the file, a path from the caller that is none is a cause. -/
theorem dueTo_readOutput (override : Document) :
    DueTo (fun f => Culprit fields f ∨ (override.isNull = false ∧ override.toPath = .error f))
      (readOutput b override (Document.field "output" fields).bare) := by
  have hname : ∀ (directory : Option String) (name : Document),
      DueTo (fun f => Culprit fields f ∨ (override.isNull = false ∧ override.toPath = .error f))
        (if override.isNull then pure (directory, name) else do
          let path ← override.toPath
          return (if (Path.dirname path).isEmpty then directory else some (Path.dirname path),
            .text (Path.basename path))) := by
    intro directory name
    split
    · exact .ok _
    · rename_i hgiven
      refine DueTo.bind (fun f hf => .inr (.inr ⟨by simpa using hgiven, hf⟩)) fun path _ => ?_
      exact .ok _
  unfold readOutput
  dsimp only
  split
  · exact hname none (Document.field "file" [])
  · rename_i inner hinner
    show DueTo _ (if (Document.field "dir" inner).isNull then _ else _)
    split
    · exact hname none (Document.field "file" inner)
    · rename_i hgiven
      have hdir := Document.lookup_of_field (by simpa using hgiven)
      refine DueTo.bind (DueTo.map (Base.dueTo_resolve fun hshow => ?_) some) fun directory _ => ?_
      · exact .inl (.shownPath (by decide) hinner hdir hshow)
      · exact hname directory (Document.field "file" inner)
  · exact .refuseBind _ _

theorem dueTo_checkRequired {Cause : Fault → Prop} : DueTo Cause (checkRequired fields) := by
  unfold checkRequired
  dsimp only
  split
  · exact .refuseBind _ _
  · split
    · exact .refuseBind _ _
    · split
      · exact .refuse _
      · exact .ok ()

theorem dueTo_ofDocument (path : String) (override : Document) :
    DueTo (fun f => Culprit fields f ∨ (override.isNull = false ∧ override.toPath = .error f))
      (ofDocument path b override (.mapping fields)) := by
  have hculprit : ∀ {α : Type} {r : Except Fault α}, DueTo (Culprit fields) r →
      DueTo (fun f => Culprit fields f ∨
        (override.isNull = false ∧ override.toPath = .error f)) r :=
    fun h => h.mono fun f => Or.inl
  have hfit : DueTo (Culprit fields) (fieldOr "fit" fields (.text "cover")).shownText := by
    refine Document.dueTo_shownText fun hshow => ?_
    rcases Document.fieldOr_cases "fit" fields (.text "cover") with h | h
    · exact .shown (by decide) h hshow
    · rw [h] at hshow
      exact absurd hshow (by decide)
  unfold ofDocument
  refine dueTo_checkRequired.bind fun _ _ => (hculprit dueTo_readPicture).bind fun _ _ => ?_
  refine (hculprit hfit).bind fun _ _ => (hculprit dueTo_readResolution).bind fun _ _ => ?_
  refine (dueTo_readPercent _ _).bind fun _ _ => (hculprit dueTo_readMusic).bind fun _ _ => ?_
  refine (hculprit dueTo_readTracks).bind fun _ _ => (dueTo_readOutput override).bind fun _ _ => ?_
  exact .ok _

end

/-- Why a project file cannot be read: its path or that of the output is none, it is a directory, it
may not be opened or is no text, its text has a scalar that does not convert, or a value in it has
no result where it is read. -/
inductive FileCulprit (file override : Document) (m : Machine) : Fault → Prop
  | path {f : Fault} (h : file.toPath = .error f) : FileCulprit file override m f
  | override {f : Fault} (h : override.isNull = false) (hf : override.toPath = .error f) :
      FileCulprit file override m f
  | directory {path : String} {g : HostFault} (hfile : file = .text path)
      (hdirectory : m.isDirectory path = true) : FileCulprit file override m (.host g)
  | unreadable {path : String} {g : HostFault} (hfile : file = .text path)
      (hcontent : m.file? path = some .unreadable) : FileCulprit file override m (.host g)
  | media {path : String} {g : HostFault} (hfile : file = .text path)
      (hcontent : m.file? path = some .media) : FileCulprit file override m (.host g)
  | conversion {path text : String} {f : Fault} (hfile : file = .text path)
      (hcontent : m.file? path = some (.text text))
      (h : Yaml.read (String.ofList (lineFeeds text.toList)) = .error (.conversion f)) :
      FileCulprit file override m f
  | value {path : String} {content : Content} {d : Document} {fields : Fields} {f : Fault}
      (hfile : file = .text path) (hcontent : m.file? path = some content)
      (hread : readContent path content = .ok d) (hd : d.bare = .mapping fields)
      (h : Culprit fields f) : FileCulprit file override m f

theorem openFile_eq_ok {m : Machine} {path : String} {content : Content}
    (h : m.openFile path = .ok content) : m.file? path = some content := by
  unfold Machine.openFile at h
  split at h
  · exact absurd h (by simp)
  · rename_i hfile
    rw [hfile, Except.ok.inj h]
  · exact absurd h (by simp)

theorem dueTo_openFile {file override : Document} {m : Machine} {path : String}
    (hfile : file = .text path) (hexists : m.pathExists path = true) :
    DueTo (FileCulprit file override m) (m.openFile path) := by
  unfold Machine.openFile
  split
  · exact .error (.unreadable hfile ‹_›)
  · exact .ok _
  · rename_i hnone
    refine .error (.directory hfile ?_)
    unfold Machine.pathExists at hexists
    rwa [hnone] at hexists

theorem dueTo_readContent {file override : Document} {m : Machine} {path : String}
    {content : Content} (hfile : file = .text path) (hopened : m.openFile path = .ok content) :
    DueTo (FileCulprit file override m) (readContent path content) := by
  have hcontent := openFile_eq_ok hopened
  unfold readContent
  cases content with
  | data d => exact .ok d
  | media => exact .error (.media hfile hcontent)
  | unreadable => exact .error (.unreadable hfile hcontent)
  | text s =>
    dsimp only
    split
    · exact .ok _
    · exact .refuse _
    · exact .error (.conversion hfile hcontent ‹_›)

/-- Reading a project file only looks at the machine. -/
theorem load_eq (file override : Document) (m : Machine) :
    load file override m = (file.toPath >>= fun path =>
      if ¬ m.pathExists path then refuse (.fileNotFound path)
      else if sizeLimit < m.size path then refuse .documentSize
      else m.openFile path >>= fun content => readContent path content >>= fun d =>
        ofDocument path ⟨Path.dirname (Path.absolute m.cwd path), m.home⟩ override d.bare, m) := by
  have hbind : ∀ {α β : Type} {r : Except Fault α} {g : α → Job β} {g' : α → Except Fault β},
      (∀ a, g a m = (g' a, m)) → (Job.ofExcept r >>= g) m = (r >>= g', m) := by
    intro α β r g g' hg
    cases r with
    | ok a => exact hg a
    | error f => rfl
  unfold load
  refine hbind fun path => ?_
  rw [Job.machine_bind]
  have hpath := Job.requirePath_eq path m
  by_cases hexists : m.pathExists path = true
  · rw [if_pos hexists] at hpath
    rw [Job.bind_of_ok hpath, if_neg (not_not.mpr hexists)]
    by_cases hsize : sizeLimit < m.size path
    · rw [if_pos hsize, if_pos hsize]
      rfl
    · rw [if_neg hsize, if_neg hsize]
      exact hbind fun content => hbind fun d => Job.ofExcept_eq _ m
  · rw [if_neg hexists] at hpath
    rw [Job.bind_of_error hpath, if_pos hexists]
    rfl

theorem dueTo_load (file override : Document) (m : Machine) :
    DueTo (FileCulprit file override m) (load file override m).1 := by
  rw [load_eq]
  refine DueTo.bind (fun f hf => .inr (.path hf)) fun path htext => ?_
  obtain rfl : file = .text path := by
    unfold Document.toPath at htext
    split at htext
    · rw [Except.ok.inj htext]
    · exact absurd htext (by simp)
  split
  · exact .refuse _
  rename_i hexists
  split
  · exact .refuse _
  refine (dueTo_openFile rfl (not_not.mp hexists)).bind fun content hopened => ?_
  refine (dueTo_readContent rfl hopened).bind fun d hread => ?_
  cases hd : d.bare with
  | mapping fields =>
    refine (dueTo_ofDocument path override).mono fun f hf => ?_
    rcases hf with hf | ⟨hgiven, hf⟩
    · exact .value rfl (openFile_eq_ok hopened) hread hd hf
    · exact .override hgiven hf
  | _ => exact .refuse _

end ProjectFile

theorem Project.load_eq (path : Document) (o : ProjectOptions) (m : Machine) :
    load path o m = ((ProjectFile.load path o.outputOverride m).1.map fun file =>
      ⟨file, o.dryRun, o.keep, o.cache, false, o.tool, none, none⟩, m) := by
  have hsame : (ProjectFile.load path o.outputOverride m).2 = m := by
    rw [ProjectFile.load_eq]
  unfold load
  rcases h : ProjectFile.load path o.outputOverride m with ⟨f | file, m'⟩ <;> rw [h] at hsame <;>
    obtain rfl : m' = m := hsame
  · exact Job.bind_of_error h
  · exact Job.bind_of_ok h

/-- **Faults of reading.** A project is read, or refused with a reason, or a value that cannot be
read is to blame. -/
theorem Project.dueTo_load (path : Document) (o : ProjectOptions) (m : Machine) :
    DueTo (ProjectFile.FileCulprit path o.outputOverride m) (Project.load path o m).1 := by
  rw [load_eq]
  intro f hf
  exact ProjectFile.dueTo_load path o.outputOverride m f (eq_error_of_map_eq_error hf)

end StillVideo
