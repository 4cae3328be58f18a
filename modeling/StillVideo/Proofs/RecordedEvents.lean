import Mathlib.Order.Defs.Unbundled
import StillVideo.FlatJob
import StillVideo.Proofs.ProjectCalls

/-!
# What jobs add to the record

A job only adds events to the record. Much of a job does no more than ask for lengths of files: the
plan of a job of whole files changes nothing but that these questions are on the record
(`FlatJob.onlyProbes_plan`).
-/

namespace StillVideo

variable {α β : Type} {m m' m'' : Machine}

namespace Machine

/-! ## New events -/

/-- From one machine to the next, the record has gained events in which `f` finds these, the latest
one first. -/
def Gained (f : Event → Option α) (m m' : Machine) (as : List α) : Prop :=
  ∃ events, m'.record = events ++ m.record ∧ events.filterMap f = as

variable {f : Event → Option α} {as bs : List α}

theorem Gained.refl (m : Machine) : Gained f m m [] := ⟨[], rfl, rfl⟩

theorem Gained.trans (h : Gained f m m' as) (h' : Gained f m' m'' bs) :
    Gained f m m'' (bs ++ as) := by
  obtain ⟨events, hrecord, rfl⟩ := h
  obtain ⟨events', hrecord', rfl⟩ := h'
  exact ⟨events' ++ events, by rw [hrecord', hrecord, List.append_assoc], List.filterMap_append⟩

theorem Gained.then_nothing (h : Gained f m m' as) (h' : Gained f m' m'' []) :
    Gained f m m'' as := h.trans h'

theorem Gained.after_nothing (h : Gained f m m' []) (h' : Gained f m' m'' as) :
    Gained f m m'' as := List.append_nil as ▸ h.trans h'

/-- Events of another kind are not found. -/
theorem gained_nothing (events : List Event) (h : m'.record = events ++ m.record)
    (hevents : ∀ ev ∈ events, f ev = none) : Gained f m m' [] :=
  ⟨events, h, List.filterMap_eq_nil_iff.mpr hevents⟩

theorem gained_nothing_of_note {ev : Event} (h : m'.record = ev :: m.record) (hev : f ev = none) :
    Gained f m m' [] :=
  gained_nothing [ev] h (by simpa using hev)

/-! ## Machines that have been asked for lengths -/

/-- From one machine to the next, nothing has happened but that lengths of files have been asked
for. -/
def Probed (m m' : Machine) : Prop :=
  ∃ probes : List (List Document), m' = { m with record := probes.map Event.probed ++ m.record }

instance : IsPreorder Machine Probed where
  refl _ := ⟨[], rfl⟩
  trans := by
    rintro m _ _ ⟨probes, rfl⟩ ⟨probes', rfl⟩
    exact ⟨probes' ++ probes, by rw [List.map_append, List.append_assoc]⟩

theorem Probed.sameFiles (h : m.Probed m') : m.SameFiles m' := by
  obtain ⟨_, rfl⟩ := h
  exact ⟨rfl, rfl, rfl⟩

theorem Probed.token (h : m.Probed m') : m'.token = m.token := by
  obtain ⟨_, rfl⟩ := h
  rfl

theorem Probed.sameHost (h : m.Probed m') : m.SameHost m' := by
  obtain ⟨_, rfl⟩ := h
  exact ⟨rfl, rfl, rfl⟩

theorem Probed.gained (h : m.Probed m') (hf : ∀ args, f (.probed args) = none) :
    Gained f m m' [] := by
  obtain ⟨probes, rfl⟩ := h
  refine gained_nothing (probes.map .probed) rfl fun ev hev => ?_
  obtain ⟨args, -, rfl⟩ := List.mem_map.mp hev
  exact hf args

end Machine

/-! ## Where jobs lead -/

namespace Job

variable {R : Machine → Machine → Prop}

/-- However the job ends, it leads from every machine to a related one. -/
def Leads (R : Machine → Machine → Prop) (job : Job α) : Prop := ∀ m, R m (job m).2

theorem Leads.mono {S : Machine → Machine → Prop} {job : Job α} (h : Leads R job)
    (hRS : ∀ m m', R m m' → S m m') : Leads S job := fun m => hRS _ _ (h m)

/-- What has been tried is on the record, whether it is refused or not. -/
theorem leads_attempt {e : Event} (h : ∀ m, R m (m.note e)) : Leads R (attempt e) := fun m => by
  rw [attempt_eq]
  cases m.refuses e <;> exact h m

variable [IsPreorder Machine R]

theorem leads_of_machine {job : Job α} (h : ∀ m, (job m).2 = m) : Leads R job := fun m => by
  rw [h m]
  exact refl_of R m

theorem leads_pure (a : α) : Leads R (pure a : Job α) := leads_of_machine fun _ => rfl

theorem leads_machine : Leads R machine := leads_of_machine fun _ => rfl

theorem leads_ofExcept (r : Except Fault α) : Leads R (ofExcept r) :=
  leads_of_machine fun _ => by cases r <;> rfl

theorem leads_refuse (r : Refusal) : Leads R (refuse r : Job α) := leads_of_machine fun _ => rfl

theorem Leads.bind {x : Job α} {f : α → Job β} (hx : Leads R x) (hf : ∀ a, Leads R (f a)) :
    Leads R (x >>= f) := by
  intro m
  have hfirst := hx m
  rcases h : x m with ⟨e | a, m'⟩ <;> rw [h] at hfirst
  · rw [bind_of_error h]
    exact hfirst
  · rw [bind_of_ok h]
    exact trans_of R hfirst (hf a m')

theorem leads_requirePath (path : String) : Leads R (requirePath path) := by
  refine leads_machine.bind fun m => ?_
  split
  · exact leads_refuse _
  · exact leads_pure _

theorem leads_requireEncoder (tool : Document) : Leads R (requireEncoder tool) :=
  leads_of_machine (requireEncoder_machine tool)

theorem leads_mapM {g : α → Job β} (h : ∀ a, Leads R (g a)) (as : List α) :
    Leads R (as.mapM g) := by
  induction as with
  | nil => exact leads_pure []
  | cons a as ih =>
    rw [List.mapM_cons]
    exact (h a).bind fun b => ih.bind fun bs => leads_pure (b :: bs)

theorem leads_foldlM {g : β → α → Job β} (h : ∀ b a, Leads R (g b a)) (as : List α) (b : β) :
    Leads R (as.foldlM g b) := by
  induction as generalizing b with
  | nil => exact leads_pure b
  | cons a as ih =>
    rw [List.foldlM_cons]
    exact (h b a).bind ih

/-- The job does nothing but ask for lengths of files. -/
abbrev OnlyProbes (job : Job α) : Prop := Leads Machine.Probed job

end Job

theorem onlyProbes_probeLength (file tool : Document) : (probeLength file tool).OnlyProbes := by
  unfold probeLength
  refine (Job.leads_ofExcept _).bind fun audio => (Job.leads_requirePath audio).bind fun _ => ?_
  refine (Job.leads_requireEncoder tool).bind fun tool => ?_
  have hattempt :
      (Job.attempt (.probed [tool, .text "-hide_banner", .text "-i", file])).OnlyProbes :=
    Job.leads_attempt fun m => ⟨[[tool, .text "-hide_banner", .text "-i", file]], rfl⟩
  refine hattempt.bind fun _ => Job.leads_machine.bind fun m => ?_
  dsimp only
  split
  · exact Job.leads_refuse _
  · split
    · exact Job.leads_refuse _
    · exact Job.leads_pure _

namespace FlatJob

theorem outputDirectory_machine (j : FlatJob) (m : Machine) : (j.outputDirectory m).2 = m := by
  have hleads : Job.Leads (fun m m' => m = m') j.outputDirectory := by
    unfold outputDirectory
    refine (Job.leads_ofExcept _).bind fun files => ?_
    split
    · exact Job.leads_refuse _
    · split
      · refine (Job.leads_ofExcept _).bind fun first => Job.leads_machine.bind fun m => ?_
        exact (Job.leads_ofExcept _).bind fun _ => Job.leads_pure _
      · exact Job.leads_pure _
  exact (hleads m).symm

theorem resolve_machine (j : FlatJob) (m : Machine) : (j.resolve m).2 = m := by
  have hleads : Job.Leads (fun m m' => m = m') j.resolve := by
    refine Job.Leads.bind (Job.leads_of_machine j.outputDirectory_machine) fun _ => ?_
    exact (Job.leads_requireEncoder _).bind fun _ => Job.leads_pure _
  exact (hleads m).symm

theorem onlyProbes_total (j : FlatJob) (files : List Document) : (j.total files).OnlyProbes := by
  unfold total
  split
  · refine Job.leads_foldlM (fun sum audio => ?_) files 0
    exact (onlyProbes_probeLength audio j.tool).bind fun _ => Job.leads_pure _
  · refine (Job.leads_ofExcept _).bind fun ds => ?_
    split
    · exact Job.leads_refuse _
    · exact Job.leads_ofExcept _

theorem onlyProbes_session (j : FlatJob) (joined : Document) : (j.session joined).OnlyProbes := by
  unfold session
  refine (Job.leads_ofExcept _).bind fun files => (Job.leads_ofExcept _).bind fun first => ?_
  refine (Job.leads_ofExcept _).bind fun audio => (j.onlyProbes_total files).bind fun total => ?_
  refine (Job.leads_ofExcept _).bind fun b => (Job.leads_ofExcept _).bind fun timeline => ?_
  exact Job.leads_of_machine (b.build_machine _ _ _)

theorem onlyProbes_sessionOfJoined (j : FlatJob) (joined : String) :
    (j.sessionOfJoined joined).OnlyProbes := by
  unfold sessionOfJoined
  split
  · exact (onlyProbes_probeLength _ _).bind fun _ => onlyProbes_session _ _
  · exact j.onlyProbes_session _

end FlatJob

end StillVideo
