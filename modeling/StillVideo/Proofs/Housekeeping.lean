import StillVideo.Proofs.RecordedEvents

/-!
# Housekeeping

Validating a project and tidying up only keep house: they make and remove directories, draw a
picture and note it down, and leave the rest of the machine as it is
(`ProjectJob.validate_keepsHouse`).
-/

namespace StillVideo

/-- The event tells of directories, of a picture or of a printed line. -/
def Event.isHousekeeping : Event → Bool
  | .madeDirectories _ | .madeTemporary _ | .removedTree _ | .drew .. | .printed _ => true
  | _ => false

namespace Machine

/-- From one machine to the next, nothing has changed but files and directories, and only
housekeeping has been noted down. -/
def KeepsHouse (m m' : Machine) : Prop :=
  ∃ files directories events, m' = { m with files, directories, record := events ++ m.record } ∧
    ∀ ev ∈ events, ev.isHousekeeping = true

instance : IsPreorder Machine KeepsHouse where
  refl m := ⟨m.files, m.directories, [], rfl, List.forall_mem_nil _⟩
  trans := by
    rintro m _ _ ⟨_, _, events, rfl, hevents⟩ ⟨files, directories, events', rfl, hevents'⟩
    refine ⟨files, directories, events' ++ events, by rw [List.append_assoc], ?_⟩
    exact List.forall_mem_append.mpr ⟨hevents', hevents⟩

theorem keepsHouse_note (m : Machine) {e : Event} (he : e.isHousekeeping = true) :
    m.KeepsHouse (m.note e) :=
  ⟨m.files, m.directories, [e], rfl, List.forall_mem_singleton.mpr he⟩

theorem keepsHouse_withDirectory (m : Machine) (path : String) :
    m.KeepsHouse (m.withDirectory path) :=
  ⟨m.files, (m.withDirectory path).directories, [], rfl, List.forall_mem_nil _⟩

theorem keepsHouse_withFile (m : Machine) (path : String) (content : Content) :
    m.KeepsHouse (m.withFile path content) := by
  refine ⟨(m.withFile path content).files, (m.withFile path content).directories, [], ?_,
    List.forall_mem_nil _⟩
  unfold withFile withDirectory
  rfl

theorem keepsHouse_withoutTree (m : Machine) (path : String) :
    m.KeepsHouse (m.withoutTree path) :=
  ⟨(m.withoutTree path).files, (m.withoutTree path).directories, [], rfl, List.forall_mem_nil _⟩

theorem keepsHouse_withLine (m : Machine) (line : String) : m.KeepsHouse (m.withLine line) := by
  unfold withLine
  split
  · exact refl_of KeepsHouse m
  · exact keepsHouse_note m rfl

/-- Housekeeping has no part in what is looked for among other events. -/
theorem KeepsHouse.gained {α : Type} {m m' : Machine} (h : m.KeepsHouse m')
    {f : Event → Option α} (hf : ∀ ev, ev.isHousekeeping = true → f ev = none) :
    Gained f m m' [] := by
  obtain ⟨_, _, events, rfl, hevents⟩ := h
  exact gained_nothing events rfl fun ev hev => hf ev (hevents ev hev)

end Machine

variable {w w' : Production}

open Machine (KeepsHouse)

theorem Production.keepsHouse_tidied (w : Production) : w.machine.KeepsHouse w.tidied.machine := by
  unfold Production.tidied
  split
  · exact trans_of KeepsHouse (Machine.keepsHouse_note w.machine rfl)
      (Machine.keepsHouse_withoutTree _ _)
  · exact refl_of KeepsHouse _

theorem Production.keepsHouse_drawn (w : Production) (directory picture : String) :
    w.machine.KeepsHouse (w.drawn directory picture).machine :=
  trans_of KeepsHouse (Machine.keepsHouse_note w.machine rfl) (Machine.keepsHouse_withFile _ _ _)

namespace ProjectJob

theorem keepsHouse_requireCache {directory : String} (h : requireCache w = (.ok directory, w')) :
    w.machine.KeepsHouse w'.machine := by
  have hmade : ∀ (e : Event) (path : String), e.isHousekeeping = true →
      w.machine.KeepsHouse ((w.machine.note e).withDirectory path) := fun e path he =>
    trans_of KeepsHouse (Machine.keepsHouse_note w.machine he)
      (Machine.keepsHouse_withDirectory _ path)
  rcases requireCache_eq_ok h with ⟨-, rfl⟩ | ⟨given, rfl⟩
  · exact hmade _ _ rfl
  · dsimp only
    split
    · exact refl_of KeepsHouse _
    · exact hmade _ _ rfl

theorem keepsHouse_buildSession (w : Production) :
    w.machine.KeepsHouse (buildSession w).2.machine :=
  buildSession_invariant (P := fun w' => w.machine.KeepsHouse w'.machine)
    (refl_of KeepsHouse _) keepsHouse_requireCache
    fun _ _ h => trans_of KeepsHouse h (Production.keepsHouse_drawn _ _ _)

/-- However it ends, a validation only keeps house. -/
theorem keepsHouse_validate (w : Production) : w.machine.KeepsHouse (validate w).2.machine := by
  cases hsession : w.project.session with
  | some s =>
    rw [validate_of_some hsession]
    exact refl_of KeepsHouse _
  | none =>
    have hbuild := keepsHouse_buildSession w
    rw [validate_of_none hsession]
    rcases h : buildSession w with ⟨f | s, w'⟩ <;> rw [h] at hbuild
    · dsimp only
      split
      · exact trans_of KeepsHouse hbuild w'.keepsHouse_tidied
      · exact hbuild
    · exact hbuild

end ProjectJob

end StillVideo
