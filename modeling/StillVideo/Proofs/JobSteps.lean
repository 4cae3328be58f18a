import StillVideo.Machine

/-!
# Steps of jobs

A job ends well exactly if all its steps do, each on the machine that the step before has left
(`Job.bind_eq_ok_iff`).
-/

namespace StillVideo

theorem ok_bind {ε α β : Type} (a : α) (f : α → Except ε β) : (Except.ok a >>= f) = f a := rfl

theorem bind_eq_ok_iff {ε α β : Type} {x : Except ε α} {f : α → Except ε β} {b : β} :
    (x >>= f) = .ok b ↔ ∃ a, x = .ok a ∧ f a = .ok b := by
  cases x <;> simp [bind, Except.bind]

theorem bind_eq_error_iff {ε α β : Type} {x : Except ε α} {f : α → Except ε β} {e : ε} :
    (x >>= f) = .error e ↔ x = .error e ∨ ∃ a, x = .ok a ∧ f a = .error e := by
  cases x <;> simp [bind, Except.bind]

theorem exists_bind_eq_ok_iff {ε α β : Type} {x : Except ε α} {f : α → Except ε β} :
    (∃ b, (x >>= f) = .ok b) ↔ ∃ a, x = .ok a ∧ ∃ b, f a = .ok b := by
  cases x <;> simp [bind, Except.bind]

theorem map_eq_ok_iff {ε α β : Type} {x : Except ε α} {f : α → β} {b : β} :
    f <$> x = .ok b ↔ ∃ a, x = .ok a ∧ f a = b := by
  cases x <;> simp [Functor.map, Except.map]

namespace Job

variable {α β : Type} {m m' : Machine}

theorem bind_of_ok {x : Job α} {f : α → Job β} {a : α} (h : x m = (.ok a, m')) :
    (x >>= f) m = f a m' := by
  simp [bind, ExceptT.bind, ExceptT.mk, ExceptT.bindCont, StateT.bind, h]

theorem bind_of_error {x : Job α} {f : α → Job β} {e : Fault} (h : x m = (.error e, m')) :
    (x >>= f) m = (.error e, m') := by
  simp only [bind, ExceptT.bind, ExceptT.mk, StateT.bind, h]
  rfl

/-- A step that looks at the machine goes on with it, on it. -/
theorem machine_bind {f : Machine → Job β} : (Job.machine >>= f) m = f m m :=
  bind_of_ok rfl

theorem ofExcept_ok_bind {a : α} {f : α → Job β} : (Job.ofExcept (.ok a) >>= f) m = f a m :=
  bind_of_ok rfl

theorem bind_eq_ok_iff {x : Job α} {f : α → Job β} {b : β} :
    (x >>= f) m = (.ok b, m') ↔ ∃ a m₁, x m = (.ok a, m₁) ∧ f a m₁ = (.ok b, m') := by
  rcases h : x m with ⟨e | a, m₁⟩
  · rw [bind_of_error h]
    constructor
    · exact fun heq => absurd (Prod.mk.inj heq).1 (by simp)
    · rintro ⟨a, _, heq, _⟩
      exact absurd (Prod.mk.inj heq).1 (by simp)
  · rw [bind_of_ok h]
    constructor
    · exact fun hf => ⟨a, m₁, rfl, hf⟩
    · rintro ⟨_, _, heq, hf⟩
      obtain ⟨ha, rfl⟩ := Prod.mk.inj heq
      rwa [Except.ok.inj ha]

theorem pure_eq_ok_iff {a b : α} : (pure a : Job α) m = (.ok b, m') ↔ a = b ∧ m = m' :=
  ⟨fun h => ⟨Except.ok.inj (Prod.mk.inj h).1, (Prod.mk.inj h).2⟩, fun ⟨h, h'⟩ => h ▸ h' ▸ rfl⟩

theorem machine_eq_ok_iff {a : Machine} : Job.machine m = (.ok a, m') ↔ m = a ∧ m = m' :=
  pure_eq_ok_iff (α := Machine)

theorem ofExcept_eq_ok_iff {r : Except Fault α} {a : α} :
    Job.ofExcept r m = (.ok a, m') ↔ r = .ok a ∧ m = m' := by
  cases r with
  | error e =>
    constructor
    · exact fun h => absurd (Prod.mk.inj h).1 (by simp)
    · exact fun h => absurd h.1 (by simp)
  | ok b => exact (pure_eq_ok_iff (a := b)).trans (by rw [Except.ok.injEq])

/-- What is refused is not done. -/
theorem act_eq (e : Event) (m : Machine) : act e m = match m.refuses e with
    | none => (.ok (), m.note e)
    | some f => (.error (.host f), m) := by
  unfold act
  cases h : m.refuses e with
  | none =>
    have hpermit : permit e m = (.ok (), m) := by
      unfold permit
      rw [h]
    rw [bind_of_ok hpermit]
    rfl
  | some f =>
    have hpermit : permit e m = (.error (.host f), m) := by
      unfold permit
      rw [h]
    rw [bind_of_error hpermit]

/-- What is refused has been tried. -/
theorem attempt_eq (e : Event) (m : Machine) : attempt e m = match m.refuses e with
    | none => (.ok (), m.note e)
    | some f => (.error (.host f), m.note e) := by
  unfold attempt
  rw [bind_of_ok (show note e m = (.ok (), m.note e) from rfl)]
  rfl

theorem makeDirectories_eq (path : String) (m : Machine) :
    makeDirectories path m = match m.refuses (.madeDirectories path) with
      | none => (.ok (), (m.note (.madeDirectories path)).withDirectory path)
      | some f => (.error (.host f), m) := by
  have hact := act_eq (.madeDirectories path) m
  unfold makeDirectories
  cases h : m.refuses (.madeDirectories path) <;> rw [h] at hact
  · rw [bind_of_ok hact]
    rfl
  · rw [bind_of_error hact]

/-- The path of a fresh directory for temporary files. -/
def temporaryPath (lead : String) (parent : Option String) : String :=
  (match parent with
    | some p => if p.isEmpty then "/tmp" else p
    | none => "/tmp") ++ "/" ++ lead ++ "XXXXXXXX"

theorem makeTemporary_eq (lead : String) (parent : Option String) (m : Machine) :
    makeTemporary lead parent m =
      match m.refuses (.madeTemporary (temporaryPath lead parent)) with
      | none => (.ok (temporaryPath lead parent),
          (m.note (.madeTemporary (temporaryPath lead parent))).withDirectory
            (temporaryPath lead parent))
      | some f => (.error (.host f), m) := by
  have hact := act_eq (.madeTemporary (temporaryPath lead parent)) m
  unfold makeTemporary
  cases h : m.refuses (.madeTemporary (temporaryPath lead parent)) <;> rw [h] at hact
  · exact bind_of_ok hact
  · exact bind_of_error hact

/-- A text that cannot be written leaves an empty file behind; what the system does not write at all
leaves none. -/
theorem writeText_eq (path text : String) (m : Machine) :
    writeText path text m = match m.refuses (.wrote path text) with
      | none => (.ok (), (m.note (.wrote path text)).withFile path (.text text))
      | some (.system reason) => (.error (.host (.system reason)), m)
      | some (.value reason) =>
        (.error (.host (.value reason)), (m.note (.wrote path "")).withFile path (.text "")) := by
  unfold writeText
  cases m.refuses (.wrote path text) with
  | none => rfl
  | some f => cases f <;> rfl

end Job

namespace Machine

/-! ## What stays the same -/

/-- Two machines whose system refuses the same, which are quiet or not, and whose encoder behaves in
the same way. -/
structure SameHost (m m' : Machine) : Prop where
  refuses : m'.refuses = m.refuses
  quiet : m'.quiet = m.quiet
  encoder : m'.encoder = m.encoder

theorem SameHost.refl (m : Machine) : m.SameHost m := ⟨rfl, rfl, rfl⟩

theorem SameHost.trans {m m' m'' : Machine} (h : m.SameHost m') (h' : m'.SameHost m'') :
    m.SameHost m'' :=
  ⟨h'.refuses.trans h.refuses, h'.quiet.trans h.quiet, h'.encoder.trans h.encoder⟩

theorem sameHost_note (m : Machine) (e : Event) : m.SameHost (m.note e) := ⟨rfl, rfl, rfl⟩

theorem sameHost_withDirectory (m : Machine) (path : String) :
    m.SameHost (m.withDirectory path) := by
  unfold withDirectory
  constructor <;> dsimp only

theorem sameHost_withFile (m : Machine) (path : String) (content : Content) :
    m.SameHost (m.withFile path content) := by
  have h := m.sameHost_withDirectory (Path.dirname (m.key path))
  unfold withFile
  constructor <;> dsimp only
  · exact h.refuses
  · exact h.quiet
  · exact h.encoder

theorem sameHost_withoutTree (m : Machine) (path : String) :
    m.SameHost (m.withoutTree path) := by
  unfold withoutTree
  constructor <;> dsimp only

end Machine

/-- A machine with nothing on it. -/
def Machine.bare : Machine where
  cwd := "/"
  home := "/"
  environment := []
  now := ⟨2024, 1, 1, 0, 0, 0⟩
  clock := 0
  files := []
  directories := []
  sizes := []
  onPath := none
  bundled := .ok none
  banners := []
  joiner := ⟨0, true, 0⟩
  encoder := .missing ""
  token := ⟨false, []⟩
  quiet := false
  record := []

end StillVideo
