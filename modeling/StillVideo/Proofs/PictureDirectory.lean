import StillVideo.Proofs.ProjectCalls

/-!
# The directory of a picture

A project without a picture draws one into a directory that it creates, and forgets that it has
created the directory when it removes it. From then on the directory is nobody's: a further
validation creates it again, and no call removes it any more (`Production.directory_removed_iff`).
-/

namespace StillVideo

open Project (ownDirectory picturePath)

/-! ## Custody -/

namespace Project

/-- A project that has just been read. -/
structure IsNew (p : Project) : Prop where
  created : p.created = false
  session : p.session = none

/-- A project that has been read is new, and has the directory and the wish that it was given. -/
theorem isNew_of_load {path : Document} {o : ProjectOptions} {m m' : Machine} {p : Project}
    (h : load path o m = (.ok p, m')) : p.IsNew ∧ p.cache = o.cache ∧ p.keep = o.keep := by
  obtain ⟨file, _, -, h⟩ := Job.bind_eq_ok_iff.mp h
  obtain ⟨rfl, -⟩ := Job.pure_eq_ok_iff.mp h
  exact ⟨⟨rfl, rfl⟩, rfl, rfl⟩

/-- The project has no session, and of its directory it only knows where it was. -/
def hasRemoved (p : Project) : Bool := p.session.isNone && !p.cache.isNull && !p.created

theorem session_of_hasRemoved {p : Project} (h : p.hasRemoved = true) : p.session = none := by
  unfold hasRemoved at h
  rw [Bool.and_eq_true, Bool.and_eq_true] at h
  exact Option.isNone_iff_eq_none.mp h.1.1

/-- The project draws its picture when it is validated. -/
def Draws (p : Project) : Prop := p.file.image = none ∧ p.file.timeline.clipCount ≠ 0

end Project

/-- How the directory of a picture stands: not created yet, there and to be removed, removed, or
there and forgotten. -/
inductive Custody
  | untouched | held | removed | stray
  deriving DecidableEq

namespace Custody

/-- After the project has tidied up. -/
def tidied : Custody → Custody
  | .held => .removed
  | c => c

/-- After the project has made sure that the directory is there. -/
def sheltered : Custody → Custody
  | .untouched => .held
  | .removed => .stray
  | c => c

theorem sheltered_cases (c : Custody) : c.sheltered = .held ∨ c.sheltered = .stray := by
  cases c <;> decide

theorem sheltered_ne_removed (c : Custody) : c.sheltered ≠ .removed := by cases c <;> decide

theorem tidied_ne_held (c : Custody) : c.tidied ≠ .held := by cases c <;> decide

theorem tidied_eq_stray_iff (c : Custody) : c.tidied = .stray ↔ c = .stray := by
  cases c <;> decide

end Custody

namespace Production

/-- The picture of the session, if there is a session, lies in the directory. -/
def Placed (w : Production) : Prop :=
  ∀ s, w.project.session = some s → ∃ t, s.image = .text (picturePath ownDirectory t)

/-- The picture of the session, if there is a session, lies in the directory and exists. -/
def Pictured (w : Production) : Prop :=
  ∀ s, w.project.session = some s → ∃ t, s.image = .text (picturePath ownDirectory t) ∧
    w.machine.pathExists (picturePath ownDirectory t) = true

/-- How the directory that a project creates for itself stands. -/
inductive HasCustody (w : Production) : Custody → Prop
  | untouched (cache : w.project.cache = .null) (created : w.project.created = false)
      (holds : w.machine.holds ownDirectory = false)
      (session : w.project.file.image = none → w.project.session = none) : HasCustody w .untouched
  | held (draws : w.project.Draws) (cache : w.project.cache = .text ownDirectory)
      (created : w.project.created = true) (holds : w.machine.holds ownDirectory = true)
      (picture : w.Pictured) : HasCustody w .held
  | removed (draws : w.project.Draws) (cache : w.project.cache = .text ownDirectory)
      (created : w.project.created = false) (holds : w.machine.holds ownDirectory = false)
      (picture : w.Placed) : HasCustody w .removed
  | stray (draws : w.project.Draws) (cache : w.project.cache = .text ownDirectory)
      (created : w.project.created = false) (holds : w.machine.holds ownDirectory = true)
      (picture : w.Pictured) : HasCustody w .stray

variable {w w' : Production} {c : Custody}

theorem Alike.pictured (h : w.Alike w') (hp : w.Pictured) : w'.Pictured := by
  obtain ⟨hfiles, supervisor, hproject⟩ := h
  intro s hs
  rw [hproject] at hs
  obtain ⟨t, himage, hexists⟩ := hp s hs
  exact ⟨t, himage, (hfiles.pathExists_eq _).trans hexists⟩

/-- The machine creates the directory when it is asked to create it by name. -/
def Remakes (w : Production) : Prop := w.machine.refuses (.madeDirectories ownDirectory) = none

/-- The directory is there, or the machine creates it when the project needs it. -/
def Shelters (w : Production) : Prop :=
  w.machine.holds ownDirectory = true ∨
    w.machine.refuses (if w.project.cache.isNull then .madeTemporary ownDirectory
      else .madeDirectories ownDirectory) = none

theorem shelters_iff_remakes (hcache : w.project.cache = .text ownDirectory)
    (hholds : w.machine.holds ownDirectory = false) : w.Shelters ↔ w.Remakes := by
  unfold Shelters Remakes
  rw [hholds, hcache]
  exact or_iff_right Bool.false_ne_true

theorem Alike.placed (h : w.Alike w') (hp : w.Placed) : w'.Placed := by
  obtain ⟨-, supervisor, hproject⟩ := h
  intro s hs
  rw [hproject] at hs
  exact hp s hs

/-- What looks the same stands the same. -/
theorem HasCustody.congr (h : w.HasCustody c) (halike : w.Alike w') : w'.HasCustody c := by
  have hholds := halike.machine.holds_eq ownDirectory
  have hpictured := halike.pictured
  have hplaced := halike.placed
  obtain ⟨supervisor, hproject⟩ := halike.project
  have hcache : w'.project.cache = w.project.cache := by rw [hproject]
  have hcreated : w'.project.created = w.project.created := by rw [hproject]
  have hfile : w'.project.file = w.project.file := by rw [hproject]
  have hsession : w'.project.session = w.project.session := by rw [hproject]
  have hdraws : w.project.Draws → w'.project.Draws := by
    unfold Project.Draws
    rw [hfile]
    exact id
  cases h with
  | untouched cache created holds session =>
    exact .untouched (hcache.trans cache) (hcreated.trans created) (hholds.trans holds)
      (by rw [hfile, hsession]; exact session)
  | held draws cache created holds picture =>
    exact .held (hdraws draws) (hcache.trans cache) (hcreated.trans created) (hholds.trans holds)
      (hpictured picture)
  | removed draws cache created holds picture =>
    exact .removed (hdraws draws) (hcache.trans cache) (hcreated.trans created)
      (hholds.trans holds) (hplaced picture)
  | stray draws cache created holds picture =>
    exact .stray (hdraws draws) (hcache.trans cache) (hcreated.trans created) (hholds.trans holds)
      (hpictured picture)

theorem session_tidied (w : Production) : w.tidied.project.session = w.project.session := by
  unfold tidied
  split <;> rfl

theorem tidied_of_not_created (h : w.project.created = false) : w.tidied = w := by
  unfold tidied
  rw [h, Bool.and_false, if_neg Bool.false_ne_true]

theorem tidied_of_keep (h : w.project.keep = true) : w.tidied = w := by
  unfold tidied
  rw [h, Bool.not_true, Bool.false_and, if_neg Bool.false_ne_true]

/-- Tidying up removes a directory that is held, and nothing else. -/
theorem HasCustody.tidied (h : w.HasCustody c) (hkeep : w.project.keep = false) :
    w.tidied.HasCustody c.tidied := by
  have hdone : w.project.created = false → w.HasCustody c → w.tidied.HasCustody c := by
    intro hcreated h
    rwa [tidied_of_not_created hcreated]
  cases h with
  | untouched cache created holds session =>
    exact hdone created (.untouched cache created holds session)
  | removed draws cache created holds picture =>
    exact hdone created (.removed draws cache created holds picture)
  | stray draws cache created holds picture =>
    exact hdone created (.stray draws cache created holds picture)
  | held draws cache created holds picture =>
    have hholds := ((w.machine.note (.removedTree ownDirectory))).holds_withoutTree ownDirectory
    rw [Project.key_ownDirectory] at hholds
    have htidied : w.tidied =
        { w with
          machine := (w.machine.note (.removedTree ownDirectory)).withoutTree ownDirectory
          project := { w.project with created := false } } := by
      unfold Production.tidied
      rw [hkeep, created, cache]
      rfl
    rw [htidied]
    refine .removed draws cache rfl hholds ?_
    intro s hs
    obtain ⟨t, himage, -⟩ := picture s hs
    exact ⟨t, himage⟩

/-! ## Validating -/

theorem holds_makeDirectory (m : Machine) (e : Event) :
    ((m.note e).withDirectory ownDirectory).holds ownDirectory = true := by
  have hkey : (m.note e).key ownDirectory ≠ "/" := by
    rw [Project.key_ownDirectory]
    decide
  have h := Machine.holds_withDirectory_self hkey
  rwa [Project.key_ownDirectory] at h

theorem HasCustody.not_draws (h : w.HasCustody c) (hdraws : ¬ w.project.Draws) :
    c = .untouched := by
  cases h with
  | untouched => rfl
  | held draws => exact absurd draws hdraws
  | removed draws => exact absurd draws hdraws
  | stray draws => exact absurd draws hdraws

theorem holds_of_pathExists_ownDirectory {m : Machine} (h : m.pathExists ownDirectory = true) :
    m.holds ownDirectory = true := by
  refine Machine.holds_of_pathExists h ?_ ?_
  · rw [Project.key_ownDirectory]
    exact Machine.isWithin_self _
  · rw [Project.key_ownDirectory]
    decide

/-- Before it draws, a project without a session makes sure that its directory is there, unless the
system does not create it. -/
theorem HasCustody.requireCache (h : w.HasCustody c) (hdraws : w.project.Draws)
    (hsession : w.project.session = none) :
    (∃ w', ProjectJob.requireCache w = (.ok ownDirectory, w') ∧ w'.HasCustody c.sheltered ∧
      w'.project.session = none ∧ w'.project.keep = w.project.keep ∧ w.Shelters) ∨
    ∃ f, ProjectJob.requireCache w = (.error (.host f), w) ∧
      (w.Shelters → w.machine.holds ownDirectory = true) := by
  have hnone : ∀ {w' : Production}, w'.project.session = none → w'.Pictured := by
    intro w' h s hs
    rw [h] at hs
    exact absurd hs (by simp)
  -- a directory that is known is there, or it is created
  have hknown : w.project.cache = .text ownDirectory →
      (w.machine.pathExists ownDirectory = true ∧
        ProjectJob.requireCache w = (.ok ownDirectory, w)) ∨
      (w.Remakes ∧ ProjectJob.requireCache w = (.ok ownDirectory, { w with
        machine := (w.machine.note (.madeDirectories ownDirectory)).withDirectory
          ownDirectory })) ∨
      ∃ f, ¬ w.Remakes ∧ ProjectJob.requireCache w = (.error (.host f), w) := by
    intro cache
    rw [ProjectJob.requireCache_of_text cache]
    unfold Remakes
    cases hexists : w.machine.pathExists ownDirectory with
    | true => exact .inl ⟨rfl, rfl⟩
    | false =>
      cases hmade : w.machine.refuses (.madeDirectories ownDirectory) with
      | none => exact .inr (.inl ⟨rfl, rfl⟩)
      | some f => exact .inr (.inr ⟨f, by simp, rfl⟩)
  cases h with
  | untouched cache created holds session =>
    rw [ProjectJob.requireCache_of_null cache]
    unfold Shelters
    rw [holds, cache]
    dsimp only [Document.isNull]
    cases hmade : w.machine.refuses (.madeTemporary ownDirectory) with
    | some f =>
      exact .inr ⟨f, rfl, fun h => h.elim id fun hnone => absurd (hmade.symm.trans hnone) (by simp)⟩
    | none =>
      refine .inl ⟨_, rfl, ?_, hsession, rfl, .inr hmade⟩
      exact .held hdraws rfl rfl (holds_makeDirectory w.machine _) (hnone hsession)
  | held draws cache created holds picture =>
    rcases hknown cache with ⟨-, heq⟩ | ⟨-, heq⟩ | ⟨f, -, heq⟩
    · refine .inl ⟨_, heq, ?_, hsession, rfl, .inl holds⟩
      exact .held hdraws cache created holds (hnone hsession)
    · refine .inl ⟨_, heq, ?_, hsession, rfl, .inl holds⟩
      exact .held hdraws cache created (holds_makeDirectory w.machine _) (hnone hsession)
    · exact .inr ⟨f, heq, fun _ => holds⟩
  | removed draws cache created holds picture =>
    rcases hknown cache with ⟨hexists, -⟩ | ⟨hremakes, heq⟩ | ⟨f, hremakes, heq⟩
    · exact absurd (holds_of_pathExists_ownDirectory hexists) (by simp [holds])
    · refine .inl ⟨_, heq, ?_, hsession, rfl, (shelters_iff_remakes cache holds).mpr hremakes⟩
      exact .stray hdraws cache created (holds_makeDirectory w.machine _) (hnone hsession)
    · exact .inr ⟨f, heq, fun h => absurd ((shelters_iff_remakes cache holds).mp h) hremakes⟩
  | stray draws cache created holds picture =>
    rcases hknown cache with ⟨-, heq⟩ | ⟨-, heq⟩ | ⟨f, -, heq⟩
    · refine .inl ⟨_, heq, ?_, hsession, rfl, .inl holds⟩
      exact .stray hdraws cache created holds (hnone hsession)
    · refine .inl ⟨_, heq, ?_, hsession, rfl, .inl holds⟩
      exact .stray hdraws cache created (holds_makeDirectory w.machine _) (hnone hsession)
    · exact .inr ⟨f, heq, fun _ => holds⟩

/-- Drawing the picture and keeping a session with it leaves a directory that is there as it
stands. -/
theorem HasCustody.drawn (h : w.HasCustody c) (hthere : c = .held ∨ c = .stray) (picture : String)
    {session : Option Session} (hs : ∀ s, session = some s →
      s.image = .text (picturePath ownDirectory w.machine.now))
    (hmachine : w'.machine = (w.drawn ownDirectory picture).machine)
    (hproject : w'.project = { w.project with session }) : w'.HasCustody c := by
  have hholds : w.machine.holds ownDirectory = true → w'.machine.holds ownDirectory = true := by
    intro holds
    rw [hmachine]
    exact Machine.holds_withFile (m := w.machine.note _) holds _ _
  have hpictured : w'.Pictured := by
    intro s h
    rw [hproject] at h
    rw [hmachine]
    exact ⟨w.machine.now, hs s h,
      Machine.pathExists_withFile (Project.picturePath_ne_empty _ _) _⟩
  have hcache : w'.project.cache = w.project.cache := by rw [hproject]
  have hcreated : w'.project.created = w.project.created := by rw [hproject]
  have hdraws : w.project.Draws → w'.project.Draws := by
    unfold Project.Draws
    rw [hproject]
    exact id
  cases h with
  | untouched => exact absurd hthere (by decide)
  | removed => exact absurd hthere (by decide)
  | held draws cache created holds _ =>
    exact .held (hdraws draws) (hcache.trans cache) (hcreated.trans created) (hholds holds)
      hpictured
  | stray draws cache created holds _ =>
    exact .stray (hdraws draws) (hcache.trans cache) (hcreated.trans created) (hholds holds)
      hpictured

/-- What validation makes of the way the directory stands. -/
structure Passage (w : Production) (c : Custody) (r : Except Fault Session) (w' : Production)
    (c' : Custody) : Prop where
  after : w'.HasCustody c'
  stray : c' = .stray ↔ c = .stray ∨ w.project.hasRemoved = true ∧ w.Remakes
  held : c' = .held → c = .held ∨ w.project.session = none
  removed : c' = .removed → w'.project.session ≠ none → c = .removed ∧ w.project.session ≠ none
  explained : ∀ f, r = .error f → f.isExplained = true → c' ≠ .held
  unexplained : ∀ f, r = .error f → f.isExplained = false → (∀ g, f ≠ .host g) →
    (w'.machine.holds ownDirectory = true ↔ w.project.file.image = none)
  refused : ∀ g, r = .error (.host g) →
    (w'.machine.holds ownDirectory = true ↔ w.project.file.image = none ∧ w.Shelters)
  passed : ∀ s, r = .ok s → (w'.machine.holds ownDirectory = true ↔
    w.machine.holds ownDirectory = true ∨ w.project.session = none ∧ w.project.file.image = none)
  failed : ∀ f, r = .error f → w'.project.session = none
  kept : w.project.session ≠ none → w'.project.session ≠ none

theorem HasCustody.hasRemoved_iff (h : w.HasCustody c) (hsession : w.project.session = none) :
    w.project.hasRemoved = true ↔ c = .removed ∨ c = .stray := by
  unfold Project.hasRemoved
  rw [hsession]
  cases h with
  | untouched cache => rw [cache]; simp [Document.isNull]
  | held draws cache created => rw [created]; simp
  | removed draws cache created => rw [cache, created]; simp [Document.isNull]
  | stray draws cache created => rw [cache, created]; simp [Document.isNull]

theorem HasCustody.holds_iff (h : w.HasCustody c) :
    w.machine.holds ownDirectory = true ↔ c = .held ∨ c = .stray := by
  cases h with
  | untouched _ _ holds => rw [holds]; simp
  | held _ _ _ holds => rw [holds]; simp
  | removed _ _ _ holds => rw [holds]; simp
  | stray _ _ _ holds => rw [holds]; simp

/-- A directory that was removed is made sure of by creating it once more. -/
theorem HasCustody.shelters_iff (h : w.HasCustody .removed) : w.Shelters ↔ w.Remakes := by
  cases h with
  | removed _ cache _ holds => exact shelters_iff_remakes cache holds

/-- Without a picture to draw, building a session changes nothing, and without any picture there are
no clips either. -/
theorem buildSession_of_not_draws (hdraws : ¬ w.project.Draws) :
    ∃ r, ProjectJob.buildSession w = (r, w) ∧
      (w.project.file.image = none → r = .error (.refused .noClips)) := by
  cases himage : w.project.file.image with
  | some image =>
    exact ⟨_, Prod.ext rfl (ProjectJob.buildSession_of_image himage), fun h => absurd h (by simp)⟩
  | none =>
    have hclips : w.project.file.timeline.clipCount = 0 := by
      by_contra hclips
      exact hdraws ⟨himage, hclips⟩
    exact ⟨_, ProjectJob.buildSession_of_clipless hclips, fun _ => rfl⟩

section

variable (h : w.HasCustody c)
include h

/-- A project with a session is not validated again. -/
theorem passage_of_some {s : Session} (hs : w.project.session = some s) :
    Passage w c (ProjectJob.validate w).1 (ProjectJob.validate w).2 c := by
  rw [ProjectJob.validate_of_some hs]
  have hremoved : w.project.hasRemoved = false := by
    unfold Project.hasRemoved
    rw [hs]
    rfl
  constructor
  case after => exact h
  case stray => rw [hremoved]; simp
  case held => rintro rfl; exact .inl rfl
  case removed => exact fun hc hsession => ⟨hc, hsession⟩
  case explained => exact fun f hf => absurd hf (by simp)
  case unexplained => exact fun f hf => absurd hf (by simp)
  case refused => exact fun g hg => absurd hg (by simp)
  case passed => exact fun _ _ => by simp [hs]
  case failed => exact fun f hf => absurd hf (by simp)
  case kept => exact id

/-- A project that draws no picture creates no directory. -/
theorem passage_of_not_draws (hsession : w.project.session = none) (hdraws : ¬ w.project.Draws) :
    Passage w c (ProjectJob.validate w).1 (ProjectJob.validate w).2 c := by
  obtain rfl := h.not_draws hdraws
  obtain ⟨hcache, hcreated, hholds, -⟩ := h
  have hremoved : w.project.hasRemoved = false := by
    unfold Project.hasRemoved
    rw [hcache]
    exact Bool.and_eq_false_iff.mpr (.inl (Bool.and_false _))
  obtain ⟨r, hbuild, hclipless⟩ := buildSession_of_not_draws hdraws
  rw [ProjectJob.validate_of_none hsession, hbuild]
  cases r with
  | ok s =>
    have himage : w.project.file.image ≠ none := fun h => absurd (hclipless h) (by simp)
    constructor
    case after => exact .untouched hcache hcreated hholds fun h => absurd h himage
    case stray => rw [hremoved]; simp
    case held => exact fun h => absurd h (by decide)
    case removed => exact fun h => absurd h (by decide)
    case explained => exact fun f hf => absurd hf (by simp)
    case unexplained => exact fun f hf => absurd hf (by simp)
    case refused => exact fun g hg => absurd hg (by simp)
    case passed => exact fun _ _ => by simp [himage]
    case failed => exact fun f hf => absurd hf (by simp)
    case kept => exact fun _ => Option.some_ne_none s
  | error f =>
    dsimp only
    rw [tidied_of_not_created hcreated, ite_self]
    -- without a picture there are no clips either, which is explained
    have himage : ∀ g, Except.error f = (.error g : Except Fault Session) →
        g.isExplained = false → w.project.file.image ≠ none := by
      intro g hg hunexplained himage
      obtain rfl := Except.error.inj (hg.symm.trans (hclipless himage))
      exact absurd hunexplained (by decide)
    constructor
    case after => exact .untouched hcache hcreated hholds fun _ => hsession
    case stray => rw [hremoved]; simp
    case held => exact fun h => absurd h (by decide)
    case removed => exact fun h => absurd h (by decide)
    case explained => exact fun _ _ _ => by decide
    case unexplained =>
      intro g hg hunexplained _
      have himage := himage g hg hunexplained
      rw [hholds]
      exact ⟨fun h => absurd h Bool.false_ne_true, fun h => absurd h himage⟩
    case refused =>
      intro g hg
      have himage := himage _ hg rfl
      rw [hholds]
      exact ⟨fun h => absurd h Bool.false_ne_true, fun h => absurd h.1 himage⟩
    case passed => exact fun s hs => absurd hs (by simp)
    case failed => exact fun _ _ => hsession
    case kept => exact fun hkept => absurd hsession hkept

/-- The session was built, or not, behind a directory that is there. -/
structure Built (w : Production) (c : Custody) (w' : Production) : Prop where
  after : w'.HasCustody c.sheltered
  unsessioned : w'.project.session = none
  keep : w'.project.keep = w.project.keep
  shelters : w.Shelters

/-- Building the session of a project that draws its picture leaves the directory there, unless the
system does not create it. -/
theorem HasCustody.buildSession (hsession : w.project.session = none) (hdraws : w.project.Draws) :
    (∃ r w', ProjectJob.buildSession w = (r, w') ∧ Built w c w' ∧
      ∀ s, r = .ok s → Production.HasCustody
        { w' with project := { w'.project with session := some s } } c.sheltered) ∨
    ∃ f, ProjectJob.buildSession w = (.error (.host f), w) ∧
      (w.Shelters → w.machine.holds ownDirectory = true) := by
  have hdrawing := ProjectJob.buildSession_drawing hdraws.1
  rcases hbuild : ProjectJob.buildSession w with ⟨r, w'⟩
  rw [hbuild] at hdrawing
  rcases h.requireCache hdraws hsession with
    ⟨w₁, hcache, hw₁, hsession₁, hkeep₁, hshelters⟩ | ⟨f, hcache, hshelters⟩
  case inr =>
    refine .inr ⟨f, ?_, hshelters⟩
    cases hdrawing with
    | clipless hclips => exact absurd hclips hdraws.2
    | unreachable hf =>
      obtain rfl := Except.error.inj (Prod.mk.inj (hf.symm.trans hcache)).1
      rfl
    | refused g hrequire => exact absurd (Prod.mk.inj (hrequire.symm.trans hcache)).1 (by simp)
    | drawn picture r hrequire =>
      exact absurd (Prod.mk.inj (hrequire.symm.trans hcache)).1 (by simp)
  case inl =>
    refine .inl ⟨r, w', rfl, ?_⟩
    cases hdrawing with
    | clipless hclips => exact absurd hclips hdraws.2
    | unreachable hf => exact absurd (Prod.mk.inj (hf.symm.trans hcache)).1 (by simp)
    | refused f hrequire =>
      obtain ⟨-, rfl⟩ := Prod.mk.inj (hrequire.symm.trans hcache)
      exact ⟨⟨hw₁, hsession₁, hkeep₁, hshelters⟩, fun s hs => absurd hs (by simp)⟩
    | @drawn directory w₂ picture r hrequire hr =>
      obtain ⟨hd, rfl⟩ := Prod.mk.inj (hrequire.symm.trans hcache)
      obtain rfl := Except.ok.inj hd
      have hnone : ∀ s, w₂.project.session = some s →
          s.image = .text (picturePath ownDirectory w₂.machine.now) :=
        fun s hs => absurd (hs.symm.trans hsession₁) (by simp)
      have hdrawn := hw₁.drawn c.sheltered_cases picture hnone rfl rfl
      refine ⟨⟨hdrawn, hsession₁, hkeep₁, hshelters⟩, fun s hs => ?_⟩
      have hsome : ∀ s', some s = some s' →
          s'.image = .text (picturePath ownDirectory w₂.machine.now) :=
        fun s' hs' => Option.some.inj hs' ▸ hr s hs
      exact hw₁.drawn c.sheltered_cases picture hsome rfl rfl

/-- A directory that the system does not create stands as before. -/
theorem passage_of_refused (hsession : w.project.session = none) (hdraws : w.project.Draws)
    {f : HostFault} (hshelters : w.Shelters → w.machine.holds ownDirectory = true) :
    Passage w c (.error (.host f)) w c where
  after := h
  stray := by
    refine ⟨.inl, fun hc => hc.elim id fun ⟨hremoved, hmade⟩ => ?_⟩
    rcases (h.hasRemoved_iff hsession).mp hremoved with rfl | rfl
    · exact absurd (h.holds_iff.mp (hshelters (h.shelters_iff.mpr hmade))) (by decide)
    · rfl
  held _ := .inr hsession
  removed _ hsome := absurd hsession hsome
  explained g hg hexplained := by
    obtain rfl := Except.error.inj hg
    exact absurd hexplained (by simp [Fault.isExplained])
  unexplained g hg _ hhost := absurd (Except.error.inj hg).symm (hhost f)
  refused _ _ := ⟨fun holds => ⟨hdraws.1, .inl holds⟩, fun ⟨_, hmade⟩ => hshelters hmade⟩
  passed s hs := absurd hs (by simp)
  failed _ _ := hsession
  kept hkept := absurd hsession hkept

namespace Built

/-- The directory is forgotten when it is there again after it had been removed. -/
theorem stray_iff (hbuilt : Built w c w') (hsession : w.project.session = none) :
    c.sheltered = .stray ↔ c = .stray ∨ w.project.hasRemoved = true ∧ w.Remakes := by
  have hshelters := hbuilt.shelters
  rw [h.hasRemoved_iff hsession]
  cases c with
  | untouched => simp [Custody.sheltered]
  | held => simp [Custody.sheltered]
  | removed => simp [Custody.sheltered, h.shelters_iff.mp hshelters]
  | stray => simp [Custody.sheltered]

/-- The session of the picture is kept. -/
theorem passage_ok (hbuilt : Built w c w') (hsession : w.project.session = none)
    (hdraws : w.project.Draws) {s : Session} (hs : Production.HasCustody
      { w' with project := { w'.project with session := some s } } c.sheltered) :
    Passage w c (.ok s) { w' with project := { w'.project with session := some s } }
      c.sheltered where
  after := hs
  stray := hbuilt.stray_iff h hsession
  held _ := .inr hsession
  removed hc := absurd hc c.sheltered_ne_removed
  explained f hf := absurd hf (by simp)
  unexplained f hf := absurd hf (by simp)
  refused g hg := absurd hg (by simp)
  passed _ _ := ⟨fun _ => .inr ⟨hsession, hdraws.1⟩, fun _ => hs.holds_iff.mpr c.sheltered_cases⟩
  failed f hf := absurd hf (by simp)
  kept _ := Option.some_ne_none s

/-- A fault that is explained has the directory removed, if it is held. -/
theorem passage_explained (hbuilt : Built w c w') (hkeep : w.project.keep = false)
    (hsession : w.project.session = none) {f : Fault} (hexplained : f.isExplained = true) :
    Passage w c (.error f) w'.tidied c.sheltered.tidied where
  after := hbuilt.after.tidied (hbuilt.keep.trans hkeep)
  stray := (Custody.tidied_eq_stray_iff _).trans (hbuilt.stray_iff h hsession)
  held hc := absurd hc (Custody.tidied_ne_held _)
  removed _ hsome := absurd ((session_tidied w').trans hbuilt.unsessioned) hsome
  explained _ _ _ := Custody.tidied_ne_held _
  unexplained g hg hunexplained _ := by
    obtain rfl := Except.error.inj hg
    exact absurd (hexplained.symm.trans hunexplained) (by decide)
  refused g hg := by
    obtain rfl := Except.error.inj hg
    exact absurd hexplained (by simp [Fault.isExplained])
  passed s hs := absurd hs (by simp)
  failed _ _ := (session_tidied w').trans hbuilt.unsessioned
  kept hkept := absurd hsession hkept

/-- Any other fault leaves the directory there. -/
theorem passage_unexplained (hbuilt : Built w c w') (hsession : w.project.session = none)
    (hdraws : w.project.Draws) {f : Fault} (hunexplained : f.isExplained = false) :
    Passage w c (.error f) w' c.sheltered where
  after := hbuilt.after
  stray := hbuilt.stray_iff h hsession
  held _ := .inr hsession
  removed hc := absurd hc c.sheltered_ne_removed
  explained g hg hexplained := by
    obtain rfl := Except.error.inj hg
    exact absurd (hexplained.symm.trans hunexplained) (by decide)
  unexplained _ _ _ _ :=
    ⟨fun _ => hdraws.1, fun _ => hbuilt.after.holds_iff.mpr c.sheltered_cases⟩
  refused _ _ := ⟨fun _ => ⟨hdraws.1, hbuilt.shelters⟩,
    fun _ => hbuilt.after.holds_iff.mpr c.sheltered_cases⟩
  passed s hs := absurd hs (by simp)
  failed _ _ := hbuilt.unsessioned
  kept hkept := absurd hsession hkept

end Built

/-- A project that draws its picture makes sure of its directory first; whether it tidies up when
this was in vain depends on the fault. -/
theorem passage_of_draws (hkeep : w.project.keep = false) (hsession : w.project.session = none)
    (hdraws : w.project.Draws) : ∃ c',
    Passage w c (ProjectJob.validate w).1 (ProjectJob.validate w).2 c' := by
  rw [ProjectJob.validate_of_none hsession]
  rcases h.buildSession hsession hdraws with ⟨r, w', hbuild, hbuilt, hok⟩ | ⟨f, hbuild, hshelters⟩
  · rw [hbuild]
    cases r with
    | ok s => exact ⟨_, hbuilt.passage_ok h hsession hdraws (hok s rfl)⟩
    | error f =>
      dsimp only
      cases hexplained : f.isExplained with
      | true => exact ⟨_, hbuilt.passage_explained h hkeep hsession hexplained⟩
      | false => exact ⟨_, hbuilt.passage_unexplained h hsession hdraws hexplained⟩
  · rw [hbuild]
    exact ⟨c, passage_of_refused h hsession hdraws hshelters⟩

/-- Every validation passes the directory on. -/
theorem exists_passage (hkeep : w.project.keep = false) : ∃ c',
    Passage w c (ProjectJob.validate w).1 (ProjectJob.validate w).2 c' := by
  cases hsession : w.project.session with
  | some s => exact ⟨c, passage_of_some h hsession⟩
  | none =>
    by_cases hdraws : w.project.Draws
    · exact passage_of_draws h hkeep hsession hdraws
    · exact ⟨c, passage_of_not_draws h hsession hdraws⟩

end

/-! ## Calls -/

/-- What a call makes of the way the directory stands. -/
structure Move (w : Production) (call : ProjectCall) (c c' : Custody) : Prop where
  after : (call.act w).2.HasCustody c'
  stray : c' = .stray ↔ c = .stray ∨ call ≠ .cleanup ∧ w.project.hasRemoved = true ∧ w.Remakes
  settled : (call = .cleanup ∨ call = .run ∧ (call.act w).1 = .ok () ∨
    ∃ f, (call.act w).1 = .error f ∧ f.isExplained = true) → c' ≠ .held
  unexplained : ∀ f, (call.act w).1 = .error f → f.isExplained = false → (∀ g, f ≠ .host g) →
    ((call.act w).2.machine.holds ownDirectory = true ↔ w.project.file.image = none)
  refused : ∀ g, (call.act w).1 = .error (.host g) → (call.act w).2.project.session = none →
    ((call.act w).2.machine.holds ownDirectory = true ↔
      w.project.file.image = none ∧ w.Shelters)
  unshown : ∀ g, (call.act w).1 = .error (.host g) → (call.act w).2.project.session ≠ none →
    w.project.dryRun = true → ((call.act w).2.machine.holds ownDirectory = true ↔
      w.machine.holds ownDirectory = true ∨
        w.project.session = none ∧ w.project.file.image = none)
  held : c' = .held → (c = .held ∨ w.project.session = none) ∧
    (w.project.dryRun = false → call = .cleanup ∨ call = .run →
      (call.act w).2.project.session = none)
  removed : c' = .removed → (call.act w).2.project.session ≠ none →
    (call = .cleanup ∨ call = .run) ∨ c = .removed ∧ w.project.session ≠ none
  kept : w.project.session ≠ none → (call.act w).2.project.session ≠ none

/-- A call that only validates moves the directory as the validation does. -/
theorem Passage.move {r : Except Fault Session} {c' : Custody} (h : Passage w c r w' c')
    {call : ProjectCall} (hcleanup : call ≠ .cleanup)
    (hact : call.act w = (r.map fun _ => (), w'))
    (hrun : call = .run → ∃ f, r = .error f) : Move w call c c' := by
  have herror : ∀ {f}, (call.act w).1 = .error f → r = .error f := by
    intro f hf
    rw [hact] at hf
    exact eq_error_of_map_eq_error hf
  constructor
  case after => rw [hact]; exact h.after
  case stray =>
    rw [h.stray]
    exact or_congr_right (and_iff_right hcleanup).symm
  case settled =>
    rintro (hcall | ⟨hcall, hok⟩ | ⟨f, hf, hexplained⟩)
    · exact absurd hcall hcleanup
    · obtain ⟨f, rfl⟩ := hrun hcall
      rw [hact] at hok
      exact absurd hok (by simp [Except.map])
    · exact h.explained f (herror hf) hexplained
  case unexplained =>
    intro f hf hunexplained hhost
    rw [hact]
    exact h.unexplained f (herror hf) hunexplained hhost
  case refused =>
    intro g hg _
    rw [hact]
    exact h.refused g (herror hg)
  case unshown =>
    intro g hg hsession
    rw [hact] at hsession
    exact absurd (h.failed _ (herror hg)) hsession
  case held =>
    intro hc
    refine ⟨h.held hc, fun _ => ?_⟩
    rintro (hcall | hcall)
    · exact absurd hcall hcleanup
    · obtain ⟨f, hf⟩ := hrun hcall
      rw [hact]
      exact h.failed f hf
  case removed =>
    intro hc hsession
    rw [hact] at hsession
    exact .inr (h.removed hc hsession)
  case kept => rw [hact]; exact h.kept

theorem session_validate {s : Session} (h : ProjectJob.validate w = (.ok s, w')) :
    w'.project.session = some s := by
  cases hsession : w.project.session with
  | some s' =>
    obtain ⟨hs, rfl⟩ := Prod.mk.inj (h.symm.trans (ProjectJob.validate_of_some hsession))
    rw [hsession, Except.ok.inj hs]
  | none =>
    rw [ProjectJob.validate_of_none hsession] at h
    generalize ProjectJob.buildSession w = outcome at h
    obtain ⟨f | s', w₁⟩ := outcome
    · exact absurd (Prod.mk.inj h).1 (by simp)
    · obtain ⟨hs, rfl⟩ := Prod.mk.inj h
      rw [Except.ok.inj hs]

/-- Cleaning up removes a directory that is held. -/
theorem HasCustody.move_cleanup (h : w.HasCustody c) (hkeep : w.project.keep = false) :
    Move w .cleanup c c.tidied := by
  have hact := ProjectCall.act_cleanup w
  constructor
  case after => rw [hact]; exact h.tidied hkeep
  case stray => rw [Custody.tidied_eq_stray_iff]; simp
  case settled => exact fun _ => c.tidied_ne_held
  case unexplained =>
    intro f hf
    rw [hact] at hf
    exact absurd hf (by simp)
  case refused =>
    intro g hg
    rw [hact] at hg
    exact absurd hg (by simp)
  case unshown =>
    intro g hg
    rw [hact] at hg
    exact absurd hg (by simp)
  case held => exact fun hc => absurd hc c.tidied_ne_held
  case removed => exact fun _ _ => .inl (.inl rfl)
  case kept => rw [hact]; exact fun hkept => by rwa [session_tidied]

section

variable {s : Session} {c₁ : Custody} (hvalidate : ProjectJob.validate w = (.ok s, w'))
include hvalidate

/-- A run leaves the session of its validation. -/
theorem session_run : (ProjectJob.run w).2.project.session = some s := by
  rcases (ProjectJob.run_cases hvalidate).1 with ⟨w₂, halike, hrun, -⟩ | ⟨-, halike, -⟩ <;>
    obtain ⟨_, hproject⟩ := halike.project
  · obtain ⟨_, hproject'⟩ := hrun.project
    rw [hproject', session_tidied, hproject]
    exact session_validate hvalidate
  · rw [hproject]
    exact session_validate hvalidate

theorem session_act_run : (ProjectCall.run.act w).2.project.session = some s := by
  rw [ProjectCall.act_run]
  exact session_run hvalidate

/-- What a run raises that has a session is explained or comes from the system. -/
theorem exists_host_of_act_run {f : Fault} (hf : (ProjectCall.run.act w).1 = .error f)
    (hno : f.isExplained = false) : ∃ g, f = .host g := by
  rw [ProjectCall.act_run] at hf
  rcases (ProjectJob.run_cases hvalidate).2 f (eq_error_of_map_eq_error hf) with hyes | ⟨g, hg, -⟩
  · exact absurd (hyes.symm.trans hno) (by decide)
  · exact ⟨g, hg⟩

variable (h : Passage w c (.ok s) w' c₁)
include h

/-- A run that tidies up removes a directory that is held. -/
theorem Passage.move_of_tidied {w₂ : Production} (hkeep : w₂.project.keep = false)
    (halike : w'.Alike w₂) (hrun : w₂.tidied.Alike (ProjectJob.run w).2)
    (hshown : w.project.dryRun = true → (ProjectJob.run w).1 = .ok none) :
    Move w .run c c₁.tidied := by
  have hact := ProjectCall.act_run w
  have hsession := session_act_run hvalidate
  constructor
  case after => rw [hact]; exact ((h.after.congr halike).tidied hkeep).congr hrun
  case stray =>
    rw [Custody.tidied_eq_stray_iff, h.stray]
    simp
  case settled => exact fun _ => c₁.tidied_ne_held
  case unexplained =>
    intro f hf hno hhost
    obtain ⟨g, hg⟩ := exists_host_of_act_run hvalidate hf hno
    exact absurd hg (hhost g)
  case refused => exact fun _ _ hnone => absurd (hsession.symm.trans hnone) (by simp)
  case unshown =>
    intro g hg _ hdry
    rw [hact, hshown hdry] at hg
    exact absurd hg (by simp [Except.map])
  case held => exact fun hc => absurd hc c₁.tidied_ne_held
  case removed => exact fun _ _ => .inl (.inr rfl)
  case kept => exact fun _ => hsession ▸ Option.some_ne_none s

/-- A dry run that is not shown leaves the directory as its validation has left it. -/
theorem Passage.move_of_unshown (hdry : w.project.dryRun = true)
    (halike : w'.Alike (ProjectJob.run w).2) {f : HostFault}
    (hf : (ProjectJob.run w).1 = .error (.host f)) : Move w .run c c₁ := by
  have hact := ProjectCall.act_run w
  have hsession := session_act_run hvalidate
  have hraised : (ProjectCall.run.act w).1 = .error (.host f) := by
    rw [hact, hf]
    rfl
  constructor
  case after => rw [hact]; exact h.after.congr halike
  case stray =>
    rw [h.stray]
    simp
  case settled =>
    rw [hraised]
    rintro (hcall | ⟨-, hok⟩ | ⟨g, hg, hexplained⟩)
    · exact absurd hcall (by decide)
    · exact absurd hok (by simp)
    · obtain rfl := Except.error.inj hg
      exact absurd hexplained (by simp [Fault.isExplained])
  case unexplained =>
    intro g hg hno hhost
    exact absurd (Except.error.inj (hg.symm.trans hraised)) (hhost f)
  case refused => exact fun _ _ hnone => absurd (hsession.symm.trans hnone) (by simp)
  case unshown =>
    intro g _ _ _
    rw [hact]
    dsimp only
    rw [halike.machine.holds_eq ownDirectory]
    exact h.passed s rfl
  case held =>
    exact fun hc => ⟨h.held hc, fun hwet => absurd (hwet.symm.trans hdry) Bool.false_ne_true⟩
  case removed => exact fun _ _ => .inl (.inr rfl)
  case kept => exact fun _ => hsession ▸ Option.some_ne_none s

/-- A run that has a session cleans up, unless it is a dry run that is not shown. -/
theorem Passage.exists_move_run (hkeep : w.project.keep = false) : ∃ c', Move w .run c c' := by
  have hcontinues := ProjectJob.continues_validate w
  rw [hvalidate] at hcontinues
  rcases (ProjectJob.run_cases hvalidate).1 with
    ⟨w₂, halike, hrun, hshown⟩ | ⟨hdry, halike, f, hf⟩
  · have hkeep₂ := (halike.continues.keep.trans hcontinues.keep).trans hkeep
    refine ⟨_, h.move_of_tidied hvalidate hkeep₂ halike hrun fun hdry => ?_⟩
    exact hshown (hcontinues.dryRun.trans hdry)
  · exact ⟨_, h.move_of_unshown hvalidate (hcontinues.dryRun.symm.trans hdry) halike hf⟩

end

/-- Every call moves the directory on. -/
theorem HasCustody.exists_move (h : w.HasCustody c) (hkeep : w.project.keep = false)
    (call : ProjectCall) : ∃ c', Move w call c c' := by
  obtain ⟨c', hpassage⟩ := exists_passage h hkeep
  cases call with
  | validate =>
    exact ⟨c', hpassage.move (by decide) (ProjectCall.act_validate w) fun h => absurd h (by decide)⟩
  | plan =>
    exact ⟨c', hpassage.move (by decide) (ProjectCall.act_plan w) fun h => absurd h (by decide)⟩
  | cleanup => exact ⟨_, h.move_cleanup hkeep⟩
  | run =>
    rcases hvalidate : ProjectJob.validate w with ⟨f | s, w'⟩ <;> rw [hvalidate] at hpassage
    · have hact : ProjectCall.run.act w =
          ((Except.error f : Except Fault Session).map fun _ => (), w') := by
        rw [ProjectCall.act_run, ProjectJob.run_of_error hvalidate]
        rfl
      exact ⟨c', hpassage.move (by decide) hact fun _ => ⟨f, rfl⟩⟩
    · exact hpassage.exists_move_run hvalidate hkeep

/-! ## Histories -/

/-- Some call has validated the project although its directory had been removed before there was a
session, and the machine has created the directory once more. -/
def Revalidated (w : Production) : List ProjectCall → Prop :=
  Ever fun before call => call ≠ .cleanup ∧ (w.afterCalls before).project.hasRemoved = true ∧
    (w.afterCalls before).Remakes

/-- A new project that creates its directory itself and does not keep it, on a machine on which that
directory is not there yet. -/
structure Fresh (w : Production) : Prop extends w.project.IsNew where
  cache : w.project.cache = .null
  keep : w.project.keep = false
  holds : w.machine.holds ownDirectory = false

theorem Fresh.hasCustody (h : w.Fresh) : w.HasCustody .untouched :=
  .untouched h.cache h.created h.holds fun _ => h.session

/-- Some call has cleaned up, or was a run, and there was a session when it was over. -/
def Spent (w : Production) : List ProjectCall → Prop :=
  Ever fun before call => (call = .cleanup ∨ call = .run) ∧
    (w.afterCalls (before ++ [call])).project.session ≠ none

/-- How the directory stands after some calls, and what that tells about the calls. -/
structure Standing (w : Production) (calls : List ProjectCall) (c : Custody) : Prop where
  custody : (w.afterCalls calls).HasCustody c
  stray : c = .stray ↔ w.Revalidated calls
  held : w.project.dryRun = false → c = .held → ¬ w.Spent calls
  removed : c = .removed → (w.afterCalls calls).project.session ≠ none → w.Spent calls
  unsessioned : (w.afterCalls calls).project.session = none → ¬ w.Spent calls

theorem Fresh.standing (h : w.Fresh) : w.Standing [] .untouched where
  custody := h.hasCustody
  stray := ⟨fun h => absurd h (by decide), fun h => absurd h (not_ever_nil _)⟩
  held _ _ := not_ever_nil _
  removed hc := absurd hc (by decide)
  unsessioned _ := not_ever_nil _

/-- A further call. -/
theorem Standing.concat {calls : List ProjectCall} (h : w.Standing calls c) {call : ProjectCall}
    {c' : Custody} (hmove : Move (w.afterCalls calls) call c c') :
    w.Standing (calls ++ [call]) c' := by
  have hspent : w.Spent (calls ++ [call]) ↔ w.Spent calls ∨
      (call = .cleanup ∨ call = .run) ∧ (w.afterCalls (calls ++ [call])).project.session ≠ none :=
    ever_concat
  have hafter := w.afterCalls_concat calls call
  constructor
  case custody =>
    rw [hafter]
    exact hmove.after
  case stray =>
    rw [hmove.stray, h.stray]
    exact ever_concat.symm
  case held =>
    intro hwet hc
    obtain ⟨hbefore, hnone⟩ := hmove.held hc
    rw [hspent, hafter]
    rintro (hspent | ⟨hcall, hsession⟩)
    · rcases hbefore with rfl | hunsessioned
      · exact h.held hwet rfl hspent
      · exact h.unsessioned hunsessioned hspent
    · exact hsession (hnone ((w.continues_afterCalls calls).dryRun.trans hwet) hcall)
  case removed =>
    intro hc hsession
    rw [hspent]
    rw [hafter] at hsession
    rcases hmove.removed hc hsession with hcall | ⟨hbefore, hsession'⟩
    · exact .inr ⟨hcall, hafter ▸ hsession⟩
    · exact .inl (h.removed hbefore hsession')
  case unsessioned =>
    intro hnone
    rw [hspent]
    rintro (hspent | ⟨-, hsession⟩)
    · refine h.unsessioned ?_ hspent
      by_contra hsession
      rw [hafter] at hnone
      exact hmove.kept hsession hnone
    · exact hsession hnone

/-- Whatever has been called, the directory stands in some way. -/
theorem Fresh.exists_standing (h : w.Fresh) (calls : List ProjectCall) :
    ∃ c, w.Standing calls c := by
  induction calls using List.reverseRecOn with
  | nil => exact ⟨_, h.standing⟩
  | append_singleton calls call ih =>
    obtain ⟨c, hstanding⟩ := ih
    have hkeep := (w.continues_afterCalls calls).keep.trans h.keep
    obtain ⟨c', hmove⟩ := hstanding.custody.exists_move hkeep call
    exact ⟨c', hstanding.concat hmove⟩

/-- **The directory of a picture.** When a cleanup is over, a run has returned or has raised
anything after its project was validated, or a call has raised a fault that the program explains,
then nothing is left of the directory unless the project has been validated again after its
directory had been removed. A fault that the program does not explain and that does not come from
the system leaves the directory of every project that draws its picture. What the system refuses
leaves it as well, if it is there or the system has created it for the picture; a dry run that is
refused its lines does not remove it. -/
theorem directory_removed_iff (h : w.Fresh) (calls : List ProjectCall) (call : ProjectCall) :
    let before := w.afterCalls calls
    let after := w.afterCalls (calls ++ [call])
    ((call = .cleanup ∨
        call = .run ∧ ((call.act before).1 = .ok () ∨
          w.project.dryRun = false ∧ after.project.session ≠ none) ∨
        ∃ f, (call.act before).1 = .error f ∧ f.isExplained = true) →
      (after.machine.holds ownDirectory = false ↔ ¬ w.Revalidated (calls ++ [call]))) ∧
    (∀ f, (call.act before).1 = .error f → f.isExplained = false → (∀ g, f ≠ .host g) →
      (after.machine.holds ownDirectory = true ↔ w.project.file.image = none)) ∧
    ∀ g, (call.act before).1 = .error (.host g) →
      (after.project.session = none → (after.machine.holds ownDirectory = true ↔
        w.project.file.image = none ∧ before.Shelters)) ∧
      (after.project.session ≠ none → w.project.dryRun = true →
        (after.machine.holds ownDirectory = true ↔ before.machine.holds ownDirectory = true ∨
          before.project.session = none ∧ w.project.file.image = none)) := by
  obtain ⟨c, hstanding⟩ := h.exists_standing calls
  have hcontinues := w.continues_afterCalls calls
  obtain ⟨c', hmove⟩ := hstanding.custody.exists_move (hcontinues.keep.trans h.keep) call
  have hstanding' := hstanding.concat hmove
  have hafter := w.afterCalls_concat calls call
  rw [← hcontinues.file, ← hcontinues.dryRun]
  refine ⟨fun hends => ?_, fun f hf hunexplained hhost => ?_, fun g hg => ⟨fun hnone => ?_, ?_⟩⟩
  · have hsettled : c' ≠ .held := by
      rcases hends with hcall | ⟨hcall, hok | ⟨hwet, hsession⟩⟩ | hexplained
      · exact hmove.settled (.inl hcall)
      · exact hmove.settled (.inr (.inl ⟨hcall, hok⟩))
      · rw [hafter] at hsession
        exact fun hc => hsession ((hmove.held hc).2 hwet (.inr hcall))
      · exact hmove.settled (.inr (.inr hexplained))
    rw [← Bool.not_eq_true, hstanding'.custody.holds_iff, ← hstanding'.stray]
    exact not_congr (or_iff_right hsettled)
  · rw [hafter]
    exact hmove.unexplained f hf hunexplained hhost
  · rw [hafter] at hnone ⊢
    exact hmove.refused g hg hnone
  · rw [hafter]
    exact hmove.unshown g hg

/-- A new project with one clip on a blue background, on a machine without an encoder. -/
def blue : Production where
  machine := .bare
  observers := .standard
  project :=
    { file :=
        { path := "/show.yaml", baseDirectory := "/", image := none, colour := .text "#336699"
          fit := "cover", width := 320, height := 180, volume := .int 100, music := none
          musicVolume := .int 30
          timeline := ⟨[⟨[Clip.second "voice.mp3" 0], 1, Binary64.one_lt_zero⟩]⟩
          outputDirectory := none, outputName := .null }
      dryRun := false, keep := false, cache := .null, created := false, tool := .null
      session := none, supervisor := none }

theorem fresh_blue : blue.Fresh := ⟨⟨rfl, rfl⟩, rfl, rfl, by decide +kernel⟩

/-- The call is refused, as a test that can be run. -/
def refuses (r : Except Fault Unit) (refusal : Refusal) : Bool :=
  match r with
  | .error (.refused x) => x == refusal
  | _ => false

theorem eq_of_refuses {r : Except Fault Unit} {refusal : Refusal} (h : refuses r refusal = true) :
    r = .error (.refused refusal) := by
  unfold refuses at h
  split at h
  · rw [beq_iff_eq.mp h]
  · exact absurd h Bool.false_ne_true

/-- The first validation finds no encoder and leaves nothing behind. -/
theorem directory_removed_blue :
    ((ProjectCall.validate.act blue).1 =
      .error (.refused (.encoderLookup "no bundled binary available"))) ∧
    ((blue.afterCalls [.validate]).machine.holds ownDirectory = false ↔
      ¬ blue.Revalidated [.validate]) := by
  have hraised : (ProjectCall.validate.act blue).1 =
      .error (.refused (.encoderLookup "no bundled binary available")) :=
    eq_of_refuses (by decide +kernel)
  exact ⟨hraised, (directory_removed_iff fresh_blue [] .validate).1
    (.inr (.inr ⟨_, hraised, by rfl⟩))⟩

/-- The second validation finds none either, and its directory stays. -/
theorem directory_left_blue : blue.Fresh ∧
    (ProjectCall.validate.act (blue.afterCalls [.validate])).1 =
      .error (.refused (.encoderLookup "no bundled binary available")) ∧
    (blue.afterCalls [.validate, .validate]).machine.holds ownDirectory = true := by
  have hboth : (refuses (ProjectCall.validate.act (blue.afterCalls [.validate])).1
      (.encoderLookup "no bundled binary available") &&
      (blue.afterCalls [.validate, .validate]).machine.holds ownDirectory) = true := by
    decide +kernel
  obtain ⟨hrefused, hholds⟩ := Bool.and_eq_true_iff.mp hboth
  exact ⟨fresh_blue, eq_of_refuses hrefused, hholds⟩

end Production

end StillVideo
