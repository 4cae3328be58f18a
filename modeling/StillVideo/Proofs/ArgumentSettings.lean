import StillVideo.CommandLine.Settings
import StillVideo.Proofs.JobSteps

/-!
# What arguments can set

The options that arguments use are those of the table, so what holds of the settings at the start
and is kept by every option of the table holds of the settings that are read
(`readArguments_invariant`). Of the encoding command it follows what each setting can be
(`EncodeSettings.written_of_read`).
-/

namespace StillVideo

variable {σ : Type} {table : List (OptionSpec σ)}

/-! ## Options that are used -/

/-- An argument that is an option is one of the table. -/
def ArgumentKind.Known (table : List (OptionSpec σ)) : ArgumentKind σ → Prop
  | .word o _ | .letter o _ => o ∈ table
  | .plain | .separator | .unknown => True

/-- All options that were used are in the table, and so is one that still needs its value. -/
def OptionRest.Known (table : List (OptionSpec σ)) : OptionRest σ → Prop
  | .needsValue o => o ∈ table
  | .complete | .leftOver _ => True

/-- The options that a step applies are in the table. -/
def ArgumentStep.Known (table : List (OptionSpec σ)) : ArgumentStep σ → Prop
  | .apply uses => ∀ u ∈ uses, u.option ∈ table
  | .keep _ | .fail _ => True

namespace ArgumentKind

theorem known_ofOther (cs : List Char) : (ofOther cs : ArgumentKind σ).Known table := by
  unfold ofOther
  split <;> trivial

theorem known_of_ofWord {argument : String} {kind : ArgumentKind σ}
    (h : ofWord table argument = .ok kind) : kind.Known table := by
  unfold ofWord at h
  dsimp only at h
  split at h
  · obtain rfl := Except.ok.inj h
    exact List.mem_of_find?_eq_some ‹_›
  · split at h
    · obtain rfl := Except.ok.inj h
      exact List.mem_of_find?_eq_some ‹_›
    · split at h
      · obtain rfl := Except.ok.inj h
        exact known_ofOther _
      · rename_i o hfilter
        obtain rfl := Except.ok.inj h
        exact (List.mem_filter.mp (hfilter ▸ List.mem_singleton_self o)).1
      · exact absurd h (by simp)

theorem known_of_ofArgument {argument : String} {kind : ArgumentKind σ}
    (h : ofArgument table argument = .ok kind) : kind.Known table := by
  unfold ofArgument at h
  split at h
  · exact known_of_ofWord h
  · split at h <;> obtain rfl := Except.ok.inj h
    · exact known_ofOther _
    all_goals exact List.mem_of_find?_eq_some ‹_›
  · obtain rfl := Except.ok.inj h
    trivial

theorem known_of_ofArguments {arguments : List String} {kinds : List (String × ArgumentKind σ)}
    (h : ofArguments table arguments = .ok kinds) : ∀ k ∈ kinds, k.2.Known table := by
  induction arguments generalizing kinds with
  | nil =>
    obtain rfl := Except.ok.inj h
    simp
  | cons a as ih =>
    unfold ofArguments at h
    split at h
    · obtain rfl := Except.ok.inj h
      simp [Known]
    · obtain ⟨kind, hkind, h⟩ := bind_eq_ok_iff.mp h
      obtain ⟨rest, hrest, h⟩ := bind_eq_ok_iff.mp h
      obtain rfl := Except.ok.inj h
      exact List.forall_mem_cons.mpr ⟨known_of_ofArgument hkind, ih hrest⟩

end ArgumentKind

/-- What an argument uses, and what is left of it, is known. -/
def UsesKnown (table : List (OptionSpec σ)) (r : List (OptionUse σ) × OptionRest σ) : Prop :=
  (∀ u ∈ r.1, u.option ∈ table) ∧ r.2.Known table

theorem usesKnown_of_readLetters {o : OptionSpec σ} (ho : o ∈ table) {cs : List Char}
    {r : List (OptionUse σ) × OptionRest σ} (h : readLetters table o cs = .ok r) :
    UsesKnown table r := by
  induction cs generalizing o r with
  | nil => exact absurd h (by simp [readLetters])
  | cons c cs ih =>
    unfold readLetters at h
    split at h
    · exact absurd h (by simp)
    · rename_i next hnext
      have hmem : next ∈ table := List.mem_of_find?_eq_some hnext
      split at h <;> obtain rfl := Except.ok.inj h
      · exact ⟨by simp [ho], hmem⟩
      · exact ⟨by simp [ho, hmem], trivial⟩
    · rename_i next d ds hnext
      have hmem : next ∈ table := List.mem_of_find?_eq_some hnext
      split at h
      · obtain rfl := Except.ok.inj h
        exact ⟨by simp [ho, hmem], trivial⟩
      · obtain ⟨⟨uses, rest⟩, hrec, h⟩ := bind_eq_ok_iff.mp h
        obtain rfl := Except.ok.inj h
        obtain ⟨huses, hrest⟩ := ih hmem hrec
        exact ⟨List.forall_mem_cons.mpr ⟨ho, huses⟩, hrest⟩

theorem usesKnown_of_readArgument {argument : String} {kind : ArgumentKind σ}
    (hkind : kind.Known table) {r : List (OptionUse σ) × OptionRest σ}
    (h : readArgument table argument kind = .ok r) : UsesKnown table r := by
  have hone : ∀ o ∈ table, ∀ value, UsesKnown table ([⟨o, value⟩], .complete) := fun o ho value =>
    ⟨by simpa using ho, trivial⟩
  unfold readArgument at h
  split at h
  · unfold readWord at h
    split at h
    · exact Except.ok.inj h ▸ hone _ hkind _
    · exact Except.ok.inj h ▸ ⟨by simp, hkind⟩
    · exact absurd h (by simp)
    · exact Except.ok.inj h ▸ hone _ hkind _
  · unfold readLetter at h
    split at h
    · exact Except.ok.inj h ▸ hone _ hkind _
    · exact Except.ok.inj h ▸ ⟨by simp, hkind⟩
    · exact usesKnown_of_readLetters hkind h
    · exact Except.ok.inj h ▸ hone _ hkind _
  all_goals exact Except.ok.inj h ▸ ⟨by simp, trivial⟩

theorem known_argumentSteps {kinds : List (String × ArgumentKind σ)}
    (h : ∀ k ∈ kinds, k.2.Known table) : ∀ step ∈ argumentSteps table kinds, step.Known table := by
  fun_induction argumentSteps table kinds with
  | case1 => simp
  | case2 argument kind rest fault => simp [ArgumentStep.Known]
  | case3 argument kind rest uses hread ih =>
    obtain ⟨hkind, hrest⟩ := List.forall_mem_cons.mp h
    exact List.forall_mem_cons.mpr ⟨(usesKnown_of_readArgument hkind hread).1, ih hrest⟩
  | case4 argument kind rest uses text hread ih =>
    obtain ⟨hkind, hrest⟩ := List.forall_mem_cons.mp h
    refine List.forall_mem_cons.mpr ⟨(usesKnown_of_readArgument hkind hread).1, ?_⟩
    exact List.forall_mem_cons.mpr ⟨trivial, ih hrest⟩
  | case5 argument kind uses o hread value rest ih =>
    obtain ⟨hkind, hrest⟩ := List.forall_mem_cons.mp h
    obtain ⟨huses, ho⟩ := usesKnown_of_readArgument hkind hread
    refine List.forall_mem_cons.mpr ⟨?_, ih (List.forall_mem_cons.mp hrest).2⟩
    exact List.forall_mem_append.mpr ⟨huses, List.forall_mem_singleton.mpr ho⟩
  | case6 argument kind rest uses o => simp [ArgumentStep.Known]

/-! ## Settings -/

variable {P : σ → Prop}

theorem foldlM_apply_invariant
    (hstep : ∀ u : OptionUse σ, u.option ∈ table → ∀ s s', P s → u.apply s = .ok s' → P s')
    {uses : List (OptionUse σ)} (huses : ∀ u ∈ uses, u.option ∈ table) {s s' : σ} (hs : P s)
    (h : uses.foldlM OptionUse.apply s = .ok s') : P s' := by
  induction uses generalizing s with
  | nil =>
    obtain rfl := Except.ok.inj h
    exact hs
  | cons u us ih =>
    obtain ⟨hu, hus⟩ := List.forall_mem_cons.mp huses
    rw [List.foldlM_cons] at h
    obtain ⟨s₁, hfirst, h⟩ := bind_eq_ok_iff.mp h
    exact ih hus (hstep u hu s s₁ hs hfirst) h

theorem applySteps_invariant
    (hstep : ∀ u : OptionUse σ, u.option ∈ table → ∀ s s', P s → u.apply s = .ok s' → P s')
    {steps : List (ArgumentStep σ)} (hsteps : ∀ step ∈ steps, step.Known table) {s : σ} (hs : P s)
    {r : σ × List String} (h : applySteps s steps = .ok r) : P r.1 := by
  induction steps generalizing s r with
  | nil =>
    obtain rfl := Except.ok.inj h
    exact hs
  | cons step steps ih =>
    obtain ⟨hknown, hrest⟩ := List.forall_mem_cons.mp hsteps
    cases step with
    | fail fault => exact absurd h (by simp [applySteps])
    | keep text =>
      obtain ⟨⟨s', extra⟩, hr, h⟩ := bind_eq_ok_iff.mp h
      obtain rfl := Except.ok.inj h
      exact (ih hrest hs hr : P (s', extra).1)
    | apply uses =>
      obtain ⟨s', huses, h⟩ := bind_eq_ok_iff.mp h
      exact ih hrest (foldlM_apply_invariant hstep hknown hs huses) h

/-- What every option of the table keeps holds of the settings that are read. -/
theorem readArguments_invariant
    (hstep : ∀ u : OptionUse σ, u.option ∈ table → ∀ s s', P s → u.apply s = .ok s' → P s') {s : σ}
    (hs : P s) {arguments : List String} {r : σ × List String}
    (h : readArguments table s arguments = .ok r) : P r.1 := by
  obtain ⟨kinds, hkinds, h⟩ := bind_eq_ok_iff.mp h
  exact applySteps_invariant hstep
    (known_argumentSteps (ArgumentKind.known_of_ofArguments hkinds)) hs h

section

variable {letter : Option Char} {word value : String} {set : Document → σ → σ} {s s' : σ}

/-- An option with a value sets the value that its text gives, or the empty list for two dashes. -/
theorem apply_value {kind : String} {read : String → Option Document}
    (h : OptionUse.apply s ⟨⟨letter, word, .value kind read set⟩, value⟩ = .ok s') :
    ∃ d, (d = .sequence [] ∨ ∃ text, read text = some d) ∧ s' = set d s := by
  unfold OptionUse.apply at h
  dsimp only at h
  split at h
  · exact ⟨_, .inl rfl, (Except.ok.inj h).symm⟩
  · split at h
    · exact ⟨_, .inr ⟨_, ‹_›⟩, (Except.ok.inj h).symm⟩
    · exact absurd h (by simp)

theorem apply_anyValue (h : OptionUse.apply s ⟨⟨letter, word, anyValue set⟩, value⟩ = .ok s') :
    ∃ d, (d = .sequence [] ∨ ∃ text, d = .text text) ∧ s' = set d s := by
  obtain ⟨d, hd, hs⟩ := apply_value h
  refine ⟨d, hd.imp_right ?_, hs⟩
  rintro ⟨text, hread⟩
  exact ⟨text, (Option.some.inj hread).symm⟩

theorem apply_wholeValue (h : OptionUse.apply s ⟨⟨letter, word, wholeValue set⟩, value⟩ = .ok s') :
    ∃ d, (d = .sequence [] ∨ ∃ i, d = .int i) ∧ s' = set d s := by
  obtain ⟨d, hd, hs⟩ := apply_value h
  refine ⟨d, hd.imp_right ?_, hs⟩
  rintro ⟨text, hread⟩
  obtain ⟨i, -, hi⟩ := Option.map_eq_some_iff.mp hread
  exact ⟨i, hi.symm⟩

theorem apply_realValue (h : OptionUse.apply s ⟨⟨letter, word, realValue set⟩, value⟩ = .ok s') :
    ∃ d, (d = .sequence [] ∨ ∃ x, d = .real x) ∧ s' = set d s := by
  obtain ⟨d, hd, hs⟩ := apply_value h
  refine ⟨d, hd.imp_right ?_, hs⟩
  rintro ⟨text, hread⟩
  obtain ⟨x, -, hx⟩ := Option.map_eq_some_iff.mp hread
  exact ⟨x, hx.symm⟩

end

/-- A setting that is a text, the empty list that two dashes stand for, or nothing. -/
def Document.IsWord (d : Document) : Prop := d = .null ∨ d = .sequence [] ∨ ∃ text, d = .text text

/-- Settings as arguments can give them. -/
structure EncodeSettings.Written (s : EncodeSettings) : Prop where
  project : s.project.IsWord
  image : s.image.IsWord
  audio : ∀ d ∈ s.audio, d = .sequence [] ∨ ∃ text, d = .text text
  durations : ∀ d ∈ s.durations, d = .sequence [] ∨ ∃ x, d = .real x
  music : s.music.IsWord
  musicVolume : s.musicVolume = .sequence [] ∨ ∃ i, s.musicVolume = .int i
  volume : s.volume = .sequence [] ∨ ∃ i, s.volume = .int i
  output : s.output.IsWord
  outputDirectory : s.outputDirectory.IsWord
  cache : s.cache.IsWord

namespace EncodeSettings

theorem written_standard : standard.Written where
  project := .inl rfl
  image := .inl rfl
  audio := by simp [standard]
  durations := by simp [standard]
  music := .inl rfl
  musicVolume := .inr ⟨30, rfl⟩
  volume := .inr ⟨100, rfl⟩
  output := .inl rfl
  outputDirectory := .inl rfl
  cache := .inl rfl

theorem Written.apply {u : OptionUse EncodeSettings} (hu : u.option ∈ options)
    {s s' : EncodeSettings} (hs : s.Written) (h : u.apply s = .ok s') : s'.Written := by
  obtain ⟨o, value⟩ := u
  dsimp only at hu
  simp only [options, List.mem_cons, List.not_mem_nil, or_false] at hu
  rcases hu with rfl | rfl | rfl | rfl | rfl | rfl | rfl | rfl | rfl | rfl | rfl | rfl | rfl | rfl |
    rfl | rfl | rfl
  · exact absurd h (by simp [OptionUse.apply, helpOption])
  · obtain ⟨d, hd, rfl⟩ := apply_anyValue h
    exact { hs with project := .inr hd }
  · obtain ⟨d, hd, rfl⟩ := apply_anyValue h
    exact { hs with image := .inr hd }
  · obtain ⟨d, hd, rfl⟩ := apply_anyValue h
    exact { hs with
      audio := List.forall_mem_append.mpr ⟨hs.audio, List.forall_mem_singleton.mpr hd⟩ }
  · obtain ⟨d, hd, rfl⟩ := apply_realValue h
    exact { hs with
      durations := List.forall_mem_append.mpr ⟨hs.durations, List.forall_mem_singleton.mpr hd⟩ }
  · obtain ⟨d, hd, rfl⟩ := apply_anyValue h
    exact { hs with }
  · obtain ⟨d, hd, rfl⟩ := apply_anyValue h
    exact { hs with music := .inr hd }
  · obtain ⟨d, hd, rfl⟩ := apply_wholeValue h
    exact { hs with musicVolume := hd }
  · obtain ⟨d, hd, rfl⟩ := apply_wholeValue h
    exact { hs with volume := hd }
  · obtain ⟨d, hd, rfl⟩ := apply_anyValue h
    exact { hs with output := .inr hd }
  · obtain ⟨d, hd, rfl⟩ := apply_anyValue h
    exact { hs with outputDirectory := .inr hd }
  · obtain rfl := Except.ok.inj h
    exact { hs with }
  · obtain rfl := Except.ok.inj h
    exact { hs with }
  · obtain ⟨d, hd, rfl⟩ := apply_anyValue h
    exact { hs with cache := .inr hd }
  all_goals
    obtain rfl := Except.ok.inj h
    exact { hs with }

theorem written_of_read {arguments : List String} {s : EncodeSettings}
    (h : read arguments = .ok s) : s.Written := by
  obtain ⟨⟨settings, extra⟩, hread, h⟩ := bind_eq_ok_iff.mp h
  have hwritten := readArguments_invariant (P := Written) (fun u hu _ _ => Written.apply hu)
    written_standard hread
  obtain ⟨_, -, h⟩ := bind_eq_ok_iff.mp h
  dsimp only at h
  split at h
  · obtain ⟨_, hthrow, -⟩ := bind_eq_ok_iff.mp h
    exact absurd hthrow (by simp [throw, throwThe, MonadExceptOf.throw])
  · obtain rfl := Except.ok.inj h
    exact hwritten

end EncodeSettings

end StillVideo
