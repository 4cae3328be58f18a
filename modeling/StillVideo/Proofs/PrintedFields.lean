import StillVideo.Proofs.HeardLines

/-!
# Printed fields

An encoder prints a field of progress as a key, an equals sign and a value, with white space around
both as it likes (`printField`). Reading undoes this: what is read from the output pipe as a field
is exactly what can have been printed so (`read_output_iff`), and a line of the error pipe keeps its
text (`read_errors_of_visible`). Together they make `EncoderLine.read` a reader that undoes printing
(`read_undoesPrinting`).
-/

namespace StillVideo

/-! ## Trimming twice -/

section

variable {p q : Char → Bool} {c : Char}

theorem trimRight_append_cons (h : p c = false) (xs ys : List Char) :
    trimRight p (xs ++ c :: ys) = xs ++ c :: trimRight p ys := by
  obtain ⟨⟨ends, hends, heq⟩, hlast⟩ := isTrimmedRight_trimRight p ys
  refine isTrimmedRight_iff.mp ⟨⟨ends, hends, ?_⟩, ?_⟩
  · rw [List.append_assoc, List.cons_append, ← heq]
  · intro d hd
    rw [List.getLast?_append_of_ne_nil _ (List.cons_ne_nil _ _)] at hd
    cases hcore : trimRight p ys with
    | nil =>
      rw [hcore] at hd
      rwa [← Option.some.inj hd]
    | cons e es =>
      rw [hcore, List.getLast?_cons_cons, ← hcore] at hd
      exact hlast d hd

/-- What is trimmed away at the end first is trimmed away anyhow. -/
theorem trim_trimRight (h : ∀ c, q c = true → p c = true) (cs : List Char) :
    trim p (trimRight q cs) = trim p cs := by
  obtain ⟨⟨ends, hends, hcs⟩, -⟩ := isTrimmedRight_trimRight q cs
  obtain ⟨⟨front, ends', hfront, hends', heq⟩, hhead, hlast⟩ := isTrimmed_trim p (trimRight q cs)
  refine (trim_eq_of_isTrimmed ⟨⟨front, ends' ++ ends, hfront, ?_, ?_⟩, hhead, hlast⟩).symm
  · exact List.forall_mem_append.mpr ⟨hends', fun c hc => h c (hends c hc)⟩
  · conv_lhs => rw [hcs, heq]
    simp only [List.append_assoc]

end

namespace EncoderLine

theorem isBlank_of_isLineEnd (c : Char) (h : isLineEnd c = true) : isBlank c = true := by
  rcases Bool.or_eq_true_iff.mp h with h | h
  · rw [eq_of_beq h]
    decide
  · rw [eq_of_beq h]
    decide

/-! ## Fields in print -/

/-- The text has no white space around it. -/
def IsBare (cs : List Char) : Prop :=
  (∀ c ∈ cs.head?, isBlank c = false) ∧ ∀ c ∈ cs.getLast?, isBlank c = false

/-- A key and a value that can be printed as a field: the key names something and has neither an
equals sign nor a space inside, and neither of them has white space around it. -/
structure IsPrintable (key value : String) : Prop where
  named : key ≠ ""
  no_equals : '=' ∉ key.toList
  no_space : ' ' ∉ key.toList
  key_bare : IsBare key.toList
  value_bare : IsBare value.toList

/-- The white space around a key and a value. -/
structure Padding where
  beforeKey : List Char
  afterKey : List Char
  beforeValue : List Char
  afterValue : List Char

/-- There is nothing but white space. -/
structure Padding.IsBlank (p : Padding) : Prop where
  beforeKey : ∀ c ∈ p.beforeKey, isBlank c = true
  afterKey : ∀ c ∈ p.afterKey, isBlank c = true
  beforeValue : ∀ c ∈ p.beforeValue, isBlank c = true
  afterValue : ∀ c ∈ p.afterValue, isBlank c = true

/-- No white space at all. -/
def Padding.none : Padding := ⟨[], [], [], []⟩

theorem Padding.isBlank_none : Padding.none.IsBlank :=
  ⟨List.forall_mem_nil _, List.forall_mem_nil _, List.forall_mem_nil _, List.forall_mem_nil _⟩

/-- The text of a field: the key, an equals sign and the value, padded. -/
def printField (p : Padding) (key value : String) : List Char :=
  p.beforeKey ++ (key.toList ++ p.afterKey) ++
    '=' :: (p.beforeValue ++ (value.toList ++ p.afterValue))

theorem isTrimmed_of_isBare {front core ends : List Char} (h : IsBare core)
    (hfront : ∀ c ∈ front, isBlank c = true) (hends : ∀ c ∈ ends, isBlank c = true) :
    IsTrimmed isBlank (front ++ (core ++ ends)) core :=
  ⟨⟨front, ends, hfront, hends, rfl⟩, h⟩

theorem equals_not_mem_of_blank {cs : List Char} (h : ∀ c ∈ cs, isBlank c = true) : '=' ∉ cs :=
  fun hmem => absurd (h _ hmem) (by decide)

section

variable {key value : String} {line : String}

/-- A text is read as a field exactly if it is one without its line end. -/
theorem read_output_iff_isField : read .output line = .progress key value ↔
    IsField (trimRight isLineEnd line.toList) key.toList value.toList := by
  have hfate : read .output line = .progress key value ↔
      EncoderLine.fate .output line = .field key value := by
    unfold EncoderLine.fate
    generalize read .output line = told
    cases told with
    | progress k v => simp
    | diagnostic text => simp
    | unrecognized text =>
      dsimp only
      split <;> simp
  rw [hfate, ← hasFate_iff]
  constructor
  · intro h
    cases h with
    | field hbody hvisible hfield =>
      rw [isTrimmedRight_iff.mp hbody, String.toList_ofList, String.toList_ofList]
      exact hfield
  · intro h
    have hvisible : ∃ c ∈ trimRight isLineEnd line.toList, isBlank c = false := by
      obtain ⟨before, after, heq, -⟩ := h
      exact ⟨'=', by rw [heq]; simp, by decide⟩
    have hfield := HasFate.field (isTrimmedRight_trimRight isLineEnd line.toList) hvisible h
    rwa [String.ofList_toList, String.ofList_toList] at hfield

/-- A printable field in white space is a field, whatever line end is taken away. -/
theorem isField_printField (h : IsPrintable key value) {p : Padding} (hp : p.IsBlank) :
    IsField (trimRight isLineEnd (printField p key value)) key.toList value.toList := by
  have hequals : isLineEnd '=' = false := by decide
  refine ⟨_, _, trimRight_append_cons hequals _ _, ?_, ?_, ?_, h.no_space, ?_⟩
  · simp only [List.mem_append, not_or]
    exact ⟨equals_not_mem_of_blank hp.beforeKey, h.no_equals, equals_not_mem_of_blank hp.afterKey⟩
  · exact isTrimmed_of_isBare h.key_bare hp.beforeKey hp.afterKey
  · exact fun hnil => h.named (String.toList_eq_nil_iff.mp hnil)
  · have hvalue := isTrimmed_of_isBare h.value_bare hp.beforeValue hp.afterValue
    rw [isTrimmed_iff] at hvalue ⊢
    rw [trim_trimRight isBlank_of_isLineEnd, hvalue]

/-- **Printed fields.** A line of the output pipe is read as a field exactly if it prints one. -/
theorem read_output_iff : read .output line = .progress key value ↔
    IsPrintable key value ∧ ∃ p : Padding, p.IsBlank ∧ line.toList = printField p key value := by
  rw [read_output_iff_isField]
  constructor
  · intro h
    obtain ⟨before, after, heq, hfirst, ⟨⟨front, ends, hfront, hends, rfl⟩, hkey⟩, hne, hspace,
      ⟨⟨front', ends', hfront', hends', rfl⟩, hvalue⟩⟩ := h
    obtain ⟨⟨lineEnd, hlineEnd, hline⟩, -⟩ := isTrimmedRight_trimRight isLineEnd line.toList
    have hequals : '=' ∉ key.toList := fun hmem => hfirst (by simp [hmem])
    refine ⟨⟨fun hkey => hne (String.toList_eq_nil_iff.mpr hkey), hequals, hspace, hkey, hvalue⟩,
      ⟨front, ends, front', ends' ++ lineEnd⟩, ⟨hfront, hends, hfront', ?_⟩, ?_⟩
    · exact List.forall_mem_append.mpr ⟨hends', fun c hc => isBlank_of_isLineEnd c (hlineEnd c hc)⟩
    · rw [hline, heq]
      simp only [printField, List.append_assoc, List.cons_append]
  · rintro ⟨h, p, hp, hline⟩
    rw [hline]
    exact isField_printField h hp

/-- A line of the error pipe that is not blank keeps its text up to its line end. -/
theorem read_errors_of_visible (h : ∃ c ∈ line.toList, isBlank c = false) :
    read .errors line = .diagnostic (String.ofList (trimRight isLineEnd line.toList)) := by
  obtain ⟨⟨ends, hends, hline⟩, -⟩ := isTrimmedRight_trimRight isLineEnd line.toList
  have hvisible : ∃ c ∈ trimRight isLineEnd line.toList, isBlank c = false := by
    obtain ⟨c, hc, hblank⟩ := h
    rw [hline] at hc
    rcases List.mem_append.mp hc with hc | hc
    · exact ⟨c, hc, hblank⟩
    · rw [isBlank_of_isLineEnd c (hends c hc)] at hblank
      exact absurd hblank Bool.noConfusion
  unfold read
  dsimp only
  rw [isBlankText_eq_false_iff.mpr hvisible, if_neg Bool.false_ne_true]

theorem read_output_ne_diagnostic (line text : String) : read .output line ≠ .diagnostic text := by
  unfold read
  dsimp only
  split
  · exact EncoderLine.noConfusion
  · split <;> exact EncoderLine.noConfusion

theorem read_errors_ne_progress (line key value : String) :
    read .errors line ≠ .progress key value := by
  unfold read
  dsimp only
  split <;> exact EncoderLine.noConfusion

end

/-! ## Readers -/

/-- A reader of lines undoes the printing of fields: on the output pipe it finds every printed
field, whatever line ends follow, and no field that cannot be printed, and what it has found it
finds again when that is printed; on the error pipe it finds texts and no field. -/
structure UndoesPrinting (read : Pipe → String → EncoderLine) : Prop where
  printed : ∀ {key value : String} {p : Padding} {ends : List Char}, IsPrintable key value →
    p.IsBlank → (∀ c ∈ ends, isLineEnd c = true) →
    read .output (String.ofList (printField p key value ++ ends)) = .progress key value
  only_printed : ∀ {line key value : String}, read .output line = .progress key value →
    IsPrintable key value ∧ ∃ p : Padding, p.IsBlank ∧ line.toList = printField p key value
  again : ∀ {line key value : String}, read .output line = .progress key value →
    read .output (key ++ "=" ++ value) = .progress key value
  no_diagnostic : ∀ line text : String, read .output line ≠ .diagnostic text
  no_progress : ∀ line key value : String, read .errors line ≠ .progress key value
  errors_kept : ∀ {line : String}, (∃ c ∈ line.toList, isBlank c = false) → ∃ text : String,
    IsTrimmedRight isLineEnd line.toList text.toList ∧ read .errors line = .diagnostic text

theorem read_undoesPrinting : UndoesPrinting read where
  printed {key value p ends} h hp hends := by
    refine read_output_iff.mpr ⟨h, { p with afterValue := p.afterValue ++ ends }, ?_, ?_⟩
    · exact { hp with
        afterValue := List.forall_mem_append.mpr
          ⟨hp.afterValue, fun c hc => isBlank_of_isLineEnd c (hends c hc)⟩ }
    · simp [printField]
  only_printed := read_output_iff.mp
  again {line key value} h := by
    refine read_output_iff.mpr ⟨(read_output_iff.mp h).1, .none, Padding.isBlank_none, ?_⟩
    simp [printField, Padding.none]
  no_diagnostic := read_output_ne_diagnostic
  no_progress := read_errors_ne_progress
  errors_kept {line} h := by
    refine ⟨_, ?_, read_errors_of_visible h⟩
    rw [String.toList_ofList]
    exact isTrimmedRight_trimRight isLineEnd line.toList

/-- A value may contain equals signs and spaces, and a line may end in several ways. -/
example : read .output " out_time = a = b \r\n\n" = .progress "out_time" "a = b" := by decide

end EncoderLine

end StillVideo
