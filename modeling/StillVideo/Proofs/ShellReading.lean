import StillVideo.EncoderTool

/-!
# Reading command lines

`shellWords?` reads a line as a shell parts it into words: blanks part words, single quotes and
double quotes keep blanks together, and a backslash takes the next character as it is. A line in
which anything else is at work, such as an operator, an expansion or a pattern outside of quotes, is
not read. The reader knows the rules of the shell and nothing of the functions that write commands.

`shellWords?_commandText`: a command reads back to the words that it was made of.
-/

namespace StillVideo

/-! ## The reader -/

/-- Where a shell is on a line: between words, in a word, or inside quotes. -/
inductive ShellPlace
  | gap | word | single | double
  deriving DecidableEq, Repr

/-- Blanks between words. -/
def isShellBlank (c : Char) : Bool := c == ' ' || c == '\t'

/-- Characters that mean more to the shell than themselves outside of quotes, quotes and blanks
apart: operators, the end of a command, expansions, patterns, home directories and comments. -/
def isShellSign (c : Char) : Bool := "\n|&;<>()$`*?[~#\\".toList.contains c

/-- Characters that a backslash keeps from being read between double quotes. -/
def isShellEscaped (c : Char) : Bool := "$`\"\\".toList.contains c

/-- The words with one more character at the beginning of the first one. -/
def withFirst (c : Char) : List (List Char) → List (List Char)
  | [] => [[c]]
  | word :: rest => (c :: word) :: rest

/-- The words on the rest of a line. Inside a word or quotes, the first one is what is left of the
word. A backslash before the end of a line continues the line. -/
def readShell : ShellPlace → List Char → Option (List (List Char))
  | .gap, [] => some []
  | .word, [] => some [[]]
  | .single, [] | .double, [] => none
  | .single, c :: cs =>
    if c = '\'' then readShell .word cs else (readShell .single cs).map (withFirst c)
  | .double, '\\' :: c :: cs =>
    if c = '\n' then readShell .double cs
    else if isShellEscaped c then (readShell .double cs).map (withFirst c)
    else (readShell .double cs).map fun words => withFirst '\\' (withFirst c words)
  | .double, c :: cs =>
    if c = '"' then readShell .word cs
    else if isShellEscaped c then none
    else (readShell .double cs).map (withFirst c)
  | place, '\\' :: c :: cs =>
    if c = '\n' then readShell place cs else (readShell .word cs).map (withFirst c)
  | place, c :: cs =>
    if c = '\'' then readShell .single cs
    else if c = '"' then readShell .double cs
    else if isShellSign c then none
    else if isShellBlank c then
      if place = .gap then readShell .gap cs else (readShell .gap cs).map ([] :: ·)
    else (readShell .word cs).map (withFirst c)

/-- The words of a command line. -/
def shellWords? (line : String) : Option (List String) :=
  (readShell .gap line.toList).map (·.map String.ofList)

/-! ## Words that are written -/

/-- The words with a text at the beginning of the first one. -/
def withFront (cs : List Char) (words : List (List Char)) : List (List Char) :=
  cs.foldr withFirst words

theorem withFront_cons (c : Char) (cs : List Char) (words : List (List Char)) :
    withFront (c :: cs) words = withFirst c (withFront cs words) := rfl

theorem map_withFront_cons (c : Char) (cs : List Char) (words : Option (List (List Char))) :
    (words.map (withFront cs)).map (withFirst c) = words.map (withFront (c :: cs)) := by
  rw [Option.map_map]
  rfl

theorem withFront_head (cs word : List Char) (rest : List (List Char)) :
    withFront cs (word :: rest) = (cs ++ word) :: rest := by
  induction cs with
  | nil => rfl
  | cons c cs ih => rw [withFront_cons, ih]; rfl

/-- A plain character has no meaning to the shell. -/
theorem plain_cases {c : Char} (h : isPlainInShell c = true) :
    c ≠ '\'' ∧ c ≠ '"' ∧ c ≠ '\\' ∧ isShellSign c = false ∧ isShellBlank c = false := by
  have hne : ∀ d, isPlainInShell d = false → c ≠ d := by
    rintro d hd rfl
    rw [h] at hd
    exact Bool.noConfusion hd
  have hsigns : "\n|&;<>()$`*?[~#\\".toList.all (fun d => !isPlainInShell d) = true := by decide
  refine ⟨hne _ (by decide), hne _ (by decide), hne _ (by decide), ?_, ?_⟩
  · unfold isShellSign
    rw [List.contains_eq_mem, decide_eq_false_iff_not]
    intro hmem
    have hno := List.all_eq_true.mp hsigns c hmem
    rw [h] at hno
    exact Bool.noConfusion hno
  · unfold isShellBlank
    rw [beq_eq_false_iff_ne.mpr (hne ' ' (by decide)),
      beq_eq_false_iff_ne.mpr (hne '\t' (by decide))]
    rfl

variable {c : Char} {cs rest : List Char}

/-- A plain character begins a word or continues it. -/
theorem readShell_plain {place : ShellPlace} (hplace : place = .gap ∨ place = .word)
    (h : isPlainInShell c = true) (rest : List Char) :
    readShell place (c :: rest) = (readShell .word rest).map (withFirst c) := by
  obtain ⟨hsingle, hdouble, hback, hsign, hblank⟩ := plain_cases h
  rcases hplace with rfl | rfl <;> simp [readShell, hsingle, hdouble, hback, hsign, hblank]

theorem readShell_plain_append (h : ∀ c ∈ cs, isPlainInShell c = true) (rest : List Char) :
    readShell .word (cs ++ rest) = (readShell .word rest).map (withFront cs) := by
  induction cs with
  | nil => exact Option.map_id'.symm
  | cons c cs ih =>
    rw [List.cons_append, readShell_plain (.inr rfl) (h c List.mem_cons_self),
      ih fun d hd => h d (List.mem_cons_of_mem _ hd), map_withFront_cons]

/-- Between single quotes a text is taken as it is; at a single quote the quotes are left, and one
between double quotes is read. -/
theorem readShell_single (cs rest : List Char) :
    readShell .single (cs.flatMap shellQuotedChar ++ '\'' :: rest) =
      (readShell .word rest).map (withFront cs) := by
  induction cs with
  | nil =>
    show readShell .word rest = _
    exact Option.map_id'.symm
  | cons c cs ih =>
    rw [List.flatMap_cons, List.append_assoc, ← map_withFront_cons, ← ih]
    unfold shellQuotedChar
    split
    · rename_i hc
      rw [beq_iff_eq.mp hc]
      simp [readShell, isShellEscaped]
    · rename_i hc
      rw [beq_iff_eq] at hc
      simp [readShell, hc]

/-- **Words.** A word that is written reads back, whatever characters it has. -/
theorem readShell_shellWord (s : String) (rest : List Char) :
    readShell .gap ((shellWord s).toList ++ rest) =
      (readShell .word rest).map (withFront s.toList) := by
  unfold shellWord
  dsimp only
  split
  · -- the empty word is a pair of quotes
    rename_i hempty
    rw [List.isEmpty_iff.mp hempty]
    exact readShell_single [] rest
  · rename_i hne
    split
    · rename_i hplain
      have hchars := List.all_eq_true.mp hplain
      obtain ⟨c, cs, hcs⟩ := List.exists_cons_of_ne_nil (mt List.isEmpty_iff.mpr hne)
      rw [hcs] at hchars ⊢
      rw [List.cons_append, readShell_plain (.inl rfl) (hchars c List.mem_cons_self),
        readShell_plain_append fun d hd => hchars d (List.mem_cons_of_mem _ hd),
        map_withFront_cons]
    · rw [String.toList_ofList, List.cons_append, List.cons_append, List.append_assoc,
        List.singleton_append]
      exact readShell_single s.toList rest

/-- A word at the end of a line is the last one. -/
theorem readShell_lastWord (s : String) :
    readShell .gap (shellWord s).toList = some [s.toList] := by
  have h := readShell_shellWord s []
  rw [List.append_nil] at h
  rw [h]
  show some (withFront s.toList [[]]) = _
  rw [withFront_head, List.append_nil]

/-- Behind a word and a space the other words are read. -/
theorem readShell_word_space (s : String) (rest : List Char) :
    readShell .gap ((shellWord s).toList ++ ' ' :: rest) =
      (readShell .gap rest).map (s.toList :: ·) := by
  have hspace : readShell .word (' ' :: rest) = (readShell .gap rest).map ([] :: ·) := by
    simp [readShell, isShellSign, isShellBlank]
  rw [readShell_shellWord, hspace, Option.map_map]
  congr 1
  funext words
  show withFront s.toList ([] :: words) = _
  rw [withFront_head, List.append_nil]

theorem readShell_intercalate (args : List String) :
    readShell .gap ([' '].intercalate (args.map fun s => (shellWord s).toList)) =
      some (args.map String.toList) := by
  induction args with
  | nil => rfl
  | cons s args ih =>
    cases args with
    | nil =>
      rw [List.map_singleton, List.intercalate_singleton]
      exact readShell_lastWord s
    | cons t args =>
      rw [List.map_cons, List.intercalate_cons_of_ne_nil (by simp), List.append_assoc]
      rw [List.singleton_append, readShell_word_space, ih]
      rfl

/-- **Commands.** A command line reads back to its words: as many, in their order, each with its
text. -/
theorem shellWords?_commandText (args : List String) :
    shellWords? (commandText args) = some args := by
  unfold shellWords? commandText
  rw [String.toList_intercalate, List.map_map]
  show (readShell .gap ([' '].intercalate (args.map fun s => (shellWord s).toList))).map _ = _
  rw [readShell_intercalate]
  simp [Function.comp_def]

/-- Quotes alternate around a single quote, and an empty word is a pair of quotes. -/
example : shellWords? "'it'\"'\"'s' 'a;b' ''" = some ["it's", "a;b", ""] := by decide

end StillVideo
