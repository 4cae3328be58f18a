import StillVideo.Concatenation
import StillVideo.Project.File
import StillVideo.Proofs.GraphReader
import StillVideo.Proofs.TextParts

/-!
# Reading lists of files

The encoder reads a list of files to be joined line by line. A line names a file by the word `file`
and a path, in which single quotes keep everything between them as it is and a backslash outside of
quotes does so with the next character. The reader knows these rules and nothing of the functions
that write lists.

Every path is carried by its quotes (`readListLine?_listedFile`), but lines are parted before quotes
are undone, so that no list names a path with a line break. `joinList_reads_back_iff`: a list reads
back to the absolute paths of its files exactly if none of them has one.
-/

namespace StillVideo

/-! ## The reader -/

/-- White space in lists. -/
def isListBlank (c : Char) : Bool := " \t\r\n".toList.contains c

/-- The word that a text begins with, without its quotes; quotes are open at the beginning if
`quoted`. The word ends at white space outside of quotes or with the text. -/
def listWord : (quoted : Bool) → List Char → List Char
  | _, [] => []
  | true, c :: cs => if c = '\'' then listWord false cs else c :: listWord true cs
  | false, '\\' :: c :: cs => c :: listWord false cs
  | false, c :: cs =>
    if c = '\'' then listWord true cs
    else if isListBlank c then []
    else c :: listWord false cs

/-- The file that a line names, if any. Blank lines and comments name none, and a line of another
kind is not read. -/
def readListLine? (line : List Char) : Option (Option String) :=
  let body := line.dropWhile isListBlank
  if body.isEmpty || body.head? == some '#' then some none
  else if body.takeWhile (!isListBlank ·) = "file".toList then
    let argument := (body.dropWhile (!isListBlank ·)).dropWhile isListBlank
    some (some (String.ofList (listWord false argument)))
  else none

/-- The lines of a text, whatever way they end. -/
def listLines (cs : List Char) : List (List Char) := splitFields '\n' (ProjectFile.lineFeeds cs)

/-- The files that lines name, in order. -/
def readListLines? : List (List Char) → Option (List String)
  | [] => some []
  | line :: rest => do return (← readListLine? line).toList ++ (← readListLines? rest)

/-- The files that a list names, line by line. -/
def readJoinList? (text : String) : Option (List String) := readListLines? (listLines text.toList)

/-! ## Quotes -/

/-- Between quotes a path is taken as it is; at a single quote the quotes are left, and one behind a
backslash is read. -/
theorem listWord_quoted (cs rest : List Char) :
    listWord true (cs.flatMap listedChar ++ '\'' :: rest) = cs ++ listWord false rest := by
  induction cs with
  | nil => simp [listWord]
  | cons c cs ih =>
    rw [List.flatMap_cons, List.append_assoc, List.cons_append, ← ih]
    unfold listedChar
    split
    · rename_i hc
      rw [beq_iff_eq.mp hc]
      simp [listWord]
    · rename_i hc
      rw [beq_iff_eq] at hc
      simp [listWord, hc]

theorem toList_listedFile (path : String) : (listedFile path).toList =
    ['f', 'i', 'l', 'e', ' ', '\''] ++ (path.toList.flatMap listedChar ++ ['\'']) := by
  unfold listedFile
  simp

/-- **Quotes.** The line of a file names its path, whatever characters it has. -/
theorem readListLine?_listedFile (path : String) :
    readListLine? (listedFile path).toList = some (some path) := by
  have hword : listWord false ('\'' :: (path.toList.flatMap listedChar ++ ['\''])) =
      path.toList := by
    rw [listWord, if_pos rfl, listWord_quoted]
    · exact List.append_nil _
    · simp
  rw [toList_listedFile]
  simp only [List.cons_append, List.nil_append]
  generalize path.toList.flatMap listedChar ++ ['\''] = quoted at hword
  have hread : readListLine? ('f' :: 'i' :: 'l' :: 'e' :: ' ' :: '\'' :: quoted) =
      some (some (String.ofList (listWord false ('\'' :: quoted)))) := rfl
  rw [hread, hword, String.ofList_toList]

/-! ## Lines -/

/-- Ends of line. -/
def isLineBreak (c : Char) : Bool := c == '\n' || c == '\r'

/-- The text is one line. -/
def IsOneLine (s : String) : Prop := ∀ c ∈ s.toList, isLineBreak c = false

theorem lineFeeds_eq_self {cs : List Char} (h : '\r' ∉ cs) : ProjectFile.lineFeeds cs = cs := by
  induction cs with
  | nil => rfl
  | cons c cs ih =>
    obtain ⟨hc, hcs⟩ := List.ne_and_not_mem_of_not_mem_cons h
    rw [ProjectFile.lineFeeds, ih hcs]
    · rintro rest rfl -
      exact hc rfl
    · rintro rfl
      exact hc rfl

theorem not_mem_lineFeeds (cs : List Char) : '\r' ∉ ProjectFile.lineFeeds cs := by
  fun_induction ProjectFile.lineFeeds cs with
  | case1 => exact List.not_mem_nil
  | case2 rest ih => exact List.not_mem_cons_of_ne_of_not_mem (by decide) ih
  | case3 rest _ ih => exact List.not_mem_cons_of_ne_of_not_mem (by decide) ih
  | case4 c rest _ hc ih =>
    refine List.not_mem_cons_of_ne_of_not_mem ?_ ih
    rintro rfl
    exact hc rfl

/-- No line has an end of line. -/
theorem isLineBreak_of_mem_listLines {cs line : List Char} (h : line ∈ listLines cs) {c : Char}
    (hc : c ∈ line) : isLineBreak c = false := by
  have hfeed : c ≠ '\n' := by
    rintro rfl
    exact not_mem_splitFields '\n' _ line h hc
  have hreturn : c ≠ '\r' := by
    rintro rfl
    exact not_mem_lineFeeds cs (mem_of_mem_splitFields h hc)
  unfold isLineBreak
  rw [beq_eq_false_iff_ne.mpr hfeed, beq_eq_false_iff_ne.mpr hreturn]
  rfl

theorem mem_of_mem_listWord {quoted : Bool} {cs : List Char} {c : Char}
    (h : c ∈ listWord quoted cs) : c ∈ cs := by
  fun_induction listWord quoted cs <;> grind

/-- A path that a line names consists of characters of the line. -/
theorem mem_of_readListLine? {line : List Char} {path : String}
    (h : readListLine? line = some (some path)) {c : Char} (hc : c ∈ path.toList) : c ∈ line := by
  unfold readListLine? at h
  dsimp only at h
  split at h
  · exact absurd h (by simp)
  · split at h
    · obtain rfl := Option.some.inj (Option.some.inj h)
      rw [String.toList_ofList] at hc
      have hbody := (List.dropWhile_sublist _).subset (mem_of_mem_listWord hc)
      exact (List.dropWhile_sublist _).subset ((List.dropWhile_sublist _).subset hbody)
    · exact absurd h (by simp)

theorem readListLines?_cons_eq_some_iff {line : List Char} {rest : List (List Char)}
    {paths : List String} : readListLines? (line :: rest) = some paths ↔
      ∃ file files, readListLine? line = some file ∧ readListLines? rest = some files ∧
        file.toList ++ files = paths := by
  simp [readListLines?, Option.bind_eq_some_iff]

/-- **Lines.** What lines without ends of line name has none either, and so no list whatever names a
path with a line break. -/
theorem isOneLine_of_readListLines? {lines : List (List Char)} {paths : List String}
    (hlines : ∀ line ∈ lines, ∀ c ∈ line, isLineBreak c = false)
    (h : readListLines? lines = some paths) : ∀ path ∈ paths, IsOneLine path := by
  induction lines generalizing paths with
  | nil =>
    obtain rfl := Option.some.inj h
    exact List.forall_mem_nil _
  | cons line rest ih =>
    obtain ⟨file, files, hfile, hfiles, rfl⟩ := readListLines?_cons_eq_some_iff.mp h
    obtain ⟨hline, hrest⟩ := List.forall_mem_cons.mp hlines
    rw [List.forall_mem_append]
    refine ⟨fun path hpath c hc => ?_, ih hrest hfiles⟩
    obtain rfl := Option.mem_toList.mp hpath
    exact hline c (mem_of_readListLine? hfile hc)

theorem isOneLine_of_readJoinList? {text : String} {paths : List String}
    (h : readJoinList? text = some paths) : ∀ path ∈ paths, IsOneLine path :=
  isOneLine_of_readListLines? (fun _ hline _ hc => isLineBreak_of_mem_listLines hline hc) h

/-! ## Written lists -/

theorem forall_isLineBreak {cs : List Char} (h : cs.all (!isLineBreak ·) = true) :
    ∀ c ∈ cs, isLineBreak c = false := by
  simpa using h

theorem IsOneLine.listedFile {path : String} (h : IsOneLine path) :
    IsOneLine (StillVideo.listedFile path) := by
  have hquoted : ∀ c ∈ path.toList.flatMap listedChar, isLineBreak c = false := by
    intro c hc
    obtain ⟨d, hd, hc⟩ := List.mem_flatMap.mp hc
    unfold listedChar at hc
    split at hc
    · exact forall_isLineBreak (by decide) c hc
    · rw [List.mem_singleton.mp hc]
      exact h d hd
  unfold IsOneLine
  rw [toList_listedFile, List.forall_mem_append, List.forall_mem_append]
  exact ⟨forall_isLineBreak (by decide), hquoted, forall_isLineBreak (by decide)⟩

theorem readListLines?_listedFile (paths : List String) :
    readListLines? (paths.map (fun p => (listedFile p).toList) ++ [[]]) = some paths := by
  induction paths with
  | nil => rfl
  | cons path paths ih =>
    exact readListLines?_cons_eq_some_iff.mpr
      ⟨some path, paths, readListLine?_listedFile path, ih, rfl⟩

/-- The characters of a list, as the lines of its files. -/
theorem toList_joinList (cwd : String) (audio : List String) : (joinList cwd audio).toList =
    ['\n'].intercalate ((audio.map (Path.absolute cwd)).map fun p => (listedFile p).toList) ++
      ['\n'] := by
  unfold joinList
  rw [String.toList_append, String.toList_intercalate, List.map_map, List.map_map]
  rfl

variable {cwd : String} {audio : List String}

/-- The lines of a list name one file each, if none of its files breaks a line. -/
theorem readJoinList?_joinList (h : ∀ a ∈ audio, IsOneLine (Path.absolute cwd a)) :
    readJoinList? (joinList cwd audio) = some (audio.map (Path.absolute cwd)) := by
  have hpaths : ∀ p ∈ audio.map (Path.absolute cwd), IsOneLine p := by
    intro p hp
    obtain ⟨a, ha, rfl⟩ := List.mem_map.mp hp
    exact h a ha
  unfold readJoinList? listLines
  rw [toList_joinList]
  generalize audio.map (Path.absolute cwd) = paths at hpaths
  have hbreaks : ∀ l ∈ paths.map (fun p => (listedFile p).toList), ∀ c ∈ l,
      isLineBreak c = false := by
    intro l hl
    obtain ⟨p, hp, rfl⟩ := List.mem_map.mp hl
    exact (hpaths p hp).listedFile
  have hreturn :
      '\r' ∉ ['\n'].intercalate (paths.map fun p => (listedFile p).toList) ++ ['\n'] := by
    rw [List.mem_append, not_or]
    refine ⟨fun hmem => ?_, by decide⟩
    rcases mem_of_mem_intercalate hmem with heq | ⟨l, hl, hc⟩
    · exact absurd heq (by decide)
    · exact absurd (hbreaks l hl _ hc) (by decide)
  rw [lineFeeds_eq_self hreturn, splitFields_append]
  cases paths with
  | nil => rfl
  | cons p ps =>
    rw [splitFields_intercalate (fun l hl hc => absurd (hbreaks l hl _ hc) (by decide)) (by simp)]
    exact readListLines?_listedFile (p :: ps)

/-- **Lists of files.** The line of a file names its path, whatever characters it has, while no list
whatever names a path with a line break, line by line. So the list of any files reads back to their
absolute paths, one line for each file and in order, exactly if none of these paths has a line
break. -/
theorem joinList_reads_back_iff (cwd : String) (audio : List String) :
    (∀ path, readListLine? (listedFile path).toList = some (some path)) ∧
    (∀ text paths, readJoinList? text = some paths → ∀ path ∈ paths, IsOneLine path) ∧
    (readJoinList? (joinList cwd audio) = some (audio.map (Path.absolute cwd)) ↔
      ∀ a ∈ audio, IsOneLine (Path.absolute cwd a)) := by
  refine ⟨readListLine?_listedFile, fun _ _ => isOneLine_of_readJoinList?, fun h a ha => ?_,
    readJoinList?_joinList⟩
  exact isOneLine_of_readJoinList? h _ (List.mem_map_of_mem ha)

/-- One file whose name has a line break is read as two files. -/
theorem joinList_brokenName :
    readJoinList? (joinList "/work" ["a\nfile b"]) = some ["/work/a", "b"] ∧
    ["a\nfile b"].map (Path.absolute "/work") = ["/work/a\nfile b"] := by
  decide +kernel

end StillVideo
