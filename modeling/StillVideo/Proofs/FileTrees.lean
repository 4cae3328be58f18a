import StillVideo.Project.Production
import StillVideo.Proofs.NestedPaths
import StillVideo.Proofs.NumberText

/-!
# What a directory holds

A directory that is removed with all that is below it holds nothing (`Machine.holds_withoutTree`),
and what it holds stays while directories and files are added. The picture of a project lies in the
directory that the project creates for it (`Project.isWithin_picturePath`).
-/

namespace StillVideo

/-! ## Directories and what is below them -/

namespace Machine

/-- There is a file or a directory at `root` or below it. -/
def holds (m : Machine) (root : String) : Bool :=
  m.files.any (fun f => isWithin root f.1) || m.directories.any (isWithin root)

variable {m : Machine} {root path : String}

theorem isWithin_self (root : String) : isWithin root root = true := by
  unfold isWithin
  rw [beq_self_eq_true, Bool.true_or]

theorem holds_eq_true_iff : m.holds root = true ↔
    (∃ f ∈ m.files, isWithin root f.1 = true) ∨ ∃ d ∈ m.directories, isWithin root d = true := by
  unfold holds
  rw [Bool.or_eq_true, List.any_eq_true, List.any_eq_true]

theorem holds_withoutTree (m : Machine) (path : String) :
    (m.withoutTree path).holds (m.key path) = false := by
  rw [← Bool.not_eq_true, holds_eq_true_iff]
  rintro (⟨f, hf, hwithin⟩ | ⟨d, hd, hwithin⟩)
  · simpa [hwithin] using (List.mem_filter.mp hf).2
  · simpa [hwithin] using (List.mem_filter.mp hd).2

theorem files_withDirectory (path : String) : (m.withDirectory path).files = m.files := by
  unfold withDirectory
  dsimp only

theorem cwd_withDirectory (path : String) : (m.withDirectory path).cwd = m.cwd := by
  unfold withDirectory
  dsimp only

theorem directory_mem_withDirectory {d : String} (h : d ∈ m.directories) (path : String) :
    d ∈ (m.withDirectory path).directories := by
  unfold withDirectory
  exact List.mem_append_right _ h

theorem files_withFile (path : String) (content : Content) :
    (m.withFile path content).files =
      (m.key path, content) :: m.files.filter (·.1 != m.key path) := by
  unfold withFile
  dsimp only
  rw [files_withDirectory]

theorem directories_withFile (path : String) (content : Content) :
    (m.withFile path content).directories =
      (m.withDirectory (Path.dirname (m.key path))).directories := by
  unfold withFile
  dsimp only

theorem cwd_withFile (path : String) (content : Content) :
    (m.withFile path content).cwd = m.cwd := by
  unfold withFile
  dsimp only
  rw [cwd_withDirectory]

theorem key_withFile (path other : String) (content : Content) :
    (m.withFile path content).key other = m.key other := by
  unfold key
  rw [cwd_withFile]

theorem record_withDirectory (m : Machine) (path : String) :
    (m.withDirectory path).record = m.record := by
  unfold withDirectory
  dsimp only

theorem record_withFile (m : Machine) (path : String) (content : Content) :
    (m.withFile path content).record = m.record := by
  unfold withFile
  dsimp only
  rw [record_withDirectory]

theorem token_withDirectory (m : Machine) (path : String) :
    (m.withDirectory path).token = m.token := by
  unfold withDirectory
  dsimp only

theorem token_withFile (m : Machine) (path : String) (content : Content) :
    (m.withFile path content).token = m.token := by
  unfold withFile
  dsimp only
  rw [token_withDirectory]

theorem record_withoutTree (m : Machine) (path : String) :
    (m.withoutTree path).record = m.record := rfl

theorem holds_withFile (h : m.holds root = true) (path : String) (content : Content) :
    (m.withFile path content).holds root = true := by
  rw [holds_eq_true_iff] at h ⊢
  rw [files_withFile, directories_withFile]
  rcases h with ⟨f, hf, hwithin⟩ | ⟨d, hd, hwithin⟩
  · refine .inl ?_
    by_cases hkey : f.1 = m.key path
    · exact ⟨(m.key path, content), List.mem_cons_self, hkey ▸ hwithin⟩
    · exact ⟨f, List.mem_cons_of_mem _ (List.mem_filter.mpr ⟨hf, by simpa using hkey⟩), hwithin⟩
  · exact .inr ⟨d, directory_mem_withDirectory hd _, hwithin⟩

/-- A directory is there when it has been created. -/
theorem holds_withDirectory_self (h : m.key path ≠ "/") :
    (m.withDirectory path).holds (m.key path) = true := by
  rw [holds_eq_true_iff]
  refine .inr ⟨m.key path, List.mem_append.mpr ?_, isWithin_self _⟩
  by_cases hd : m.key path ∈ m.directories
  · exact .inr hd
  · refine .inl (List.mem_filter.mpr ⟨List.mem_cons_self, ?_⟩)
    simp [h, hd]

/-- What exists at a path or below it is held there. -/
theorem holds_of_pathExists (hexists : m.pathExists path = true)
    (hwithin : isWithin root (m.key path) = true) (hroot : m.key path ≠ "/") :
    m.holds root = true := by
  rw [holds_eq_true_iff]
  unfold pathExists file? isDirectory at hexists
  rw [Bool.or_eq_true] at hexists
  rcases hexists with hfile | hdirectory
  · refine .inl ?_
    split at hfile
    · exact absurd hfile (by simp)
    · obtain ⟨content, hlookup⟩ := Option.isSome_iff_exists.mp hfile
      obtain ⟨f, hf, hkey⟩ := List.lookup_isSome_iff.mp hfile
      exact ⟨f, hf, by rwa [beq_iff_eq.mp hkey] at hwithin⟩
  · refine .inr ⟨m.key path, ?_, hwithin⟩
    simpa [hroot] using (Bool.and_eq_true_iff.mp hdirectory).2

/-- A file that has been written exists. -/
theorem pathExists_withFile (h : path ≠ "") (content : Content) :
    (m.withFile path content).pathExists path = true := by
  have hempty : path.isEmpty = false := by simpa using h
  have hfile : (m.withFile path content).file? path = some content := by
    unfold file?
    rw [if_neg (by rw [hempty]; exact Bool.false_ne_true)]
    rw [key_withFile, files_withFile, List.lookup_cons_self]
  unfold pathExists
  rw [hfile]
  rfl

end Machine

/-! ## The directory of a project -/

namespace LocalTime

theorem slash_not_mem_twoDigits (n : Nat) : '/' ∉ (twoDigits n).toList := by
  unfold twoDigits padLeft
  rw [String.toList_ofList, List.mem_append]
  rintro (h | h)
  · exact absurd (List.eq_of_mem_replicate h) (by decide)
  · exact absurd (isDigit_of_mem_decimalDigits h) (by decide)

theorem slash_not_mem_monthName (n : Nat) : '/' ∉ (monthName n).toList := by
  unfold monthName
  rw [List.getD_eq_getElem?_getD]
  cases h : ["jan", "feb", "mar", "apr", "may", "jun", "jul", "aug", "sep", "oct", "nov",
      "dec"][n - 1]? with
  | none => simp
  | some name =>
    have hall : ∀ name ∈ ["jan", "feb", "mar", "apr", "may", "jun", "jul", "aug", "sep", "oct",
      "nov", "dec"], '/' ∉ name.toList := by decide
    exact hall name (List.mem_of_getElem? h)

theorem slash_not_mem_letter (n : Nat) : '/' ∉ (letter n).toList := by
  have hall : ∀ k < 26, '/' ∉ (String.singleton (Char.ofNat (65 + k))).toList := by decide
  exact hall (n % 26) (Nat.mod_lt n (by decide))

theorem slash_not_mem_stamp (t : LocalTime) : '/' ∉ t.stamp.toList := by
  unfold stamp
  simp only [String.toList_append, List.mem_append, not_or]
  exact ⟨⟨⟨⟨⟨slash_not_mem_twoDigits _, slash_not_mem_monthName _⟩, slash_not_mem_twoDigits _⟩,
    slash_not_mem_letter _⟩, slash_not_mem_twoDigits _⟩, slash_not_mem_letter _⟩

end LocalTime

namespace Project

/-- The directory that a project creates unless it is given one. -/
def ownDirectory : String := "/tmp/stillcast-run-XXXXXXXX"

/-- The picture that a project draws at a time into a directory. -/
def picturePath (directory : String) (t : LocalTime) : String :=
  Path.join directory (t.stamp ++ "-background.png")

theorem key_ownDirectory (m : Machine) : m.key ownDirectory = ownDirectory := by
  show Path.absolute m.cwd ownDirectory = ownDirectory
  rw [Path.absolute, if_pos (by decide)]
  decide

/-- The picture lies in the directory that the project creates for it. -/
theorem isWithin_picturePath (m : Machine) (t : LocalTime) :
    Machine.isWithin ownDirectory (m.key (picturePath ownDirectory t)) = true := by
  have hdirectory : Path.EndsIn ownDirectory "stillcast-run-XXXXXXXX".toList :=
    ⟨"/tmp".toList, by decide⟩
  have hname : Path.IsPlain "stillcast-run-XXXXXXXX".toList :=
    Path.isPlain_of_length (by decide) (by decide)
  have hpicture : Path.IsPlain (t.stamp ++ "-background.png").toList := by
    refine Path.isPlain_of_length ?_ ?_
    · rw [String.toList_append, List.mem_append, not_or]
      exact ⟨t.slash_not_mem_stamp, by decide⟩
    · rw [String.toList_append, List.length_append]
      have : "-background.png".toList.length = 15 := by decide
      omega
  have hwithin := Machine.isWithin_key_join (m := m) hdirectory hname hpicture
  rw [key_ownDirectory] at hwithin
  exact hwithin

/-- A picture that exists is held by its directory. -/
theorem holds_of_picturePath {m : Machine} {t : LocalTime}
    (h : m.pathExists (picturePath ownDirectory t) = true) : m.holds ownDirectory = true := by
  have hwithin := isWithin_picturePath m t
  refine Machine.holds_of_pathExists h hwithin fun hroot => ?_
  rw [hroot] at hwithin
  exact absurd hwithin (by decide)

theorem picturePath_ne_empty (directory : String) (t : LocalTime) :
    picturePath directory t ≠ "" := by
  have hname : ∀ lead : String, lead ++ (t.stamp ++ "-background.png") ≠ "" := by
    intro lead h
    have hlength := congrArg String.length h
    rw [String.length_append, String.length_append,
      show "-background.png".length = 15 by decide, String.length_empty] at hlength
    omega
  unfold picturePath Path.join
  split
  · simp
  · split
    · exact hname directory
    · exact hname (directory ++ "/")

end Project

end StillVideo
