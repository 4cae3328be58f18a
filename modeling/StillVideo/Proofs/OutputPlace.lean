import StillVideo.Proofs.FileNames
import StillVideo.Proofs.JobSteps

/-!
# The place of the video

A plain name that is joined to a directory is split off again (`Path.split_join`), and seen from the
root it stands directly in that directory (`Path.split_absolute_join`). The name of a video is safe
whatever text it comes from (`isOutputName_safeFileName`), so the video stands in the directory that
is chosen for it, whatever name it is given (`outputPath_eq_ok_iff`).
-/

namespace StillVideo

/-! ## Names in a directory -/

namespace Path

variable {file : String}

/-- A path that does not end in a slash has none to drop. -/
theorem dropSlashes_concat {c : Char} (hc : c ≠ '/') (cs : List Char) :
    dropSlashes (cs ++ [c]) = cs ++ [c] := by
  have hall : (cs ++ [c]).all (· == '/') = false := by
    simp [hc]
  unfold dropSlashes
  rw [hall, if_neg Bool.false_ne_true]
  refine trimRight_eq_self fun d hd => ?_
  rw [List.getLast?_concat] at hd
  obtain rfl := Option.some.inj hd
  simpa using hc

/-- Only slashes are dropped. -/
theorem exists_dropSlashes_append (cs : List Char) :
    ∃ n, cs = dropSlashes cs ++ List.replicate n '/' := by
  unfold dropSlashes
  split
  · exact ⟨0, (List.append_nil cs).symm⟩
  · obtain ⟨⟨ends, hends, hcs⟩, -⟩ := isTrimmedRight_trimRight (· == '/') cs
    refine ⟨ends.length, ?_⟩
    rwa [← List.eq_replicate_of_mem fun c hc => beq_iff_eq.mp (hends c hc)]

theorem withSlash_of_slash {d : String} {cs : List Char} (h : d.toList = cs ++ ['/']) :
    withSlash d = d := by
  refine if_pos ?_
  simp [h]

/-- A directory ends in a slash, or it gets one, unless it is the empty one. -/
theorem withSlash_cases (d : String) :
    d = "" ∨ ∃ cs, (withSlash d).toList = cs ++ ['/'] ∧
      (d.toList = cs ++ ['/'] ∨ ∃ front c, c ≠ '/' ∧ d.toList = cs ∧ cs = front ++ [c]) := by
  rcases List.eq_nil_or_concat' d.toList with hnil | ⟨front, c, hchars⟩
  · exact .inl (String.toList_eq_nil_iff.mp hnil)
  by_cases hc : c = '/'
  · subst hc
    exact .inr ⟨front, by rw [withSlash_of_slash hchars, hchars], .inl hchars⟩
  · refine .inr ⟨d.toList, ?_, .inr ⟨front, c, hc, rfl, hchars⟩⟩
    have hlast : (d.isEmpty || d.toList.getLast? == some '/') = false := by
      rw [Bool.or_eq_false_iff, ← Bool.not_eq_true, String.isEmpty_iff, ← String.toList_eq_nil_iff,
        hchars, List.getLast?_concat]
      simp [hc]
    unfold withSlash
    rw [hlast, if_neg Bool.false_ne_true, String.toList_append]
    rfl

theorem withSlash_withSlash (d : String) : withSlash (withSlash d) = withSlash d := by
  rcases withSlash_cases d with rfl | ⟨cs, hd, -⟩
  · rfl
  · exact withSlash_of_slash hd

theorem withSlash_append {d : String} (hd : d ≠ "") (lead : String) :
    withSlash (lead ++ d) = lead ++ withSlash d := by
  have hne : d.toList ≠ [] := fun hnil => hd (String.toList_eq_nil_iff.mp hnil)
  have hempty : d.isEmpty = false := by
    rwa [← Bool.not_eq_true, String.isEmpty_iff]
  have hboth : (lead ++ d).isEmpty = false := by
    rw [← Bool.not_eq_true, String.isEmpty_iff, String.append_eq_empty_iff]
    exact fun h => hd h.2
  unfold withSlash
  rw [hboth, hempty, String.toList_append, List.getLast?_append_of_ne_nil _ hne]
  split
  · rfl
  · rw [String.append_assoc]

/-- What is joined is split again, up to the slashes at the end of the directory. -/
theorem split_join (d : String) (hfile : '/' ∉ file.toList) :
    split (join d file) = (String.ofList (dropSlashes d.toList), file) := by
  obtain ⟨head, hcut, hdrop⟩ : ∃ head, cutLast (join d file).toList = (head, file.toList) ∧
      dropSlashes head = dropSlashes d.toList := by
    rw [join_of_relative (isAbsolute_of_not_mem hfile), String.toList_append]
    rcases withSlash_cases d with rfl | ⟨cs, hslash, hd⟩
    · exact ⟨[], cutLast_of_not_mem hfile, rfl⟩
    · rw [hslash, List.append_assoc, List.singleton_append]
      refine ⟨cs ++ ['/'], cutLast_append hfile cs, ?_⟩
      rcases hd with hd | ⟨front, c, hc, hd, rfl⟩
      · rw [hd]
      · rw [hd, dropSlashes_append hc, dropSlashes_concat hc]
  unfold split
  rw [hcut, ← hdrop]
  dsimp only
  rw [String.ofList_toList]

theorem join_join (cwd d : String) (hfile : '/' ∉ file.toList) :
    join cwd (join d file) = join (join cwd d) file := by
  have hrelative := isAbsolute_of_not_mem hfile
  rw [join_of_relative hrelative (join cwd d)]
  cases hd : isAbsolute d with
  | true =>
    rw [join_of_isAbsolute (isAbsolute_join hd file), join_of_isAbsolute hd,
      join_of_relative hrelative]
  | false =>
    rw [join_of_relative hd, join_of_relative hrelative]
    by_cases hempty : d = ""
    · subst hempty
      rw [String.append_empty, withSlash_withSlash]
      exact join_of_relative hrelative cwd
    · have hfirst : isAbsolute (withSlash d ++ file) = false := by
        unfold withSlash
        split
        · rw [isAbsolute_append hempty, hd]
        · rw [String.append_assoc, isAbsolute_append hempty, hd]
      rw [join_of_relative hfirst, withSlash_append hempty, String.append_assoc]

/-! ## Names seen from the root -/

section

variable {root : String} (h : isAbsolute root = true)
include h

/-- The normal form of a path from the root is the root, or it ends in a plain name. -/
theorem normal_cases :
    (normalParts true [] (splitFields '/' root.toList) = [] ∧
      (normal root).toList = leadingSlashes root.toList) ∨
    (normalParts true [] (splitFields '/' root.toList) ≠ [] ∧
      ∃ name, IsPlain name ∧ EndsIn (normal root) name) := by
  have hnormal := toList_normal h
  have hplain := isPlain_normalParts (not_mem_splitFields '/' root.toList) (List.forall_mem_nil _)
  cases hparts : normalParts true [] (splitFields '/' root.toList) with
  | nil =>
    rw [hparts, List.reverse_nil, List.intercalate_nil, List.append_nil] at hnormal
    exact .inl ⟨rfl, hnormal⟩
  | cons name parts =>
    rw [hparts] at hnormal hplain
    obtain ⟨lead, hlead⟩ : ∃ lead, leadingSlashes root.toList = lead ++ ['/'] := by
      rcases leadingSlashes_of_isAbsolute h with hlead | hlead
      · exact ⟨[], hlead⟩
      · exact ⟨['/'], hlead⟩
    refine .inr ⟨List.cons_ne_nil _ _, name, hplain name List.mem_cons_self, ?_⟩
    rw [List.reverse_cons] at hnormal
    by_cases hnil : parts = []
    · refine ⟨lead, ?_⟩
      rw [hnormal, hnil, hlead, List.reverse_nil, List.nil_append, List.intercalate_singleton,
        List.append_assoc, List.singleton_append]
    · refine ⟨leadingSlashes root.toList ++ ['/'].intercalate parts.reverse, ?_⟩
      rw [hnormal, intercalate_concat '/' (by simpa using hnil), List.append_assoc]

theorem dropSlashes_normal : dropSlashes (normal root).toList = (normal root).toList := by
  rcases normal_cases h with ⟨-, hroot⟩ | ⟨-, name, hname, before, hroot⟩
  · rw [hroot]
    rcases leadingSlashes_of_isAbsolute h with hlead | hlead <;> rw [hlead] <;> rfl
  · obtain ⟨front, c, hc, rfl⟩ := hname.exists_last
    rw [hroot, ← List.cons_append, ← List.append_assoc]
    exact dropSlashes_concat hc _

/-- A plain name in a directory has the parts of the directory before it. -/
theorem normalParts_join (hfile : IsPlain file.toList) :
    leadingSlashes (join root file).toList = leadingSlashes root.toList ∧
    normalParts true [] (splitFields '/' (join root file).toList) =
      file.toList :: normalParts true [] (splitFields '/' root.toList) := by
  obtain ⟨c, rest, hc, hchars⟩ := hfile.exists_first
  rw [join_of_relative (isAbsolute_of_not_mem hfile.slash), String.toList_append]
  nth_rewrite 1 [hchars]
  rw [leadingSlashes_append_cons hc]
  rcases withSlash_cases root with rfl | ⟨cs, hslash, hroot⟩
  · exact absurd h (by decide)
  rw [hslash, List.append_assoc, List.singleton_append, normalParts_append hfile]
  rcases hroot with hroot | ⟨front, d, hd, hroot, hfront⟩
  · rw [hroot, normalParts_slash]
    exact ⟨rfl, rfl⟩
  · rw [hroot]
    exact ⟨leadingSlashes_append (by rw [hfront]; simp) hd _, rfl⟩

/-- A plain name in a directory stays a name in it in normal form. -/
theorem normal_join (hfile : IsPlain file.toList) :
    normal (join root file) = join (normal root) file := by
  have hnormal := toList_normal h
  obtain ⟨hlead, hparts⟩ := normalParts_join h hfile
  refine String.toList_inj.mp ?_
  rw [toList_normal (isAbsolute_join h file), hlead, hparts, List.reverse_cons]
  rcases normal_cases h with ⟨hnil, hroot⟩ | ⟨hne, name, hname, hend⟩
  · have hslash : withSlash (normal root) = normal root := by
      refine if_pos ?_
      rw [hroot]
      rcases leadingSlashes_of_isAbsolute h with hlead | hlead <;> simp [hlead]
    rw [hnil, join_of_relative (isAbsolute_of_not_mem hfile.slash), hslash, String.toList_append,
      hroot, List.reverse_nil, List.nil_append, List.intercalate_singleton]
  · rw [join_append hend hname hfile.slash, intercalate_concat '/' (by simpa using hne),
      ← List.append_assoc, ← hnormal]
    simp

end

/-- Wherever a directory is, a plain name in it stands directly in it. -/
theorem split_absolute_join {cwd : String} (hcwd : isAbsolute cwd = true) (d : String)
    (hfile : IsPlain file.toList) :
    split (absolute cwd (join d file)) = (absolute cwd d, file) := by
  have hroot := isAbsolute_join hcwd d
  rw [absolute_eq_normal, absolute_eq_normal, join_join cwd d hfile.slash, normal_join hroot hfile,
    split_join _ hfile.slash, dropSlashes_normal hroot, String.ofList_toList]

end Path

/-! ## Names of the video -/

/-- A name for the video that names a file on every system, and a video. -/
structure IsOutputName (file : String) : Prop where
  safe : ∀ c ∈ file.toList, c ∉ "<>:\"/\\|?*".toList ∧ 0x20 ≤ c.toNat
  dot : file ≠ "."
  up : file ≠ ".."
  video : ∃ ending ∈ videoExtensions, ending.toList <:+ (lowercase file).toList

theorem isUnsafeInName_eq_false {c : Char} (h : isUnsafeInName c = false) :
    c ∉ "<>:\"/\\|?*".toList ∧ 0x20 ≤ c.toNat := by
  obtain ⟨hlisted, hcontrol⟩ := Bool.or_eq_false_iff.mp h
  refine ⟨fun hmem => ?_, Nat.not_lt.mp (of_decide_eq_false hcontrol)⟩
  exact Bool.noConfusion (hlisted.symm.trans (List.contains_iff_mem.mpr hmem))

theorem IsClean.isPlain {name : String} (h : IsClean name) : Path.IsPlain name.toList := by
  refine ⟨h.slash_not_mem, h.ne_nil, fun hdot => h.given ?_, fun hup => h.given ?_⟩
  · rw [← String.ofList_toList (s := name), hdot]
    decide
  · rw [← String.ofList_toList (s := name), hup]
    decide

/-- A safe name ends in the extension of a video, its own or the one it gets. -/
theorem exists_ending (name : String) : ∃ text, lowercase text ∈ videoExtensions ∧
    text.toList <:+ (safeFileName name ".mp4").toList := by
  unfold safeFileName
  dsimp only
  split
  · rename_i hvideo
    exact ⟨_, isVideoName_iff.mp hvideo,
      Path.extension_suffix (isClean_cleanName name).slash_not_mem⟩
  · refine ⟨".mp4", by decide, ?_⟩
    rw [String.toList_append]
    exact List.suffix_append _ _

theorem isOutputName_safeFileName (name : String) : IsOutputName (safeFileName name ".mp4") := by
  have hclean := isClean_safeFileName name
  obtain ⟨text, hvideo, hending⟩ := exists_ending name
  refine ⟨fun c hc => isUnsafeInName_eq_false (hclean.safe c hc), ?_, ?_, ?_⟩
  · exact fun hdot => hclean.given (by rw [hdot]; decide)
  · exact fun hup => hclean.given (by rw [hup]; decide)
  · exact ⟨_, hvideo, lowercase_suffix hending hvideo⟩

theorem defaultOutputName_eq : defaultOutputName = safeFileName "" ".mp4" := by decide

/-- Every text gives a safe name: the default is the one that comes from no text. -/
theorem outputName_text (name : String) :
    outputName (.text name) = .ok (safeFileName name ".mp4") := by
  unfold outputName
  split
  · rfl
  · rename_i hnone
    have hempty : name = "" := by
      simpa [Document.isGiven, Scalar.isGiven] using hnone
    rw [hempty, defaultOutputName_eq]

/-! ## The directory of the video -/

theorem sourceDirectory_eq_ok_iff {cwd source folder : String} :
    sourceDirectory cwd source = .ok folder ↔ folder = Path.dirname source ∧
      Path.absolute cwd (Path.dirname source) ≠ Path.absolute cwd source := by
  unfold sourceDirectory
  dsimp only
  constructor
  · intro h
    split at h
    · exact absurd h (by simp [refuse])
    · rename_i hapart
      rw [Bool.or_eq_true, not_or, beq_iff_eq] at hapart
      exact ⟨(Except.ok.inj h).symm, hapart.2⟩
  · rintro ⟨rfl, hapart⟩
    have hsource : source.isEmpty = false := by
      rw [← Bool.not_eq_true, String.isEmpty_iff]
      rintro rfl
      exact hapart rfl
    rw [hsource, Bool.false_or, if_neg (by rwa [beq_iff_eq])]

/-- The directory for the video: the one that is given, or else that of the first clip's source,
which must be another place than the source itself. -/
inductive IsChosen (cwd : String) (timeline : Timeline) : Option String → String → Prop
  | given (folder : String) : IsChosen cwd timeline (some folder) folder
  | beside {clip : Clip} (hclip : timeline.first? = some clip)
      (hapart : Path.absolute cwd (Path.dirname clip.source) ≠ Path.absolute cwd clip.source) :
      IsChosen cwd timeline none (Path.dirname clip.source)

/-- A path that is made of a directory and a name, and names the file there: it is split into both
again, as it stands and, with a directory from the root to see it from, in normal form. -/
structure IsPathIn (cwd folder file path : String) : Prop where
  joined : path = Path.join folder file
  name : Path.basename path = file
  directory : ∃ n, folder.toList = (Path.dirname path).toList ++ List.replicate n '/'
  seen : Path.isAbsolute cwd = true →
    Path.split (Path.absolute cwd path) = (Path.absolute cwd folder, file)

theorem isPathIn_iff {cwd folder file path : String} (hfile : Path.IsPlain file.toList) :
    IsPathIn cwd folder file path ↔ path = Path.join folder file := by
  refine ⟨fun h => h.joined, ?_⟩
  rintro rfl
  have hsplit := Path.split_join folder hfile.slash
  refine ⟨rfl, congrArg Prod.snd hsplit, ?_, fun hcwd => Path.split_absolute_join hcwd folder hfile⟩
  unfold Path.dirname
  rw [hsplit, String.toList_ofList]
  exact Path.exists_dropSlashes_append folder.toList

section

variable {cwd name path : String} {timeline : Timeline}

theorem outputPath_given (folder : String) :
    outputPath cwd timeline (.text folder) (.text name) = .ok path ↔
      path = Path.join folder (safeFileName name ".mp4") := by
  unfold outputPath
  rw [outputName_text, ok_bind]
  exact ⟨fun h => (Except.ok.inj h).symm, fun h => congrArg Except.ok h.symm⟩

theorem outputPath_beside : outputPath cwd timeline .null (.text name) = .ok path ↔
    ∃ clip, timeline.first? = some clip ∧ ∃ folder, sourceDirectory cwd clip.source = .ok folder ∧
      path = Path.join folder (safeFileName name ".mp4") := by
  unfold outputPath
  rw [outputName_text, ok_bind]
  dsimp only
  cases timeline.first? with
  | none => simp [refuse]
  | some clip =>
    rw [bind_eq_ok_iff]
    constructor
    · rintro ⟨folder, hfolder, hpath⟩
      obtain rfl := Except.ok.inj hpath
      exact ⟨clip, rfl, folder, hfolder, rfl⟩
    · rintro ⟨_, ⟨⟩, folder, hfolder, hpath⟩
      exact ⟨folder, hfolder, by rw [hpath]; rfl⟩

end

/-- **The place of the video.** Whatever name is asked for, the name of the video is safe. The path
of the video is given exactly if there is a directory for it, and it names the file with this name
there. -/
theorem outputPath_eq_ok_iff (name : String) : ∃ file, IsOutputName file ∧
    ∀ (cwd : String) (timeline : Timeline) (directory : Option String) (path : String),
      outputPath cwd timeline (.ofText? directory) (.text name) = .ok path ↔
        ∃ folder, IsChosen cwd timeline directory folder ∧ IsPathIn cwd folder file path := by
  have hplain := (isClean_safeFileName name).isPlain
  refine ⟨safeFileName name ".mp4", isOutputName_safeFileName name, ?_⟩
  intro cwd timeline directory path
  cases directory with
  | some folder =>
    refine (outputPath_given folder).trans ⟨fun h => ?_, ?_⟩
    · exact ⟨folder, .given folder, (isPathIn_iff hplain).mpr h⟩
    · rintro ⟨_, ⟨⟩, hpath⟩
      exact hpath.joined
  | none =>
    refine outputPath_beside.trans ⟨?_, ?_⟩
    · rintro ⟨clip, hclip, folder, hfolder, hpath⟩
      obtain ⟨rfl, hapart⟩ := sourceDirectory_eq_ok_iff.mp hfolder
      exact ⟨_, .beside hclip hapart, (isPathIn_iff hplain).mpr hpath⟩
    · rintro ⟨folder, hchosen, hpath⟩
      cases hchosen with
      | beside hclip hapart =>
        exact ⟨_, hclip, _, sourceDirectory_eq_ok_iff.mpr ⟨rfl, hapart⟩, hpath.joined⟩

example : (outputPath "/" ⟨[]⟩ (.text "/out//") (.text "../a?.MKV")).toOption =
    some "/out//.._a_.MKV" := by decide

end StillVideo
