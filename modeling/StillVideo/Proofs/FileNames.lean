import StillVideo.OutputPath
import StillVideo.Proofs.NestedPaths

/-!
# Names of files

An extension is what stands behind the last point of a name that has another character than points
before it (`Path.extension_append`); a row of points has none, whatever comes behind it
(`Path.extension_of_points`). A clean name is clean for good (`IsClean.cleanName_eq`), and with an
extension it stays clean, so a file name is made safe once and for all, unless it consists of points
alone (`safeFileName_stable_iff`).
-/

namespace StillVideo

/-! ## Small letters -/

theorem smallLetters_append (before xs ys : List Char) : ∃ front,
    smallLetters before (xs ++ ys) = front ++ smallLetters (xs.reverse ++ before) ys := by
  induction xs generalizing before with
  | nil => exact ⟨[], rfl⟩
  | cons x xs ih =>
    obtain ⟨front, hfront⟩ := ih (x :: before)
    rw [List.cons_append, smallLetters, hfront, List.reverse_cons, List.append_assoc,
      List.singleton_append, ← List.append_assoc]
    exact ⟨_, rfl⟩

/-- What comes before matters to a final sigma only. -/
theorem smallLetters_congr {cs : List Char} (h : capitalSigma ∉ cs) (before before' : List Char) :
    smallLetters before cs = smallLetters before' cs := by
  induction cs generalizing before before' with
  | nil => rfl
  | cons c cs ih =>
    obtain ⟨hc, hcs⟩ := List.ne_and_not_mem_of_not_mem_cons h
    have hsigma : (c == capitalSigma) = false := by simpa using hc.symm
    rw [smallLetters, smallLetters, ih hcs (c :: before) (c :: before'), hsigma]
    rfl

/-- A capital sigma becomes one of the two small ones. -/
theorem exists_smallSigma {cs : List Char} (h : capitalSigma ∈ cs) (before : List Char) :
    ∃ c ∈ smallLetters before cs, c = '\u03c2' ∨ c = '\u03c3' := by
  induction cs generalizing before with
  | nil => exact absurd h List.not_mem_nil
  | cons c cs ih =>
    rw [smallLetters]
    rcases List.mem_cons.mp h with hc | hcs
    · rw [← hc, beq_self_eq_true, if_pos rfl]
      refine ⟨_, List.mem_append_left _ List.mem_cons_self, ?_⟩
      split
      · exact .inl rfl
      · exact .inr rfl
    · obtain ⟨d, hd, hsmall⟩ := ih hcs (c :: before)
      exact ⟨d, List.mem_append_right _ hd, hsmall⟩

/-- The extensions of videos have no sigma. -/
theorem capitalSigma_not_mem {text : String} (h : lowercase text ∈ videoExtensions) :
    capitalSigma ∉ text.toList := by
  intro hmem
  obtain ⟨c, hc, hsmall⟩ := exists_smallSigma hmem []
  have hplain : ∀ extension ∈ videoExtensions, '\u03c2' ∉ extension.toList ∧
      '\u03c3' ∉ extension.toList := by decide
  obtain ⟨hfinal, hinner⟩ := hplain _ h
  have hc' : c ∈ (lowercase text).toList := by
    rwa [lowercase, String.toList_ofList]
  rcases hsmall with rfl | rfl
  · exact hfinal hc'
  · exact hinner hc'

/-- A name that ends in the extension of a video does so in small letters. -/
theorem lowercase_suffix {name text : String} (hsuffix : text.toList <:+ name.toList)
    (h : lowercase text ∈ videoExtensions) :
    (lowercase text).toList <:+ (lowercase name).toList := by
  obtain ⟨front, hname⟩ := hsuffix
  obtain ⟨small, hsmall⟩ := smallLetters_append [] front text.toList
  refine ⟨small, ?_⟩
  rw [lowercase, lowercase, String.toList_ofList, String.toList_ofList, ← hname, hsmall,
    smallLetters_congr (capitalSigma_not_mem h)]

/-! ## Extensions -/

namespace Path

/-- What stands behind the last point is the extension if not only points come before it. -/
theorem extension_append {stem rest : List Char} {c : Char} (hslash : '/' ∉ stem ++ '.' :: rest)
    (hrest : '.' ∉ rest) (hmem : c ∈ stem) (hc : c ≠ '.') :
    extension (String.ofList (stem ++ '.' :: rest)) = String.ofList ('.' :: rest) := by
  have hstem : (stem.dropWhile (· == '.')).isEmpty = false := by
    rw [Bool.eq_false_iff, ne_eq, List.isEmpty_iff, List.dropWhile_eq_nil_iff]
    exact fun hall => hc (by simpa using hall c hmem)
  have hbody : (stem ++ '.' :: rest).dropWhile (· == '.') =
      stem.dropWhile (· == '.') ++ '.' :: rest := by
    rw [List.dropWhile_append, hstem, if_neg Bool.false_ne_true]
  have hlength : rest.length < (stem.dropWhile (· == '.') ++ '.' :: rest).length := by
    rw [List.length_append, List.length_cons]
    omega
  unfold extension splitExtension
  rw [String.toList_ofList, cutLast_of_not_mem hslash]
  dsimp only
  rw [hbody, lastField_append hrest, if_pos hlength]

/-- A row of points begins no extension. -/
theorem extension_of_points {rest : List Char} (hslash : '/' ∉ rest) (hrest : '.' ∉ rest)
    (n : Nat) : extension (String.ofList (List.replicate n '.' ++ rest)) = "" := by
  have hbody : (List.replicate n '.' ++ rest).dropWhile (· == '.') = rest := by
    rw [List.dropWhile_append_of_pos (by simp)]
    cases rest with
    | nil => rfl
    | cons c rest =>
      have hc : (c == '.') = false := by simpa using (List.ne_of_not_mem_cons hrest).symm
      rw [List.dropWhile_cons, hc, if_neg Bool.false_ne_true]
  have hall : '/' ∉ List.replicate n '.' ++ rest := by
    rw [List.mem_append, not_or]
    exact ⟨fun hmem => absurd (List.eq_of_mem_replicate hmem) (by decide), hslash⟩
  unfold extension splitExtension
  rw [String.toList_ofList, cutLast_of_not_mem hall]
  dsimp only
  rw [hbody, lastField_of_not_mem hrest, if_neg (Nat.lt_irrefl _)]

/-- A name is a row of points with what has none behind it, or it has an extension. -/
theorem points_or_extension (cs : List Char) :
    (∃ n rest, '.' ∉ rest ∧ cs = List.replicate n '.' ++ rest) ∨
    ∃ stem rest c, '.' ∉ rest ∧ c ∈ stem ∧ c ≠ '.' ∧ cs = stem ++ '.' :: rest := by
  by_cases hpoint : '.' ∈ cs
  · obtain ⟨stem, rest, hcs, hrest⟩ := exists_lastField hpoint
    by_cases hstem : ∀ c ∈ stem, c = '.'
    · refine .inl ⟨stem.length + 1, rest, hrest, ?_⟩
      rw [List.replicate_succ', List.append_assoc, ← List.eq_replicate_of_mem hstem]
      exact hcs
    · push Not at hstem
      obtain ⟨c, hmem, hc⟩ := hstem
      exact .inr ⟨stem, rest, c, hrest, hmem, hc, hcs⟩
  · exact .inl ⟨0, cs, hpoint, rfl⟩

/-- The extension of a name stands at its end. -/
theorem extension_suffix {name : String} (hslash : '/' ∉ name.toList) :
    (extension name).toList <:+ name.toList := by
  rw [← String.ofList_toList (s := name)]
  rcases points_or_extension name.toList with
    ⟨n, rest, hrest, hname⟩ | ⟨stem, rest, c, hrest, hmem, hc, hname⟩
  · rw [hname] at hslash ⊢
    rw [extension_of_points (fun h => hslash (List.mem_append_right _ h)) hrest]
    exact List.nil_suffix
  · rw [hname] at hslash ⊢
    rw [extension_append hslash hrest hmem hc, String.toList_ofList, String.toList_ofList]
    exact List.suffix_append _ _

end Path

/-! ## Names of videos -/

/-- A name of points alone. -/
def IsPoints (name : String) : Prop := ∃ n, name.toList = List.replicate n '.'

theorem isVideoName_iff {name : String} :
    isVideoName name = true ↔ lowercase (Path.extension name) ∈ videoExtensions :=
  List.contains_iff_mem

/-- With an extension a name is that of a video, unless there are only points before. -/
theorem isVideoName_append_iff {name : String} (hslash : '/' ∉ name.toList) :
    isVideoName (name ++ ".mp4") = true ↔ ¬ IsPoints name := by
  have htext : name ++ ".mp4" = String.ofList (name.toList ++ '.' :: ['m', 'p', '4']) := by
    rw [String.ofList_append, String.ofList_toList]
  constructor
  · rintro hvideo ⟨n, hname⟩
    have hnone : Path.extension (name ++ ".mp4") = "" := by
      have hpoints : Path.extension
          (String.ofList (List.replicate (n + 1) '.' ++ ['m', 'p', '4'])) = "" :=
        Path.extension_of_points (by decide) (by decide) (n + 1)
      rwa [List.replicate_succ', List.append_assoc, ← hname, List.singleton_append, ← htext]
        at hpoints
    rw [isVideoName_iff, hnone] at hvideo
    exact absurd hvideo (by decide)
  · intro hpoints
    obtain ⟨c, hmem, hc⟩ : ∃ c ∈ name.toList, c ≠ '.' := by
      by_contra hall
      push Not at hall
      exact hpoints ⟨_, List.eq_replicate_of_mem hall⟩
    have hall : '/' ∉ name.toList ++ '.' :: ['m', 'p', '4'] := by
      rw [List.mem_append, not_or]
      exact ⟨hslash, by decide⟩
    rw [isVideoName_iff, htext, Path.extension_append hall (by decide) hmem hc]
    decide

theorem isVideoName_of_points {name : String} (h : IsPoints name) : isVideoName name = false := by
  obtain ⟨n, hname⟩ := h
  have hnone : Path.extension (String.ofList (List.replicate n '.' ++ [])) = "" :=
    Path.extension_of_points List.not_mem_nil List.not_mem_nil n
  rw [List.append_nil, ← hname, String.ofList_toList] at hnone
  unfold isVideoName
  rw [hnone]
  decide

/-! ## Clean names -/

/-- Nothing and the directories have short names. -/
theorem length_le_of_mem {name : String} (h : name ∈ ["", ".", ".."]) : name.toList.length ≤ 2 := by
  revert name
  decide

/-- A name that needs no cleaning: it has no unsafe character and no white space around it, and it
names neither nothing nor a directory. -/
structure IsClean (name : String) : Prop where
  safe : ∀ c ∈ name.toList, isUnsafeInName c = false
  front : ∀ c ∈ name.toList.head?, isBlank c = false
  back : ∀ c ∈ name.toList.getLast?, isBlank c = false
  given : name ∉ ["", ".", ".."]

/-- The character that stands for one in a clean name. -/
def cleaned (c : Char) : Char := if isUnsafeInName c then '_' else c

theorem safe_cleaned (c : Char) : isUnsafeInName (cleaned c) = false := by
  unfold cleaned
  split
  · decide
  · rename_i h
    exact Bool.eq_false_iff.mpr h

theorem isBlank_cleaned {c : Char} (h : isBlank c = false) : isBlank (cleaned c) = false := by
  unfold cleaned
  split
  · decide
  · exact h

/-- A name without white space around it and with safe characters only. -/
def cleanedText (name : String) : String := String.ofList ((trim isBlank name.toList).map cleaned)

theorem cleanName_cases (name : String) :
    (cleanedText name ∈ ["", ".", ".."] ∧ cleanName name = "output") ∨
    (cleanedText name ∉ ["", ".", ".."] ∧ cleanName name = cleanedText name) := by
  rw [← List.contains_iff_mem]
  show (_ ∧ (if _ then _ else cleanedText name) = _) ∨ _
  by_cases h : ["", ".", ".."].contains (cleanedText name) = true
  · exact .inl ⟨h, if_pos h⟩
  · exact .inr ⟨h, if_neg h⟩

/-- The safety of a text as a check of its characters one by one. -/
theorem safe_of_all {cs : List Char} (h : cs.all (fun c => !isUnsafeInName c) = true) :
    ∀ c ∈ cs, isUnsafeInName c = false :=
  fun c hc => (Bool.not_eq_eq_eq_not ..).mp (List.all_eq_true.mp h c hc)

theorem isClean_output : IsClean "output" := by
  refine ⟨safe_of_all (by decide), ?_, ?_, by decide⟩
  · rintro _ ⟨⟩
    decide
  · rintro _ ⟨⟩
    decide

theorem isClean_cleanName (name : String) : IsClean (cleanName name) := by
  rcases cleanName_cases name with ⟨-, h⟩ | ⟨hgiven, h⟩
  · rw [h]
    exact isClean_output
  · obtain ⟨-, hfront, hback⟩ := isTrimmed_trim isBlank name.toList
    have htext : (cleanedText name).toList = (trim isBlank name.toList).map cleaned :=
      String.toList_ofList
    rw [h]
    refine ⟨?_, ?_, ?_, hgiven⟩
    · rw [htext]
      intro c hc
      obtain ⟨b, -, rfl⟩ := List.mem_map.mp hc
      exact safe_cleaned b
    · rw [htext, List.head?_map]
      intro c hc
      obtain ⟨b, hb, rfl⟩ := Option.map_eq_some_iff.mp hc
      exact isBlank_cleaned (hfront b hb)
    · rw [htext, List.getLast?_map]
      intro c hc
      obtain ⟨b, hb, rfl⟩ := Option.map_eq_some_iff.mp hc
      exact isBlank_cleaned (hback b hb)

namespace IsClean

variable {name : String} (h : IsClean name)
include h

theorem cleanedText_eq : cleanedText name = name := by
  have htrim : trim isBlank name.toList = name.toList :=
    trim_eq_of_isTrimmed ⟨⟨[], [], by simp, by simp, by simp⟩, h.front, h.back⟩
  have hmap : name.toList.map cleaned = name.toList :=
    (List.map_congr_left fun c hc => if_neg (Bool.eq_false_iff.mp (h.safe c hc))).trans
      (List.map_id _)
  rw [cleanedText, htrim, hmap, String.ofList_toList]

theorem cleanName_eq : cleanName name = name := by
  rcases cleanName_cases name with ⟨hnone, -⟩ | ⟨-, hname⟩
  · rw [h.cleanedText_eq] at hnone
    exact absurd hnone h.given
  · rw [hname, h.cleanedText_eq]

theorem slash_not_mem : '/' ∉ name.toList :=
  fun hmem => absurd (h.safe '/' hmem) (by decide)

theorem ne_nil : name.toList ≠ [] := by
  intro hnil
  exact h.given (by rw [String.toList_eq_nil_iff.mp hnil]; exact List.mem_cons_self)

/-- With an extension, a clean name is clean. -/
theorem append : IsClean (name ++ ".mp4") := by
  refine ⟨?_, ?_, ?_, ?_⟩
  · rw [String.toList_append]
    exact List.forall_mem_append.mpr ⟨h.safe, safe_of_all (by decide)⟩
  · rw [String.toList_append, List.head?_append_of_ne_nil _ h.ne_nil]
    exact h.front
  · rw [String.toList_append, List.getLast?_append_of_ne_nil _ (by decide)]
    rintro _ ⟨⟩
    decide
  · intro hmem
    have hlength := length_le_of_mem hmem
    rw [String.toList_append, List.length_append] at hlength
    exact absurd (Nat.le_of_add_left_le hlength) (by decide)

end IsClean

theorem isClean_safeFileName (name : String) : IsClean (safeFileName name ".mp4") := by
  unfold safeFileName
  dsimp only
  split
  · exact isClean_cleanName name
  · exact (isClean_cleanName name).append

/-- The name as it is given is a row of three or more points, with only white space around. -/
def IsPointed (name : String) : Prop :=
  ∃ n, 3 ≤ n ∧ trim isBlank name.toList = List.replicate n '.'

theorem eq_point_of_cleaned {c : Char} (h : cleaned c = '.') : c = '.' := by
  unfold cleaned at h
  split at h
  · exact absurd h (by decide)
  · exact h

/-- Cleaning leaves points alone, and nothing else becomes a point. -/
theorem isPoints_cleanName_iff (name : String) : IsPoints (cleanName name) ↔ IsPointed name := by
  constructor
  · rintro ⟨n, hpoints⟩
    rcases cleanName_cases name with ⟨-, h⟩ | ⟨hgiven, h⟩
    · have hletter : 'o' ∈ (cleanName name).toList := by
        rw [h]
        decide
      rw [hpoints] at hletter
      exact absurd (List.eq_of_mem_replicate hletter) (by decide)
    · have hmap : (trim isBlank name.toList).map cleaned = List.replicate n '.' := by
        rw [← hpoints, h, cleanedText, String.toList_ofList]
      obtain ⟨hlength, hall⟩ := List.eq_replicate_iff.mp hmap
      refine ⟨n, ?_, List.eq_replicate_iff.mpr ⟨by rwa [List.length_map] at hlength, ?_⟩⟩
      · by_contra hshort
        rw [cleanedText, hmap] at hgiven
        have hcases : n = 0 ∨ n = 1 ∨ n = 2 := by omega
        rcases hcases with rfl | rfl | rfl <;> exact hgiven (by decide)
      · exact fun c hc => eq_point_of_cleaned (hall _ (List.mem_map_of_mem hc))
  · rintro ⟨n, hn, htrim⟩
    have htext : (cleanedText name).toList = List.replicate n '.' := by
      rw [cleanedText, String.toList_ofList, htrim, List.map_replicate]
      rfl
    rcases cleanName_cases name with ⟨hnone, -⟩ | ⟨-, h⟩
    · have hlength := length_le_of_mem hnone
      rw [htext, List.length_replicate] at hlength
      omega
    · exact ⟨n, by rw [h, htext]⟩

theorem isVideoName_safeFileName_iff (name : String) :
    isVideoName (safeFileName name ".mp4") = true ↔ ¬ IsPointed name := by
  rw [← isPoints_cleanName_iff]
  unfold safeFileName
  dsimp only
  cases hvideo : isVideoName (cleanName name) with
  | true =>
    rw [if_pos rfl, hvideo]
    refine iff_of_true rfl fun hpoints => ?_
    exact Bool.noConfusion (hvideo.symm.trans (isVideoName_of_points hpoints))
  | false =>
    rw [if_neg Bool.false_ne_true]
    exact isVideoName_append_iff (isClean_cleanName name).slash_not_mem

/-- A clean name stays as it is exactly if it is that of a video. -/
theorem IsClean.safeFileName_eq_iff {name : String} (h : IsClean name) :
    safeFileName name ".mp4" = name ↔ isVideoName name = true := by
  unfold safeFileName
  rw [h.cleanName_eq]
  dsimp only
  cases isVideoName name with
  | true => exact iff_of_true (if_pos rfl) rfl
  | false =>
    refine iff_of_false ?_ Bool.false_ne_true
    rw [if_neg Bool.false_ne_true]
    intro heq
    have hlength := congrArg (fun text => text.toList.length) heq
    rw [String.toList_append, List.length_append] at hlength
    exact absurd (Nat.add_eq_left.mp hlength) (by decide)

/-- A safe name is no row of points, since it has letters. -/
theorem not_isPointed_safeFileName (name : String) : ¬ IsPointed (safeFileName name ".mp4") := by
  rw [← isPoints_cleanName_iff, (isClean_safeFileName name).cleanName_eq]
  unfold safeFileName
  dsimp only
  cases hvideo : isVideoName (cleanName name) with
  | true =>
    rw [if_pos rfl]
    exact fun hpoints => Bool.noConfusion (hvideo.symm.trans (isVideoName_of_points hpoints))
  | false =>
    rw [if_neg Bool.false_ne_true]
    rintro ⟨n, hpoints⟩
    have hletter : 'm' ∈ (cleanName name ++ ".mp4").toList := by
      rw [String.toList_append]
      exact List.mem_append_right _ (by decide)
    rw [hpoints] at hletter
    exact absurd (List.eq_of_mem_replicate hletter) (by decide)

/-- **Safe names.** A name that is made safe has the extension of a video, and stays as it is when
it is made safe again, exactly if it was not a row of three or more points. When it is made safe
twice, every name stays as it is from then on. -/
theorem safeFileName_stable_iff (name : String) :
    (lowercase (Path.extension (safeFileName name ".mp4")) ∈ videoExtensions ↔ ¬ IsPointed name) ∧
    (safeFileName (safeFileName name ".mp4") ".mp4" = safeFileName name ".mp4" ↔
      ¬ IsPointed name) ∧
    safeFileName (safeFileName (safeFileName name ".mp4") ".mp4") ".mp4" =
      safeFileName (safeFileName name ".mp4") ".mp4" := by
  have hstable : ∀ text, safeFileName (safeFileName text ".mp4") ".mp4" = safeFileName text ".mp4" ↔
      ¬ IsPointed text := fun text =>
    (isClean_safeFileName text).safeFileName_eq_iff.trans (isVideoName_safeFileName_iff text)
  refine ⟨isVideoName_iff.symm.trans (isVideoName_safeFileName_iff name), hstable name, ?_⟩
  exact (hstable _).mpr (not_isPointed_safeFileName name)

/-- Three points with the extension of a video have no extension, and get another one. -/
theorem safeFileName_threePoints :
    lowercase (Path.extension (safeFileName "..." ".mp4")) ∉ videoExtensions ∧
    safeFileName (safeFileName "..." ".mp4") ".mp4" ≠ safeFileName "..." ".mp4" := by decide

end StillVideo
