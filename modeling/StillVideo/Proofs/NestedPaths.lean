import StillVideo.Machine
import StillVideo.Proofs.TextParts

/-!
# Names below a directory

The normal form of paths keeps a plain name: what is below a directory stays below it, and the
directory of what lies directly below is the directory again (`Machine.key_join`,
`Machine.dirname_key_join`).
-/

namespace StillVideo

namespace Path

/-! ## Parts of paths -/

/-- A part of a path that names something of its own. -/
structure IsPlain (name : List Char) : Prop where
  slash : '/' ∉ name
  nonempty : name ≠ []
  dot : name ≠ ['.']
  up : name ≠ ['.', '.']

variable {path file : String} {name : List Char}

theorem IsPlain.exists_first (h : IsPlain name) : ∃ c rest, c ≠ '/' ∧ name = c :: rest := by
  obtain ⟨c, rest, rfl⟩ := List.exists_cons_of_ne_nil h.nonempty
  exact ⟨c, rest, (List.ne_of_not_mem_cons h.slash).symm, rfl⟩

theorem IsPlain.exists_last (h : IsPlain name) : ∃ front c, c ≠ '/' ∧ name = front ++ [c] := by
  obtain ⟨front, c, rfl⟩ := (List.eq_nil_or_concat' name).resolve_left h.nonempty
  refine ⟨front, c, ?_, rfl⟩
  rintro rfl
  exact h.slash (by simp)

/-- A name that is longer than `..` is plain if it has no slash. -/
theorem isPlain_of_length (hslash : '/' ∉ name) (h : 2 < name.length) :
    IsPlain name := by
  have hne : ∀ cs : List Char, cs.length ≤ 2 → name ≠ cs := by
    rintro cs hcs rfl
    omega
  exact ⟨hslash, hne [] (by decide), hne ['.'] (by decide), hne ['.', '.'] (by decide)⟩

/-- The last part of a path is this name, and there is a part before. -/
def EndsIn (path : String) (name : List Char) : Prop :=
  ∃ before, path.toList = before ++ '/' :: name

theorem EndsIn.ne_empty (h : EndsIn path name) : path ≠ "" := by
  obtain ⟨before, hpath⟩ := h
  rintro rfl
  simp at hpath

theorem EndsIn.cons (h : EndsIn path name) (lead : String) : EndsIn (lead ++ path) name := by
  obtain ⟨before, hpath⟩ := h
  exact ⟨lead.toList ++ before, by rw [String.toList_append, hpath, List.append_assoc]⟩

/-! ## Normal forms -/

/-- The parts of a normal form with one more part. -/
def pushPart (rooted : Bool) (acc : List (List Char)) (part : List Char) : List (List Char) :=
  if part == [] || part == ['.'] then acc
  else if part != ['.', '.'] then part :: acc
  else
    match acc with
    | [] => if rooted then [] else [part]
    | last :: before => if last == ['.', '.'] then part :: acc else before

theorem normalParts_eq_foldl (rooted : Bool) (ps acc : List (List Char)) :
    normalParts rooted acc ps = ps.foldl (pushPart rooted) acc := by
  induction ps generalizing acc with
  | nil => rw [normalParts, List.foldl_nil]
  | cons p ps ih =>
    rw [List.foldl_cons, ← ih]
    conv_lhs => unfold normalParts
    unfold pushPart
    split
    · rfl
    · split
      · rfl
      · cases acc <;> rfl

theorem IsPlain.pushPart (h : IsPlain name) (rooted : Bool) (acc : List (List Char)) :
    Path.pushPart rooted acc name = name :: acc := by
  simp [Path.pushPart, h.nonempty, h.dot, h.up]

/-- The parts of a path that ends in a plain name are the name and the parts before. -/
theorem normalParts_append (h : IsPlain name) (cs : List Char) (rooted : Bool) :
    normalParts rooted [] (splitFields '/' (cs ++ '/' :: name)) =
      name :: normalParts rooted [] (splitFields '/' cs) := by
  rw [splitFields_append, splitFields_of_not_mem h.slash, normalParts_eq_foldl,
    normalParts_eq_foldl, List.foldl_concat, h.pushPart]

/-- A slash at the end is no part. -/
theorem normalParts_slash (cs : List Char) (rooted : Bool) :
    normalParts rooted [] (splitFields '/' (cs ++ ['/'])) =
      normalParts rooted [] (splitFields '/' cs) := by
  rw [splitFields_append, normalParts_eq_foldl, normalParts_eq_foldl, List.foldl_append]
  rfl

/-- Only slashes at the beginning count. -/
theorem leadingSlashes_append_cons {c : Char} (hc : c ≠ '/') (cs ds : List Char) :
    leadingSlashes (cs ++ c :: ds) = leadingSlashes cs := by
  match cs with
  | [] => simp [leadingSlashes, hc]
  | [a] =>
    by_cases ha : a = '/'
    · subst ha
      simp [leadingSlashes, hc]
    · simp [leadingSlashes, ha]
  | [a, b] =>
    by_cases ha : a = '/'
    · subst ha
      by_cases hb : b = '/'
      · subst hb
        simp [leadingSlashes, hc]
      · simp [leadingSlashes, hb]
    · simp [leadingSlashes, ha]
  | a :: b :: d :: rest =>
    by_cases ha : a = '/'
    · subst ha
      by_cases hb : b = '/'
      · subst hb
        by_cases hd : d = '/'
        · subst hd
          rfl
        · simp [leadingSlashes, hd]
      · simp [leadingSlashes, hb]
    · simp [leadingSlashes, ha]

/-- What comes behind another character than a slash has no part in the slashes at the
beginning. -/
theorem leadingSlashes_append {cs : List Char} {c : Char} (hmem : c ∈ cs) (hc : c ≠ '/')
    (ds : List Char) : leadingSlashes (cs ++ ds) = leadingSlashes cs := by
  obtain ⟨before, rest, rfl⟩ := List.append_of_mem hmem
  rw [List.append_assoc, List.cons_append, leadingSlashes_append_cons hc,
    leadingSlashes_append_cons hc]

theorem intercalate_concat {α : Type} (sep : α) {xs : List (List α)} (h : xs ≠ []) (y : List α) :
    [sep].intercalate (xs ++ [y]) = [sep].intercalate xs ++ sep :: y := by
  induction xs with
  | nil => exact absurd rfl h
  | cons x xs ih =>
    cases xs with
    | nil =>
      rw [List.singleton_append, List.intercalate_cons_of_ne_nil (List.cons_ne_nil _ _)]
      simp
    | cons x' xs =>
      rw [List.cons_append, List.intercalate_cons_of_ne_nil (by simp),
        List.intercalate_cons_of_ne_nil (List.cons_ne_nil _ _), ih (List.cons_ne_nil _ _)]
      simp

/-- The characters of the normal form of a path, unless there are none. -/
def normalBody (cs : List Char) : List Char :=
  leadingSlashes cs ++ ['/'].intercalate
    (normalParts (!(leadingSlashes cs).isEmpty) [] (splitFields '/' cs)).reverse

theorem normal_of_ne_nil (path : String) (h : normalBody path.toList ≠ []) :
    (normal path).toList = normalBody path.toList := by
  have hbody : (normalBody path.toList).isEmpty = false := by simpa using h
  show (if (normalBody path.toList).isEmpty then "." else
    String.ofList (normalBody path.toList)).toList = _
  rw [hbody, if_neg Bool.false_ne_true, String.toList_ofList]

/-- The normal form of a path that ends in a plain name ends in it, too. -/
theorem exists_normalBody (h : IsPlain name) (cs : List Char) :
    ∃ before, normalBody (cs ++ '/' :: name) = before ++ name := by
  unfold normalBody
  rw [normalParts_append h, List.reverse_cons]
  generalize normalParts _ [] (splitFields '/' cs) = parts
  by_cases hnil : parts = []
  · refine ⟨leadingSlashes (cs ++ '/' :: name), ?_⟩
    rw [hnil, List.reverse_nil, List.nil_append, List.intercalate_singleton]
  · rw [intercalate_concat '/' (by simpa using hnil)]
    refine ⟨leadingSlashes (cs ++ '/' :: name) ++ (['/'].intercalate parts.reverse ++ ['/']), ?_⟩
    simp

/-- A plain name behind a path that ends in a plain name is kept as it stands. -/
theorem normalBody_append {last : List Char} (h : IsPlain name) (hlast : IsPlain last)
    (cs : List Char) :
    normalBody (cs ++ '/' :: name ++ '/' :: last) =
      normalBody (cs ++ '/' :: name) ++ '/' :: last := by
  obtain ⟨c, rest, hc, rfl⟩ := h.exists_first
  have hlead : leadingSlashes (cs ++ '/' :: (c :: rest) ++ '/' :: last) =
      leadingSlashes (cs ++ '/' :: (c :: rest)) :=
    leadingSlashes_append (by simp) hc _
  unfold normalBody
  rw [hlead, normalParts_append hlast, normalParts_append h, List.reverse_cons,
    intercalate_concat '/' (by simp), ← List.append_assoc]

theorem EndsIn.exists_normal (hpath : EndsIn path name) (h : IsPlain name) :
    ∃ before, (normal path).toList = before ++ name := by
  obtain ⟨cs, hcs⟩ := hpath
  obtain ⟨before, hbefore⟩ := exists_normalBody h cs
  refine ⟨before, ?_⟩
  rw [normal_of_ne_nil, hcs, hbefore]
  rw [hcs, hbefore]
  exact List.append_ne_nil_of_right_ne_nil _ h.nonempty

theorem EndsIn.normal_append (hpath : EndsIn path name) (h : IsPlain name)
    (hfile : IsPlain file.toList) :
    normal (path ++ "/" ++ file) = normal path ++ "/" ++ file := by
  obtain ⟨cs, hcs⟩ := hpath
  have htext : (path ++ "/" ++ file).toList =
      cs ++ '/' :: name ++ '/' :: file.toList := by
    simp [hcs]
  have hne : normalBody path.toList ≠ [] := by
    obtain ⟨before, hbefore⟩ := exists_normalBody h cs
    rw [hcs, hbefore]
    exact List.append_ne_nil_of_right_ne_nil _ h.nonempty
  refine String.toList_inj.mp ?_
  have hbody := normalBody_append h hfile cs
  rw [normal_of_ne_nil, htext, hbody, ← hcs, ← normal_of_ne_nil path hne]
  · simp
  · rw [htext, hbody]
    simp

/-! ## Normal forms again -/

/-- Below the root a normal form consists of plain names. -/
theorem isPlain_normalParts {ps acc : List (List Char)} (hps : ∀ part ∈ ps, '/' ∉ part)
    (hacc : ∀ part ∈ acc, IsPlain part) : ∀ part ∈ normalParts true acc ps, IsPlain part := by
  rw [normalParts_eq_foldl]
  induction ps generalizing acc with
  | nil => exact hacc
  | cons p ps ih =>
    obtain ⟨hp, hps⟩ := List.forall_mem_cons.mp hps
    refine ih hps ?_
    unfold pushPart
    split
    · exact hacc
    · rename_i hkeep
      split
      · rename_i hup
        refine List.forall_mem_cons.mpr ⟨⟨hp, ?_, ?_, by simpa using hup⟩, hacc⟩
        · rintro rfl
          exact hkeep rfl
        · rintro rfl
          exact hkeep rfl
      · cases acc with
        | nil => exact List.forall_mem_nil _
        | cons last before =>
          obtain ⟨hlast, hbefore⟩ := List.forall_mem_cons.mp hacc
          simpa [hlast.up] using hbefore

theorem normalParts_of_isPlain {ps : List (List Char)} (h : ∀ part ∈ ps, IsPlain part)
    (rooted : Bool) (acc : List (List Char)) : normalParts rooted acc ps = ps.reverse ++ acc := by
  rw [normalParts_eq_foldl]
  induction ps generalizing acc with
  | nil => rfl
  | cons p ps ih =>
    obtain ⟨hp, hps⟩ := List.forall_mem_cons.mp h
    rw [List.foldl_cons, hp.pushPart, ih hps, List.reverse_cons, List.append_assoc]
    rfl

/-- The slashes at the beginning of a path below the root. -/
theorem leadingSlashes_cases (cs : List Char) :
    leadingSlashes ('/' :: cs) = ['/'] ∨ leadingSlashes ('/' :: cs) = ['/', '/'] := by
  match cs with
  | [] => exact .inl rfl
  | [c] =>
    by_cases hc : c = '/'
    · subst hc
      exact .inr rfl
    · exact .inl (by simp [leadingSlashes, hc])
  | c :: d :: rest =>
    by_cases hc : c = '/'
    · subst hc
      by_cases hd : d = '/'
      · subst hd
        exact .inl rfl
      · exact .inr (by simp [leadingSlashes, hd])
    · exact .inl (by simp [leadingSlashes, hc])

/-- A path in normal form below the root is its own normal form. -/
theorem normalBody_of_isPlain {lead : List Char} {ps : List (List Char)}
    (hlead : lead = ['/'] ∨ lead = ['/', '/']) (h : ∀ part ∈ ps, IsPlain part) :
    normalBody (lead ++ ['/'].intercalate ps) = lead ++ ['/'].intercalate ps := by
  by_cases hnil : ps = []
  · rcases hlead with rfl | rfl <;> rw [hnil] <;> rfl
  obtain ⟨p, rest, rfl⟩ := List.exists_cons_of_ne_nil hnil
  obtain ⟨c, cs, hc, rfl⟩ := (h p List.mem_cons_self).exists_first
  obtain ⟨tail, htail⟩ : ∃ tail, ['/'].intercalate ((c :: cs) :: rest) = c :: tail := by
    cases rest with
    | nil => exact ⟨cs, by rw [List.intercalate_singleton]⟩
    | cons q qs =>
      rw [List.intercalate_cons_of_ne_nil (List.cons_ne_nil _ _)]
      exact ⟨_, rfl⟩
  have hsplit := splitFields_intercalate (fun part hpart => (h part hpart).slash) hnil
  have hslashes : leadingSlashes (lead ++ ['/'].intercalate ((c :: cs) :: rest)) = lead := by
    rw [htail]
    rcases hlead with rfl | rfl <;> simp [leadingSlashes, hc]
  have hparts : normalParts (!lead.isEmpty) []
      (splitFields '/' (lead ++ ['/'].intercalate ((c :: cs) :: rest))) =
      ((c :: cs) :: rest).reverse := by
    have hplain := normalParts_of_isPlain h (!lead.isEmpty) []
    rw [List.append_nil] at hplain
    rcases hlead with rfl | rfl
    · rw [List.singleton_append, splitFields, if_pos rfl, hsplit]
      exact hplain
    · rw [List.cons_append, List.singleton_append, splitFields, if_pos rfl, splitFields,
        if_pos rfl, hsplit]
      exact hplain
  unfold normalBody
  rw [hslashes, hparts, List.reverse_reverse]

theorem isAbsolute_iff : isAbsolute path = true ↔ ∃ cs, path.toList = '/' :: cs := by
  unfold isAbsolute
  cases path.toList with
  | nil => simp
  | cons c cs => simp

theorem leadingSlashes_of_isAbsolute (h : isAbsolute path = true) :
    leadingSlashes path.toList = ['/'] ∨ leadingSlashes path.toList = ['/', '/'] := by
  obtain ⟨cs, hcs⟩ := isAbsolute_iff.mp h
  rw [hcs]
  exact leadingSlashes_cases cs

/-- The characters of the normal form of a path from the root. -/
theorem toList_normal (h : isAbsolute path = true) :
    (normal path).toList = leadingSlashes path.toList ++ ['/'].intercalate
      (normalParts true [] (splitFields '/' path.toList)).reverse := by
  have hlead := leadingSlashes_of_isAbsolute h
  have hbody : normalBody path.toList = leadingSlashes path.toList ++ ['/'].intercalate
      (normalParts true [] (splitFields '/' path.toList)).reverse := by
    unfold normalBody
    rcases hlead with hlead | hlead <;> rw [hlead] <;> rfl
  rw [normal_of_ne_nil, hbody]
  rw [hbody]
  rcases hlead with hlead | hlead <;> rw [hlead] <;> exact List.cons_ne_nil _ _

/-- The normal form of a path from the root is such a path, and it is its own normal form. -/
theorem normal_of_isAbsolute (h : isAbsolute path = true) :
    isAbsolute (normal path) = true ∧ normal (normal path) = normal path := by
  have hlead := leadingSlashes_of_isAbsolute h
  have hplain : ∀ part ∈ (normalParts true [] (splitFields '/' path.toList)).reverse,
      IsPlain part := fun part hpart => isPlain_normalParts (not_mem_splitFields '/' _)
        (List.forall_mem_nil _) part (List.mem_reverse.mp hpart)
  have hnormal := toList_normal h
  obtain ⟨rest, hrest⟩ : ∃ rest, (normal path).toList = '/' :: rest := by
    rw [hnormal]
    rcases hlead with hlead | hlead <;> rw [hlead] <;> exact ⟨_, rfl⟩
  have hagain : normalBody (normal path).toList = (normal path).toList := by
    rw [hnormal]
    exact normalBody_of_isPlain hlead hplain
  refine ⟨isAbsolute_iff.mpr ⟨rest, hrest⟩, String.toList_inj.mp ?_⟩
  rw [normal_of_ne_nil, hagain]
  rw [hagain, hrest]
  exact List.cons_ne_nil _ _

/-- A directory with the slash that parts it from a name. -/
def withSlash (d : String) : String :=
  if d.isEmpty || d.toList.getLast? == some '/' then d else d ++ "/"

theorem join_of_isAbsolute (h : isAbsolute path = true) (base : String) : join base path = path :=
  if_pos h

theorem join_of_relative (h : isAbsolute path = false) (base : String) :
    join base path = withSlash base ++ path := by
  unfold join withSlash
  rw [h, if_neg Bool.false_ne_true]
  split <;> rfl

/-- What is seen from a path from the root is a path from the root. -/
theorem isAbsolute_join {base : String} (h : isAbsolute base = true) (path : String) :
    isAbsolute (join base path) = true := by
  cases hpath : isAbsolute path with
  | true => rwa [join_of_isAbsolute hpath]
  | false =>
    obtain ⟨cs, hcs⟩ := isAbsolute_iff.mp h
    rw [join_of_relative hpath]
    unfold withSlash
    split
    · exact isAbsolute_iff.mpr ⟨cs ++ path.toList, by rw [String.toList_append, hcs]; rfl⟩
    · refine isAbsolute_iff.mpr ⟨cs ++ '/' :: path.toList, ?_⟩
      rw [String.toList_append, String.toList_append, hcs, List.append_assoc]
      rfl

theorem absolute_eq_normal (cwd path : String) : absolute cwd path = normal (join cwd path) := by
  unfold absolute
  split
  · rename_i hpath
    rw [join_of_isAbsolute hpath]
  · rfl

/-- A path seen from a directory below the root is a path from the root in normal form. -/
theorem absolute_absolute {cwd : String} (h : isAbsolute cwd = true) (path : String) :
    absolute cwd (absolute cwd path) = absolute cwd path := by
  obtain ⟨hroot, hnormal⟩ := normal_of_isAbsolute (isAbsolute_join h path)
  rw [absolute_eq_normal cwd path]
  unfold absolute
  rw [if_pos hroot, hnormal]

/-! ## Directories of names -/

theorem cutLast_of_not_mem {cs : List Char} (h : '/' ∉ cs) : cutLast cs = ([], cs) := by
  unfold cutLast
  rw [lastField_of_not_mem h]
  dsimp only
  rw [Nat.sub_self, List.take_zero]

theorem cutLast_append {last : List Char} (hlast : '/' ∉ last) (cs : List Char) :
    cutLast (cs ++ '/' :: last) = (cs ++ ['/'], last) := by
  have hlength : (cs ++ '/' :: last).length - last.length = (cs ++ ['/']).length := by
    simp
    omega
  unfold cutLast
  rw [lastField_append hlast]
  dsimp only
  rw [hlength, List.append_cons cs '/' last, List.take_left]

theorem dropSlashes_append {cs : List Char} {c : Char} (hc : c ≠ '/') :
    dropSlashes (cs ++ [c] ++ ['/']) = cs ++ [c] := by
  have hall : (cs ++ [c] ++ ['/']).all (· == '/') = false := by
    simp [hc]
  unfold dropSlashes
  rw [hall, if_neg Bool.false_ne_true]
  simp [trimRight, hc]

/-- The directory of a plain name that stands directly below a directory. -/
theorem dirname_append {before : List Char} (hpath : path.toList = before ++ name)
    (h : IsPlain name) (hfile : '/' ∉ file.toList) :
    dirname (path ++ "/" ++ file) = path := by
  have htext : (path ++ "/" ++ file).toList = path.toList ++ '/' :: file.toList := by simp
  obtain ⟨rest, c, hc, rfl⟩ := h.exists_last
  show String.ofList (dropSlashes (cutLast (path ++ "/" ++ file).toList).1) = path
  rw [htext, cutLast_append hfile, hpath, ← List.append_assoc]
  dsimp only
  rw [dropSlashes_append hc, List.append_assoc, ← hpath, String.ofList_toList]

theorem slash_not_mem_extension (path : String) : '/' ∉ (extension path).toList := by
  have hname : ∀ c ∈ (cutLast path.toList).2, c ≠ '/' := by
    intro c hc
    have htail := List.all_eq_true.mp List.all_takeWhile c (List.mem_reverse.mp hc)
    simpa using htail
  unfold extension splitExtension
  dsimp only
  split
  · rw [String.toList_ofList, List.mem_cons, not_or]
    refine ⟨by decide, fun hmem => hname '/' ?_ rfl⟩
    have hbody := (List.takeWhile_sublist _).subset (List.mem_reverse.mp hmem)
    exact (List.dropWhile_sublist _).subset (List.mem_reverse.mp hbody)
  · simp

/-! ## Below a directory -/

theorem isAbsolute_of_not_mem (hfile : '/' ∉ file.toList) : isAbsolute file = false := by
  unfold isAbsolute
  cases hchars : file.toList with
  | nil => rfl
  | cons c rest =>
    rw [hchars] at hfile
    simpa using (List.ne_of_not_mem_cons hfile).symm

theorem join_append (hpath : EndsIn path name) (h : IsPlain name) (hfile : '/' ∉ file.toList) :
    join path (file) = path ++ "/" ++ file := by
  have hempty : path.isEmpty = false := by
    rw [← Bool.not_eq_true, String.isEmpty_iff]
    exact hpath.ne_empty
  obtain ⟨cs, hcs⟩ := hpath
  have hlast : (path.toList.getLast? == some '/') = false := by
    obtain ⟨rest, c, hc, rfl⟩ := h.exists_last
    rw [hcs, ← List.cons_append, ← List.append_assoc, List.getLast?_concat]
    simpa using hc
  unfold join
  rw [isAbsolute_of_not_mem hfile, hempty, hlast]
  rfl

theorem isAbsolute_append (hpath : path ≠ "") (other : String) :
    isAbsolute (path ++ other) = isAbsolute path := by
  have hne : path.toList ≠ [] := fun hnil => hpath (String.toList_eq_nil_iff.mp hnil)
  unfold isAbsolute
  rw [String.toList_append, List.head?_append_of_ne_nil _ hne]

/-- The text whose normal form is the absolute path. -/
theorem exists_absolute (cwd : String) (hpath : EndsIn path name) : ∃ lead,
    ∀ other, absolute cwd (path ++ other) = normal (lead ++ path ++ other) := by
  cases habsolute : isAbsolute path with
  | true =>
    refine ⟨"", fun other => ?_⟩
    unfold absolute
    rw [isAbsolute_append hpath.ne_empty, habsolute, if_pos rfl, String.empty_append]
  | false =>
    refine ⟨withSlash cwd, fun other => ?_⟩
    rw [absolute_eq_normal, join_of_relative (by rw [isAbsolute_append hpath.ne_empty, habsolute]),
      String.append_assoc]

theorem absolute_append (cwd : String) (hpath : EndsIn path name) (h : IsPlain name)
    (hfile : IsPlain file.toList) :
    absolute cwd (path ++ "/" ++ file) =
      absolute cwd path ++ "/" ++ file := by
  obtain ⟨lead, habsolute⟩ := exists_absolute cwd hpath
  have hself := habsolute ""
  rw [String.append_empty, String.append_empty] at hself
  rw [hself, String.append_assoc, habsolute, ← String.append_assoc]
  exact (hpath.cons lead).normal_append h hfile

end Path

namespace Machine

theorem key_key {m : Machine} (h : Path.isAbsolute m.cwd = true) (path : String) :
    m.key (m.key path) = m.key path := Path.absolute_absolute h path

variable {m : Machine} {path file : String} {name : List Char} (hpath : Path.EndsIn path name)
  (h : Path.IsPlain name) (hfile : Path.IsPlain file.toList)
include hpath h hfile

omit hfile in
/-- The normal form of a path ends as the path does. -/
theorem exists_key : ∃ before, (m.key path).toList = before ++ name := by
  obtain ⟨lead, habsolute⟩ := Path.exists_absolute m.cwd hpath
  have hself := habsolute ""
  rw [String.append_empty, String.append_empty] at hself
  obtain ⟨before, hbefore⟩ := (hpath.cons lead).exists_normal h
  refine ⟨before, ?_⟩
  rw [← hbefore, ← hself]
  rfl

omit hfile in
theorem key_ne_root : m.key path ≠ "/" := by
  intro hroot
  obtain ⟨before, hkey⟩ := exists_key (m := m) hpath h
  obtain ⟨rest, c, hc, rfl⟩ := h.exists_last
  have hlast := congrArg List.getLast? (hkey.symm.trans (congrArg String.toList hroot))
  rw [← List.append_assoc, List.getLast?_concat] at hlast
  exact hc (Option.some.inj hlast)

/-- A plain name in a directory stays directly below it. -/
theorem key_join : m.key (Path.join path (file)) =
    m.key path ++ "/" ++ file := by
  unfold key
  rw [Path.join_append hpath h hfile.slash, Path.absolute_append m.cwd hpath h hfile]

theorem dirname_key_join :
    Path.dirname (m.key (Path.join path (file))) = m.key path := by
  obtain ⟨before, hkey⟩ := exists_key (m := m) hpath h
  rw [key_join hpath h hfile]
  exact Path.dirname_append hkey h hfile.slash

theorem isWithin_key_join :
    isWithin (m.key path) (m.key (Path.join path (file))) = true := by
  rw [key_join hpath h hfile]
  have hlist : (m.key path ++ "/" ++ file).toList =
      (m.key path ++ "/").toList ++ file.toList := by
    rw [String.toList_append]
  unfold isWithin
  rw [Bool.or_eq_true, hlist]
  exact .inr (List.isPrefixOf_iff_prefix.mpr (List.prefix_append _ _))

end Machine

end StillVideo
