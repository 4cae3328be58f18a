import StillVideo.EncoderTool
import StillVideo.FilterGraph
import StillVideo.Proofs.NumberText

/-!
# Reading filter graphs

A `Link` is a chain as it stands in the text of a graph: labels in brackets, filters with commas
between, and a label in brackets. `FilterGraph.readLinks?` splits a text at its semicolons and reads
the links, and `Link.clip?` reads the numbers of a clip out of a link. The readers know the signs
between the parts and nothing of the functions that write graphs.

`readLinks?_text`: what is read from the text of plain chains are the links of the chains.
-/

namespace StillVideo

/-- A chain as it stands in the text of a graph: the labels that it reads, its filters, and the
label that it writes. -/
structure Link where
  reads : List String
  filters : List String
  writes : String
  deriving DecidableEq, Repr

/-- What the chain of a clip says, as it is written. -/
structure ClipReading where
  slot : String
  trimStart : String
  trimEnd : String
  gain : String
  delay : String
  deriving DecidableEq, Repr

namespace Link

/-- A label in brackets at the beginning of a text, and what stands behind it. -/
def readLabel? : List Char → Option (String × List Char)
  | '[' :: cs =>
    match cs.dropWhile (· != ']') with
    | _ :: rest => some (String.ofList (cs.takeWhile (· != ']')), rest)
    | [] => none
  | _ => none

theorem length_of_readLabel? {cs rest : List Char} {label : String}
    (h : readLabel? cs = some (label, rest)) : rest.length < cs.length := by
  unfold readLabel? at h
  split at h
  · rename_i cs'
    have := (List.dropWhile_sublist (fun c => c != ']') (l := cs')).length_le
    split at h
    · rename_i heq
      obtain ⟨rfl, rfl⟩ := by simpa using h
      rw [heq] at this
      simp only [List.length_cons] at this ⊢
      omega
    · exact absurd h (by simp)
  · exact absurd h (by simp)

/-- The labels in brackets at the beginning of a text, and what stands behind them. -/
def readLabels (cs : List Char) : List String × List Char :=
  match _h : readLabel? cs with
  | some (label, rest) => (label :: (readLabels rest).1, (readLabels rest).2)
  | none => ([], cs)
termination_by cs.length
decreasing_by all_goals exact length_of_readLabel? _h

/-- A link: labels, filters up to the next bracket, and one label at the end. -/
def read? (cs : List Char) : Option Link :=
  let body := (readLabels cs).2
  match readLabel? (body.dropWhile (· != '[')) with
  | some (label, []) =>
    some ⟨(readLabels cs).1, ((body.takeWhile (· != '[')).splitOn ',').map String.ofList, label⟩
  | _ => none

/-- The text behind a given beginning. -/
def behindText? (lead : String) (s : String) : Option (List Char) := behind? lead.toList s.toList

/-- The number of the input whose sound a label names. -/
def inputOf? (label : String) : Option String :=
  match label.toList.splitOn ':' with
  | [slot, ['a']] => some (String.ofList slot)
  | _ => none

/-- The numbers of a link that cuts a clip out of one input, restarts its time, sets its gain and
delays both its channels alike. -/
def clip? (l : Link) : Option ClipReading :=
  match l.reads, l.filters with
  | [input], [trim, restart, volume, place] => do
    let slot ← inputOf? input
    let window ← behindText? "atrim=start=" trim
    let gain ← behindText? "volume=" volume
    let delays ← behindText? "adelay=" place
    match window.splitOn ':', delays.splitOn '|' with
    | [trimStart, 'e' :: 'n' :: 'd' :: '=' :: trimEnd], [left, right] =>
      if restart = "asetpts=PTS-STARTPTS" ∧ left = right then
        some ⟨slot, String.ofList trimStart, String.ofList trimEnd, String.ofList gain,
          String.ofList left⟩
      else none
    | _, _ => none
  | _, _ => none

end Link

/-- The links of a graph, read from its text. -/
def FilterGraph.readLinks? (text : String) : Option (List Link) :=
  (text.toList.splitOn ';').mapM Link.read?

/-! ## Links of chains -/

namespace Chain

/-- The filters of a chain one by one. -/
def filterList : Chain → List String
  | .clip _ _ trimStart trimEnd gain delay =>
    ["atrim=start=" ++ trimStart ++ ":end=" ++ trimEnd, "asetpts=PTS-STARTPTS", "volume=" ++ gain,
      "adelay=" ++ toString delay ++ "|" ++ toString delay]
  | .mix count gain => ["amix=inputs=" ++ toString count ++ ":duration=longest", "volume=" ++ gain]
  | .musicLoop gain => ["aloop=loop=-1:size=2e+09", "volume=" ++ gain]
  | .musicMix => ["amix=inputs=2:duration=first:dropout_transition=2"]

/-- The link that a chain makes. -/
def link (c : Chain) : Link := ⟨c.reads, c.filterList, c.writes⟩

/-- The numbers of a chain are written like numbers. -/
def IsPlain : Chain → Prop
  | .clip _ _ trimStart trimEnd gain _ =>
    IsNumberText trimStart ∧ IsNumberText trimEnd ∧ IsNumberText gain
  | .mix _ gain | .musicLoop gain => IsNumberText gain
  | .musicMix => True

theorem toList_filters (c : Chain) :
    c.filters.toList = [','].intercalate (c.filterList.map String.toList) := by
  cases c with
  | clip index slot trimStart trimEnd gain delay =>
    unfold filters filterList
    generalize toString delay = d
    simp
  | mix count gain =>
    unfold filters filterList
    generalize toString count = n
    simp
  | musicLoop gain => unfold filters filterList; simp
  | musicMix => unfold filters filterList; simp

theorem toList_bracketed (label : String) :
    (bracketed label).toList = '[' :: (label.toList ++ [']']) := by
  simp [bracketed]

theorem toList_text (c : Chain) :
    c.text.toList =
      c.reads.flatMap (fun l => (bracketed l).toList) ++
        (c.filters.toList ++ (bracketed c.writes).toList) := by
  unfold text
  rw [String.toList_append, String.toList_append, String.toList_join, List.flatMap_map,
    List.append_assoc]

end Chain

/-! ## Separators -/

/-- A character that does not part filters, labels or links. -/
def isInnerChar (c : Char) : Bool := !",;[]".toList.contains c

/-- A text without such separators. -/
def IsInnerText (s : String) : Prop := ∀ c ∈ s.toList, isInnerChar c = true

theorem IsInnerText.append {s t : String} (hs : IsInnerText s) (ht : IsInnerText t) :
    IsInnerText (s ++ t) := by
  intro c hc
  rw [String.toList_append, List.mem_append] at hc
  rcases hc with hc | hc
  · exact hs c hc
  · exact ht c hc

theorem IsInnerText.not_mem {s : String} (h : IsInnerText s) {c : Char}
    (hc : isInnerChar c = false) : c ∉ s.toList := by
  intro hmem
  rw [h c hmem] at hc
  exact Bool.noConfusion hc

theorem isInnerText_of_all {s : String} (h : s.toList.all isInnerChar = true) : IsInnerText s :=
  List.all_eq_true.mp h

theorem isInnerChar_of_isNumberChar {c : Char} (h : isNumberChar c = true) :
    isInnerChar c = true := by
  have hall : ",;[]".toList.all (fun c => !isNumberChar c) = true := by decide
  by_cases hc : c ∈ ",;[]".toList
  · have hno := List.all_eq_true.mp hall c hc
    rw [h] at hno
    exact Bool.noConfusion hno
  · unfold isInnerChar
    rw [List.contains_eq_mem, decide_eq_false hc]
    rfl

theorem IsNumberText.isInnerText {s : String} (h : IsNumberText s) : IsInnerText s :=
  fun c hc => isInnerChar_of_isNumberChar (h c hc)

namespace Chain

theorem isInnerText_inputLabel (slot : Nat) : IsInnerText (inputLabel slot) :=
  (isNumberText_natRepr slot).isInnerText.append (isInnerText_of_all (by decide))

theorem isInnerText_clipLabel (index : Nat) : IsInnerText (clipLabel index) :=
  (isInnerText_of_all (by decide)).append (isNumberText_natRepr index).isInnerText

theorem isInnerText_reads (c : Chain) : ∀ label ∈ c.reads, IsInnerText label := by
  intro label h
  cases c with
  | clip index slot trimStart trimEnd gain delay =>
    rw [List.mem_singleton.mp h]; exact isInnerText_inputLabel slot
  | mix count gain =>
    obtain ⟨index, _, rfl⟩ := List.mem_map.mp h
    exact isInnerText_clipLabel index
  | musicLoop gain => rw [List.mem_singleton.mp h]; exact isInnerText_inputLabel _
  | musicMix =>
    simp only [reads, List.mem_cons, List.not_mem_nil, or_false] at h
    rcases h with rfl | rfl <;> exact isInnerText_of_all (by decide)

theorem isInnerText_writes (c : Chain) : IsInnerText c.writes := by
  cases c with
  | clip index slot trimStart trimEnd gain delay => exact isInnerText_clipLabel index
  | mix count gain => exact isInnerText_of_all (s := mixLabel) (by decide)
  | musicLoop gain => exact isInnerText_of_all (s := musicLabel) (by decide)
  | musicMix => exact isInnerText_of_all (s := finalLabel) (by decide)

/-- The separators are in no filter of a plain chain. -/
theorem isInnerText_filterList {c : Chain} (hc : c.IsPlain) :
    ∀ f ∈ c.filterList, IsInnerText f := by
  have word : ∀ s : String, s.toList.all isInnerChar = true → IsInnerText s := fun _ =>
    isInnerText_of_all
  intro f hf
  cases c with
  | clip index slot trimStart trimEnd gain delay =>
    obtain ⟨h₁, h₂, h₃⟩ := hc
    have hd := (isNumberText_intRepr delay).isInnerText
    unfold filterList at hf
    simp only [List.mem_cons, List.not_mem_nil, or_false] at hf
    rcases hf with rfl | rfl | rfl | rfl
    · exact (((word _ (by decide)).append h₁.isInnerText).append (word _ (by decide))).append
        h₂.isInnerText
    · exact word _ (by decide)
    · exact (word _ (by decide)).append h₃.isInnerText
    · exact (((word _ (by decide)).append hd).append (word _ (by decide))).append hd
  | mix count gain =>
    have hn := (isNumberText_natRepr count).isInnerText
    unfold filterList at hf
    simp only [List.mem_cons, List.not_mem_nil, or_false] at hf
    rcases hf with rfl | rfl
    · exact ((word _ (by decide)).append hn).append (word _ (by decide))
    · exact (word _ (by decide)).append (IsNumberText.isInnerText hc)
  | musicLoop gain =>
    unfold filterList at hf
    simp only [List.mem_cons, List.not_mem_nil, or_false] at hf
    rcases hf with rfl | rfl
    · exact word _ (by decide)
    · exact (word _ (by decide)).append (IsNumberText.isInnerText hc)
  | musicMix =>
    unfold filterList at hf
    rw [List.mem_singleton.mp hf]
    exact word _ (by decide)

/-- Every chain begins with the name of a filter. -/
theorem exists_filters_eq_cons (c : Chain) : ∃ cs, c.filters.toList = 'a' :: cs := by
  cases c with
  | clip index slot trimStart trimEnd gain delay => unfold filters; simp
  | mix count gain => unfold filters; simp
  | musicLoop gain => unfold filters; simp
  | musicMix => unfold filters; simp

theorem filterList_ne_nil (c : Chain) : c.filterList.map String.toList ≠ [] := by
  cases c <;> exact List.cons_ne_nil _ _

end Chain

theorem mem_of_mem_intercalate {α : Type} {sep x : α} {ls : List (List α)}
    (h : x ∈ [sep].intercalate ls) : x = sep ∨ ∃ l ∈ ls, x ∈ l := by
  induction ls with
  | nil => exact absurd h List.not_mem_nil
  | cons l ls ih =>
    by_cases hls : ls = []
    · subst hls
      rw [List.intercalate_singleton] at h
      exact .inr ⟨l, List.mem_cons_self, h⟩
    · rw [List.intercalate_cons_of_ne_nil hls, List.mem_append, List.mem_append] at h
      rcases h with (h | h) | h
      · exact .inr ⟨l, List.mem_cons_self, h⟩
      · exact .inl (List.mem_singleton.mp h)
      · rcases ih h with h | ⟨k, hk, hx⟩
        · exact .inl h
        · exact .inr ⟨k, List.mem_cons_of_mem _ hk, hx⟩

namespace Chain

theorem not_mem_filters {c : Chain} (hc : c.IsPlain) {x : Char} (hx : isInnerChar x = false)
    (hne : x ≠ ',') : x ∉ c.filters.toList := by
  rw [toList_filters]
  intro hmem
  obtain h | ⟨l, hl, hxl⟩ := mem_of_mem_intercalate hmem
  · exact hne h
  · obtain ⟨f, hf, rfl⟩ := List.mem_map.mp hl
    exact (isInnerText_filterList hc f hf).not_mem hx hxl

/-- A plain chain has no semicolon. -/
theorem semicolon_not_mem_text {c : Chain} (hc : c.IsPlain) : ';' ∉ c.text.toList := by
  have label : ∀ l, IsInnerText l → ';' ∉ (bracketed l).toList := by
    intro l hl
    rw [toList_bracketed]
    simp [hl.not_mem (c := ';') (by decide)]
  rw [toList_text, List.mem_append, List.mem_append, List.mem_flatMap]
  rintro (⟨l, hl, h⟩ | h | h)
  · exact label l (c.isInnerText_reads l hl) h
  · exact not_mem_filters hc (by decide) (by decide) h
  · exact label _ c.isInnerText_writes h

end Chain

/-! ## Reading back -/

namespace Link

open Chain (bracketed toList_bracketed)

theorem readLabel?_bracketed {label : String} (h : IsInnerText label) (rest : List Char) :
    readLabel? ((bracketed label).toList ++ rest) = some (label, rest) := by
  have hin : ∀ c ∈ label.toList, (c != ']') = true := by
    intro c hc
    rw [bne_iff_ne]
    rintro rfl
    exact h.not_mem (by decide) hc
  rw [toList_bracketed]
  unfold readLabel?
  simp only [List.cons_append, List.append_assoc, List.nil_append]
  rw [List.dropWhile_append_of_pos hin, List.takeWhile_append_of_pos hin]
  simp

theorem readLabels_eq_nil {cs : List Char} (h : readLabel? cs = none) :
    readLabels cs = ([], cs) := by
  unfold readLabels
  split
  · rename_i heq; rw [h] at heq; exact absurd heq (by simp)
  · rfl

theorem readLabels_cons {label : String} {cs rest : List Char}
    (h : readLabel? cs = some (label, rest)) :
    readLabels cs = (label :: (readLabels rest).1, (readLabels rest).2) := by
  rw [readLabels]
  split
  · rename_i heq
    rw [h] at heq
    obtain ⟨rfl, rfl⟩ := by simpa using heq
    rfl
  · rename_i heq; rw [h] at heq; exact absurd heq (by simp)

theorem readLabels_bracketed (labels : List String) (hl : ∀ l ∈ labels, IsInnerText l)
    {rest : List Char} (hrest : readLabel? rest = none) :
    readLabels (labels.flatMap (fun l => (bracketed l).toList) ++ rest) = (labels, rest) := by
  induction labels with
  | nil => exact readLabels_eq_nil hrest
  | cons l ls ih =>
    rw [List.flatMap_cons, List.append_assoc,
      readLabels_cons (readLabel?_bracketed (hl l List.mem_cons_self) _),
      ih fun k hk => hl k (List.mem_cons_of_mem _ hk)]

/-- **A chain reads back.** Reading the text of a plain chain gives its link. -/
theorem read?_text {c : Chain} (hc : c.IsPlain) : read? c.text.toList = some c.link := by
  have hin : ∀ x ∈ c.filters.toList, (x != '[') = true := by
    intro x hx
    rw [bne_iff_ne]
    rintro rfl
    exact Chain.not_mem_filters hc (by decide) (by decide) hx
  have hrest : readLabel? (c.filters.toList ++ (bracketed c.writes).toList) = none := by
    obtain ⟨cs, hcs⟩ := c.exists_filters_eq_cons
    rw [hcs]
    rfl
  have hlabel : ∀ l : String, (bracketed l).toList.dropWhile (· != '[') = (bracketed l).toList ∧
      (bracketed l).toList.takeWhile (· != '[') = [] := by
    intro l
    rw [toList_bracketed]
    exact ⟨rfl, rfl⟩
  have hsplit : c.filters.toList.splitOn ',' = c.filterList.map String.toList := by
    rw [Chain.toList_filters]
    refine List.splitOn_intercalate ',' ?_ c.filterList_ne_nil
    intro l hl
    obtain ⟨f, hf, rfl⟩ := List.mem_map.mp hl
    exact (Chain.isInnerText_filterList hc f hf).not_mem (by decide)
  have hend := readLabel?_bracketed c.isInnerText_writes []
  rw [List.append_nil] at hend
  unfold read?
  rw [Chain.toList_text, readLabels_bracketed _ c.isInnerText_reads hrest]
  dsimp only
  rw [List.dropWhile_append_of_pos hin, List.takeWhile_append_of_pos hin, (hlabel _).1,
    (hlabel _).2, hend]
  simp only [List.append_nil, hsplit, List.map_map, Option.some.injEq]
  unfold Chain.link
  congr 1
  exact List.map_id'' (fun f => String.ofList_toList) c.filterList

end Link

theorem mapM_read?_text {cs : List Chain} (h : ∀ c ∈ cs, c.IsPlain) :
    (cs.map (·.text.toList)).mapM Link.read? = some (cs.map Chain.link) := by
  induction cs with
  | nil => rfl
  | cons c cs ih =>
    rw [List.map_cons, List.mapM_cons, Link.read?_text (h c List.mem_cons_self),
      ih fun d hd => h d (List.mem_cons_of_mem _ hd)]
    rfl

namespace FilterGraph

/-- Semicolons stand between the chains of a graph and nowhere else. -/
theorem splitOn_text {g : FilterGraph} (hne : g.chains ≠ []) (hg : ∀ c ∈ g.chains, c.IsPlain) :
    g.text.toList.splitOn ';' = g.chains.map (·.text.toList) := by
  unfold FilterGraph.text
  rw [String.toList_intercalate, List.map_map]
  refine List.splitOn_intercalate ';' ?_ (by simpa using hne)
  intro l hl
  obtain ⟨c, hc, rfl⟩ := List.mem_map.mp hl
  exact Chain.semicolon_not_mem_text (hg c hc)

/-- **A graph reads back.** What is read from the text of plain chains are their links. -/
theorem readLinks?_text {g : FilterGraph} (hne : g.chains ≠ [])
    (hg : ∀ c ∈ g.chains, c.IsPlain) : readLinks? g.text = some (g.chains.map Chain.link) := by
  unfold readLinks?
  rw [splitOn_text hne hg, mapM_read?_text hg]

end FilterGraph

/-! ## Clips -/

namespace Link

theorem behindText?_append (lead s : String) : behindText? lead (lead ++ s) = some s.toList := by
  unfold behindText? behind?
  rw [String.toList_append, if_pos (List.isPrefixOf_iff_prefix.mpr (List.prefix_append _ _)),
    List.drop_left]

theorem inputOf?_inputLabel (slot : Nat) :
    inputOf? (Chain.inputLabel slot) = some (toString slot) := by
  have h : ':' ∉ (toString slot).toList := (isNumberText_natRepr slot).not_mem (by decide)
  unfold inputOf? Chain.inputLabel
  rw [String.toList_append, show ":a".toList = [':', 'a'] from rfl,
    List.splitOn_append_cons_self_of_not_mem h]
  show some (String.ofList (toString slot).toList) = _
  rw [String.ofList_toList]

/-- **A clip reads back.** The link of a plain clip chain gives the numbers of the chain. -/
theorem clip?_link {index slot : Nat} {trimStart trimEnd gain : String} {delay : Int}
    (hc : (Chain.clip index slot trimStart trimEnd gain delay).IsPlain) :
    (Chain.clip index slot trimStart trimEnd gain delay).link.clip? =
      some ⟨toString slot, trimStart, trimEnd, gain, toString delay⟩ := by
  have hs : ':' ∉ trimStart.toList := hc.1.not_mem (by decide)
  have he : ':' ∉ trimEnd.toList := hc.2.1.not_mem (by decide)
  have hd : '|' ∉ (toString delay).toList := (isNumberText_intRepr delay).not_mem (by decide)
  have hwindow : (trimStart ++ (":end=" ++ trimEnd)).toList.splitOn ':' =
      [trimStart.toList, 'e' :: 'n' :: 'd' :: '=' :: trimEnd.toList] := by
    rw [String.toList_append, String.toList_append,
      show ":end=".toList = ':' :: ['e', 'n', 'd', '='] from rfl, List.cons_append,
      List.splitOn_append_cons_self_of_not_mem hs, List.splitOn_eq_singleton]
    · rfl
    · simp [he]
  have hdelays : (toString delay ++ ("|" ++ toString delay)).toList.splitOn '|' =
      [(toString delay).toList, (toString delay).toList] := by
    rw [String.toList_append, String.toList_append, show "|".toList = ['|'] from rfl,
      List.cons_append, List.nil_append, List.splitOn_append_cons_self_of_not_mem hd,
      List.splitOn_eq_singleton hd]
  unfold clip? Chain.link Chain.reads Chain.filterList
  dsimp only
  rw [inputOf?_inputLabel, String.append_assoc, String.append_assoc, behindText?_append,
    behindText?_append, String.append_assoc, String.append_assoc, behindText?_append]
  simp only [Option.bind_eq_bind, Option.bind_some, hwindow, hdelays, String.ofList_toList,
    and_self, if_true]

end Link

end StillVideo
