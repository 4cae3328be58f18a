import Mathlib.Data.List.ReduceOption
import Mathlib.Logic.Relation
import StillVideo.Proofs.HeardLines

/-!
# Samples of blocks

The state of an accumulator is said from the lines of the open block alone (`Collects`). A line that
closes no block takes the state of the lines before it to the state of the lines with it
(`Collects.feed`), and a closing line gives the sample of its block and leaves none of its lines
behind (`Collects.close`). So lines that split into blocks give the samples of these blocks
(`Collects.reduceOption_outputs`), and a sample does not show how the lines of a block are mixed,
nor the lines of it that are overridden or that no sample looks at
(`Interchangeable.blockSample_eq`). `sampledByBlocks` puts this together for all lines.
-/

namespace StillVideo

namespace Accumulator

/-- What each line gives, in turn. -/
def outputs (a : Accumulator) : List (String × String) → List (Option Sample)
  | [] => []
  | line :: lines => (a.feed line.1 line.2).2 :: (a.feed line.1 line.2).1.outputs lines

/-- The lines of a block before the one that closes it, and the value of that one. -/
structure Block where
  lines : List (String × String)
  ending : String

/-- All the lines of a block. -/
def Block.closed (b : Block) : List (String × String) := b.lines ++ [(closingKey, b.ending)]

/-- No line closes a block. -/
def IsOpen (lines : List (String × String)) : Prop := ∀ line ∈ lines, line.1 ≠ closingKey

/-- Lines are those of complete blocks and those of one that is still open. -/
structure IsSplit (lines : List (String × String)) (blocks : List Block)
    (rest : List (String × String)) : Prop where
  lines_eq : lines = (blocks.map Block.closed).flatten ++ rest
  blocks_open : ∀ b ∈ blocks, IsOpen b.lines
  rest_open : IsOpen rest

/-- What a block says of a key: the value of its last line with that key. -/
def lastValue (key : String) (block : List (String × String)) : Option String :=
  block.reverse.lookup key

/-- The sample of a block: it is made of the number of frames, the frames per second and the time,
with zero and no time where the block does not say them. -/
def blockSample (total : Binary64) (block : List (String × String)) : Sample :=
  let time := (lastValue "out_time" block).getD ""
  { frame := readCount ((lastValue "frame" block).getD "0")
    fps := .real ((Binary64.read? ((lastValue "fps" block).getD "0")).getD 0)
    time
    progress := .real (percentComplete (readElapsed time) total) }

/-- The keys that a sample is made of. -/
def sampledKeys : List String := ["frame", "fps", "out_time"]

/-- The lines of a block are mixed in another way, where those with the same key keep their order;
or a line is left out, because one with the same key follows or because no sample looks at it. -/
inductive Rewrites : List (String × String) → List (String × String) → Prop
  | mixed {block block' : List (String × String)}
      (ordered : ∀ key, block.filter (·.1 == key) = block'.filter (·.1 == key)) :
      Rewrites block block'
  | overridden (front : List (String × String)) {line : String × String}
      {back : List (String × String)} (repeated : line.1 ∈ back.map Prod.fst) :
      Rewrites (front ++ line :: back) (front ++ back)
  | unused (front : List (String × String)) {line : String × String}
      (back : List (String × String)) (unsampled : line.1 ∉ sampledKeys) :
      Rewrites (front ++ line :: back) (front ++ back)

/-- Blocks that such changes, made or taken back, lead from one to the other. -/
def Interchangeable : List (String × String) → List (String × String) → Prop :=
  Relation.EqvGen Rewrites

/-! ## Splitting lines -/

/-- Splits lines into blocks. -/
def split : List (String × String) → List Block × List (String × String)
  | [] => ([], [])
  | line :: lines =>
    if line.1 = closingKey then (⟨[], line.2⟩ :: (split lines).1, (split lines).2)
    else match (split lines).1 with
      | [] => ([], line :: (split lines).2)
      | b :: blocks => (⟨line :: b.lines, b.ending⟩ :: blocks, (split lines).2)

section

variable {line : String × String} {lines block rest : List (String × String)}
  {blocks : List Block}

theorem isOpen_cons : IsOpen (line :: lines) ↔ line.1 ≠ closingKey ∧ IsOpen lines :=
  List.forall_mem_cons

theorem isSplit_nil_iff : IsSplit lines [] rest ↔ lines = rest ∧ IsOpen rest :=
  ⟨fun h => ⟨h.lines_eq, h.rest_open⟩, fun h => ⟨h.1, by simp, h.2⟩⟩

theorem isSplit_cons_iff {ending : String} : IsSplit lines (⟨block, ending⟩ :: blocks) rest ↔
    ∃ more, lines = block ++ (closingKey, ending) :: more ∧ IsOpen block ∧
      IsSplit more blocks rest := by
  constructor
  · rintro ⟨rfl, hblocks, hrest⟩
    obtain ⟨hblock, hblocks⟩ := List.forall_mem_cons.mp hblocks
    exact ⟨_, by simp [Block.closed], hblock, rfl, hblocks, hrest⟩
  · rintro ⟨more, rfl, hblock, rfl, hblocks, hrest⟩
    exact ⟨by simp [Block.closed], List.forall_mem_cons.mpr ⟨hblock, hblocks⟩, hrest⟩

theorem isSplit_split (lines : List (String × String)) :
    IsSplit lines (split lines).1 (split lines).2 := by
  induction lines with
  | nil => exact isSplit_nil_iff.mpr ⟨rfl, fun _ h => absurd h List.not_mem_nil⟩
  | cons line lines ih =>
    unfold split
    split_ifs with hclosing
    · exact isSplit_cons_iff.mpr ⟨lines, by rw [← hclosing]; rfl, by simp [IsOpen], ih⟩
    · cases hblocks : (split lines).1 with
      | nil =>
        rw [hblocks] at ih
        obtain ⟨heq, hopen⟩ := isSplit_nil_iff.mp ih
        exact isSplit_nil_iff.mpr ⟨congrArg _ heq, isOpen_cons.mpr ⟨hclosing, hopen⟩⟩
      | cons b blocks =>
        rw [hblocks] at ih
        obtain ⟨more, heq, hopen, hmore⟩ := isSplit_cons_iff.mp ih
        exact isSplit_cons_iff.mpr
          ⟨more, congrArg _ heq, isOpen_cons.mpr ⟨hclosing, hopen⟩, hmore⟩

theorem split_of_isOpen (h : IsOpen lines) : split lines = ([], lines) := by
  induction lines with
  | nil => rfl
  | cons line lines ih =>
    obtain ⟨hline, hlines⟩ := isOpen_cons.mp h
    rw [split, if_neg hline, ih hlines]

theorem split_append_closing (h : IsOpen block) (ending : String)
    (more : List (String × String)) : split (block ++ (closingKey, ending) :: more) =
      (⟨block, ending⟩ :: (split more).1, (split more).2) := by
  induction block with
  | nil => rw [List.nil_append, split, if_pos rfl]
  | cons line block ih =>
    obtain ⟨hline, hblock⟩ := isOpen_cons.mp h
    rw [List.cons_append, split, if_neg hline, ih hblock]

/-- Lines split into blocks in one way. -/
theorem existsUnique_isSplit (lines : List (String × String)) :
    ∃! p : List Block × List (String × String), IsSplit lines p.1 p.2 := by
  refine ⟨split lines, isSplit_split lines, ?_⟩
  rintro ⟨blocks, rest⟩ h
  induction blocks generalizing lines with
  | nil =>
    obtain ⟨rfl, hopen⟩ := isSplit_nil_iff.mp h
    rw [split_of_isOpen hopen]
  | cons b blocks ih =>
    obtain ⟨more, rfl, hopen, hmore⟩ := isSplit_cons_iff.mp h
    rw [split_append_closing hopen, ← ih more hmore]

end

/-! ## What a block says -/

section

variable {key : String} {line : String × String} {front back block block' : List (String × String)}

theorem lookup_filter (fields : List (String × String)) {p : String → Bool} (h : p key = true) :
    (fields.filter fun line => p line.1).lookup key = fields.lookup key := by
  induction fields with
  | nil => rfl
  | cons line fields ih =>
    by_cases hline : p line.1 = true
    · rw [List.filter_cons, if_pos hline, List.lookup_cons, List.lookup_cons, ih]
    · have hne : key ≠ line.1 := fun heq => hline (heq ▸ h)
      rw [List.filter_cons, if_neg hline, ih, List.lookup_cons, beq_eq_false_iff_ne.mpr hne]

theorem lastValue_filter (block : List (String × String)) :
    lastValue key (block.filter (·.1 == key)) = lastValue key block := by
  unfold lastValue
  rw [← List.filter_reverse]
  exact lookup_filter block.reverse (p := (· == key)) (beq_self_eq_true key)

theorem lastValue_append :
    lastValue key (front ++ back) = (lastValue key back).or (lastValue key front) := by
  unfold lastValue
  rw [List.reverse_append, List.lookup_append]

theorem lastValue_concat_self (value : String) :
    lastValue key (front ++ [(key, value)]) = some value := by
  rw [lastValue_append, lastValue, List.reverse_singleton, List.lookup_cons_self, Option.some_or]

theorem lastValue_singleton_of_ne (h : key ≠ line.1) : lastValue key [line] = none := by
  show ([line] : List (String × String)).lookup key = none
  rw [List.lookup_cons, beq_eq_false_iff_ne.mpr h]
  rfl

theorem lastValue_cons_of_ne (h : key ≠ line.1) :
    lastValue key (line :: back) = lastValue key back := by
  rw [← List.singleton_append, lastValue_append, lastValue_singleton_of_ne h, Option.or_none]

theorem exists_lastValue_of_mem (h : key ∈ back.map Prod.fst) :
    ∃ value, lastValue key back = some value := by
  obtain ⟨line, hline, rfl⟩ := List.mem_map.mp h
  obtain ⟨before, after, rfl⟩ := List.append_of_mem hline
  rw [List.append_cons, lastValue_append]
  cases lastValue line.1 after with
  | some value => exact ⟨value, Option.some_or⟩
  | none => exact ⟨line.2, lastValue_concat_self line.2⟩

theorem lastValue_cons_of_mem (h : line.1 ∈ back.map Prod.fst) :
    lastValue key (line :: back) = lastValue key back := by
  by_cases hline : key = line.1
  · obtain ⟨value, hvalue⟩ := exists_lastValue_of_mem (hline ▸ h)
    rw [← List.singleton_append, lastValue_append, hvalue, Option.some_or]
  · exact lastValue_cons_of_ne hline

theorem Rewrites.lastValue_eq (h : Rewrites block block') (hkey : key ∈ sampledKeys) :
    lastValue key block = lastValue key block' := by
  cases h with
  | mixed hordered => rw [← lastValue_filter, hordered key, lastValue_filter]
  | overridden front hrepeated =>
    rw [lastValue_append, lastValue_append, lastValue_cons_of_mem hrepeated]
  | @unused front line back hunsampled =>
    have hline : key ≠ line.1 := fun heq => hunsampled (heq ▸ hkey)
    rw [lastValue_append, lastValue_append, lastValue_cons_of_ne hline]

namespace Interchangeable

theorem lastValue_eq (h : Interchangeable block block') (hkey : key ∈ sampledKeys) :
    lastValue key block = lastValue key block' := by
  induction h with
  | rel _ _ h => exact h.lastValue_eq hkey
  | refl => rfl
  | symm _ _ _ ih => exact ih.symm
  | trans _ _ _ _ _ ih ih' => exact ih.trans ih'

theorem blockSample_eq (h : Interchangeable block block') (total : Binary64) :
    blockSample total block = blockSample total block' := by
  have htime := h.lastValue_eq (show "out_time" ∈ sampledKeys by decide)
  have hframe := h.lastValue_eq (show "frame" ∈ sampledKeys by decide)
  have hfps := h.lastValue_eq (show "fps" ∈ sampledKeys by decide)
  unfold blockSample
  rw [htime, hframe, hfps]

/-- Lines with different keys may stand in any order. -/
theorem of_perm (hkeys : (block.map Prod.fst).Nodup) (h : block.Perm block') :
    Interchangeable block block' := by
  refine .rel _ _ (.mixed fun key => ?_)
  have hfiltered := h.filter (·.1 == key)
  have hnodup : ((block.filter (·.1 == key)).map Prod.fst).Nodup :=
    hkeys.sublist (List.filter_sublist.map Prod.fst)
  have hkey : ∀ line ∈ block.filter (·.1 == key), line.1 = key :=
    fun line hline => beq_iff_eq.mp (List.mem_filter.mp hline).2
  -- only one line has the key
  match hlines : block.filter (·.1 == key) with
  | [] => exact hlines.trans (List.nil_perm.mp (hlines ▸ hfiltered)).symm
  | [line] => exact hlines.trans (List.singleton_perm.mp (hlines ▸ hfiltered))
  | line :: other :: lines =>
    rw [hlines] at hnodup hkey
    have hsame : line.1 = other.1 := (hkey line (by simp)).trans (hkey other (by simp)).symm
    simp [hsame] at hnodup

end Interchangeable

end

/-! ## Feeding lines -/

/-- An accumulator that counts against a total, with the fields of these lines in the open block. -/
structure Collects (total : Binary64) (block : List (String × String)) (a : Accumulator) :
    Prop where
  total_eq : a.total = total
  lookup_eq : ∀ key, a.fields.lookup key = lastValue key block

namespace Collects

variable {total : Binary64} {block : List (String × String)} {a : Accumulator}

theorem start (total : Binary64) : Collects total [] (start total) := ⟨rfl, fun _ => rfl⟩

theorem sample_eq (h : Collects total block a) : a.sample = blockSample total block := by
  unfold sample blockSample field
  rw [h.lookup_eq, h.lookup_eq, h.lookup_eq, h.total_eq]

/-- A line that closes no block is one more of the open block. -/
theorem feed (h : Collects total block a) {line : String × String} (hopen : line.1 ≠ closingKey) :
    (a.feed line.1 line.2).2 = none ∧
      Collects total (block ++ [line]) (a.feed line.1 line.2).1 := by
  have hfeed : a.feed line.1 line.2 = (a.withField line.1 line.2, none) := by
    unfold Accumulator.feed
    rw [if_neg (by simpa using hopen)]
  rw [hfeed]
  refine ⟨rfl, h.total_eq, fun key => ?_⟩
  show ((line.1, line.2) :: a.fields.filter (·.1 != line.1)).lookup key = _
  by_cases hkey : key = line.1
  · rw [hkey, List.lookup_cons_self, lastValue_concat_self]
  · rw [List.lookup_cons, beq_eq_false_iff_ne.mpr hkey, lastValue_append,
      lastValue_singleton_of_ne hkey, Option.none_or, ← h.lookup_eq]
    exact lookup_filter a.fields (p := (· != line.1)) (by simpa using hkey)

/-- A closing line gives the sample of its block and opens an empty one. -/
theorem close (h : Collects total block a) (value : String) :
    (a.feed closingKey value).2 = some (blockSample total block) ∧
      Collects total [] (a.feed closingKey value).1 := by
  refine ⟨?_, h.total_eq, fun _ => rfl⟩
  rw [← h.sample_eq]
  rfl

/-- A block gives its sample after lines of it that have been fed before. -/
theorem outputs_closed (h : Collects total block a) {lines : List (String × String)}
    (hopen : IsOpen lines) (ending : String) :
    ∃ a', Collects total [] a' ∧ ∀ more,
      (a.outputs (lines ++ (closingKey, ending) :: more)).reduceOption =
        blockSample total (block ++ lines) :: (a'.outputs more).reduceOption := by
  induction lines generalizing a block with
  | nil =>
    obtain ⟨hsample, hnext⟩ := h.close ending
    refine ⟨_, hnext, fun more => ?_⟩
    rw [List.nil_append, List.append_nil, outputs, hsample, List.reduceOption_cons_of_some]
  | cons line lines ih =>
    obtain ⟨hline, hlines⟩ := isOpen_cons.mp hopen
    obtain ⟨hnone, hfed⟩ := h.feed hline
    obtain ⟨a', ha', heq⟩ := ih hfed hlines
    refine ⟨a', ha', fun more => ?_⟩
    rw [List.cons_append, outputs, hnone, List.reduceOption_cons_of_none, heq,
      List.append_assoc, List.singleton_append]

theorem outputs_open (h : Collects total block a) {lines : List (String × String)}
    (hopen : IsOpen lines) : (a.outputs lines).reduceOption = [] := by
  induction lines generalizing a block with
  | nil => rfl
  | cons line lines ih =>
    obtain ⟨hline, hlines⟩ := isOpen_cons.mp hopen
    obtain ⟨hnone, hfed⟩ := h.feed hline
    rw [outputs, hnone, List.reduceOption_cons_of_none, ih hfed hlines]

/-- Lines give the samples of their blocks, and of each block from its own lines alone. -/
theorem reduceOption_outputs (h : Collects total [] a) {lines rest : List (String × String)}
    {blocks : List Block} (hsplit : IsSplit lines blocks rest) :
    (a.outputs lines).reduceOption = blocks.map fun b => blockSample total b.lines := by
  induction blocks generalizing a lines with
  | nil =>
    obtain ⟨rfl, hopen⟩ := isSplit_nil_iff.mp hsplit
    exact h.outputs_open hopen
  | cons b blocks ih =>
    obtain ⟨more, rfl, hopen, hmore⟩ := isSplit_cons_iff.mp hsplit
    obtain ⟨a', ha', heq⟩ := h.outputs_closed hopen b.ending
    rw [heq, ih ha' hmore, List.nil_append, List.map_cons]

end Collects

/-- Exactly the closing lines give a sample. -/
theorem isSome_outputs (a : Accumulator) (lines : List (String × String)) :
    (a.outputs lines).map Option.isSome = lines.map fun line => line.1 == closingKey := by
  induction lines generalizing a with
  | nil => rfl
  | cons line lines ih =>
    have hline : (a.feed line.1 line.2).2.isSome = (line.1 == closingKey) := by
      unfold feed
      split_ifs with h
      · exact h.symm
      · exact (Bool.eq_false_iff.mpr h).symm
    rw [outputs, List.map_cons, List.map_cons, hline, ih]

theorem foldl_take (p : Accumulator × List Sample) (lines : List (String × String)) :
    lines.foldl take p = ((p.1.takeAll lines).1, p.2 ++ (p.1.outputs lines).reduceOption) := by
  induction lines generalizing p with
  | nil => simp [takeAll, outputs]
  | cons line lines ih =>
    have hall : p.1.takeAll (line :: lines) = lines.foldl take (take (p.1, []) line) := rfl
    rw [List.foldl_cons, ih, hall, ih, outputs]
    cases hout : (p.1.feed line.1 line.2).2 <;> simp [take, hout]

theorem takeAll_eq (a : Accumulator) (lines : List (String × String)) :
    (a.takeAll lines).2 = (a.outputs lines).reduceOption :=
  congrArg Prod.snd (foldl_take (a, []) lines)

theorem finished_feed (a : Accumulator) (line : String × String) :
    (a.feed line.1 line.2).1.finished = true ↔
      a.finished = true ∨ line = (closingKey, endValue) := by
  unfold feed
  split_ifs with h
  · simp [Prod.ext_iff, beq_iff_eq.mp h]
  · have hne : line ≠ (closingKey, endValue) := by
      rintro rfl
      exact h rfl
    simp [hne, withField]

theorem finished_takeAll (a : Accumulator) (lines : List (String × String)) :
    (a.takeAll lines).1.finished = true ↔
      a.finished = true ∨ (closingKey, endValue) ∈ lines := by
  induction lines generalizing a with
  | nil => simp [takeAll]
  | cons line lines ih =>
    have hall : (a.takeAll (line :: lines)).1 = ((a.feed line.1 line.2).1.takeAll lines).1 := by
      show (lines.foldl take (take (a, []) line)).1 = _
      rw [foldl_take]
      rfl
    rw [hall, ih, finished_feed, List.mem_cons, or_assoc, eq_comm (a := line)]

/-- How lines that are fed from the start turn into samples: which of them give one, how they split
into blocks and what the samples of these are, which blocks give the same sample, and when the end
is announced. -/
structure SampledByBlocks (total : Binary64) (lines : List (String × String)) : Prop where
  one_each : ((start total).outputs lines).map Option.isSome =
    lines.map fun line => line.1 == closingKey
  published : ((start total).takeAll lines).2 = ((start total).outputs lines).reduceOption
  splits : ∃! p : List Block × List (String × String), IsSplit lines p.1 p.2
  samples : ∀ blocks rest, IsSplit lines blocks rest →
    ((start total).takeAll lines).2 = blocks.map fun b => blockSample total b.lines
  alike : ∀ lines' blocks blocks' rest rest', IsSplit lines blocks rest →
    IsSplit lines' blocks' rest' → ∀ (k k' : Nat) (b b' : Block), blocks[k]? = some b →
    blocks'[k']? = some b' → Interchangeable b.lines b'.lines →
    ∃ s, ((start total).takeAll lines).2[k]? = some s ∧
      ((start total).takeAll lines').2[k']? = some s
  permuted : ∀ block block' : List (String × String), (block.map Prod.fst).Nodup →
    block.Perm block' → blockSample total block = blockSample total block'
  finished : ∀ n, ((start total).takeAll (lines.take n)).1.finished = true ↔
    (closingKey, endValue) ∈ lines.take n

theorem takeAll_start_of_isSplit (total : Binary64) {lines rest : List (String × String)}
    {blocks : List Block} (h : IsSplit lines blocks rest) :
    ((start total).takeAll lines).2 = blocks.map fun b => blockSample total b.lines := by
  rw [takeAll_eq, (Collects.start total).reduceOption_outputs h]

/-- **Samples of blocks.** Each closing line gives one sample and no other line does. The sample is
made of the lines of its block and of the total alone, of the last value of each key; it shows
neither how lines with different keys are mixed nor lines that it is not made of. The end is
announced from the first line on that says so. -/
theorem sampledByBlocks (total : Binary64) (lines : List (String × String)) :
    SampledByBlocks total lines where
  one_each := isSome_outputs _ lines
  published := takeAll_eq _ lines
  splits := existsUnique_isSplit lines
  samples := fun _ _ => takeAll_start_of_isSplit total
  alike := by
    intro lines' blocks blocks' rest rest' h h' k k' b b' hb hb' halike
    refine ⟨blockSample total b.lines, ?_, ?_⟩
    · rw [takeAll_start_of_isSplit total h, List.getElem?_map, hb, Option.map_some]
    · rw [takeAll_start_of_isSplit total h', List.getElem?_map, hb', Option.map_some,
        halike.blockSample_eq]
  permuted := fun _ _ hkeys h => (Interchangeable.of_perm hkeys h).blockSample_eq total
  finished := by
    intro n
    rw [finished_takeAll, or_iff_right (show (start total).finished ≠ true from Bool.false_ne_true)]

end Accumulator

end StillVideo
