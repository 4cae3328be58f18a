import Mathlib.Data.List.Nodup
import StillVideo.Proofs.GraphReader

/-!
# The labels of a graph

`IsWired links target`: every label is written once, and what is written is read once, by a later
link or as the result. The labels `a0`, `a1`, … of the clips, the labels of the mixes and the labels
of the inputs are pairwise different, so the graph of numbered clip chains is wired, with music and
without (`assemble_isWired`).
-/

namespace StillVideo

namespace Chain

/-! ## Labels that differ -/

theorem clipLabel_injective : Function.Injective clipLabel := by
  intro i j h
  unfold clipLabel at h
  rw [← String.toList_inj, String.toList_append, String.toList_append, List.append_cancel_left_eq,
    String.toList_inj] at h
  exact natRepr_inj h

theorem inputLabel_injective : Function.Injective inputLabel := by
  intro i j h
  unfold inputLabel at h
  rw [← String.toList_inj, String.toList_append, String.toList_append, List.append_cancel_right_eq,
    String.toList_inj] at h
  exact natRepr_inj h

theorem bracketed_injective : Function.Injective bracketed := by
  intro s t h
  have h := congrArg String.toList h
  rw [toList_bracketed, toList_bracketed, List.cons.injEq, List.append_cancel_right_eq] at h
  exact String.toList_inj.mp h.2

/-- No clip has a label whose second character is no digit. -/
theorem clipLabel_ne {index : Nat} {label : String} {c d : Char} {cs : List Char}
    (h : label.toList = c :: d :: cs) (hd : d.isDigit = false) : clipLabel index ≠ label := by
  rintro rfl
  have hcs : (toString index).toList = d :: cs := by
    unfold clipLabel at h
    rw [String.toList_append, show "a".toList = ['a'] from rfl, List.cons_append, List.cons.injEq]
      at h
    exact h.2
  have hmem : d ∈ decimalDigits index := by
    have : d ∈ (toString index).toList := hcs ▸ List.mem_cons_self
    rwa [toList_natRepr] at this
  rw [isDigit_of_mem_decimalDigits hmem] at hd
  exact Bool.noConfusion hd

theorem clipLabel_ne_mixLabel (index : Nat) : clipLabel index ≠ mixLabel :=
  clipLabel_ne rfl (by decide)

theorem clipLabel_ne_musicLabel (index : Nat) : clipLabel index ≠ musicLabel :=
  clipLabel_ne rfl (by decide)

theorem clipLabel_ne_finalLabel (index : Nat) : clipLabel index ≠ finalLabel :=
  clipLabel_ne rfl (by decide)

theorem colon_mem_inputLabel (slot : Nat) : ':' ∈ (inputLabel slot).toList := by
  unfold inputLabel
  rw [String.toList_append]
  exact List.mem_append_right _ (by decide)

theorem colon_not_mem_clipLabel (index : Nat) : ':' ∉ (clipLabel index).toList := by
  unfold clipLabel
  rw [String.toList_append, List.mem_append]
  rintro (h | h)
  · exact absurd h (by decide)
  · exact (isNumberText_natRepr index).not_mem (by decide) h

/-- What a chain writes is not the label of an input. -/
theorem writes_ne_inputLabel (c : Chain) (slot : Nat) : c.writes ≠ inputLabel slot := by
  intro h
  have hmem : ':' ∈ c.writes.toList := h ▸ colon_mem_inputLabel slot
  cases c with
  | clip index => exact colon_not_mem_clipLabel index hmem
  | mix => exact absurd hmem (by decide : ':' ∉ mixLabel.toList)
  | musicLoop => exact absurd hmem (by decide : ':' ∉ musicLabel.toList)
  | musicMix => exact absurd hmem (by decide : ':' ∉ finalLabel.toList)

end Chain

/-! ## Wired graphs -/

/-- The labels of links fit together: each is written once, what a link writes is read by later
links only and exactly once, the result counted, and the result is the one label that no link
reads. -/
structure IsWired (links : List Link) (target : String) : Prop where
  writes_nodup : (links.map Link.writes).Nodup
  used_once : ∀ l ∈ links, (links.flatMap Link.reads).count l.writes +
    (if target = Chain.bracketed l.writes then 1 else 0) = 1
  not_read_before : links.Pairwise fun earlier later => later.writes ∉ earlier.reads
  not_read_itself : ∀ l ∈ links, l.writes ∉ l.reads
  target_unread : ∃ label, target = Chain.bracketed label ∧
    ∀ l ∈ links, l.writes ∉ links.flatMap Link.reads ↔ l.writes = label
  target_written : ∃ l ∈ links, target = Chain.bracketed l.writes

/-- The graph of the chains of clips: their mix, and the music if it has a gain. -/
def FilterGraph.assemble (clips : List Chain) (master : String) (music : Option String) :
    FilterGraph :=
  match music with
  | none => ⟨clips ++ [.mix clips.length master], Chain.mixLabel⟩
  | some gain =>
    ⟨clips ++ [.mix clips.length master, .musicLoop gain, .musicMix], Chain.finalLabel⟩

/-- Chains of clips in order: the chain at position `k` has the label of clip `k`. -/
structure AreNumbered (clips : List Chain) : Prop where
  writes_eq : clips.map Chain.writes = (List.range clips.length).map Chain.clipLabel
  reads_input : ∀ c ∈ clips, ∃ slot, c.reads = [Chain.inputLabel slot]

namespace AreNumbered

open Chain

variable {clips : List Chain} (h : AreNumbered clips)
include h

theorem writes_mem {c : Chain} (hc : c ∈ clips) :
    ∃ index < clips.length, c.writes = clipLabel index := by
  have hmem : c.writes ∈ (List.range clips.length).map clipLabel :=
    h.writes_eq ▸ List.mem_map_of_mem hc
  obtain ⟨index, hi, hw⟩ := List.mem_map.mp hmem
  exact ⟨index, List.mem_range.mp hi, hw.symm⟩

theorem nodup_writes : (clips.map Chain.writes).Nodup := by
  rw [h.writes_eq]
  exact List.Nodup.map clipLabel_injective List.nodup_range

/-- No chain of a clip reads what a chain writes. -/
theorem writes_not_mem_reads (d : Chain) {c : Chain} (hc : c ∈ clips) : d.writes ∉ c.reads := by
  obtain ⟨slot, hr⟩ := h.reads_input c hc
  rw [hr, List.mem_singleton]
  exact d.writes_ne_inputLabel slot

theorem count_reads (d : Chain) : (clips.flatMap Chain.reads).count d.writes = 0 := by
  rw [List.count_eq_zero, List.mem_flatMap]
  rintro ⟨c, hc, hmem⟩
  exact h.writes_not_mem_reads d hc hmem

/-- The label of a clip is among those that the mix reads, once. -/
theorem count_mix_clip {c : Chain} (hc : c ∈ clips) (gain : String) :
    (Chain.mix clips.length gain).reads.count c.writes = 1 := by
  show List.count c.writes ((List.range clips.length).map clipLabel) = 1
  rw [← h.writes_eq]
  exact List.count_eq_one_of_mem h.nodup_writes (List.mem_map_of_mem hc)

end AreNumbered

/-- The mix reads no label but those of clips. -/
theorem Chain.not_mem_reads_mix {label : String} (h : ∀ index, clipLabel index ≠ label) (n : Nat)
    (gain : String) : label ∉ (Chain.mix n gain).reads := by
  intro hmem
  obtain ⟨index, _, hi⟩ := List.mem_map.mp hmem
  exact h index hi

/-- Links in which what is written is used once have one unread label, the result. -/
theorem IsWired.of_used_once {chains : List Chain} {last : Chain} (hlast : last ∈ chains)
    (writes_nodup : (chains.map Chain.writes).Nodup)
    (used_once : ∀ c ∈ chains, (chains.flatMap Chain.reads).count c.writes +
      (if c.writes = last.writes then 1 else 0) = 1)
    (not_read_before : chains.Pairwise fun earlier later => later.writes ∉ earlier.reads)
    (not_read_itself : ∀ c ∈ chains, c.writes ∉ c.reads) :
    IsWired (chains.map Chain.link) (Chain.bracketed last.writes) := by
  have hreads : (chains.map Chain.link).flatMap Link.reads = chains.flatMap Chain.reads := by
    rw [List.flatMap_map]
    rfl
  have htarget : ∀ label, Chain.bracketed last.writes = Chain.bracketed label ↔
      label = last.writes :=
    fun label => ⟨fun h => (Chain.bracketed_injective h).symm, fun h => h ▸ rfl⟩
  constructor
  case writes_nodup => rw [List.map_map]; exact writes_nodup
  case used_once =>
    intro l hl
    obtain ⟨c, hc, rfl⟩ := List.mem_map.mp hl
    rw [hreads]
    simp only [htarget]
    exact used_once c hc
  case not_read_before => exact List.pairwise_map.mpr not_read_before
  case not_read_itself =>
    intro l hl
    obtain ⟨c, hc, rfl⟩ := List.mem_map.mp hl
    exact not_read_itself c hc
  case target_unread =>
    refine ⟨last.writes, rfl, fun l hl => ?_⟩
    obtain ⟨c, hc, rfl⟩ := List.mem_map.mp hl
    show c.writes ∉ _ ↔ c.writes = last.writes
    have hone := used_once c hc
    rw [hreads, ← List.count_eq_zero]
    split at hone
    · rename_i heq; exact ⟨fun _ => heq, fun _ => by omega⟩
    · rename_i hne; exact ⟨fun _ => by omega, fun heq => absurd heq hne⟩
  case target_written => exact ⟨last.link, List.mem_map_of_mem hlast, rfl⟩

/-- Chains behind those of the clips, which read every clip once and fit together among
themselves, make a wired graph. -/
theorem AreNumbered.isWired_append {clips : List Chain} (h : AreNumbered clips) (tail : List Chain)
    {last : Chain} (hlast : last ∈ tail)
    (hfresh : ∀ d ∈ tail, ∀ index, Chain.clipLabel index ≠ d.writes)
    (hnodup : (tail.map Chain.writes).Nodup)
    (hclips : ∀ c ∈ clips, (tail.flatMap Chain.reads).count c.writes = 1)
    (htail : ∀ d ∈ tail, (tail.flatMap Chain.reads).count d.writes +
      (if d.writes = last.writes then 1 else 0) = 1)
    (hbefore : tail.Pairwise fun earlier later => later.writes ∉ earlier.reads)
    (hself : ∀ d ∈ tail, d.writes ∉ d.reads) :
    IsWired ((clips ++ tail).map Chain.link) (Chain.bracketed last.writes) := by
  have hne : ∀ c ∈ clips, ∀ d ∈ tail, c.writes ≠ d.writes := by
    intro c hc d hd
    obtain ⟨index, _, hw⟩ := h.writes_mem hc
    rw [hw]
    exact hfresh d hd index
  refine IsWired.of_used_once (List.mem_append_right _ hlast) ?_ ?_ ?_ ?_
  · rw [List.map_append, List.nodup_append]
    refine ⟨h.nodup_writes, hnodup, ?_⟩
    intro x hx y hy
    obtain ⟨c, hc, rfl⟩ := List.mem_map.mp hx
    obtain ⟨d, hd, rfl⟩ := List.mem_map.mp hy
    exact hne c hc d hd
  · intro c hc
    rw [List.flatMap_append, List.count_append, h.count_reads c, Nat.zero_add]
    rcases List.mem_append.mp hc with hc | hc
    · rw [hclips c hc, if_neg (hne c hc last hlast)]
    · exact htail c hc
  · rw [List.pairwise_append]
    refine ⟨?_, hbefore, fun c hc d _ => h.writes_not_mem_reads d hc⟩
    exact List.pairwise_of_forall_mem_list fun c hc d _ => h.writes_not_mem_reads d hc
  · intro c hc
    rcases List.mem_append.mp hc with hc | hc
    · exact h.writes_not_mem_reads c hc
    · exact hself c hc

namespace AreNumbered

open Chain

variable {clips : List Chain} (h : AreNumbered clips)
include h

/-- The chains of clips and their mix are wired. -/
theorem isWired_mix (master : String) :
    IsWired ((clips ++ [mix clips.length master]).map Chain.link) (bracketed mixLabel) := by
  have hmix := not_mem_reads_mix clipLabel_ne_mixLabel clips.length master
  have hlast : Chain.mix clips.length master ∈ [Chain.mix clips.length master] :=
    List.mem_cons_self
  refine h.isWired_append _ hlast ?_ ?_ ?_ ?_ ?_ ?_
  · intro d hd
    rw [List.mem_singleton.mp hd]
    exact clipLabel_ne_mixLabel
  · exact List.nodup_singleton _
  · intro c hc
    rw [List.flatMap_singleton]
    exact h.count_mix_clip hc master
  · intro d hd
    rw [List.mem_singleton.mp hd, List.flatMap_singleton, if_pos rfl]
    show List.count mixLabel _ + 1 = 1
    rw [List.count_eq_zero.mpr hmix]
  · exact List.pairwise_singleton _ _
  · intro d hd
    rw [List.mem_singleton.mp hd]
    exact hmix

/-- The chains of clips, their mix and the music are wired. -/
theorem isWired_music (master gain : String) :
    IsWired ((clips ++ [mix clips.length master, musicLoop gain, musicMix]).map Chain.link)
      (bracketed finalLabel) := by
  have hmix := not_mem_reads_mix clipLabel_ne_mixLabel clips.length master
  have hmusic := not_mem_reads_mix clipLabel_ne_musicLabel clips.length master
  have hfinal := not_mem_reads_mix clipLabel_ne_finalLabel clips.length master
  have hreads : [Chain.mix clips.length master, .musicLoop gain, .musicMix].flatMap Chain.reads =
      (Chain.mix clips.length master).reads ++
        [inputLabel InputSlots.musicSlot, mixLabel, musicLabel] := rfl
  have hcount : ∀ label, label ∉ (Chain.mix clips.length master).reads →
      List.count label ((Chain.mix clips.length master).reads ++
        [inputLabel InputSlots.musicSlot, mixLabel, musicLabel]) =
      List.count label [inputLabel InputSlots.musicSlot, mixLabel, musicLabel] := by
    intro label hlabel
    rw [List.count_append, List.count_eq_zero.mpr hlabel, Nat.zero_add]
  have hlast : Chain.musicMix ∈ [Chain.mix clips.length master, .musicLoop gain, .musicMix] := by
    simp
  refine h.isWired_append _ hlast ?_ ?_ ?_ ?_ ?_ ?_
  · simp only [List.forall_mem_cons, List.not_mem_nil, false_implies, implies_true, and_true]
    exact ⟨clipLabel_ne_mixLabel, clipLabel_ne_musicLabel, clipLabel_ne_finalLabel⟩
  · exact (by decide : [mixLabel, musicLabel, finalLabel].Nodup)
  · intro c hc
    obtain ⟨index, _, hw⟩ := h.writes_mem hc
    have hnot : c.writes ∉ [inputLabel InputSlots.musicSlot, mixLabel, musicLabel] := by
      simp only [List.mem_cons, List.not_mem_nil, or_false, not_or]
      exact ⟨c.writes_ne_inputLabel _, hw ▸ clipLabel_ne_mixLabel index,
        hw ▸ clipLabel_ne_musicLabel index⟩
    rw [hreads, List.count_append, h.count_mix_clip hc, List.count_eq_zero.mpr hnot]
  · simp only [List.forall_mem_cons, List.not_mem_nil, false_implies, implies_true, and_true]
    rw [hreads]
    refine ⟨?_, ?_, ?_⟩
    · show List.count mixLabel _ + (if mixLabel = finalLabel then 1 else 0) = 1
      rw [hcount _ hmix]
      decide
    · show List.count musicLabel _ + (if musicLabel = finalLabel then 1 else 0) = 1
      rw [hcount _ hmusic]
      decide
    · show List.count finalLabel _ + (if finalLabel = finalLabel then 1 else 0) = 1
      rw [hcount _ hfinal]
      decide
  · simp only [List.pairwise_cons, List.forall_mem_cons, List.not_mem_nil, false_implies,
      implies_true, and_true, List.Pairwise.nil]
    exact ⟨⟨hmusic, hfinal⟩, (by decide : finalLabel ∉ [inputLabel InputSlots.musicSlot])⟩
  · simp only [List.forall_mem_cons, List.not_mem_nil, false_implies, implies_true, and_true]
    exact ⟨hmix, (by decide : musicLabel ∉ [inputLabel InputSlots.musicSlot]),
      (by decide : finalLabel ∉ [mixLabel, musicLabel])⟩

end AreNumbered

/-- **Labels.** The graph of numbered clip chains is wired, with music and without. -/
theorem FilterGraph.assemble_isWired {clips : List Chain} (h : AreNumbered clips) (master : String)
    (music : Option String) :
    IsWired ((assemble clips master music).chains.map Chain.link)
      (assemble clips master music).target := by
  cases music with
  | none => exact h.isWired_mix master
  | some gain => exact h.isWired_music master gain

end StillVideo
