import Mathlib.Data.Finset.Card
import Mathlib.Data.Set.Function
import Mathlib.Logic.Relation
import Mathlib.Order.Interval.Set.Defs
import StillVideo.Proofs.GraphText
import StillVideo.Proofs.SlotOrder

/-!
# Slots that stay

The sources of a timeline are collected on a way through its tracks and their clips, in a list and
in a set of what has been seen. What a clip does to a collection is said once: the two stay in
agreement with what has been passed (`Collection.Covers.visit`), and the list only grows at its end
(`Collection.visit_grows`). So, by induction over the clips of the tracks, the slots of a timeline
number its sources from the first slot behind the leading inputs on, and a timeline to which clips
or tracks are appended numbers them alike (`InputSlots.numbers_ofTimeline`).
-/

namespace StillVideo

/-! ## The way through a timeline -/

/-- The sources found on the way, in order, and which they are. -/
structure Collection where
  found : List String
  seen : Finset String

namespace Collection

/-- Nothing has been found. -/
def start : Collection := ⟨[], ∅⟩

/-- A clip is passed; its source is found unless it has been seen. -/
def visit (k : Collection) (c : Clip) : Collection :=
  if c.source ∈ k.seen then k else ⟨k.found ++ [c.source], insert c.source k.seen⟩

/-- The clips of a track are passed. -/
def visitTrack (k : Collection) (track : Track) : Collection := track.clips.foldl visit k

/-- The tracks are passed. -/
def visitTracks (k : Collection) (tracks : List Track) : Collection := tracks.foldl visitTrack k

/-- The list and the set are those of the sources that have been passed. -/
structure Covers (k : Collection) (passed : List String) : Prop where
  found_eq : k.found = firstOccurrences [] passed
  mem_seen : ∀ source, source ∈ k.seen ↔ source ∈ passed

theorem covers_start : start.Covers [] := ⟨rfl, fun source => by simp [start]⟩

variable {k : Collection} {passed : List String}

/-- **A clip.** The list and the set stay in agreement with what has been passed. -/
theorem Covers.visit (h : k.Covers passed) (c : Clip) :
    (k.visit c).Covers (passed ++ [c.source]) := by
  unfold Collection.visit
  by_cases hc : c.source ∈ k.seen
  · have hpassed := (h.mem_seen c.source).mp hc
    rw [if_pos hc]
    refine ⟨?_, fun source => ?_⟩
    · rw [firstOccurrences_concat, if_pos (.inl hpassed), h.found_eq]
    · rw [h.mem_seen, List.mem_append, List.mem_singleton]
      constructor
      · exact .inl
      · rintro (hsource | rfl)
        · exact hsource
        · exact hpassed
  · have hpassed : ¬(c.source ∈ passed ∨ c.source ∈ []) := by
      rw [h.mem_seen] at hc
      simpa using hc
    rw [if_neg hc]
    refine ⟨?_, fun source => ?_⟩
    · rw [firstOccurrences_concat, if_neg hpassed, h.found_eq]
    · rw [Finset.mem_insert, h.mem_seen, List.mem_append, List.mem_singleton, or_comm]

/-- What every step of a way keeps in agreement stays so on the whole way. -/
theorem Covers.foldl {α : Type} {step : Collection → α → Collection} {names : α → List String}
    (hstep : ∀ {k passed} (a : α), k.Covers passed → (step k a).Covers (passed ++ names a))
    (h : k.Covers passed) (as : List α) :
    (as.foldl step k).Covers (passed ++ as.flatMap names) := by
  induction as generalizing k passed with
  | nil => simpa using h
  | cons a as ih =>
    rw [List.foldl_cons, List.flatMap_cons, ← List.append_assoc]
    exact ih (hstep a h)

theorem Covers.visitTrack (h : k.Covers passed) (track : Track) :
    (k.visitTrack track).Covers (passed ++ track.clips.map (·.source)) := by
  have hfold : (k.visitTrack track).Covers (passed ++ track.clips.flatMap fun c => [c.source]) :=
    h.foldl (fun c h => h.visit c) track.clips
  rwa [← List.map_eq_flatMap] at hfold

theorem Covers.visitTracks (h : k.Covers passed) (tracks : List Track) :
    (k.visitTracks tracks).Covers
      (passed ++ tracks.flatMap fun track => track.clips.map (·.source)) :=
  h.foldl (fun track h => h.visitTrack track) tracks

/-- **A clip.** What has been found stays where it is. -/
theorem visit_grows (k : Collection) (c : Clip) : k.found <+: (k.visit c).found := by
  unfold visit
  split_ifs
  · exact List.prefix_refl _
  · exact List.prefix_append _ _

theorem foldl_grows {α : Type} {step : Collection → α → Collection}
    (hstep : ∀ k a, k.found <+: (step k a).found) (k : Collection) (as : List α) :
    k.found <+: (as.foldl step k).found := by
  induction as generalizing k with
  | nil => exact List.prefix_refl _
  | cons a as ih => exact (hstep k a).trans (ih (step k a))

theorem visitTrack_grows (k : Collection) (track : Track) :
    k.found <+: (k.visitTrack track).found :=
  foldl_grows visit_grows k track.clips

theorem visitTracks_grows (k : Collection) (tracks : List Track) :
    k.found <+: (k.visitTracks tracks).found :=
  foldl_grows visitTrack_grows k tracks

end Collection

/-! ## What is found in a timeline -/

namespace Timeline

/-- The sources of the clips of a timeline, one for each clip. -/
def sourceRow (t : Timeline) : List String :=
  t.tracks.flatMap fun track => track.clips.map (·.source)

/-- The sources of the clips of a timeline. -/
def sources (t : Timeline) : Finset String := t.sourceRow.toFinset

/-- What is found on the whole way. -/
def collected (t : Timeline) : List String := (Collection.start.visitTracks t.tracks).found

theorem collected_eq (t : Timeline) : t.collected = firstOccurrences [] t.sourceRow :=
  (Collection.covers_start.visitTracks t.tracks).found_eq

theorem nodup_collected (t : Timeline) : t.collected.Nodup := by
  rw [collected_eq]
  exact nodup_firstOccurrences [] t.sourceRow

theorem mem_collected {t : Timeline} {source : String} :
    source ∈ t.collected ↔ source ∈ t.sources := by
  rw [collected_eq, mem_firstOccurrences, sources, List.mem_toFinset]
  exact and_iff_left List.not_mem_nil

theorem length_collected (t : Timeline) : t.collected.length = t.sources.card := by
  rw [← List.toFinset_card_of_nodup t.nodup_collected]
  congr 1
  ext source
  rw [List.mem_toFinset, mem_collected]

/-- What is found earlier is named earlier. -/
theorem lt_iff_of_collected {t : Timeline} {x y : String} {i j : Nat}
    (hx : t.collected[i]? = some x) (hy : t.collected[j]? = some y) :
    i < j ↔ t.sourceRow.idxOf x < t.sourceRow.idxOf y := by
  have hpairs := pairwise_firstOccurrences [] t.sourceRow
  rw [← collected_eq, List.pairwise_iff_getElem] at hpairs
  obtain ⟨hi, rfl⟩ := List.getElem?_eq_some_iff.mp hx
  obtain ⟨hj, rfl⟩ := List.getElem?_eq_some_iff.mp hy
  refine ⟨hpairs i j hi hj, fun hlt => ?_⟩
  rcases Nat.lt_trichotomy i j with h | rfl | h
  · exact h
  · exact absurd hlt (Nat.lt_irrefl _)
  · exact absurd (hpairs j i hj hi h) (Nat.lt_asymm hlt)

/-- Clips are appended to the last track, or tracks behind it. -/
inductive Appends : Timeline → Timeline → Prop
  | clips (tracks : List Track) (last : Track) (more : List Clip) :
      Appends ⟨tracks ++ [last]⟩ ⟨tracks ++ [{ last with clips := last.clips ++ more }]⟩
  | tracks (tracks more : List Track) : Appends ⟨tracks⟩ ⟨tracks ++ more⟩

/-- **Appending.** What has been found stays where it is. -/
theorem Appends.collected {t t' : Timeline} (h : t.Appends t') : t.collected <+: t'.collected := by
  unfold Timeline.collected Collection.visitTracks
  cases h with
  | clips tracks last more =>
    rw [List.foldl_append, List.foldl_append]
    show (Collection.visitTrack _ last).found <+: (Collection.visitTrack _ _).found
    unfold Collection.visitTrack
    rw [List.foldl_append]
    exact Collection.foldl_grows Collection.visit_grows _ more
  | tracks tracks more =>
    rw [List.foldl_append]
    exact Collection.visitTracks_grows _ more

theorem collected_of_appends {t t' : Timeline} (h : Relation.ReflTransGen Appends t t') :
    t.collected <+: t'.collected := by
  induction h with
  | refl => exact List.prefix_refl _
  | tail _ hstep ih => exact ih.trans hstep.collected

end Timeline

/-! ## Slots of a timeline -/

namespace InputSlots

section

variable (t : Timeline) (hasMusic : Bool)

theorem ofTimeline_eq : ofTimeline t hasMusic = ⟨t.collected.map .text, hasMusic⟩ := by
  rw [Timeline.collected_eq]
  unfold ofTimeline Timeline.clips Timeline.sourceRow
  rw [List.map_flatMap]

theorem nodup_ofTimeline : (ofTimeline t hasMusic).sources.Nodup := by
  rw [ofTimeline_eq]
  exact t.nodup_collected.map fun x y h => Scalar.text.inj h

end

variable {t : Timeline} {hasMusic : Bool}

theorem slotOf_ofTimeline_iff {source : String} {slot : Nat} :
    (ofTimeline t hasMusic).slotOf source = .ok slot ↔
      ∃ i, slot = i + (if hasMusic then 2 else 1) ∧ t.collected[i]? = some source := by
  rw [slotOf_eq_ok_iff (nodup_ofTimeline t hasMusic), ofTimeline_eq]
  unfold base
  simp only [List.getElem?_map, Option.map_eq_some_iff, Scalar.text.injEq, exists_eq_right]

theorem exists_slotOf_ofTimeline_iff (hasMusic : Bool) {source : String} :
    (∃ slot, (ofTimeline t hasMusic).slotOf source = .ok slot) ↔ source ∈ t.sources := by
  rw [exists_slotOf_iff, ofTimeline_eq, ← Timeline.mem_collected]
  exact List.mem_map_of_injective fun x y h => Scalar.text.inj h

/-- Slots number the sources of a timeline, from the first slot behind the leading inputs on. -/
structure Numbers (s : InputSlots) (t : Timeline) (first : Nat) : Prop where
  /-- Every source has one slot, and each of as many slots in a row has one source. -/
  bijection : Set.BijOn s.slotOf t.sources (Except.ok '' Set.Ico first (first + t.sources.card))
  /-- The slots are in the order in which the sources are named first. -/
  in_order : ∀ {x y : String} {m n : Nat}, s.slotOf x = .ok m → s.slotOf y = .ok n →
    (m < n ↔ t.sourceRow.idxOf x < t.sourceRow.idxOf y)
  /-- The sources are listed by their slots. -/
  listed : s.assignment.map (·.2) = List.range' first t.sources.card
  assigned : ∀ source slot, (.text source, slot) ∈ s.assignment ↔ s.slotOf source = .ok slot
  /-- What is no source, and nothing else, has no slot. -/
  unknown : ∀ source, (∃ f, s.slotOf source = .error f ∧ f.kind = .key) ↔ source ∉ t.sources

theorem bijOn_slotOf : Set.BijOn (ofTimeline t hasMusic).slotOf t.sources
    (Except.ok '' Set.Ico (if hasMusic then 2 else 1)
      ((if hasMusic then 2 else 1) + t.sources.card)) := by
  generalize hfirst : (if hasMusic then 2 else 1) = first
  have hslot : ∀ {source slot}, (ofTimeline t hasMusic).slotOf source = .ok slot ↔
      ∃ i, slot = i + first ∧ t.collected[i]? = some source := by
    intro source slot
    rw [slotOf_ofTimeline_iff, hfirst]
  refine ⟨?_, ?_, ?_⟩
  · intro source hsource
    obtain ⟨slot, hok⟩ := (exists_slotOf_ofTimeline_iff hasMusic).mpr hsource
    obtain ⟨i, rfl, hi⟩ := hslot.mp hok
    obtain ⟨hlt, -⟩ := List.getElem?_eq_some_iff.mp hi
    rw [Timeline.length_collected] at hlt
    exact ⟨i + first, ⟨by omega, by omega⟩, hok.symm⟩
  · intro x hx y _ heq
    obtain ⟨slot, hok⟩ := (exists_slotOf_ofTimeline_iff hasMusic).mpr hx
    obtain ⟨i, rfl, hi⟩ := hslot.mp hok
    obtain ⟨j, hj, hj'⟩ := hslot.mp (heq.symm.trans hok)
    obtain rfl : i = j := by omega
    exact Option.some.inj (hi.symm.trans hj')
  · rintro _ ⟨slot, ⟨hlow, hhigh⟩, rfl⟩
    obtain ⟨i, rfl⟩ := Nat.exists_eq_add_of_le' hlow
    have hi : i < t.collected.length := by
      rw [Timeline.length_collected]
      omega
    refine ⟨t.collected[i], ?_, hslot.mpr ⟨i, rfl, List.getElem?_eq_getElem hi⟩⟩
    exact Timeline.mem_collected.mp (List.getElem_mem hi)

theorem mem_assignment_iff {source : String} {slot : Nat} :
    (.text source, slot) ∈ (ofTimeline t hasMusic).assignment ↔
      (ofTimeline t hasMusic).slotOf source = .ok slot := by
  rw [slotOf_eq_ok_iff (nodup_ofTimeline t hasMusic)]
  unfold assignment
  rw [List.mk_mem_zipIdx_iff_le_and_getElem?_sub]
  constructor
  · rintro ⟨hle, hsource⟩
    exact ⟨_, (Nat.sub_add_cancel hle).symm, hsource⟩
  · rintro ⟨i, rfl, hsource⟩
    exact ⟨Nat.le_add_left _ _, by rwa [Nat.add_sub_cancel]⟩

/-- A source keeps its slot. -/
theorem slotOf_of_appends {t' : Timeline} (h : Relation.ReflTransGen Timeline.Appends t t')
    {source : String} (hsource : source ∈ t.sources) :
    (ofTimeline t' hasMusic).slotOf source = (ofTimeline t hasMusic).slotOf source := by
  obtain ⟨slot, hslot⟩ := (exists_slotOf_ofTimeline_iff hasMusic).mpr hsource
  obtain ⟨i, rfl, hi⟩ := slotOf_ofTimeline_iff.mp hslot
  obtain ⟨hlt, -⟩ := List.getElem?_eq_some_iff.mp hi
  obtain ⟨more, hmore⟩ := Timeline.collected_of_appends h
  rw [hslot, slotOf_ofTimeline_iff]
  refine ⟨i, rfl, ?_⟩
  rw [← hmore, List.getElem?_append_left hlt, hi]

/-- Without a new source the slots are the same. -/
theorem ofTimeline_of_appends {t' : Timeline} (h : Relation.ReflTransGen Timeline.Appends t t')
    (hsources : t'.sources ⊆ t.sources) : ofTimeline t' hasMusic = ofTimeline t hasMusic := by
  have hlength : t'.collected.length ≤ t.collected.length := by
    rw [Timeline.length_collected, Timeline.length_collected]
    exact Finset.card_le_card hsources
  rw [ofTimeline_eq, ofTimeline_eq, (Timeline.collected_of_appends h).eq_of_length_le hlength]

/-- **Slots.** The slots of a timeline number its sources, and what is appended changes none of
them. -/
theorem numbers_ofTimeline (t : Timeline) (hasMusic : Bool) :
    (ofTimeline t hasMusic).Numbers t (if hasMusic then 2 else 1) ∧
      ∀ {t' : Timeline}, Relation.ReflTransGen Timeline.Appends t t' →
        (∀ source ∈ t.sources,
          (ofTimeline t' hasMusic).slotOf source = (ofTimeline t hasMusic).slotOf source) ∧
        (t'.sources ⊆ t.sources → ofTimeline t' hasMusic = ofTimeline t hasMusic) := by
  refine ⟨⟨bijOn_slotOf, ?_, ?_, fun _ _ => mem_assignment_iff, fun source => ?_⟩, fun h =>
    ⟨fun _ => slotOf_of_appends h, ofTimeline_of_appends h⟩⟩
  · intro x y m n hx hy
    obtain ⟨i, rfl, hi⟩ := slotOf_ofTimeline_iff.mp hx
    obtain ⟨j, rfl, hj⟩ := slotOf_ofTimeline_iff.mp hy
    rw [Nat.add_lt_add_iff_right]
    exact Timeline.lt_iff_of_collected hi hj
  · rw [ofTimeline_eq, ← Timeline.length_collected]
    unfold assignment base
    rw [List.zipIdx_map_snd, List.length_map]
  · rw [← exists_slotOf_ofTimeline_iff hasMusic, exists_slotOf_iff]
    constructor
    · rintro ⟨f, h, -⟩
      exact (slotOf_eq_error_iff.mp h).1
    · exact fun h => ⟨_, slotOf_eq_error_iff.mpr ⟨h, rfl⟩, rfl⟩

/-- One clip on one track. -/
def shortTrack : Timeline := ⟨[⟨[Clip.second "b.mp3" 0], 1, Binary64.one_lt_zero⟩]⟩

/-- Its source again and another one behind it. -/
def longTrack : Timeline :=
  ⟨[⟨[Clip.second "b.mp3" 0, Clip.second "b.mp3" 1, Clip.second "a.mp3" 2], 1,
    Binary64.one_lt_zero⟩]⟩

/-- The old source stays where it is, the new one comes behind it. -/
theorem numbers_ofTimeline_longTrack :
    Relation.ReflTransGen Timeline.Appends shortTrack longTrack ∧
      (ofTimeline shortTrack true).slotOf "b.mp3" = .ok 2 ∧
      (ofTimeline longTrack true).slotOf "b.mp3" = .ok 2 ∧
      (ofTimeline longTrack true).slotOf "a.mp3" = .ok 3 := by
  have happends : Relation.ReflTransGen Timeline.Appends shortTrack longTrack :=
    .single (.clips [] _ [Clip.second "b.mp3" 1, Clip.second "a.mp3" 2])
  have hslot : (ofTimeline shortTrack true).slotOf "b.mp3" = .ok 2 :=
    slotOf_ofTimeline_iff.mpr ⟨0, rfl, by decide⟩
  have hnew : (ofTimeline longTrack true).slotOf "a.mp3" = .ok 3 :=
    slotOf_ofTimeline_iff.mpr ⟨1, rfl, by decide⟩
  have hkept := ((numbers_ofTimeline shortTrack true).2 happends).1 "b.mp3" (by decide)
  exact ⟨happends, hslot, hkept.trans hslot, hnew⟩

end InputSlots

end StillVideo
