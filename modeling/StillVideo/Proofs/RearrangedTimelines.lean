import StillVideo.Proofs.ProjectNumbers

/-!
# Timelines with the same clips

Two timelines may place the same clips on other tracks and in another order
(`Timeline.Rearranges`). The inputs of the encoder are then numbered differently, and so are the
labels of the graph. `Timeline.rearranged_graphs`: nothing else changes. The timelines have one
length, one is compiled exactly if the other is, and with each input named by its source the graphs
say the same of the same clips, under one mix and one music.
-/

namespace StillVideo

/-! ## Signs of zeros

Numbers that compare as equal differ in the sign of a zero at most. -/

namespace Binary64

variable {x y : Binary64}

/-- A number is a zero with a sign, or it has no such sign to lose. -/
theorem unsignedZero_cases (x : Binary64) :
    x.unsignedZero = x ∨ ∃ s h, x = finite s 0 h ∧ x.unsignedZero = zero := by
  cases x with
  | nan => exact .inl rfl
  | infinite => exact .inl rfl
  | finite s u hu =>
    rcases Nat.eq_zero_or_pos u with rfl | hpos
    · exact .inr ⟨s, hu, rfl, by rw [unsignedZero, if_pos rfl]⟩
    · exact .inl (if_neg (Nat.ne_of_gt hpos))

theorem unsignedZero_eq_of_rank_eq (h : x.rank = y.rank) : x.unsignedZero = y.unsignedZero := by
  cases x with
  | nan =>
    cases y with
    | nan => rfl
    | infinite t => cases t <;> exact absurd h (by simp [rank])
    | finite t v hv => exact absurd h (by simp [rank])
  | infinite s =>
    cases y with
    | nan => cases s <;> exact absurd h (by simp [rank])
    | infinite t => cases s <;> cases t <;> first | rfl | exact absurd h (by simp [rank])
    | finite t v hv => cases s <;> exact absurd h (by simp [rank])
  | finite s u hu =>
    cases y with
    | nan => exact absurd h (by simp [rank])
    | infinite t => cases t <;> exact absurd h (by simp [rank])
    | finite t v hv =>
      have hunits : signedUnits (finite s u hu) = signedUnits (finite t v hv) := by
        simpa [rank] using h
      have huv : u = v ∧ (u = 0 ∨ s = t) := by
        cases s <;> cases t <;> simp only [signedUnits] at hunits <;> simp <;> omega
      obtain ⟨rfl, rfl | rfl⟩ := huv
      · rfl
      · rfl

/-- What does not see the sign of a zero is the same of equal numbers. -/
theorem congr_of_rank_eq {α : Type} {f : Binary64 → α} (hf : ∀ s h, f (finite s 0 h) = f zero)
    (h : x.rank = y.rank) : f x = f y := by
  have hunsigned : ∀ z, f z = f z.unsignedZero := by
    intro z
    rcases z.unsignedZero_cases with hz | ⟨s, hrep, rfl, hz⟩
    · rw [hz]
    · rw [hz, hf]
  rw [hunsigned x, hunsigned y, unsignedZero_eq_of_rank_eq h]

theorem graphNumber_congr (h : x.rank = y.rank) : graphNumber x = graphNumber y :=
  congr_of_rank_eq (fun s hrep => (graphNumber_zero s hrep).trans
    (graphNumber_zero false representable_zero).symm) h

/-- The sign of a zero is lost in a sum with a length. -/
theorem add_congr_left {d : Binary64} (hd : d.le 0 = false) (h : x.rank = y.rank) :
    x + d = y + d := by
  refine congr_of_rank_eq (f := (· + d)) (fun s hrep => ?_) h
  rcases cases_of_not_le_zero hd with rfl | rfl | ⟨v, hv, rfl, -⟩
  · rfl
  · rfl
  · unfold zero
    rw [finite_add_finite_eq hrep hv fun _ => rfl,
      finite_add_finite_eq representable_zero hv fun _ => rfl]

/-- The sign of a zero is lost in whole milliseconds. -/
theorem delay_congr (h : x.rank = y.rank) : wholeOfReal (x * 1000) = wholeOfReal (y * 1000) := by
  refine congr_of_rank_eq (f := fun x => wholeOfReal (x * 1000)) (fun s hrep => ?_) h
  have hproduct : ∀ s, finite s 0 representable_zero * 1000 = finite s 0 representable_zero := by
    decide +kernel
  have htruncate : ∀ s, (finite s 0 representable_zero).truncate? = some 0 := by decide +kernel
  unfold wholeOfReal zero
  rw [hproduct, hproduct, htruncate, htruncate]

/-- Lengths that compare as equal are equal. -/
theorem eq_of_rank_eq (hx : x.le 0 = false) (h : x.rank = y.rank) : x = y := by
  have hzero : x ≠ zero := by
    rintro rfl
    exact absurd hx (by decide +kernel)
  have hunsigned := unsignedZero_eq_of_rank_eq h
  rcases x.unsignedZero_cases with hx' | ⟨s, hrep, rfl, hx'⟩
  · rw [hx'] at hunsigned
    rcases y.unsignedZero_cases with hy' | ⟨_, _, _, hy'⟩
    · exact hunsigned.trans hy'
    · exact absurd (hunsigned.trans hy') hzero
  · rcases cases_of_not_le_zero hx with hnan | hinf | ⟨v, hv, hfin, hpos⟩
    · exact absurd hnan (by simp)
    · exact absurd hinf (by simp)
    · simp only [finite.injEq] at hfin
      omega

end Binary64

/-! ## Rearranging -/

/-- Two placed clips are equal: their clips are, as clips compare, and their gains are one number,
or both are none. The times of equal clips are numbers. -/
structure GainedClip.Equal (g g' : GainedClip) : Prop where
  clip : g.clip.eq g'.clip = true
  gain : g.gain.rank = g'.gain.rank

/-- Two timelines place equal clips with equal gains, on any tracks and in any order. -/
def Timeline.Rearranges (t t' : Timeline) : Prop :=
  ∃ placed, t.flatten.Perm placed ∧ List.Forall₂ GainedClip.Equal placed t'.flatten

theorem Binary64.eq_iff {x y : Binary64} : x.eq y = true ↔ x ≠ .nan ∧ x.rank = y.rank := by
  unfold eq
  cases hx : x.rank with
  | none =>
    cases x with
    | nan => simp
    | infinite s => cases s <;> exact absurd hx (by simp [rank])
    | finite s u hu => exact absurd hx (by simp [rank])
  | some a =>
    have hne : x ≠ nan := by
      rintro rfl
      exact absurd hx (by simp [rank])
    cases y.rank with
    | none => simp
    | some b => simp [hne]

namespace Clip

variable {c d : Clip}

theorem eq_iff : c.eq d = true ↔ c.source = d.source ∧ c.start.eq d.start = true ∧
    c.duration.eq d.duration = true ∧ c.trimIn.eq d.trimIn = true ∧
      c.trimOut.eq d.trimOut = true := by
  unfold eq
  simp only [Bool.and_eq_true, beq_iff_eq, and_assoc]

/-- Equal clips end together, and so do their windows. -/
theorem ends_eq_of_eq (h : c.eq d = true) : c.endTime = d.endTime ∧ c.trimEnd = d.trimEnd := by
  obtain ⟨-, hstart, hduration, htrimIn, -⟩ := eq_iff.mp h
  have hlength := Binary64.eq_of_rank_eq c.duration_ok (Binary64.eq_iff.mp hduration).2
  unfold endTime trimEnd
  rw [← hlength]
  exact ⟨Binary64.add_congr_left c.duration_ok (Binary64.eq_iff.mp hstart).2,
    Binary64.add_congr_left c.duration_ok (Binary64.eq_iff.mp htrimIn).2⟩

/-- A clip whose times are numbers ends at a time. -/
theorem endTime_ne_nan (hstart : c.start ≠ .nan) (hduration : c.duration ≠ .nan) :
    c.endTime ≠ .nan := by
  rcases Binary64.add_finite_or c.start_ok c.duration_ok hstart hduration with h | h
  · exact Binary64.ne_nan_of_isFinite h
  · unfold endTime
    rw [h]
    simp

/-- A clip that ends at a time ends after zero. -/
theorem zero_lt_endTime (h : c.endTime ≠ .nan) : Binary64.lt 0 c.endTime = true := by
  rcases c.endTime_cases with hend | hend | hend
  · exact absurd hend h
  · rw [hend]
    decide +kernel
  · exact c.endTime_pos hend

end Clip

/-- A timeline rearranges every timeline whose clips are a permutation of its own, if the times of
the clips are numbers. -/
theorem Timeline.Rearranges.of_perm {t t' : Timeline} (h : t.flatten.Perm t'.flatten)
    (hnumbers : ∀ g ∈ t'.flatten, g.clip.eq g.clip = true) : t.Rearranges t' :=
  ⟨t'.flatten, h, List.forall₂_same.mpr fun g hg => ⟨hnumbers g hg, rfl⟩⟩

namespace Timeline.Rearranges

variable {t t' : Timeline} (h : t.Rearranges t')
include h

/-- What equal clips have in common the timelines have up to the order. -/
theorem map_perm {α : Type} {f : GainedClip → α} (hf : ∀ g g', g.Equal g' → f g = f g') :
    (t.flatten.map f).Perm (t'.flatten.map f) := by
  obtain ⟨placed, hperm, hequal⟩ := h
  have hmap : placed.map f = t'.flatten.map f := by
    rw [← List.forall₂_eq_eq_eq, List.forall₂_map_left_iff, List.forall₂_map_right_iff]
    exact hequal.imp hf
  rw [← hmap]
  exact hperm.map f

theorem length_eq : t.flatten.length = t'.flatten.length := by
  have hlength := (h.map_perm (f := fun _ => ()) fun _ _ _ => rfl).length_eq
  rwa [List.length_map, List.length_map] at hlength

theorem flatten_eq_nil_iff : t.flatten = [] ↔ t'.flatten = [] := by
  rw [← List.length_eq_zero_iff, h.length_eq, List.length_eq_zero_iff]

/-- What holds of equal clips alike holds of all clips of both timelines or of neither. -/
theorem forall_iff {p : GainedClip → Prop} (hp : ∀ g g', g.Equal g' → p g = p g') :
    (∀ g ∈ t.flatten, p g) ↔ ∀ g ∈ t'.flatten, p g := by
  calc (∀ g ∈ t.flatten, p g) ↔ ∀ q ∈ t.flatten.map p, q :=
      (List.forall_mem_map (P := fun q => q)).symm
    _ ↔ ∀ q ∈ t'.flatten.map p, q :=
      forall_congr' fun q => imp_congr_left (h.map_perm hp).mem_iff
    _ ↔ ∀ g ∈ t'.flatten, p g := List.forall_mem_map (P := fun q => q)

/-- The ends of the clips are the same. -/
theorem endTime_perm : (t.clips.map Clip.endTime).Perm (t'.clips.map Clip.endTime) := by
  rw [clips_eq_map_flatten, clips_eq_map_flatten, List.map_map, List.map_map]
  exact h.map_perm fun g g' hg => (Clip.ends_eq_of_eq hg.clip).1

theorem endTime_ne_nan {c : Clip} (hc : c ∈ t.clips) : c.endTime ≠ .nan := by
  rw [clips_eq_map_flatten] at hc
  obtain ⟨g, hg, rfl⟩ := List.mem_map.mp hc
  obtain ⟨placed, hperm, hequal⟩ := h
  have hends : ∀ g ∈ placed, g.clip.endTime ≠ .nan := by
    refine ((List.forall₂_and_left (R := GainedClip.Equal) placed t'.flatten).mp
      (hequal.imp fun g g' hg => ?_)).1
    obtain ⟨-, hstart, hduration, -⟩ := Clip.eq_iff.mp hg.clip
    exact ⟨Clip.endTime_ne_nan (Binary64.eq_iff.mp hstart).1 (Binary64.eq_iff.mp hduration).1, hg⟩
  exact hends g (hperm.mem_iff.mp hg)

end Timeline.Rearranges

/-! ## The length -/

namespace Timeline

/-- The length of a timeline is zero, or the end of a clip and greater than zero. -/
theorem totalDuration_cases (t : Timeline) : t.totalDuration = 0 ∨
    (∃ c ∈ t.clips, t.totalDuration = c.endTime) ∧ t.totalDuration.le 0 = false := by
  have hzero := Binary64.ne_nan_of_isFinite Binary64.isFinite_zero
  have hnan : t.totalDuration ≠ .nan := latest_ne_nan hzero t.clips
  rcases latest_eq 0 t.clips with h | ⟨c, hc, h⟩
  · exact .inl h
  · refine .inr ⟨⟨c, hc, h⟩, ?_⟩
    rw [Binary64.le_eq_not_lt hnan hzero]
    change t.totalDuration = c.endTime at h
    rw [h] at hnan ⊢
    rw [c.zero_lt_endTime hnan]
    rfl

/-- No clip ends after the length of its timeline. -/
theorem not_lt_endTime (t : Timeline) {c : Clip} (hc : c ∈ t.clips) :
    t.totalDuration.lt c.endTime = false := by
  by_contra h
  have hself : t.totalDuration.lt t.totalDuration = true :=
    (lt_latest_iff (Binary64.ne_nan_of_isFinite Binary64.isFinite_zero)).mpr
      (.inr ⟨c, hc, Bool.eq_true_of_not_eq_false h⟩)
  rw [Binary64.not_lt_self] at hself
  exact Bool.false_ne_true hself

/-- A time before the length stays so with further ends. -/
theorem lt_totalDuration_of_subset {t t' : Timeline}
    (h : t.clips.map Clip.endTime ⊆ t'.clips.map Clip.endTime) {x : Binary64}
    (hx : x.lt t.totalDuration = true) : x.lt t'.totalDuration = true := by
  have hzero := Binary64.ne_nan_of_isFinite Binary64.isFinite_zero
  refine (lt_latest_iff hzero).mpr (((lt_latest_iff hzero).mp hx).imp_right ?_)
  rintro ⟨c, hc, hend⟩
  obtain ⟨d, hd, heq⟩ := List.mem_map.mp (h (List.mem_map_of_mem hc))
  exact ⟨d, hd, heq ▸ hend⟩

/-- Timelines with the same ends have the same length. -/
theorem totalDuration_eq_of_perm {t t' : Timeline}
    (h : (t.clips.map Clip.endTime).Perm (t'.clips.map Clip.endTime)) :
    t.totalDuration = t'.totalDuration := by
  have hzero := Binary64.ne_nan_of_isFinite Binary64.isFinite_zero
  have hnan : t.totalDuration ≠ .nan := latest_ne_nan hzero t.clips
  have hnan' : t'.totalDuration ≠ .nan := latest_ne_nan hzero t'.clips
  have hlt : ∀ x : Binary64, x.lt t.totalDuration = x.lt t'.totalDuration := fun x =>
    Bool.eq_iff_iff.mpr ⟨lt_totalDuration_of_subset h.subset,
      lt_totalDuration_of_subset h.symm.subset⟩
  have hrank : t.totalDuration.rank = t'.totalDuration.rank := by
    have hle : t.totalDuration.le t'.totalDuration = true := by
      rw [Binary64.le_eq_not_lt hnan hnan', hlt, Binary64.not_lt_self]
      rfl
    unfold Binary64.le at hle
    rw [← hlt, Binary64.not_lt_self, Bool.false_or] at hle
    exact (Binary64.eq_iff.mp hle).2
  rcases t.totalDuration_cases with hfirst | ⟨-, hpos⟩
  · rcases t'.totalDuration_cases with hsecond | ⟨-, hpos⟩
    · rw [hfirst, hsecond]
    · exact (Binary64.eq_of_rank_eq hpos hrank.symm).symm
  · exact Binary64.eq_of_rank_eq hpos hrank

/-- The length is the greatest end of a clip, and zero without clips. -/
theorem isGreatest_totalDuration {t : Timeline} (h : ∀ c ∈ t.clips, c.endTime ≠ .nan) :
    if t.clips = [] then t.totalDuration = 0
    else (∃ c ∈ t.clips, t.totalDuration = c.endTime) ∧
      ∀ c ∈ t.clips, c.endTime.le t.totalDuration = true := by
  have hzero := Binary64.ne_nan_of_isFinite Binary64.isFinite_zero
  have hnan : t.totalDuration ≠ .nan := latest_ne_nan hzero t.clips
  split
  · rename_i hnil
    unfold totalDuration
    rw [hnil]
    rfl
  · rename_i hne
    refine ⟨?_, fun c hc => ?_⟩
    · rcases t.totalDuration_cases with htotal | ⟨hend, -⟩
      · obtain ⟨c, hc⟩ := List.exists_mem_of_ne_nil _ hne
        have hnot := t.not_lt_endTime hc
        rw [htotal, c.zero_lt_endTime (h c hc)] at hnot
        exact absurd hnot.symm Bool.false_ne_true
      · exact hend
    · rw [Binary64.le_eq_not_lt (h c hc) hnan, t.not_lt_endTime hc]
      rfl

end Timeline

/-! ## What graphs say -/

/-- What a graph says of a clip: the source at its input, its window, its gain and its delay. -/
structure PlacedReading where
  source : Scalar
  trimStart : String
  trimEnd : String
  gain : String
  delay : String
  deriving DecidableEq

/-- The source at an input, by the text of its number. -/
def InputSlots.sourceAt? (s : InputSlots) (slot : String) : Option Scalar :=
  (s.assignment.find? fun p => toString p.2 == slot).map (·.1)

namespace PlacedReading

/-- What a link says of a clip, with the source at its input. -/
def read? (s : InputSlots) (l : Link) : Option PlacedReading := do
  let c ← l.clip?
  let source ← s.sourceAt? c.slot
  return ⟨source, c.trimStart, c.trimEnd, c.gain, c.delay⟩

/-- What is to be said of a clip. -/
def ofClip (g : GainedClip) : PlacedReading where
  source := .text g.clip.source
  trimStart := graphNumber g.clip.trimIn
  trimEnd := graphNumber g.clip.trimEnd
  gain := graphNumber g.gain
  delay := match wholeOfReal (g.clip.start * 1000) with
    | .ok delay => toString delay
    | .error _ => ""

/-- The same is to be said of equal clips. -/
theorem ofClip_congr {g g' : GainedClip} (h : g.Equal g') : ofClip g = ofClip g' := by
  obtain ⟨hsource, hstart, -, htrimIn, -⟩ := Clip.eq_iff.mp h.clip
  unfold ofClip
  rw [hsource, (Clip.ends_eq_of_eq h.clip).2, Binary64.graphNumber_congr h.gain,
    Binary64.graphNumber_congr (Binary64.eq_iff.mp htrimIn).2,
    Binary64.delay_congr (Binary64.eq_iff.mp hstart).2]

end PlacedReading

/-- A position in a numbered list is found by the text of its number. -/
theorem find?_zipIdx {α : Type} (xs : List α) (base i : Nat) :
    ((xs.zipIdx base).find? fun p => toString p.2 == toString (i + base)).map (·.1) = xs[i]? := by
  induction xs generalizing base i with
  | nil => rfl
  | cons x xs ih =>
    rw [List.zipIdx_cons]
    cases i with
    | zero => simp
    | succ i =>
      have hne : ¬(toString base == toString (i + 1 + base)) = true := by
        rw [beq_iff_eq]
        intro h
        have := natRepr_inj h
        omega
      rw [List.find?_cons_of_neg (by exact hne), List.getElem?_cons_succ, ← ih (base + 1) i,
        Nat.add_right_comm i 1 base]
      rfl

/-- The source at its slot is the source. -/
theorem InputSlots.sourceAt?_of_slotOf {s : InputSlots} {source : String} {slot : Nat}
    (h : s.slotOf source = .ok slot) : s.sourceAt? (toString slot) = some (.text source) := by
  obtain ⟨i, rfl, hi⟩ := getElem?_of_slotOf h
  rw [← hi]
  exact find?_zipIdx s.sources s.base i

namespace FilterGraph

/-- The empty text has no links. -/
theorem readLinks?_empty_ne (links : List Link) : readLinks? "" ≠ some links := by
  intro hread
  have hnone : compile [] (.ofTimeline ⟨[]⟩ false) .null .null = .ok ⟨[], Chain.mixLabel⟩ := rfl
  exact ne_nil_of_readLinks? hnone hread rfl

/-- The links of a graph, read from its text; the graph of no clips has no text. -/
def readGraph? (text : String) : Option (List Link) :=
  if text = "" then some [] else readLinks? text

/-- The links that say nothing of a single clip: the mix and the music. -/
def otherLinks (links : List Link) : List Link := links.filter fun l => l.clip?.isNone

end FilterGraph

section

variable {clips : List GainedClip} {slots : InputSlots} {master music : Binary64}
  {links : List Link} (h : Describes clips slots master music links)
include h

theorem Describes.read_clip {k : Nat} (hk : k < clips.length) :
    ∃ l, links[k]? = some l ∧ PlacedReading.read? slots l = some (.ofClip clips[k]) := by
  obtain ⟨l, slot, delay, hl, -, hslot, hdelay, hclip⟩ := h.clip k hk
  refine ⟨l, hl, ?_⟩
  unfold PlacedReading.read? PlacedReading.ofClip
  rw [hclip, hdelay]
  dsimp only [Option.bind_eq_bind, Option.bind_some]
  rw [InputSlots.sourceAt?_of_slotOf hslot]
  rfl

theorem Describes.length_lt : clips.length < links.length :=
  (List.getElem?_eq_some_iff.mp h.mix).1

/-- The first links are those of the clips. -/
theorem Describes.forall₂_take :
    List.Forall₂ (fun l g => PlacedReading.read? slots l = some (.ofClip g))
      (links.take clips.length) clips := by
  rw [List.forall₂_iff_get]
  refine ⟨by rw [List.length_take]; exact Nat.min_eq_left (Nat.le_of_lt h.length_lt), ?_⟩
  intro k hk hk'
  obtain ⟨l, hl, hread⟩ := h.read_clip hk'
  have hget : (links.take clips.length)[k]? = some l := by
    rw [List.getElem?_take_of_lt hk', hl]
  rw [List.getElem?_eq_getElem hk] at hget
  obtain rfl := Option.some.inj hget
  exact hread

/-- The other links are those of the mix and of the music. -/
theorem Describes.drop_eq : links.drop clips.length =
    (Chain.mix clips.length (graphNumber master) ::
      FilterGraph.musicChains (if slots.hasMusic then some (graphNumber music) else none)).map
        Chain.link := by
  obtain ⟨hlt, hmix⟩ := List.getElem?_eq_some_iff.mp h.mix
  have hbehind : links.drop (clips.length + 1) =
      (FilterGraph.musicChains (if slots.hasMusic then some (graphNumber music) else none)).map
        Chain.link := by
    cases hmusic : slots.hasMusic with
    | true => exact h.music hmusic
    | false =>
      have hlength := congrArg List.length h.writes
      rw [hmusic] at hlength
      simp only [List.length_map, List.length_append, List.length_range, Bool.false_eq_true,
        if_false, List.length_singleton] at hlength
      exact List.drop_eq_nil_of_le (Nat.le_of_eq hlength)
  rw [List.drop_eq_getElem_cons hlt, hmix, hbehind]
  rfl

end

/-- Elements of which each gives a value are read as these values. -/
theorem filterMap_eq_map {α β γ : Type} {f : α → Option γ} {g : β → γ} {xs : List α} {ys : List β}
    (h : List.Forall₂ (fun x y => f x = some (g y)) xs ys) : xs.filterMap f = ys.map g := by
  induction h with
  | nil => rfl
  | cons hx _ ih => rw [List.filterMap_cons_some hx, ih, List.map_cons]

theorem Link.clip?_of_read? {s : InputSlots} {l : Link} {p : PlacedReading}
    (h : PlacedReading.read? s l = some p) : l.clip?.isNone = false := by
  unfold PlacedReading.read? at h
  cases hclip : l.clip? with
  | none => rw [hclip] at h; exact absurd h (by simp)
  | some c => rfl

theorem Link.clip?_eq_none {l : Link} (h : l.filters.length ≠ 4) : l.clip? = none := by
  unfold clip?
  split
  · rename_i hfilters
    rw [hfilters] at h
    exact absurd rfl h
  · rfl

/-- The mix and the music are no clips. -/
theorem Link.clip?_behind (n : Nat) (master : String) (music : Option String) :
    ∀ l ∈ (Chain.mix n master :: FilterGraph.musicChains music).map Chain.link,
      l.clip? = none := by
  intro l hl
  refine clip?_eq_none ?_
  cases music with
  | none =>
    rw [List.mem_singleton.mp hl]
    exact (by decide : 2 ≠ 4)
  | some gain =>
    simp only [FilterGraph.musicChains, List.map_cons, List.map_nil, List.mem_cons,
      List.not_mem_nil, or_false] at hl
    rcases hl with rfl | rfl | rfl
    · exact (by decide : 2 ≠ 4)
    · exact (by decide : 2 ≠ 4)
    · exact (by decide : 1 ≠ 4)

namespace Describes

variable {clips : List GainedClip} {slots : InputSlots} {master music : Binary64}
  {links : List Link} (h : Describes clips slots master music links)
include h

/-- The links say of the clips what is to be said, in order. -/
theorem filterMap_read : links.filterMap (PlacedReading.read? slots) =
    clips.map PlacedReading.ofClip := by
  rw [← List.take_append_drop clips.length links, List.filterMap_append,
    filterMap_eq_map h.forall₂_take, List.filterMap_eq_nil_iff.mpr, List.append_nil]
  intro l hl
  rw [h.drop_eq] at hl
  unfold PlacedReading.read?
  rw [Link.clip?_behind _ _ _ l hl]
  rfl

theorem otherLinks_eq : FilterGraph.otherLinks links =
    (Chain.mix clips.length (graphNumber master) ::
      FilterGraph.musicChains (if slots.hasMusic then some (graphNumber music) else none)).map
        Chain.link := by
  unfold FilterGraph.otherLinks
  rw [← List.take_append_drop clips.length links, List.filter_append, h.drop_eq,
    List.filter_eq_nil_iff.mpr, List.nil_append, List.filter_eq_self.mpr]
  · intro l hl
    rw [Link.clip?_behind _ _ _ l hl]
    rfl
  · have hclips : ∀ l ∈ links.take clips.length, l.clip?.isNone = false := by
      refine ((List.forall₂_and_left (R := fun _ _ => True) _ clips).mp
        (h.forall₂_take.imp fun l g hread => ?_)).1
      exact ⟨Link.clip?_of_read? hread, trivial⟩
    intro l hl
    rw [hclips l hl]
    exact Bool.false_ne_true

end Describes

/-! ## Two graphs -/

namespace Timeline

/-- The graph of a timeline on its own slots. -/
def compile (t : Timeline) (hasMusic : Bool) (masterGain musicGain : Document) :
    Except Fault FilterGraph :=
  FilterGraph.compile t.flatten (.ofTimeline t hasMusic) masterGain musicGain

/-- Two graphs of `n` clips say the same: of the same clips, the sources at the inputs and not the
numbers of the inputs counted, and in all the other links. -/
structure SaysSame (n : Nat) (slots slots' : InputSlots) (links links' : List Link) : Prop where
  clips : (links.filterMap (PlacedReading.read? slots)).Perm
    (links'.filterMap (PlacedReading.read? slots'))
  count : (links.filterMap (PlacedReading.read? slots)).length = n
  others : FilterGraph.otherLinks links = FilterGraph.otherLinks links'

/-- Every source of a timeline has a slot. -/
theorem mem_sources_of_mem_flatten {t : Timeline} {hasMusic : Bool} {g : GainedClip}
    (hg : g ∈ t.flatten) : .text g.clip.source ∈ (InputSlots.ofTimeline t hasMusic).sources := by
  refine List.mem_map_of_mem (mem_firstOccurrences.mpr ⟨?_, List.not_mem_nil⟩)
  rw [← sources_flatten]
  exact List.mem_map_of_mem (f := (·.clip.source)) hg

/-- When a timeline with clips is compiled: the gains are numbers, and every clip starts at a time
that is finite in milliseconds. -/
theorem exists_compile_iff {t : Timeline} (hne : t.flatten ≠ []) {hasMusic : Bool}
    {masterGain musicGain : Document} :
    (∃ graph, t.compile hasMusic masterGain musicGain = .ok graph) ↔
      (∃ master, masterGain.toReal = .ok master) ∧
      (hasMusic = true → ∃ music, musicGainOf musicGain = .ok music) ∧
      ∀ g ∈ t.flatten, (g.clip.start * 1000).isFinite = true := by
  constructor
  · rintro ⟨graph, h⟩
    obtain ⟨chains, master, music, hchains, hmaster, hmusic, -⟩ :=
      (FilterGraph.compile_eq_ok_iff hne).mp h
    have hstarts := (FilterGraph.exists_clipChains_iff 0).mp
      ⟨chains, FilterGraph.clipChains_eq_ok_iff.mpr hchains⟩
    exact ⟨⟨master, hmaster⟩, fun h => ⟨music, hmusic h⟩, fun g hg => (hstarts g hg).2⟩
  · rintro ⟨⟨master, hmaster⟩, hmusic, hstarts⟩
    obtain ⟨music, hmusic⟩ : ∃ music, hasMusic = true → musicGainOf musicGain = .ok music := by
      cases hasMusic with
      | true => exact (hmusic rfl).imp fun music h _ => h
      | false => exact ⟨1, fun h => absurd h Bool.false_ne_true⟩
    exact (FilterGraph.exists_compile_iff hne hmaster hmusic).mpr fun g hg =>
      ⟨mem_sources_of_mem_flatten hg, hstarts g hg⟩

theorem compile_of_flatten_eq_nil {t : Timeline} (h : t.flatten = []) (hasMusic : Bool)
    (masterGain musicGain : Document) :
    t.compile hasMusic masterGain musicGain = .ok ⟨[], Chain.mixLabel⟩ := by
  unfold compile
  rw [h]
  rfl

/-- What the graph of a timeline with clips says, and the label of its result. -/
theorem reads_of_compile {t : Timeline} (hne : t.flatten ≠ []) {hasMusic : Bool}
    {masterGain musicGain : Document} {graph : FilterGraph}
    (h : t.compile hasMusic masterGain musicGain = .ok graph) : ∃ master music links,
      masterGain.toReal = .ok master ∧ (hasMusic = true → musicGainOf musicGain = .ok music) ∧
      FilterGraph.readGraph? graph.text = some links ∧
      Describes t.flatten (.ofTimeline t hasMusic) master music links ∧
      graph.label = if hasMusic then Chain.finalLabel else Chain.mixLabel := by
  obtain ⟨master, music, links, hmaster, hmusic, -, hread, hd, -⟩ :=
    FilterGraph.exists_describes hne h
  refine ⟨master, music, links, hmaster, hmusic, ?_, hd, ?_⟩
  · unfold FilterGraph.readGraph?
    rw [if_neg, hread]
    intro htext
    rw [htext] at hread
    exact FilterGraph.readLinks?_empty_ne _ hread
  · obtain ⟨chains, _, _, -, -, -, rfl⟩ := (FilterGraph.compile_eq_ok_iff hne).mp h
    cases hasMusic <;> rfl

namespace Rearranges

variable {t t' : Timeline} (h : t.Rearranges t')
include h

/-- One timeline is compiled exactly if the other is. -/
theorem exists_compile_iff (hasMusic : Bool) (masterGain musicGain : Document) :
    (∃ graph, t.compile hasMusic masterGain musicGain = .ok graph) ↔
      ∃ graph, t'.compile hasMusic masterGain musicGain = .ok graph := by
  by_cases hnil : t.flatten = []
  · rw [compile_of_flatten_eq_nil hnil, compile_of_flatten_eq_nil (h.flatten_eq_nil_iff.mp hnil)]
  · rw [Timeline.exists_compile_iff hnil,
      Timeline.exists_compile_iff (mt h.flatten_eq_nil_iff.mpr hnil)]
    refine and_congr_right fun _ => and_congr_right fun _ => h.forall_iff fun g g' hg => ?_
    have hstart := Binary64.delay_congr (Binary64.eq_iff.mp (Clip.eq_iff.mp hg.clip).2.1).2
    rw [← exists_wholeOfReal_iff, hstart, exists_wholeOfReal_iff]

end Rearranges

/-- **Rearranged timelines.** Timelines with equal clips have one length, the greatest end of a
clip. One is compiled exactly if the other is, and on their own slots the graphs say the same: of
the same clips, with the sources at the inputs, and in the mix and the music. -/
theorem rearranged_graphs {t t' : Timeline} (h : t.Rearranges t') (hasMusic : Bool)
    (masterGain musicGain : Document) :
    t.totalDuration = t'.totalDuration ∧
    (if t.clips = [] then t.totalDuration = 0
      else (∃ c ∈ t.clips, t.totalDuration = c.endTime) ∧
        ∀ c ∈ t.clips, c.endTime.le t.totalDuration = true) ∧
    ((∃ graph, t.compile hasMusic masterGain musicGain = .ok graph) ↔
      ∃ graph, t'.compile hasMusic masterGain musicGain = .ok graph) ∧
    ∀ graph graph', t.compile hasMusic masterGain musicGain = .ok graph →
      t'.compile hasMusic masterGain musicGain = .ok graph' →
      graph.target = graph'.target ∧ ∃ links links',
        FilterGraph.readGraph? graph.text = some links ∧
        FilterGraph.readGraph? graph'.text = some links' ∧
        SaysSame t.flatten.length (.ofTimeline t hasMusic) (.ofTimeline t' hasMusic)
          links links' := by
  refine ⟨totalDuration_eq_of_perm h.endTime_perm,
    isGreatest_totalDuration fun c hc => h.endTime_ne_nan hc,
    h.exists_compile_iff hasMusic masterGain musicGain, ?_⟩
  intro graph graph' hgraph hgraph'
  by_cases hnil : t.flatten = []
  · rw [compile_of_flatten_eq_nil hnil] at hgraph
    rw [compile_of_flatten_eq_nil (h.flatten_eq_nil_iff.mp hnil)] at hgraph'
    obtain rfl := Except.ok.inj hgraph
    obtain rfl := Except.ok.inj hgraph'
    exact ⟨rfl, [], [], rfl, rfl, .nil, by rw [hnil]; rfl, rfl⟩
  · obtain ⟨master, music, links, hmaster, hmusic, hread, hd, hlabel⟩ :=
      reads_of_compile hnil hgraph
    obtain ⟨master', music', links', hmaster', hmusic', hread', hd', hlabel'⟩ :=
      reads_of_compile (mt h.flatten_eq_nil_iff.mpr hnil) hgraph'
    refine ⟨by rw [FilterGraph.target, FilterGraph.target, hlabel, hlabel'],
      links, links', hread, hread', ?_, ?_, ?_⟩
    · rw [hd.filterMap_read, hd'.filterMap_read]
      exact h.map_perm fun g g' => PlacedReading.ofClip_congr
    · rw [hd.filterMap_read, List.length_map]
    · obtain rfl : master = master' := Except.ok.inj (hmaster.symm.trans hmaster')
      rw [hd.otherLinks_eq, hd'.otherLinks_eq, h.length_eq]
      cases hasMusic with
      | false => rfl
      | true =>
        obtain rfl : music = music' := Except.ok.inj ((hmusic rfl).symm.trans (hmusic' rfl))
        rfl

/-- The clips of three tracks on two, in another order. -/
def twoTracks : Timeline :=
  ⟨[⟨[Clip.second "b.mp3" 1], 1, Binary64.one_lt_zero⟩,
    ⟨[Clip.second "a.mp3" 2, Clip.second "a.mp3" 0], 1, Binary64.one_lt_zero⟩]⟩

theorem rearranges_twoTracks : SessionBuilder.threeTracks.Rearranges twoTracks := by
  refine .of_perm ?_ (by decide +kernel)
  exact (List.Perm.swap _ _ _).trans (.cons _ (.swap _ _ _))

/-- On the other tracks a source has another input. -/
theorem rearranged_graphs_twoTracks :
    (InputSlots.ofTimeline SessionBuilder.threeTracks true).slot? "a.mp3" = some 2 ∧
    (InputSlots.ofTimeline twoTracks true).slot? "a.mp3" = some 3 ∧
    SessionBuilder.threeTracks.Rearranges twoTracks ∧ ∃ graph graph' links links',
      SessionBuilder.threeTracks.compile true (.real 1) .null = .ok graph ∧
      twoTracks.compile true (.real 1) .null = .ok graph' ∧
      FilterGraph.readGraph? graph.text = some links ∧
      FilterGraph.readGraph? graph'.text = some links' ∧
      SaysSame 3 (.ofTimeline SessionBuilder.threeTracks true) (.ofTimeline twoTracks true)
        links links' := by
  refine ⟨by decide, by decide, rearranges_twoTracks, ?_⟩
  obtain ⟨-, -, hiff, hall⟩ := rearranged_graphs rearranges_twoTracks true (.real 1) .null
  have hgains : (∃ master, (Document.real 1).toReal = .ok master) ∧
      (true = true → ∃ music, musicGainOf .null = .ok music) := ⟨⟨1, rfl⟩, fun _ => ⟨1, rfl⟩⟩
  obtain ⟨graph', hgraph'⟩ := (exists_compile_iff (t := twoTracks) (List.cons_ne_nil _ _)).mpr
    ⟨hgains.1, hgains.2, by decide +kernel⟩
  obtain ⟨graph, hgraph⟩ := hiff.mpr ⟨graph', hgraph'⟩
  obtain ⟨-, links, links', hread, hread', hsame⟩ := hall graph graph' hgraph hgraph'
  exact ⟨graph, graph', links, links', hgraph, hgraph', hread, hread', hsame⟩

end Timeline

end StillVideo
