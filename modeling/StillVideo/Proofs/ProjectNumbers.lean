import StillVideo.Proofs.ProjectCalls
import StillVideo.Proofs.RealBounds

/-!
# The numbers of a project

What a project file gives is checked by comparisons, which a value that is no number passes, and an
infinity may pass too. This file says exactly when the numbers of a validated project make sense
(`ProjectJob.numbers_meaningful_iff`): no volume is such a value, every window and every clip ends
at a finite time, and no length is lost beside the beginning of its window.
-/

namespace StillVideo

/-! ## Clips and timelines -/

namespace Clip

variable (c : Clip)

/-- A window with a finite end begins at a magnitude that it does not fall below; it is empty only
if its length is lost in rounding. -/
theorem trimEnd_finite (h : c.trimEnd.isFinite = true) :
    c.trimIn.isFinite = true ∧ c.duration.isFinite = true ∧
      (c.trimIn.lt c.trimEnd = true ↔ c.trimEnd ≠ c.trimIn) := by
  obtain ⟨s, u, hu, v, hv, r, hr, htrimIn, hs, hduration, hpos, hsum, hur, hvr⟩ :=
    Binary64.add_finite c.trimIn_ok c.duration_ok h
  refine ⟨by rw [htrimIn]; rfl, by rw [hduration]; rfl, ?_⟩
  unfold trimEnd
  rw [hsum, htrimIn]
  cases s with
  | true =>
    have hrpos : 0 < r := Nat.lt_of_lt_of_le hpos hvr
    exact iff_of_true (Binary64.negative_lt_finite _ _ hrpos) (by simp)
  | false =>
    rw [Binary64.finite_lt_finite, decide_eq_true_iff]
    constructor
    · rintro hlt heq
      simp only [Binary64.finite.injEq] at heq
      omega
    · intro hne
      refine Nat.lt_of_le_of_ne hur ?_
      rintro rfl
      exact hne rfl

/-- A clip with a finite start and a length ends at a finite time or never. -/
theorem endTime_finite_or (hstart : c.start.isFinite = true)
    (hduration : c.duration.isFinite = true) :
    c.endTime.isFinite = true ∨ c.endTime = .infinite false := by
  refine Binary64.add_finite_or c.start_ok c.duration_ok ?_ ?_
  · intro h
    rw [h] at hstart
    exact absurd hstart Bool.false_ne_true
  · intro h
    rw [h] at hduration
    exact absurd hduration Bool.false_ne_true

/-- A clip ends at a finite time, or never, or at no time at all. -/
theorem endTime_cases :
    c.endTime = .nan ∨ c.endTime = .infinite false ∨ c.endTime.isFinite = true := by
  by_cases hstart : c.start = .nan
  · left
    unfold endTime
    rw [hstart]
    rfl
  · by_cases hduration : c.duration = .nan
    · left
      unfold endTime
      rw [hduration]
      exact Binary64.add_nan _
    · rcases Binary64.add_finite_or c.start_ok c.duration_ok hstart hduration with h | h
      · exact .inr (.inr h)
      · exact .inr (.inl h)

theorem endTime_pos (h : c.endTime.isFinite = true) : Binary64.lt 0 c.endTime = true := by
  obtain ⟨s, u, hu, v, hv, r, hr, -, -, -, hpos, hsum, -, hvr⟩ :=
    Binary64.add_finite c.start_ok c.duration_ok h
  unfold endTime
  rw [hsum, Binary64.zero_eq, Binary64.zero, Binary64.finite_lt_finite, decide_eq_true_iff]
  omega

/-- The delay of a clip is a natural number. -/
theorem exists_delay {d : Int} (h : wholeOfReal (c.start * 1000) = .ok d) :
    c.start.isFinite = true ∧ ∃ n : Nat, d = n := by
  rw [Binary64.thousand_eq] at h
  obtain ⟨hstart, s, r, hr, hproduct, hs⟩ :=
    Binary64.mul_finite c.start_ok (exists_wholeOfReal_iff.mp ⟨d, h⟩)
  rw [hproduct] at h
  refine ⟨hstart, r / Binary64.one, (Except.ok.inj h).symm.trans ?_⟩
  cases s with
  | true =>
    rw [hs rfl, Nat.zero_div]
    rfl
  | false => rfl

end Clip

namespace Timeline

/-- The time at which the last of some clips ends, or `t` if it is later. -/
def latest (t : Binary64) (clips : List Clip) : Binary64 :=
  clips.foldl (fun total c => if total.lt c.endTime then c.endTime else total) t

variable {t : Binary64} {clips : List Clip}

theorem latest_eq (t : Binary64) (clips : List Clip) :
    latest t clips = t ∨ ∃ c ∈ clips, latest t clips = c.endTime := by
  induction clips generalizing t with
  | nil => exact .inl rfl
  | cons c rest ih =>
    have hstep : latest t (c :: rest) = latest (if t.lt c.endTime then c.endTime else t) rest := rfl
    rw [hstep]
    rcases ih (if t.lt c.endTime then c.endTime else t) with h | ⟨d, hd, h⟩
    · rw [h]
      split
      · exact .inr ⟨c, List.mem_cons_self, rfl⟩
      · exact .inl rfl
    · exact .inr ⟨d, List.mem_cons_of_mem _ hd, h⟩

/-- A time lies before the latest one if it lies before one of them. -/
theorem lt_latest_iff (ht : t ≠ .nan) {x : Binary64} :
    x.lt (latest t clips) = true ↔ x.lt t = true ∨ ∃ c ∈ clips, x.lt c.endTime = true := by
  induction clips generalizing t with
  | nil => simp [latest]
  | cons c rest ih =>
    have hstep : latest t (c :: rest) = latest (if t.lt c.endTime then c.endTime else t) rest := rfl
    rw [hstep, List.exists_mem_cons_iff, ← or_assoc]
    cases hlt : t.lt c.endTime with
    | true =>
      rw [if_pos rfl, ih (Binary64.ne_nan_of_lt hlt)]
      refine or_congr_left ⟨.inr, fun h => ?_⟩
      exact h.elim (fun h => Binary64.lt_of_lt_of_lt h hlt) id
    | false =>
      rw [if_neg Bool.false_ne_true, ih ht]
      refine or_congr_left ⟨.inl, fun h => ?_⟩
      exact h.elim id fun h => Binary64.lt_of_not_lt ht h hlt

theorem latest_ne_nan {t : Binary64} (ht : t ≠ .nan) (clips : List Clip) :
    latest t clips ≠ .nan := by
  induction clips generalizing t with
  | nil => exact ht
  | cons c rest ih =>
    refine ih ?_
    dsimp only
    split
    · exact Binary64.ne_nan_of_lt ‹_›
    · exact ht

/-- A timeline has a finite length exactly if none of its clips goes on for ever. -/
theorem isFinite_totalDuration_iff (timeline : Timeline) :
    timeline.totalDuration.isFinite = true ↔
      ∀ c ∈ timeline.clips, c.endTime ≠ .infinite false := by
  have htotal : timeline.totalDuration = latest 0 timeline.clips := rfl
  have hzero := Binary64.ne_nan_of_isFinite Binary64.isFinite_zero
  rw [htotal]
  constructor
  · intro hfinite c hc hinfinite
    have hself : (latest 0 timeline.clips).lt (latest 0 timeline.clips) = true := by
      refine (lt_latest_iff hzero).mpr (.inr ⟨c, hc, ?_⟩)
      rw [hinfinite]
      generalize latest 0 timeline.clips = total at hfinite
      cases total with
      | nan => exact absurd hfinite Bool.false_ne_true
      | infinite => exact absurd hfinite Bool.false_ne_true
      | finite => rfl
    rw [Binary64.not_lt_self] at hself
    exact Bool.false_ne_true hself
  · intro hall
    rcases latest_eq 0 timeline.clips with h | ⟨c, hc, h⟩
    · rw [h]
      exact Binary64.isFinite_zero
    · rcases c.endTime_cases with hnan | hinfinite | hfinite
      · exact absurd (h.trans hnan) (latest_ne_nan hzero _)
      · exact absurd hinfinite (hall c hc)
      · rwa [h]

/-- Of clips that have ends the last one ends at a finite time exactly if all do. -/
theorem totalDuration_meaningful_iff {timeline : Timeline} (hne : timeline.clips ≠ [])
    (hends : ∀ c ∈ timeline.clips, c.endTime.isFinite = true ∨ c.endTime = .infinite false) :
    timeline.totalDuration.isFinite = true ∧ Binary64.lt 0 timeline.totalDuration = true ↔
      ∀ c ∈ timeline.clips, c.endTime.isFinite = true := by
  rw [isFinite_totalDuration_iff]
  constructor
  · rintro ⟨hfinite, -⟩ c hc
    exact (hends c hc).resolve_right (hfinite c hc)
  · intro hall
    obtain ⟨c, hc⟩ := List.exists_mem_of_ne_nil _ hne
    refine ⟨fun d hd hinfinite => ?_, ?_⟩
    · have hfinite := hall d hd
      rw [hinfinite] at hfinite
      exact Bool.false_ne_true hfinite
    · exact (lt_latest_iff (Binary64.ne_nan_of_isFinite Binary64.isFinite_zero)).mpr
        (.inr ⟨c, hc, c.endTime_pos (hall c hc)⟩)

end Timeline

/-! ## Volumes -/

/-- What a volume in a project file can be: a whole number of percents, or some floating number. -/
def Document.IsPercent (d : Document) : Prop :=
  (∃ i : Int, d = .int i ∧ 0 ≤ i ∧ i ≤ 100) ∨ ∃ x, d = .real x

theorem ProjectFile.isPercent_of_readPercent {d d' : Document} {name : String}
    (h : ProjectFile.readPercent d name = .ok d') : d'.IsPercent := by
  unfold ProjectFile.readPercent at h
  split at h
  · exact absurd h (by simp [refuse])
  · rename_i x hnumber
    split at h
    · exact absurd h (by simp [refuse])
    · rename_i hbounds
      obtain rfl := Except.ok.inj h
      unfold ProjectFile.number? at hnumber
      split at hnumber
      · rename_i i
        obtain rfl := Option.some.inj hnumber
        refine .inl ⟨i, rfl, ?_⟩
        have hone := Binary64.one_pos
        simp only [Number.lt, Number.rank, lt_self_iff_false, decide_false, BEq.rfl, Bool.true_and,
          Bool.false_or, zero_mul, Bool.or_eq_true, decide_eq_true_eq, not_or, not_lt] at hbounds
        constructor <;> nlinarith
      · exact .inr ⟨_, rfl⟩
      · exact absurd hnumber (by simp)

theorem realOfInt_ne_nan {i : Int} {x : Binary64} (h : realOfInt i = .ok x) : x ≠ .nan := by
  unfold realOfInt at h
  dsimp only at h
  split at h
  · rename_i hfinite
    obtain rfl := Except.ok.inj h
    intro hnan
    rw [hnan] at hfinite
    exact absurd hfinite Bool.false_ne_true
  · exact absurd h (by simp)

/-- The gain of a volume is from zero to one unless the volume is the value that is no number. -/
theorem isUnit_percentToGain_iff {d : Document} (hd : d.IsPercent)
    {name : String} {gain : Binary64} (h : percentToGain d name = .ok gain) :
    gain.IsUnit ↔ d ≠ .real .nan := by
  obtain ⟨x, hnan, hlow, hhigh, rfl⟩ : ∃ x, (x = .nan ↔ d = .real .nan) ∧ x.lt 0 = false ∧
      Binary64.lt 100 x = false ∧ gain = x / 100 := by
    have hbounds : ∀ x, (if x.lt 0 || Binary64.lt 100 x then refuse (.percent name)
        else .ok (x / 100)) = Except.ok gain →
        x.lt 0 = false ∧ Binary64.lt 100 x = false ∧ gain = x / 100 := by
      intro x hx
      split at hx
      · exact absurd hx (by simp [refuse])
      · rename_i hbounds
        rw [Bool.not_eq_true, Bool.or_eq_false_iff] at hbounds
        exact ⟨hbounds.1, hbounds.2, (Except.ok.inj hx).symm⟩
    rcases hd with ⟨i, rfl, -⟩ | ⟨x, rfl⟩
    · unfold Document.int percentToGain Document.toReal at h
      dsimp only at h
      split at h
      · exact absurd h (by simp [refuse])
      · exact absurd h (by simp [refuse])
      · exact absurd h (by simp)
      · rename_i x hreal
        refine ⟨x, iff_of_false (realOfInt_ne_nan hreal) (by simp), hbounds x h⟩
    · exact ⟨x, by simp [Document.real], hbounds x h⟩
  constructor
  · rintro hunit hd
    rw [hnan.mpr hd, Binary64.nan_div] at hunit
    exact Bool.false_ne_true hunit.1
  · exact fun hne => Binary64.isUnit_div_hundred (mt hnan.mp hne) hlow hhigh

/-! ## Numbers in texts -/

/-- The number that a text of a graph gives. -/
def graphValue? (text : String) : Option Binary64 :=
  (Numeral.read? text.toList).map Binary64.ofNumeral

theorem graphValue?_graphNumber (x : Binary64) :
    graphValue? (graphNumber x) = some x.unsignedZero := x.ofNumeral_read?_graphNumber

theorem Binary64.isFinite_unsignedZero (x : Binary64) : x.unsignedZero.isFinite = x.isFinite := by
  cases x with
  | nan => rfl
  | infinite => rfl
  | finite s u hu =>
    show Binary64.isFinite (if u = 0 then zero else finite s u hu) = true
    split <;> rfl

theorem Binary64.lt_unsignedZero (x y : Binary64) :
    x.unsignedZero.lt y.unsignedZero = x.lt y := by
  unfold lt
  rw [rank_unsignedZero, rank_unsignedZero]

theorem Binary64.unsignedZero_lt (x y : Binary64) : x.unsignedZero.lt y = x.lt y := by
  unfold lt
  rw [rank_unsignedZero]

/-- The numbers of a clip make sense: its window begins at a finite time from zero on and ends at a
later one, its gain is finite and not negative, and its delay is a natural number. -/
structure ClipReading.IsMeaningful (c : ClipReading) : Prop where
  delay : ∃ n : Nat, c.delay = toString n
  gain : ∃ g, graphValue? c.gain = some g ∧ g.isFinite = true ∧ g.lt 0 = false
  window : ∃ a b, graphValue? c.trimStart = some a ∧ graphValue? c.trimEnd = some b ∧
    a.isFinite = true ∧ b.isFinite = true ∧ a.lt 0 = false ∧ a.lt b = true

/-- The texts of a clip make sense exactly if its gain and the end of its window are finite and the
window is not empty. -/
theorem GainedClip.isMeaningful_iff {g : GainedClip} (hgain : g.gain.lt 0 = false) {slot : String}
    {n : Nat} :
    ClipReading.IsMeaningful ⟨slot, graphNumber g.clip.trimIn, graphNumber g.clip.trimEnd,
      graphNumber g.gain, toString n⟩ ↔
      g.gain.isFinite = true ∧ g.clip.trimEnd.isFinite = true ∧ g.clip.trimEnd ≠ g.clip.trimIn := by
  constructor
  · rintro ⟨-, ⟨x, hx, hfinite, -⟩, a, b, ha, hb, -, hfinite', -, hlt⟩
    dsimp only at hx ha hb
    rw [graphValue?_graphNumber] at hx ha hb
    obtain rfl := Option.some.inj hx
    obtain rfl := Option.some.inj ha
    obtain rfl := Option.some.inj hb
    rw [Binary64.isFinite_unsignedZero] at hfinite hfinite'
    rw [Binary64.lt_unsignedZero] at hlt
    exact ⟨hfinite, hfinite', (g.clip.trimEnd_finite hfinite').2.2.mp hlt⟩
  · rintro ⟨hfinite, hend, hne⟩
    obtain ⟨htrimIn, -, hlt⟩ := g.clip.trimEnd_finite hend
    refine ⟨⟨n, rfl⟩, ⟨_, graphValue?_graphNumber _, ?_, ?_⟩, _, _, graphValue?_graphNumber _,
      graphValue?_graphNumber _, ?_, ?_, ?_, ?_⟩
    · rwa [Binary64.isFinite_unsignedZero]
    · rwa [Binary64.unsignedZero_lt]
    · rwa [Binary64.isFinite_unsignedZero]
    · rwa [Binary64.isFinite_unsignedZero]
    · rw [Binary64.unsignedZero_lt]
      exact g.clip.trimIn_ok
    · rw [Binary64.lt_unsignedZero]
      exact hlt.mpr hne

/-- What a clip needs to make sense. -/
structure GainedClip.IsSound (g : GainedClip) : Prop where
  gain : g.gain.isFinite = true
  trimEnd : g.clip.trimEnd.isFinite = true
  length : g.clip.trimEnd ≠ g.clip.trimIn
  endTime : g.clip.endTime.isFinite = true

/-- The numbers of a session make sense: those of each clip, the gains of the mix and of the music,
and the length. -/
structure Session.IsMeaningful (s : Session) (links : List Link) : Prop where
  clip : ∀ k < s.timeline.flatten.length, ∃ l c, links[k]? = some l ∧ l.clip? = some c ∧
    c.IsMeaningful
  mainGain : s.mainGain.IsUnit
  musicGain : ∀ gain, s.musicGain = some gain → gain.IsUnit
  total : s.totalDuration.isFinite = true ∧ Binary64.lt 0 s.totalDuration = true

theorem Timeline.gain_of_mem_flatten {t : Timeline} {g : GainedClip} (hg : g ∈ t.flatten) :
    g.gain.lt 0 = false := by
  obtain ⟨track, -, hg⟩ := List.mem_flatMap.mp hg
  obtain ⟨c, -, rfl⟩ := List.mem_map.mp hg
  exact track.volume_ok

theorem Timeline.clips_eq_map_flatten (t : Timeline) : t.clips = t.flatten.map (·.clip) := by
  unfold clips flatten
  rw [List.map_flatMap]
  simp only [List.map_map]
  refine List.flatMap_congr fun track _ => ?_
  exact (List.map_id _).symm

/-- Each clip of the session starts at a finite time, and its link is read as its numbers, with a
delay that is a natural number. -/
def Session.ReadsClips (s : Session) (links : List Link) : Prop :=
  ∀ k (hk : k < s.timeline.flatten.length), ∃ l slot, ∃ n : Nat, links[k]? = some l ∧
    s.timeline.flatten[k].clip.start.isFinite = true ∧
    l.clip? = some ⟨slot, graphNumber s.timeline.flatten[k].clip.trimIn,
      graphNumber s.timeline.flatten[k].clip.trimEnd, graphNumber s.timeline.flatten[k].gain,
      toString n⟩

namespace Session.ReadsClips

variable {s : Session} {links : List Link}

theorem of_describes {master music : Binary64}
    (h : Describes s.timeline.flatten s.slots master music links) : s.ReadsClips links := by
  intro k hk
  obtain ⟨l, slot, delay, hl, -, -, hdelay, hread⟩ := h.clip k hk
  obtain ⟨hstart, n, rfl⟩ := s.timeline.flatten[k].clip.exists_delay hdelay
  exact ⟨l, _, n, hl, hstart, hread⟩

theorem exists_delay (h : s.ReadsClips links) (k : Nat) (hk : k < s.timeline.flatten.length) :
    ∃ l c, links[k]? = some l ∧ l.clip? = some c ∧ ∃ n : Nat, c.delay = toString n := by
  obtain ⟨l, slot, n, hl, -, hread⟩ := h k hk
  exact ⟨l, _, hl, hread, n, rfl⟩

theorem clips_isMeaningful_iff (h : s.ReadsClips links) :
    (∀ k < s.timeline.flatten.length, ∃ l c, links[k]? = some l ∧ l.clip? = some c ∧
      c.IsMeaningful) ↔ ∀ g ∈ s.timeline.flatten, g.gain.isFinite = true ∧
        g.clip.trimEnd.isFinite = true ∧ g.clip.trimEnd ≠ g.clip.trimIn := by
  constructor
  · intro hall g hg
    obtain ⟨k, hk, rfl⟩ := List.getElem_of_mem hg
    obtain ⟨l, slot, n, hl, -, hread⟩ := h k hk
    obtain ⟨l', c, hl', hread', hc⟩ := hall k hk
    obtain rfl : l = l' := Option.some.inj (hl.symm.trans hl')
    obtain rfl := Option.some.inj (hread.symm.trans hread')
    exact (GainedClip.isMeaningful_iff (Timeline.gain_of_mem_flatten hg)).mp hc
  · intro hall k hk
    obtain ⟨l, slot, n, hl, -, hread⟩ := h k hk
    have hg := List.getElem_mem hk
    exact ⟨l, _, hl, hread,
      (GainedClip.isMeaningful_iff (Timeline.gain_of_mem_flatten hg)).mpr (hall _ hg)⟩

/-- With finite lengths of its clips, the session has a finite length exactly if all clips end. -/
theorem total_isMeaningful_iff (h : s.ReadsClips links) (hne : s.timeline.flatten ≠ [])
    (hdurations : ∀ g ∈ s.timeline.flatten, g.clip.duration.isFinite = true) :
    s.totalDuration.isFinite = true ∧ Binary64.lt 0 s.totalDuration = true ↔
      ∀ g ∈ s.timeline.flatten, g.clip.endTime.isFinite = true := by
  have hclips := s.timeline.clips_eq_map_flatten
  have hends : ∀ c ∈ s.timeline.clips,
      c.endTime.isFinite = true ∨ c.endTime = .infinite false := by
    rw [hclips, List.forall_mem_map]
    intro g hg
    obtain ⟨k, hk, rfl⟩ := List.getElem_of_mem hg
    obtain ⟨l, slot, n, -, hstart, -⟩ := h k hk
    exact Clip.endTime_finite_or _ hstart (hdurations _ hg)
  have hne' : s.timeline.clips ≠ [] := by
    rw [hclips]
    exact mt List.map_eq_nil_iff.mp hne
  refine (Timeline.totalDuration_meaningful_iff hne' hends).trans ?_
  rw [hclips, List.forall_mem_map]

end Session.ReadsClips

namespace SessionBuilder.Builds

variable {b : SessionBuilder} {cwd : String} {image : Document} {timeline : Timeline}
  {o : SessionOptions} {s : Session} (h : b.Builds cwd image timeline o s)
include h

/-- The gain of the music is from zero to one unless there is music whose volume is the value that
is no number. -/
theorem musicGain_isUnit_iff (hmusic : o.musicVolume.IsPercent) :
    (∀ gain, s.musicGain = some gain → gain.IsUnit) ↔
      (o.music.isNull = false → o.musicVolume ≠ .real .nan) := by
  have hgains := h.musicGain
  cases hnull : o.music.isNull with
  | true =>
    rw [hnull, if_pos rfl] at hgains
    rw [hgains]
    simp
  | false =>
    rw [hnull, if_neg Bool.false_ne_true] at hgains
    obtain ⟨gain, hpercent, hgain⟩ := hgains
    have hiff := isUnit_percentToGain_iff hmusic hpercent
    constructor
    · exact fun hall _ => hiff.mp (hall gain hgain)
    · intro hvolume g hg
      obtain rfl := Option.some.inj (hgain.symm.trans hg)
      exact hiff.mpr (hvolume rfl)

theorem hasMusic_of_musicGain {gain : Binary64} (hgain : s.musicGain = some gain) :
    s.slots.hasMusic = true := by
  have hgains := h.musicGain
  rw [h.hasMusic_slots, Bool.not_eq_true']
  by_contra hnull
  rw [if_pos (by simpa using hnull), hgain] at hgains
  exact absurd hgains (by simp)

/-- A session makes sense exactly if each clip is sound and no volume is the value that is no
number. -/
theorem isMeaningful_iff_of_readsClips {links : List Link} (hreads : s.ReadsClips links)
    (hmain : o.mainVolume.IsPercent) (hmusic : o.musicVolume.IsPercent) :
    s.IsMeaningful links ↔ (∀ g ∈ s.timeline.flatten, g.IsSound) ∧
      o.mainVolume ≠ .real .nan ∧ (o.music.isNull = false → o.musicVolume ≠ .real .nan) := by
  have hne : s.timeline.flatten ≠ [] := by
    rw [h.timeline_eq]
    exact Timeline.flatten_ne_nil h.clips
  have hmainGain := isUnit_percentToGain_iff hmain h.mainGain
  have hmusicGain := h.musicGain_isUnit_iff hmusic
  have hclips := hreads.clips_isMeaningful_iff
  constructor
  · intro hall
    have hfinite := hclips.mp hall.clip
    have hdurations : ∀ g ∈ s.timeline.flatten, g.clip.duration.isFinite = true :=
      fun g hg => (g.clip.trimEnd_finite (hfinite g hg).2.1).2.1
    have hends := (hreads.total_isMeaningful_iff hne hdurations).mp hall.total
    refine ⟨fun g hg => ?_, hmainGain.mp hall.mainGain, hmusicGain.mp hall.musicGain⟩
    obtain ⟨hgain, hend, hlength⟩ := hfinite g hg
    exact ⟨hgain, hend, hlength, hends g hg⟩
  · rintro ⟨hsound, hmainVolume, hmusicVolume⟩
    have hdurations : ∀ g ∈ s.timeline.flatten, g.clip.duration.isFinite = true :=
      fun g hg => (g.clip.trimEnd_finite (hsound g hg).trimEnd).2.1
    have hends := (hreads.total_isMeaningful_iff hne hdurations).mpr
      fun g hg => (hsound g hg).endTime
    refine ⟨hclips.mpr fun g hg => ?_, hmainGain.mpr hmainVolume,
      hmusicGain.mpr hmusicVolume, hends⟩
    exact ⟨(hsound g hg).gain, (hsound g hg).trimEnd, (hsound g hg).length⟩

/-- The text of a session is read as links that describe its clips, and says what its numbers
are worth. -/
theorem isMeaningful_iff (hmain : o.mainVolume.IsPercent) (hmusic : o.musicVolume.IsPercent) :
    ∃ links music, FilterGraph.readLinks? s.graph.text = some links ∧
      Describes s.timeline.flatten s.slots s.mainGain music links ∧
      (∀ gain, s.musicGain = some gain → gain = music) ∧
      (∀ k < s.timeline.flatten.length, ∃ l c, links[k]? = some l ∧ l.clip? = some c ∧
        ∃ n : Nat, c.delay = toString n) ∧
      (s.IsMeaningful links ↔ (∀ g ∈ s.timeline.flatten, g.IsSound) ∧
        o.mainVolume ≠ .real .nan ∧ (o.music.isNull = false → o.musicVolume ≠ .real .nan)) := by
  have hne := Timeline.flatten_ne_nil h.clips
  have hgraph := h.graph
  rw [← h.timeline_eq] at hne hgraph
  obtain ⟨master, music, links, hmaster, hmusicGain, -, hread, hdesc, -⟩ :=
    FilterGraph.exists_describes hne hgraph
  obtain rfl : s.mainGain = master := Except.ok.inj hmaster
  have hreads := Session.ReadsClips.of_describes hdesc
  refine ⟨links, music, hread, hdesc, fun gain hgain => ?_, hreads.exists_delay,
    h.isMeaningful_iff_of_readsClips hreads hmain hmusic⟩
  have hok := hmusicGain (h.hasMusic_of_musicGain hgain)
  rw [hgain] at hok
  exact Except.ok.inj hok

end SessionBuilder.Builds

/-! ## Projects -/

/-- What reading a project file has checked: the volumes, and that the frame has a size. -/
structure ProjectFile.Checked (f : ProjectFile) : Prop where
  volume : f.volume.IsPercent
  musicVolume : f.musicVolume.IsPercent
  width_pos : 0 < f.width
  height_pos : 0 < f.height

theorem ProjectFile.readMusic_volume {b : ProjectFile.Base} {d : Document}
    {music : Option String} {volume : Document}
    (h : ProjectFile.readMusic b d = .ok (music, volume)) : volume.IsPercent := by
  have hdefault : (Document.int 30).IsPercent := .inl ⟨30, rfl, by decide, by decide⟩
  unfold readMusic at h
  split at h
  · obtain ⟨-, rfl⟩ := Prod.mk.inj (Except.ok.inj h)
    exact hdefault
  · obtain ⟨path, -, h⟩ := bind_eq_ok_iff.mp h
    obtain ⟨-, rfl⟩ := Prod.mk.inj (Except.ok.inj h)
    exact hdefault
  · dsimp only at h
    split at h
    · exact absurd h (by simp [refuse, bind, Except.bind])
    · obtain ⟨path, -, h⟩ := bind_eq_ok_iff.mp h
      obtain ⟨d, hd, h⟩ := bind_eq_ok_iff.mp h
      obtain ⟨-, rfl⟩ := Prod.mk.inj (Except.ok.inj h)
      exact isPercent_of_readPercent hd
  · exact absurd h (by simp [refuse])

theorem ProjectFile.readResolution_pos {d : Document} {width height : Int}
    (h : ProjectFile.readResolution d = .ok (width, height)) : 0 < width ∧ 0 < height := by
  unfold readResolution at h
  split at h
  · obtain ⟨rfl, rfl⟩ := Prod.mk.inj (Except.ok.inj h)
    decide
  · obtain ⟨w, -, h⟩ := bind_eq_ok_iff.mp h
    obtain ⟨w', -, h⟩ := bind_eq_ok_iff.mp h
    split at h
    · exact absurd h (by simp [refuse])
    · rename_i hpos
      obtain ⟨rfl, rfl⟩ := Prod.mk.inj (Except.ok.inj h)
      omega
  · exact absurd h (by simp [refuse])

theorem ProjectFile.checked_of_ofDocument {path : String} {b : ProjectFile.Base}
    {override d : Document} {f : ProjectFile}
    (h : ProjectFile.ofDocument path b override d = .ok f) : f.Checked := by
  unfold ofDocument at h
  split at h
  · simp only [bind_eq_ok_iff] at h
    obtain ⟨_, -, ⟨image, colour⟩, -, fit, -, ⟨width, height⟩, hsize, volume, hvolume,
      ⟨music, musicVolume⟩, hmusic, timeline, -, ⟨directory, name⟩, -, h⟩ := h
    obtain rfl := Except.ok.inj h
    obtain ⟨hwidth, hheight⟩ := readResolution_pos hsize
    exact ⟨isPercent_of_readPercent hvolume, readMusic_volume hmusic, hwidth, hheight⟩
  · exact absurd h (by simp [refuse])

theorem ProjectFile.checked_of_load {file override : Document} {m m' : Machine} {f : ProjectFile}
    (h : ProjectFile.load file override m = (.ok f, m')) : f.Checked := by
  unfold load at h
  obtain ⟨path, m₁, -, h⟩ := Job.bind_eq_ok_iff.mp h
  obtain ⟨_, m₂, -, h⟩ := Job.bind_eq_ok_iff.mp h
  obtain ⟨_, m₃, -, h⟩ := Job.bind_eq_ok_iff.mp h
  split at h
  · obtain ⟨_, m₄, hrefuse, -⟩ := Job.bind_eq_ok_iff.mp h
    exact absurd (Prod.mk.inj hrefuse).1 (by simp)
  · obtain ⟨_, m₄, -, h⟩ := Job.bind_eq_ok_iff.mp h
    obtain ⟨d, m₅, -, h⟩ := Job.bind_eq_ok_iff.mp h
    exact checked_of_ofDocument (Job.ofExcept_eq_ok_iff.mp h).1

/-- A project that has been read has a checked file, and no session yet. -/
theorem Project.checked_of_load {path : Document} {o : ProjectOptions} {m m' : Machine}
    {p : Project} (h : Project.load path o m = (.ok p, m')) :
    p.file.Checked ∧ p.session = none := by
  obtain ⟨file, _, hfile, hp⟩ := Job.bind_eq_ok_iff.mp h
  obtain ⟨rfl, -⟩ := Job.pure_eq_ok_iff.mp hp
  exact ⟨ProjectFile.checked_of_load hfile, rfl⟩

namespace ProjectJob

variable {w w' : Production} {s : Session}

theorem exists_builds_of_buildSession (h : buildSession w = (.ok s, w')) : ∃ b cwd image,
    SessionBuilder.Builds b cwd image w.project.file.timeline w.project.options s := by
  by_cases hclips : w.project.file.timeline.clipCount = 0
  · rw [buildSession_of_clipless hclips] at h
    exact absurd (Prod.mk.inj h).1 (by simp)
  rcases himage : requireImage w with ⟨f | image, w₁⟩
  · rw [buildSession_of_image_error hclips himage] at h
    exact absurd (Prod.mk.inj h).1 (by simp)
  · unfold buildSession at h
    rw [bind_eq, project_eq] at h
    dsimp only at h
    rw [if_neg hclips, bind_of_ok himage, onMachine_eq] at h
    exact ⟨_, _, _, SessionBuilder.builds_of_build (Prod.ext (Prod.mk.inj h).1 rfl)⟩

theorem exists_builds_of_validate (hsession : w.project.session = none)
    (h : validate w = (.ok s, w')) : ∃ b cwd image,
      SessionBuilder.Builds b cwd image w.project.file.timeline w.project.options s := by
  rw [validate_of_none hsession] at h
  rcases hbuild : buildSession w with ⟨f | s', w₁⟩ <;> rw [hbuild] at h
  · exact absurd (Prod.mk.inj h).1 (by simp)
  · obtain rfl := Except.ok.inj (Prod.mk.inj h).1
    exact exists_builds_of_buildSession hbuild

/-- **The numbers of a project.** Whenever a project that has been read is validated, the text of
its graph reads back to links that describe its clips, its gains are those of the text, and every
delay is a natural number. The numbers make sense exactly if each clip is sound and no volume is the
value that is no number. -/
theorem numbers_meaningful_iff {path : Document} {o : ProjectOptions} {m m' : Machine}
    (hload : Project.load path o m = (.ok w.project, m')) (h : validate w = (.ok s, w')) :
    ∃ links music, FilterGraph.readLinks? s.graph.text = some links ∧
      Describes s.timeline.flatten s.slots s.mainGain music links ∧
      (∀ gain, s.musicGain = some gain → gain = music) ∧
      (∀ k < s.timeline.flatten.length, ∃ l c, links[k]? = some l ∧ l.clip? = some c ∧
        ∃ n : Nat, c.delay = toString n) ∧
      (s.IsMeaningful links ↔ (∀ g ∈ s.timeline.flatten, g.IsSound) ∧
        w.project.file.volume ≠ .real .nan ∧
        (w.project.file.music ≠ none → w.project.file.musicVolume ≠ .real .nan)) := by
  obtain ⟨hchecked, hsession⟩ := Project.checked_of_load hload
  obtain ⟨b, cwd, image, hbuilds⟩ := exists_builds_of_validate hsession h
  have hmusic : w.project.options.music.isNull = false ↔ w.project.file.music ≠ none := by
    show (Document.ofText? w.project.file.music).isNull = false ↔ _
    cases w.project.file.music <;> simp [Document.ofText?, Document.isNull]
  rw [← hmusic]
  exact hbuilds.isMeaningful_iff hchecked.volume hchecked.musicVolume

/-- A machine with a project file of one clip under a picture, at a volume. -/
def showAt (volume : Document) : Machine :=
  let clip := Document.mapping [(.text "source", .text "a.mp3"), (.text "duration", .int 1)]
  let track := Document.mapping [(.text "clips", .sequence [clip])]
  { Machine.bare with
    files := [("/show.yaml", .data (.mapping [(.text "stillcast", .int 1),
      (.text "image", .text "c.png"), (.text "volume", volume),
      (.text "tracks", .sequence [track])]))] }

/-- The session of that project, if it is read and validated. -/
def sessionAt? (volume : Document) : Except Fault Session := do
  let p ← (Project.load (.text "/show.yaml") ⟨.null, false, false, .null, .text "ffmpeg"⟩
    (showAt volume)).1
  (validate ⟨showAt volume, p, .standard⟩).1

/-- The project has been read and its validation has given the session. -/
def IsSessionAt (volume : Document) (p : Project) (s : Session) : Prop :=
  ∃ o m' w', Project.load (.text "/show.yaml") o (showAt volume) = (.ok p, m') ∧
    validate ⟨showAt volume, p, .standard⟩ = (.ok s, w')

theorem exists_isSessionAt {volume : Document} (h : (sessionAt? volume).isOk = true) :
    ∃ p s, IsSessionAt volume p s ∧ sessionAt? volume = .ok s := by
  cases hs : sessionAt? volume with
  | error f =>
    rw [hs] at h
    exact absurd h Bool.false_ne_true
  | ok s =>
    obtain ⟨p, hload, hvalidate⟩ := bind_eq_ok_iff.mp hs
    exact ⟨p, s, ⟨_, _, _, Prod.ext hload rfl, Prod.ext hvalidate rfl⟩, rfl⟩

/-- At half the volume the project makes sense exactly if its clip is sound. -/
theorem numbers_meaningful_half : ∃ p s links, IsSessionAt (.int 50) p s ∧
    FilterGraph.readLinks? s.graph.text = some links ∧
    (s.IsMeaningful links ↔ (∀ g ∈ s.timeline.flatten, g.IsSound) ∧
      p.file.volume ≠ .real .nan ∧ (p.file.music ≠ none → p.file.musicVolume ≠ .real .nan)) := by
  have hok : (sessionAt? (.int 50)).isOk = true := by decide +kernel
  obtain ⟨p, s, ⟨o, m', w', hload, hvalidate⟩, -⟩ := exists_isSessionAt hok
  obtain ⟨links, _, hread, -, -, -, hiff⟩ := numbers_meaningful_iff hload hvalidate
  exact ⟨p, s, links, ⟨o, m', w', hload, hvalidate⟩, hread, hiff⟩

/-- A volume that is no number is accepted, and so is the gain that it gives. -/
theorem numbers_meaningless_nan : ∃ p s, IsSessionAt (.real .nan) p s ∧
    s.mainGain.isFinite = false := by
  have hnan : (match sessionAt? (.real .nan) with
      | .ok s => !s.mainGain.isFinite
      | .error _ => false) = true := by decide +kernel
  have hok : (sessionAt? (.real .nan)).isOk = true := by decide +kernel
  obtain ⟨p, s, hsession, hs⟩ := exists_isSessionAt hok
  rw [hs] at hnan
  exact ⟨p, s, hsession, by simpa using hnan⟩

end ProjectJob

end StillVideo
