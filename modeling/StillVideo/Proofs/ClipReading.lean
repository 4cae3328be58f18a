import StillVideo.Project.File
import StillVideo.Proofs.JobSteps

/-!
# What is read of a clip

A clip that has been read comes from one mapping: `ProjectFile.ReadsClip` names its times as they
are written and what becomes of them. Every clip of a timeline has been read in this way
(`ProjectFile.exists_readClip_of_mem`).
-/

namespace StillVideo

/-- The parts of a clip that has been made. -/
theorem Clip.make_eq_ok {source : String} {start duration trimIn : Binary64}
    {trimOut : Option Binary64} {c : Clip} (h : make source start duration trimIn trimOut = .ok c) :
    c.source = source ∧ c.start = start ∧ c.duration = duration ∧ c.trimIn = trimIn ∧
      c.trimOut = trimOut.getD (trimIn + duration) := by
  unfold make at h
  dsimp only at h
  split at h
  · split at h
    · split at h
      · split at h
        · obtain rfl := Except.ok.inj h
          exact ⟨rfl, rfl, rfl, rfl, rfl⟩
        · exact absurd h (by simp [refuse])
      · exact absurd h (by simp [refuse])
    · exact absurd h (by simp [refuse])
  · exact absurd h (by simp [refuse])

theorem Timecode.exact_eq_ok_iff {r : Except DecimalFault Decimal} {d : Decimal} :
    exact r = .ok d ↔ r = .ok d := by
  cases r <;> simp [exact]

namespace ProjectFile

theorem toReal_eq_ok {d : Decimal} {x : Binary64} (h : toReal d = .ok x) :
    d.toBinary? = some x := by
  unfold toReal at h
  split at h
  · rename_i y hy
    rw [hy, Except.ok.inj h]
  · exact absurd h (by simp)

/-- The times of a clip as they are written in its mapping, and what they have become. -/
structure ReadsClip (b : Base) (fields : Fields) (start trimIn duration : Decimal)
    (trimOut : Option Decimal) (c : Clip) : Prop where
  source : b.resolve (Document.field "source" fields) = .ok c.source
  start_read : readTimecode (fieldOr "start" fields (.int 0)) = .ok start
  trimIn_read : readTimecode (fieldOr "trim_in" fields (.int 0)) = .ok trimIn
  trimOut_read : readOptionalTime (Document.field "trim_out" fields) = .ok trimOut
  duration_read : readLength (Document.field "source" fields) (Document.field "duration" fields)
    trimIn trimOut = .ok duration
  start_real : start.toBinary? = some c.start
  trimIn_real : trimIn.toBinary? = some c.trimIn
  duration_real : duration.toBinary? = some c.duration

variable {b : Base} {index : Nat} {d : Document} {c : Clip}

theorem exists_readsClip (h : readClip b index d = .ok c) :
    ∃ fields start trimIn duration trimOut, d = .mapping fields ∧
      ReadsClip b fields start trimIn duration trimOut c := by
  unfold readClip at h
  split at h
  · rename_i fields
    dsimp only at h
    split at h
    · exact absurd h (by simp [refuse, bind, Except.bind])
    · simp only [bind_eq_ok_iff] at h
      obtain ⟨path, hpath, start, hstart, trimIn, hin, trimOut, hout, duration, hduration,
        start', hstart', duration', hduration', trimIn', hin', trimOut', -, hmake⟩ := h
      obtain ⟨rfl, rfl, rfl, rfl, -⟩ := Clip.make_eq_ok hmake
      exact ⟨fields, start, trimIn, duration, trimOut, rfl, hpath, hstart, hin, hout, hduration,
        toReal_eq_ok hstart', toReal_eq_ok hin', toReal_eq_ok hduration'⟩
  · exact absurd h (by simp [refuse])

/-! ## All the clips -/

theorem exists_readClip_of_readClips {items : List Document} {clips : List Clip}
    (h : readClips b index items = .ok clips) (hc : c ∈ clips) :
    ∃ d, readClip b index d = .ok c := by
  unfold readClips at h
  induction items generalizing clips with
  | nil =>
    obtain rfl := Except.ok.inj h
    exact absurd hc List.not_mem_nil
  | cons d items ih =>
    rw [List.mapM_cons] at h
    obtain ⟨clip, hclip, h⟩ := bind_eq_ok_iff.mp h
    obtain ⟨rest, hrest, h⟩ := bind_eq_ok_iff.mp h
    obtain rfl := Except.ok.inj h
    rcases List.mem_cons.mp hc with rfl | hc
    · exact ⟨d.bare, hclip⟩
    · exact ih hrest hc

theorem exists_readClip_of_readTrack {track : Track} (h : readTrack b index d = .ok track)
    (hc : c ∈ track.clips) : ∃ d, readClip b index d = .ok c := by
  unfold readTrack at h
  split at h
  · dsimp only at h
    split at h
    · exact absurd h (by simp [refuse, bind, Except.bind])
    · split at h
      · obtain ⟨clips, hclips, h⟩ := bind_eq_ok_iff.mp h
        unfold Track.make at h
        obtain ⟨v, -, h⟩ := bind_eq_ok_iff.mp h
        split at h
        · obtain rfl := Except.ok.inj h
          exact exists_readClip_of_readClips hclips hc
        · exact absurd h (by simp [refuse])
      · exact absurd h (by simp [refuse])
  · exact absurd h (by simp [refuse])

theorem exists_readClip_of_readTracksFrom {items : List Document} {tracks : List Track}
    {track : Track} (h : readTracksFrom b index items = .ok tracks) (htrack : track ∈ tracks)
    (hc : c ∈ track.clips) : ∃ index d, readClip b index d = .ok c := by
  induction items generalizing index tracks with
  | nil =>
    obtain rfl := Except.ok.inj h
    exact absurd htrack List.not_mem_nil
  | cons d items ih =>
    obtain ⟨first, hfirst, h⟩ := bind_eq_ok_iff.mp h
    obtain ⟨rest, hrest, h⟩ := bind_eq_ok_iff.mp h
    obtain rfl := Except.ok.inj h
    rcases List.mem_cons.mp htrack with rfl | htrack
    · exact ⟨index, exists_readClip_of_readTrack hfirst hc⟩
    · exact ih hrest htrack

/-- Every clip of the tracks has been read from a mapping. -/
theorem exists_readClip_of_mem {timeline : Timeline} (h : readTracks b d = .ok timeline)
    (hc : c ∈ timeline.clips) : ∃ index d, readClip b index d = .ok c := by
  unfold readTracks at h
  split at h
  · obtain ⟨tracks, htracks, h⟩ := bind_eq_ok_iff.mp h
    obtain rfl := Except.ok.inj h
    obtain ⟨track, htrack, hc⟩ := List.mem_flatMap.mp hc
    exact exists_readClip_of_readTracksFrom htracks htrack hc
  · exact absurd h (by simp [refuse])

end ProjectFile

end StillVideo
