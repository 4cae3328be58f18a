import Mathlib.Data.List.Forall2
import StillVideo.Proofs.ClipReading

/-!
# Tracks in the order of the document

A timeline that has been read is the one that the document describes: a track for each item, a clip
for each mapping, in order, each clip with the source, the times and the window that its mapping
writes (`ProjectFile.DescribesTimeline`). If the tracks cannot be read, the first track that
describes none decides the fault, and in it the first clip that describes none, unless the track
itself is at fault (`ProjectFile.FaultyTrack`). `ProjectFile.readTracks_outcome`: reading ends in
one of these two ways, and in no other.
-/

namespace StillVideo

section Lists

variable {ε α β : Type} {f : α → Except ε β} {xs : List α}

/-- A list is read as the list of what its elements are read as. -/
theorem mapM_eq_ok_iff {ys : List β} :
    xs.mapM f = .ok ys ↔ List.Forall₂ (fun x y => f x = .ok y) xs ys := by
  induction xs generalizing ys with
  | nil => simp [pure, Except.pure, eq_comm]
  | cons x xs ih =>
    rw [List.mapM_cons, bind_eq_ok_iff, List.forall₂_cons_left_iff]
    refine exists_congr fun y => ?_
    simp only [bind_eq_ok_iff, ih, pure, Except.pure, Except.ok.injEq]
    constructor
    · rintro ⟨hx, ys', hys, rfl⟩
      exact ⟨ys', hx, hys, rfl⟩
    · rintro ⟨ys', hx, hys, rfl⟩
      exact ⟨hx, ys', hys, rfl⟩

/-- If a list cannot be read, the first element that cannot be read is why. -/
theorem mapM_eq_error_iff {e : ε} : xs.mapM f = .error e ↔ ∃ pre bad post ys,
    xs = pre ++ bad :: post ∧ List.Forall₂ (fun x y => f x = .ok y) pre ys ∧
      f bad = .error e := by
  induction xs with
  | nil => simp [pure, Except.pure]
  | cons x xs ih =>
    rw [List.mapM_cons, bind_eq_error_iff]
    constructor
    · rintro (hx | ⟨y, hx, h⟩)
      · exact ⟨[], x, xs, [], rfl, .nil, hx⟩
      · rcases bind_eq_error_iff.mp h with hxs | ⟨ys, -, h⟩
        · obtain ⟨pre, bad, post, ys, rfl, hpre, hbad⟩ := ih.mp hxs
          exact ⟨x :: pre, bad, post, y :: ys, rfl, .cons hx hpre, hbad⟩
        · exact absurd h (by simp [pure, Except.pure])
    · rintro ⟨pre, bad, post, ys, hxs, hpre, hbad⟩
      cases hpre with
      | nil =>
        obtain ⟨rfl, rfl⟩ := List.cons.inj hxs
        exact .inl hbad
      | cons hx hpre =>
        obtain ⟨rfl, rfl⟩ := List.cons.inj hxs
        exact .inr ⟨_, hx, bind_eq_error_iff.mpr
          (.inl (ih.mpr ⟨_, bad, post, _, rfl, hpre, hbad⟩))⟩

end Lists

/-- A clip is made of parts exactly if they are its parts; their conditions hold of every clip. -/
theorem Clip.make_eq_ok_iff {source : String} {start duration trimIn : Binary64}
    {trimOut : Option Binary64} {c : Clip} : make source start duration trimIn trimOut = .ok c ↔
      c.source = source ∧ c.start = start ∧ c.duration = duration ∧ c.trimIn = trimIn ∧
        c.trimOut = trimOut.getD (trimIn + duration) := by
  refine ⟨make_eq_ok, ?_⟩
  rintro ⟨rfl, rfl, rfl, rfl, hout⟩
  unfold make
  simp only [← hout, c.start_ok, c.duration_ok, c.trimIn_ok, c.trimOut_ok, dite_true]

theorem Track.make_eq_ok_iff {clips : List Clip} {t : Track} {d : Document} :
    Track.make clips d = .ok t ↔ t.clips = clips ∧ d.toReal = .ok t.volume := by
  unfold Track.make
  rw [bind_eq_ok_iff]
  constructor
  · rintro ⟨v, hv, h⟩
    split at h
    · obtain rfl := Except.ok.inj h
      exact ⟨rfl, hv⟩
    · exact absurd h (by simp [refuse])
  · rintro ⟨rfl, hv⟩
    exact ⟨t.volume, hv, by rw [dif_pos t.volume_ok]; rfl⟩

theorem Track.make_eq_error_iff {clips : List Clip} {d : Document} {f : Fault} :
    Track.make clips d = .error f ↔ d.toReal = .error f ∨
      ∃ v, d.toReal = .ok v ∧ v.lt 0 ∧ f = .refused .trackVolume := by
  unfold Track.make
  rw [bind_eq_error_iff]
  refine or_congr_right (exists_congr fun v => and_congr_right fun _ => ?_)
  split
  · rename_i h
    simp [h, pure, Except.pure]
  · rename_i h
    simp [h, refuse, eq_comm]

namespace ProjectFile

variable {b : Base} {index : Nat} {d : Document} {fields : Fields} {c : Clip}

/-! ## Clips -/

/-- The exact times that the mapping of a clip writes. The length is what stands under `duration`,
or else the distance of the ends of the window. -/
structure WritesTimes (fields : Fields) (start trimIn duration : Decimal)
    (trimOut : Option Decimal) : Prop where
  start_read : readTimecode (fieldOr "start" fields (.int 0)) = .ok start
  trimIn_read : readTimecode (fieldOr "trim_in" fields (.int 0)) = .ok trimIn
  trimOut_read : if (Document.field "trim_out" fields).isNull then trimOut = none
    else ∃ t, readTimecode (Document.field "trim_out" fields) = .ok t ∧ trimOut = some t
  duration_read : if (Document.field "duration" fields).isNull then
      ∃ t, trimOut = some t ∧ t.sub trimIn = .ok duration
    else readTimecode (Document.field "duration" fields) = .ok duration

/-- The window of a clip ends where it is written, or else behind its length. -/
def WindowEnds (c : Clip) : Option Decimal → Prop
  | some t => t.toBinary? = some c.trimOut
  | none => c.trimOut = c.trimIn + c.duration

/-- A mapping describes a clip: its source is the path that is named, and its times are those that
are written. -/
structure DescribesClip (b : Base) (fields : Fields) (c : Clip) : Prop where
  source_given : (Document.field "source" fields).isNull = false
  source : b.resolve (Document.field "source" fields) = .ok c.source
  times : ∃ start trimIn duration trimOut, WritesTimes fields start trimIn duration trimOut ∧
    start.toBinary? = some c.start ∧ trimIn.toBinary? = some c.trimIn ∧
    duration.toBinary? = some c.duration ∧ WindowEnds c trimOut

theorem toReal_eq_ok_iff {t : Decimal} {x : Binary64} :
    toReal t = .ok x ↔ t.toBinary? = some x := by
  refine ⟨toReal_eq_ok, fun h => ?_⟩
  unfold toReal
  rw [h]

theorem readOptionalTime_eq_ok_iff {trimOut : Option Decimal} :
    readOptionalTime d = .ok trimOut ↔
      if d.isNull then trimOut = none else ∃ t, readTimecode d = .ok t ∧ trimOut = some t := by
  unfold readOptionalTime
  split
  · rw [Except.ok.injEq]
    exact eq_comm
  · rw [map_eq_ok_iff]
    simp only [eq_comm]

theorem readLength_eq_ok_iff {source : Document} {trimIn t : Decimal} {trimOut : Option Decimal} :
    readLength source d trimIn trimOut = .ok t ↔
      if d.isNull then ∃ out, trimOut = some out ∧ out.sub trimIn = .ok t
      else readTimecode d = .ok t := by
  unfold readLength
  cases d.isNull with
  | false => rfl
  | true =>
    rw [if_neg (by simp), if_pos rfl]
    cases trimOut with
    | some out => simp [Timecode.exact_eq_ok_iff]
    | none => simp [bind_eq_ok_iff, refuse]

/-- The end of the window that a clip is made with is its own, or else that of its length. -/
theorem windowEnds_iff {trimOut : Option Decimal} : WindowEnds c trimOut ↔
    ∃ out, trimOut.mapM toReal = .ok out ∧ c.trimOut = out.getD (c.trimIn + c.duration) := by
  cases trimOut with
  | none =>
    exact ⟨fun h => ⟨none, rfl, h⟩, fun ⟨_, hout, h⟩ => by
      obtain rfl := Except.ok.inj hout
      exact h⟩
  | some t =>
    change t.toBinary? = some c.trimOut ↔ _
    simp only [← toReal_eq_ok_iff, Option.mapM_some, map_eq_ok_iff]
    constructor
    · exact fun h => ⟨_, ⟨c.trimOut, h, rfl⟩, rfl⟩
    · rintro ⟨_, ⟨x, hx, rfl⟩, rfl : c.trimOut = x⟩
      exact hx

/-- **Clips.** What is read is exactly the clip that the mapping describes. -/
theorem readClip_eq_ok_iff : readClip b index d = .ok c ↔
    ∃ fields, d = .mapping fields ∧ DescribesClip b fields c := by
  constructor
  · intro h
    unfold readClip at h
    split at h
    · rename_i fields
      dsimp only at h
      split at h
      · exact absurd h (by simp [refuse, bind, Except.bind])
      · rename_i hsource
        simp only [bind_eq_ok_iff] at h
        obtain ⟨path, hpath, start, hstart, trimIn, hin, trimOut, hout, duration, hduration,
          start', hstart', duration', hduration', trimIn', hin', trimOut', hout', hmake⟩ := h
        obtain ⟨rfl, rfl, rfl, rfl, hend⟩ := Clip.make_eq_ok hmake
        exact ⟨fields, rfl, Bool.eq_false_iff.mpr hsource, hpath, start, trimIn, duration, trimOut,
          ⟨hstart, hin, readOptionalTime_eq_ok_iff.mp hout, readLength_eq_ok_iff.mp hduration⟩,
          toReal_eq_ok hstart', toReal_eq_ok hin', toReal_eq_ok hduration',
          windowEnds_iff.mpr ⟨trimOut', hout', hend⟩⟩
    · exact absurd h (by simp [refuse])
  · rintro ⟨fields, rfl, hsource, hpath, start, trimIn, duration, trimOut, hwrites, hstart, hin,
      hduration, hends⟩
    obtain ⟨out, hout, hend⟩ := windowEnds_iff.mp hends
    unfold readClip
    simp only [hsource, Bool.false_eq_true, ↓reduceIte, hpath, hwrites.start_read,
      hwrites.trimIn_read, readOptionalTime_eq_ok_iff.mpr hwrites.trimOut_read,
      readLength_eq_ok_iff.mpr hwrites.duration_read, toReal_eq_ok_iff.mpr hstart,
      toReal_eq_ok_iff.mpr hin, toReal_eq_ok_iff.mpr hduration, hout, ok_bind]
    exact Clip.make_eq_ok_iff.mpr ⟨rfl, rfl, rfl, rfl, hend⟩

/-! ## Tracks -/

/-- The volume that a mapping gives to a track. -/
def volumeField (fields : Fields) : Document := fieldOr "volume" fields (.real 1)

/-- What a mapping lists as the clips of a track. -/
def clipsField (fields : Fields) : Document := (fieldOr "clips" fields (.sequence [])).bare

/-- An item of a list of clips describes a clip. -/
def ItemDescribes (b : Base) (item : Document) (c : Clip) : Prop :=
  ∃ fields, item.bare = .mapping fields ∧ DescribesClip b fields c

/-- A mapping has a volume that is a number and a list of clips. -/
structure HasClips (d : Document) (fields : Fields) (items : List Document) : Prop where
  mapping : d.bare = .mapping fields
  volume_number : number? (volumeField fields) ≠ none
  clips_listed : clipsField fields = .sequence items

/-- An item of the list of tracks describes a track: it has a clip for each item of its list of
clips, in order. -/
def DescribesTrack (b : Base) (d : Document) (t : Track) : Prop :=
  ∃ fields items, HasClips d fields items ∧ List.Forall₂ (ItemDescribes b) items t.clips ∧
    (volumeField fields).toReal = .ok t.volume

/-- An item of the list of tracks describes no track, and the fault that this is. A fault in a clip
comes before one of the value of the volume, and the first clip with a fault counts. -/
inductive FaultyTrack (b : Base) (index : Nat) (d : Document) : Fault → Prop
  | kind (h : ∀ fields, d.bare ≠ .mapping fields) :
    FaultyTrack b index d (.refused (.trackKind index))
  | volumeKind {fields : Fields} (h : d.bare = .mapping fields)
    (hvolume : number? (volumeField fields) = none) :
    FaultyTrack b index d (.refused (.trackVolumeKind index))
  | clipsKind {fields : Fields} (h : d.bare = .mapping fields)
    (hvolume : number? (volumeField fields) ≠ none)
    (hclips : ∀ items, clipsField fields ≠ .sequence items) :
    FaultyTrack b index d (.refused (.trackClipsKind index))
  | clip {fields : Fields} {pre post : List Document} {bad : Document} {clips : List Clip}
    {f : Fault} (h : HasClips d fields (pre ++ bad :: post))
    (hpre : List.Forall₂ (ItemDescribes b) pre clips)
    (hbad : readClip b index bad.bare = .error f) : FaultyTrack b index d f
  | volume {fields : Fields} {items : List Document} {clips : List Clip} {f : Fault}
    (h : HasClips d fields items) (hall : List.Forall₂ (ItemDescribes b) items clips)
    (hvolume : (volumeField fields).toReal = .error f) : FaultyTrack b index d f
  | volumeSign {fields : Fields} {items : List Document} {clips : List Clip} {v : Binary64}
    (h : HasClips d fields items) (hall : List.Forall₂ (ItemDescribes b) items clips)
    (hvolume : (volumeField fields).toReal = .ok v) (hsign : v.lt 0) :
    FaultyTrack b index d (.refused .trackVolume)

theorem readClips_eq_ok_iff {items : List Document} {clips : List Clip} :
    readClips b index items = .ok clips ↔ List.Forall₂ (ItemDescribes b) items clips := by
  unfold readClips
  rw [mapM_eq_ok_iff]
  simp only [readClip_eq_ok_iff]
  rfl

theorem readClips_eq_error_iff {items : List Document} {f : Fault} :
    readClips b index items = .error f ↔ ∃ pre bad post clips, items = pre ++ bad :: post ∧
      List.Forall₂ (ItemDescribes b) pre clips ∧ readClip b index bad.bare = .error f := by
  unfold readClips
  rw [mapM_eq_error_iff]
  simp only [readClip_eq_ok_iff]
  rfl

theorem readTrack_of_ne_mapping (h : ∀ fields, d.bare ≠ .mapping fields) :
    readTrack b index d.bare = refuse (.trackKind index) := by
  unfold readTrack
  split
  · rename_i fields hd
    exact absurd hd (h fields)
  · rfl

theorem readTrack_of_no_number (h : d.bare = .mapping fields)
    (hvolume : number? (volumeField fields) = none) :
    readTrack b index d.bare = refuse (.trackVolumeKind index) := by
  unfold volumeField at hvolume
  rw [h]
  unfold readTrack
  dsimp only
  rw [if_pos (by simpa using hvolume)]
  rfl

/-- A mapping whose volume is a number is read by its clips. -/
theorem readTrack_of_mapping (h : d.bare = .mapping fields)
    (hvolume : number? (volumeField fields) ≠ none) :
    readTrack b index d.bare = match clipsField fields with
      | .sequence items =>
        readClips b index items >>= fun clips => Track.make clips (volumeField fields)
      | _ => refuse (.trackClipsKind index) := by
  unfold volumeField at hvolume
  rw [h]
  unfold readTrack
  dsimp only
  rw [if_neg (by simpa using hvolume)]
  rfl

theorem readTrack_of_no_clips (h : d.bare = .mapping fields)
    (hvolume : number? (volumeField fields) ≠ none)
    (hclips : ∀ items, clipsField fields ≠ .sequence items) :
    readTrack b index d.bare = refuse (.trackClipsKind index) := by
  rw [readTrack_of_mapping h hvolume]
  split
  · rename_i items hitems
    exact absurd hitems (hclips items)
  · rfl

/-- With these the clips are read, and then the volume. -/
theorem HasClips.readTrack_eq {items : List Document} (h : HasClips d fields items) :
    readTrack b index d.bare =
      readClips b index items >>= fun clips => Track.make clips (volumeField fields) := by
  rw [readTrack_of_mapping h.mapping h.volume_number, h.clips_listed]

/-- The item of a track is refused for its kind or that of its parts, or it lists clips. -/
theorem refused_or_hasClips (b : Base) (index : Nat) (d : Document) :
    (∃ r, readTrack b index d.bare = refuse r ∧ FaultyTrack b index d (.refused r)) ∨
      ∃ fields items, HasClips d fields items := by
  by_cases hd : ∃ fields, d.bare = .mapping fields
  · obtain ⟨fields, hd⟩ := hd
    by_cases hvolume : number? (volumeField fields) = none
    · exact .inl ⟨_, readTrack_of_no_number hd hvolume, .volumeKind hd hvolume⟩
    by_cases hclips : ∃ items, clipsField fields = .sequence items
    · obtain ⟨items, hclips⟩ := hclips
      exact .inr ⟨fields, items, hd, hvolume, hclips⟩
    · have hnot := not_exists.mp hclips
      exact .inl ⟨_, readTrack_of_no_clips hd hvolume hnot, .clipsKind hd hvolume hnot⟩
  · have hnot := not_exists.mp hd
    exact .inl ⟨_, readTrack_of_ne_mapping hnot, .kind hnot⟩

/-- The fault of a track whose clips or whose volume cannot be read. -/
theorem faultyTrack_of_clips {items : List Document} {f : Fault} (h : HasClips d fields items)
    (hf : (readClips b index items >>= fun clips => Track.make clips (volumeField fields)) =
      .error f) : FaultyTrack b index d f := by
  rcases bind_eq_error_iff.mp hf with hclips | ⟨clips, hclips, hmake⟩
  · obtain ⟨pre, bad, post, clips, rfl, hpre, hbad⟩ := readClips_eq_error_iff.mp hclips
    exact .clip h hpre hbad
  · have hall := readClips_eq_ok_iff.mp hclips
    rcases Track.make_eq_error_iff.mp hmake with hvalue | ⟨v, hvalue, hsign, rfl⟩
    · exact .volume h hall hvalue
    · exact .volumeSign h hall hvalue hsign

/-- **Tracks.** What is read is exactly the track that the item describes. -/
theorem readTrack_eq_ok_iff {t : Track} :
    readTrack b index d.bare = .ok t ↔ DescribesTrack b d t := by
  constructor
  · intro h
    rcases refused_or_hasClips b index d with ⟨r, hrefuse, -⟩ | ⟨fields, items, hd⟩
    · rw [hrefuse] at h
      exact absurd h (by simp [refuse])
    · rw [hd.readTrack_eq] at h
      obtain ⟨clips, hclips, h⟩ := bind_eq_ok_iff.mp h
      obtain ⟨rfl, hvalue⟩ := Track.make_eq_ok_iff.mp h
      exact ⟨fields, items, hd, readClips_eq_ok_iff.mp hclips, hvalue⟩
  · rintro ⟨fields, items, hd, hclips, hvalue⟩
    rw [hd.readTrack_eq]
    exact bind_eq_ok_iff.mpr ⟨t.clips, readClips_eq_ok_iff.mpr hclips,
      Track.make_eq_ok_iff.mpr ⟨rfl, hvalue⟩⟩

/-- A track cannot be read exactly for the fault that its item is. -/
theorem readTrack_eq_error_iff {f : Fault} :
    readTrack b index d.bare = .error f ↔ FaultyTrack b index d f := by
  constructor
  · intro h
    rcases refused_or_hasClips b index d with ⟨r, hrefuse, hfaulty⟩ | ⟨fields, items, hd⟩
    · rw [hrefuse] at h
      obtain rfl := Except.error.inj h
      exact hfaulty
    · rw [hd.readTrack_eq] at h
      exact faultyTrack_of_clips hd h
  · intro h
    cases h with
    | kind h => exact readTrack_of_ne_mapping h
    | volumeKind h hvolume => exact readTrack_of_no_number h hvolume
    | clipsKind h hvolume hclips => exact readTrack_of_no_clips h hvolume hclips
    | clip h hpre hbad =>
      rw [h.readTrack_eq]
      exact bind_eq_error_iff.mpr (.inl (readClips_eq_error_iff.mpr
        ⟨_, _, _, _, rfl, hpre, hbad⟩))
    | volume h hall hvolume =>
      rw [h.readTrack_eq]
      exact bind_eq_error_iff.mpr (.inr ⟨_, readClips_eq_ok_iff.mpr hall,
        Track.make_eq_error_iff.mpr (.inl hvolume)⟩)
    | volumeSign h hall hvolume hsign =>
      rw [h.readTrack_eq]
      exact bind_eq_error_iff.mpr (.inr ⟨_, readClips_eq_ok_iff.mpr hall,
        Track.make_eq_error_iff.mpr (.inr ⟨_, hvolume, hsign, rfl⟩)⟩)

/-! ## Timelines -/

/-- The clip items of the item of a track, each with the volume of the track. -/
def placedItems (d : Document) : List (Document × Document) :=
  match d.bare with
  | .mapping fields =>
    match clipsField fields with
    | .sequence items => items.map (·, volumeField fields)
    | _ => []
  | _ => []

/-- A list of items describes a timeline: an item for each track, in order, and with it an item for
each clip, in the order in which the timeline places them. -/
structure DescribesTimeline (b : Base) (items : List Document) (t : Timeline) : Prop where
  tracks : List.Forall₂ (DescribesTrack b) items t.tracks
  placed : List.Forall₂ (fun p g => ItemDescribes b p.1 g.clip ∧ p.2.toReal = .ok g.gain)
    (items.flatMap placedItems) t.flatten

theorem placedItems_of_hasClips {items : List Document} (h : HasClips d fields items) :
    placedItems d = items.map (·, volumeField fields) := by
  unfold placedItems
  rw [h.mapping]
  dsimp only
  rw [h.clips_listed]

/-- What describes the tracks describes what they place. -/
theorem describesTimeline_iff {items : List Document} {t : Timeline} :
    DescribesTimeline b items t ↔ List.Forall₂ (DescribesTrack b) items t.tracks := by
  refine ⟨DescribesTimeline.tracks, fun h => ⟨h, ?_⟩⟩
  obtain ⟨tracks⟩ := t
  change List.Forall₂ _ _ tracks at h
  unfold Timeline.flatten
  dsimp only
  induction h with
  | nil => exact .nil
  | cons hd _ ih =>
    obtain ⟨fields, clipItems, hfields, hclips, hvalue⟩ := hd
    rw [List.flatMap_cons, List.flatMap_cons, placedItems_of_hasClips hfields]
    refine List.rel_append ?_ ih
    rw [List.forall₂_map_left_iff, List.forall₂_map_right_iff]
    exact hclips.imp fun _ _ hitem => ⟨hitem, hvalue⟩

theorem readTracksFrom_eq_ok_iff {items : List Document} {tracks : List Track} :
    readTracksFrom b index items = .ok tracks ↔ List.Forall₂ (DescribesTrack b) items tracks := by
  induction items generalizing index tracks with
  | nil => simp [readTracksFrom, eq_comm]
  | cons d items ih =>
    unfold readTracksFrom
    rw [bind_eq_ok_iff, List.forall₂_cons_left_iff]
    refine exists_congr fun t => ?_
    simp only [bind_eq_ok_iff, readTrack_eq_ok_iff, ih, pure, Except.pure, Except.ok.injEq]
    constructor
    · rintro ⟨ht, rest, hrest, rfl⟩
      exact ⟨rest, ht, hrest, rfl⟩
    · rintro ⟨rest, ht, hrest, rfl⟩
      exact ⟨ht, rest, hrest, rfl⟩

/-- The first item that describes no track decides the fault. -/
theorem readTracksFrom_eq_error_iff {items : List Document} {f : Fault} :
    readTracksFrom b index items = .error f ↔ ∃ pre bad post tracks, items = pre ++ bad :: post ∧
      List.Forall₂ (DescribesTrack b) pre tracks ∧ FaultyTrack b (index + pre.length) bad f := by
  induction items generalizing index with
  | nil => simp [readTracksFrom]
  | cons d items ih =>
    unfold readTracksFrom
    rw [bind_eq_error_iff, readTrack_eq_error_iff]
    constructor
    · rintro (hd | ⟨t, ht, h⟩)
      · exact ⟨[], d, items, [], rfl, .nil, hd⟩
      · rcases bind_eq_error_iff.mp h with hrest | ⟨_, -, h⟩
        · obtain ⟨pre, bad, post, tracks, rfl, hpre, hbad⟩ := ih.mp hrest
          refine ⟨d :: pre, bad, post, t :: tracks, rfl, .cons (readTrack_eq_ok_iff.mp ht) hpre, ?_⟩
          rwa [List.length_cons, Nat.add_comm pre.length, ← Nat.add_assoc]
        · exact absurd h (by simp [pure, Except.pure])
    · rintro ⟨pre, bad, post, tracks, hitems, hpre, hbad⟩
      cases hpre with
      | nil =>
        obtain ⟨rfl, rfl⟩ := List.cons.inj hitems
        exact .inl hbad
      | cons ht hpre =>
        obtain ⟨rfl, rfl⟩ := List.cons.inj hitems
        rw [List.length_cons, Nat.add_comm _ 1, ← Nat.add_assoc] at hbad
        exact .inr ⟨_, readTrack_eq_ok_iff.mpr ht, bind_eq_error_iff.mpr
          (.inl (ih.mpr ⟨_, bad, post, _, rfl, hpre, hbad⟩))⟩

theorem readTracks_eq_ok_iff {timeline : Timeline} : readTracks b d = .ok timeline ↔
    ∃ items, d = .sequence items ∧ List.Forall₂ (DescribesTrack b) items timeline.tracks := by
  constructor
  · intro h
    unfold readTracks at h
    split at h
    · rename_i items
      obtain ⟨tracks, htracks, h⟩ := bind_eq_ok_iff.mp h
      obtain rfl := Except.ok.inj h
      exact ⟨items, rfl, readTracksFrom_eq_ok_iff.mp htracks⟩
    · exact absurd h (by simp [refuse])
  · rintro ⟨items, rfl, h⟩
    exact bind_eq_ok_iff.mpr ⟨timeline.tracks, readTracksFrom_eq_ok_iff.mpr h, rfl⟩

theorem readTracks_eq_error_iff {f : Fault} : readTracks b d = .error f ↔
    (∀ items, d ≠ .sequence items) ∧ f = .refused .tracksKind ∨
      ∃ pre bad post tracks, d = .sequence (pre ++ bad :: post) ∧
        List.Forall₂ (DescribesTrack b) pre tracks ∧ FaultyTrack b (1 + pre.length) bad f := by
  unfold readTracks
  split
  · rename_i items
    rw [bind_eq_error_iff, readTracksFrom_eq_error_iff]
    simp [pure, Except.pure]
  · rename_i h
    have hitems : ∀ items, d ≠ .sequence items := h
    simp [hitems, refuse, eq_comm]

/-- **Reading tracks.** The tracks are read exactly if the document lists items that describe a
timeline, and this is the timeline of the project. Otherwise the fault is that of the first item
that describes no track; what follows it does not matter. -/
theorem readTracks_outcome (b : Base) (d : Document) :
    (∀ timeline, readTracks b d = .ok timeline ↔
      ∃ items, d = .sequence items ∧ DescribesTimeline b items timeline) ∧
    (∀ f, readTracks b d = .error f ↔
      (∀ items, d ≠ .sequence items) ∧ f = .refused .tracksKind ∨
        ∃ pre bad post tracks, d = .sequence (pre ++ bad :: post) ∧
          List.Forall₂ (DescribesTrack b) pre tracks ∧ FaultyTrack b (1 + pre.length) bad f) ∧
    ∀ path override fields file, ofDocument path b override (.mapping fields) = .ok file →
      readTracks b (Document.field "tracks" fields).bare = .ok file.timeline := by
  refine ⟨fun timeline => ?_, fun f => ?_, fun path override fields file h => ?_⟩
  · simp only [describesTimeline_iff]
    exact readTracks_eq_ok_iff
  · exact readTracks_eq_error_iff
  · unfold ofDocument at h
    simp only [bind_eq_ok_iff] at h
    obtain ⟨_, -, ⟨_, _⟩, -, _, -, ⟨_, _⟩, -, _, -, ⟨_, _⟩, -, _, htracks, ⟨_, _⟩, -, h⟩ := h
    obtain rfl := Except.ok.inj h
    exact htracks

end ProjectFile

end StillVideo
