import StillVideo.Session
import StillVideo.Proofs.GraphText
import StillVideo.Proofs.JobSteps

/-!
# The inputs of a session
-/

namespace StillVideo

/-! ## Building -/

/-- A session as a builder makes it: what has been checked, and what the session consists of. -/
structure SessionBuilder.Builds (b : SessionBuilder) (cwd : String) (image : Document)
    (timeline : Timeline) (o : SessionOptions) (s : Session) : Prop where
  picture : isPicture image = true
  clips : timeline.clipCount ≠ 0
  mainGain : percentToGain o.mainVolume "main audio volume" = .ok s.mainGain
  musicGain : if o.music.isNull then s.musicGain = none else
    ∃ gain, percentToGain o.musicVolume "background music volume" = .ok gain ∧
      s.musicGain = some gain
  output : outputPath cwd timeline o.outputDirectory o.outputName = .ok s.output
  graph : FilterGraph.compile timeline.flatten s.slots (.real s.mainGain)
    ((s.musicGain.map Document.real).getD .null) = .ok s.graph
  image_eq : s.image = image
  timeline_eq : s.timeline = timeline
  music_eq : s.music = o.music
  slots_eq : s.slots = InputSlots.ofTimeline timeline (!o.music.isNull)
  fitMode_eq : s.fitMode = FitMode.ofValue o.fitMode
  videoFilter_eq : s.videoFilter = s.fitMode.filter b.size

namespace SessionBuilder

variable {b : SessionBuilder} {cwd : String} {image : Document} {timeline : Timeline}
  {o : SessionOptions}

theorem builds_of_prepare {make : Document → Session}
    (h : b.prepare cwd image timeline o = .ok make) (tool : Document) :
    b.Builds cwd image timeline o (make tool) := by
  have hp : isPicture image = true := by
    by_contra hp
    rw [Bool.not_eq_true] at hp
    simp [prepare, hp, refuse, bind, Except.bind] at h
  have hc : timeline.clipCount ≠ 0 := by
    intro hc
    simp [prepare, hp, hc, refuse, bind, Except.bind] at h
  cases hmusic : o.music.isNull with
  | true =>
    simp only [prepare, hp, hc, hmusic, Bool.not_true, Bool.false_eq_true, ↓reduceIte,
      bind_pure_comp, pure_bind, Option.map_none, Option.getD_none, bind_eq_ok_iff,
      map_eq_ok_iff] at h
    obtain ⟨mainGain, hmain, output, hout, graph, hgraph, rfl⟩ := h
    exact {
      picture := hp, clips := hc, mainGain := hmain, output := hout, graph := hgraph
      musicGain := by rw [if_pos hmusic]
      image_eq := rfl, timeline_eq := rfl, music_eq := rfl
      slots_eq := by rw [hmusic]; rfl
      fitMode_eq := rfl, videoFilter_eq := rfl }
  | false =>
    simp only [prepare, hp, hc, hmusic, Bool.not_true, Bool.false_eq_true, ↓reduceIte,
      Bool.not_false, bind_pure_comp, bind_map_left, Option.map_some, Option.getD_some,
      bind_eq_ok_iff, map_eq_ok_iff] at h
    obtain ⟨mainGain, hmain, musicGain, hgain, output, hout, graph, hgraph, rfl⟩ := h
    exact {
      picture := hp, clips := hc, mainGain := hmain, output := hout, graph := hgraph
      musicGain := by rw [if_neg (by simp [hmusic])]; exact ⟨musicGain, hgain, rfl⟩
      image_eq := rfl, timeline_eq := rfl, music_eq := rfl
      slots_eq := by rw [hmusic]; rfl
      fitMode_eq := rfl, videoFilter_eq := rfl }

/-- What can be built is prepared, but for the encoder. -/
theorem prepare_of_builds {s : Session} (h : b.Builds cwd image timeline o s) :
    b.prepare cwd image timeline o = .ok fun tool => { s with tool } := by
  have hsession : ∀ tool, ({ s with tool } : Session) =
      { tool, image, timeline, fitMode := FitMode.ofValue o.fitMode, music := o.music
        mainGain := s.mainGain, musicGain := s.musicGain, output := s.output
        slots := InputSlots.ofTimeline timeline (!o.music.isNull), graph := s.graph
        videoFilter := (FitMode.ofValue o.fitMode).filter b.size } := by
    intro tool
    rw [Session.mk.injEq]
    exact ⟨rfl, h.image_eq, h.timeline_eq, h.fitMode_eq, h.music_eq, rfl, rfl, rfl, h.slots_eq, rfl,
      h.videoFilter_eq.trans (congrArg (FitMode.filter · b.size) h.fitMode_eq)⟩
  have hgraph := h.graph
  have hgain := h.musicGain
  simp only [hsession]
  rw [h.slots_eq] at hgraph
  cases hmusic : o.music.isNull with
  | true =>
    rw [if_pos hmusic] at hgain
    rw [hgain, hmusic, Bool.not_true, Option.map_none, Option.getD_none] at hgraph
    simp only [prepare, h.picture, h.clips, h.mainGain, h.output, hmusic, hgain, hgraph, ok_bind,
      Bool.not_true, Bool.false_eq_true, ↓reduceIte, pure_bind, Option.map_none, Option.getD_none]
    rfl
  | false =>
    rw [if_neg (by simp [hmusic])] at hgain
    obtain ⟨gain, hmusicGain, hgain⟩ := hgain
    rw [hgain, hmusic, Bool.not_false, Option.map_some, Option.getD_some] at hgraph
    simp only [prepare, h.picture, h.clips, h.mainGain, h.output, hmusic, hmusicGain, hgain, hgraph,
      ok_bind, Except.map_ok, Bool.not_true, Bool.not_false, Bool.false_eq_true, ↓reduceIte,
      Option.map_some, Option.getD_some]
    rfl

theorem builds_of_build {m m' : Machine} {s : Session}
    (h : b.build image timeline o m = (.ok s, m')) : b.Builds m.cwd image timeline o s := by
  obtain ⟨_, _, hm, h⟩ := Job.bind_eq_ok_iff.mp h
  obtain ⟨rfl, rfl⟩ := Job.machine_eq_ok_iff.mp hm
  obtain ⟨make, _, hmake, h⟩ := Job.bind_eq_ok_iff.mp h
  obtain ⟨hprepare, rfl⟩ := Job.ofExcept_eq_ok_iff.mp hmake
  obtain ⟨tool, _, _, h⟩ := Job.bind_eq_ok_iff.mp h
  obtain ⟨_, _, _, h⟩ := Job.bind_eq_ok_iff.mp h
  obtain ⟨rfl, -⟩ := Job.pure_eq_ok_iff.mp h
  exact builds_of_prepare hprepare tool

end SessionBuilder

/-! ## Reading arguments -/

/-- The options that take no value. -/
def switches : List String := ["-y", "-shortest"]

/-- The values of an option, as the encoder reads its arguments: a switch stands alone, every other
option stands before its value, and the last argument is the output. -/
def optionValues (option : String) : List Document → List Document
  | name :: value :: rest =>
    if switches.contains name.display then optionValues option (value :: rest)
    else if name.display = option then value :: optionValues option rest
    else optionValues option rest
  | _ => []

/-- Options with their values. -/
def optionList (pairs : List (String × Document)) : List Document :=
  pairs.flatMap fun p => [.text p.1, p.2]

section

variable {option : String}

theorem optionValues_switch {name : String} (h : name ∈ switches) {args : List Document}
    (hne : args ≠ []) : optionValues option (.text name :: args) = optionValues option args := by
  obtain ⟨value, rest, rfl⟩ := List.exists_cons_of_ne_nil hne
  rw [optionValues]
  exact if_pos (List.contains_iff_mem.mpr h)

theorem optionValues_optionList {pairs : List (String × Document)}
    (h : ∀ p ∈ pairs, p.1 ∉ switches) (rest : List Document) :
    optionValues option (optionList pairs ++ rest) =
      (pairs.filter (·.1 = option)).map Prod.snd ++ optionValues option rest := by
  induction pairs with
  | nil => rfl
  | cons p ps ih =>
    have hp : (switches.contains p.1) = false := by
      rw [List.contains_eq_mem, decide_eq_false (h p List.mem_cons_self)]
    have step : optionValues option (.text p.1 :: p.2 :: (optionList ps ++ rest)) =
        if p.1 = option then p.2 :: optionValues option (optionList ps ++ rest)
        else optionValues option (optionList ps ++ rest) := by
      rw [optionValues]
      exact if_neg (by rw [show (Document.text p.1).display = p.1 from rfl, hp]; decide)
    show optionValues option (.text p.1 :: p.2 :: (optionList ps ++ rest)) = _
    rw [step, ih fun q hq => h q (List.mem_cons_of_mem _ hq), List.filter_cons]
    by_cases heq : p.1 = option
    · simp [heq]
    · simp [heq]

end

namespace Session

/-- The options before the switch that ends the video with the sound. -/
def options (s : Session) : List (String × Document) :=
  ("-loop", .text "1") :: s.inputs.map ("-i", ·) ++
    [("-filter_complex", .text s.graph.text), ("-vf", .text s.videoFilter), ("-map", .text "0:v"),
      ("-map", .text s.graph.target), ("-c:v", .text "libx264"), ("-tune", .text "stillimage"),
      ("-c:a", .text "aac"), ("-b:a", .text "192k"), ("-pix_fmt", .text "yuv420p")]

theorem args_eq (s : Session) :
    s.args = s.tool :: .text "-y" :: (optionList s.options ++
      [.text "-shortest", .text "-progress", .text "pipe:1", .text s.output]) := by
  unfold args options inputs inputArguments graphArguments codecArguments
  simp [optionList, List.flatMap_append, List.flatMap_map]

theorem not_mem_switches (s : Session) : ∀ p ∈ s.options, p.1 ∉ switches := by
  intro p hp
  unfold options at hp
  simp only [List.mem_append, List.mem_cons, List.mem_map, List.not_mem_nil, or_false] at hp
  rcases hp with (rfl | ⟨d, _, rfl⟩) | rfl | rfl | rfl | rfl | rfl | rfl | rfl | rfl | rfl <;>
    simp [switches]

/-- An option behind the tool has the values that the list of options gives it. -/
theorem optionValues_args (s : Session) {option : String} (h : option ≠ "-progress") :
    optionValues option s.args.tail = (s.options.filter (·.1 = option)).map Prod.snd := by
  have hne : optionList s.options ++
      [.text "-shortest", .text "-progress", .text "pipe:1", .text s.output] ≠ [] :=
    List.append_ne_nil_of_right_ne_nil _ (List.cons_ne_nil _ _)
  rw [args_eq, List.tail_cons, optionValues_switch (by decide) hne,
    optionValues_optionList s.not_mem_switches, optionValues_switch (by decide) (by simp)]
  have hrest : optionValues option [.text "-progress", .text "pipe:1", .text s.output] = [] := by
    rw [optionValues, if_neg (by decide),
      if_neg (show (Document.text "-progress").display ≠ option from Ne.symm h)]
    rfl
  rw [hrest, List.append_nil]

/-- The inputs are given one by one. -/
theorem optionValues_inputs (s : Session) : optionValues "-i" s.args.tail = s.inputs := by
  rw [s.optionValues_args (by decide)]
  unfold options
  simp [List.filter_map, Function.comp_def]

end Session

/-! ## Agreement -/

open Chain (inputLabel clipLabel mixLabel musicLabel)

/-- The arguments, the inputs and the graph of a session fit together: each option `-i` gives the
next input, each clip reads the input that holds its source, the picture is read by no link, the
music by its loop only, and the remaining inputs are the sources of the clips, each once, in the
order in which they occur. -/
structure Session.Fits (s : Session) (image music : Document) (timeline : Timeline)
    (links : List Link) : Prop where
  inputs_given : optionValues "-i" s.args.tail = s.inputs
  graph_given : optionValues "-filter_complex" s.args.tail = [.text s.graph.text]
  target_given : optionValues "-map" s.args.tail = [.text "0:v", .text s.graph.target]
  graph_read : FilterGraph.readLinks? s.graph.text = some links
  clip_input : ∀ k (hk : k < timeline.flatten.length), ∃ l slot, links[k]? = some l ∧
    l.reads = [inputLabel slot] ∧ slot < s.inputs.length ∧
    s.inputs[slot]? = some (.text timeline.flatten[k].clip.source)
  image_input : s.inputs[0]? = some image
  image_unread : ∀ l ∈ links, inputLabel 0 ∉ l.reads
  music_read : (∃ l ∈ links, l.reads = [inputLabel 1] ∧ l.writes = musicLabel) ↔
    music.isNull = false
  music_input : music.isNull = false → s.inputs[1]? = some music
  sources : ∃ sources : List String,
    s.inputs.drop (if music.isNull then 1 else 2) = sources.map .text ∧
    sources.Nodup ∧ (∀ x, x ∈ sources ↔ ∃ g ∈ timeline.flatten, g.clip.source = x) ∧
    sources.Pairwise fun x y =>
      (timeline.flatten.map (·.clip.source)).idxOf x <
        (timeline.flatten.map (·.clip.source)).idxOf y

theorem Timeline.sources_flatten (t : Timeline) :
    t.flatten.map (·.clip.source) = t.clips.map (·.source) := by
  unfold flatten clips
  rw [List.map_flatMap, List.map_flatMap]
  simp only [List.map_map]
  rfl

theorem Timeline.flatten_ne_nil {t : Timeline} (h : t.clipCount ≠ 0) : t.flatten ≠ [] := by
  intro hnil
  have hlen : t.flatten.length = t.clipCount := by
    unfold flatten clipCount
    rw [List.length_flatMap, List.sum_eq_foldl, List.foldl_map]
    simp only [List.length_map]
  rw [hnil] at hlen
  exact h hlen.symm

namespace SessionBuilder.Builds

variable {b : SessionBuilder} {cwd : String} {image : Document} {timeline : Timeline}
  {o : SessionOptions} {s : Session} (h : b.Builds cwd image timeline o s)
include h

theorem hasMusic_slots : s.slots.hasMusic = !o.music.isNull := by
  rw [h.slots_eq]
  rfl

/-- The inputs are the picture, the music if there is any, and the sources. -/
theorem inputs_eq : s.inputs = image :: (if o.music.isNull then [] else [o.music]) ++
    (firstOccurrences [] (timeline.flatten.map (·.clip.source))).map .text := by
  unfold Session.inputs Session.hasMusic
  rw [h.image_eq, h.music_eq, h.slots_eq, Timeline.sources_flatten]
  unfold InputSlots.ofTimeline
  rw [List.map_map]
  cases o.music.isNull <;> rfl

/-- Behind the picture and the music, the inputs are those of the slots. -/
theorem getElem?_inputs (k : Nat) :
    s.inputs[k + s.slots.base]? = (s.slots.sources[k]?).map Document.scalar := by
  unfold Session.inputs Session.hasMusic InputSlots.base
  rw [h.music_eq, h.hasMusic_slots]
  cases o.music.isNull with
  | true => exact List.getElem?_map
  | false => exact List.getElem?_map

/-- The slot of a source is the position of the source among the inputs. -/
theorem getElem?_inputs_of_slotOf {source : String} {slot : Nat}
    (hs : s.slots.slotOf source = .ok slot) : s.inputs[slot]? = some (.text source) := by
  obtain ⟨k, rfl, hk⟩ := InputSlots.getElem?_of_slotOf hs
  rw [h.getElem?_inputs, hk]
  rfl

/-- A slot of a source lies behind the picture and the music. -/
theorem base_le_of_slotOf {source : String} {slot : Nat}
    (hs : s.slots.slotOf source = .ok slot) :
    (if o.music.isNull then 1 else 2) ≤ slot := by
  obtain ⟨k, rfl, -⟩ := InputSlots.getElem?_of_slotOf hs
  unfold InputSlots.base
  rw [h.hasMusic_slots]
  cases o.music.isNull <;> simp

section

variable {master music : Binary64} {links : List Link}
  (hd : Describes timeline.flatten s.slots master music links)
include hd

/-- No link reads the picture. -/
theorem image_unread : ∀ l ∈ links, inputLabel 0 ∉ l.reads := by
  intro l hl
  rcases hd.mem_cases hl with ⟨k, hk, hget⟩ | hmix | ⟨-, rfl | rfl⟩
  · obtain ⟨l', slot, _, hget', hreads, hslot, -, -⟩ := hd.clip k hk
    obtain rfl : l = l' := Option.some.inj (hget.symm.trans hget')
    have hpos := h.base_le_of_slotOf hslot
    rw [hreads, List.mem_singleton, Chain.inputLabel_injective.eq_iff]
    split at hpos <;> omega
  · obtain rfl := Option.some.inj (hd.mix.symm.trans hmix)
    intro hmem
    obtain ⟨k, _, hk⟩ := List.mem_map.mp hmem
    exact Chain.colon_not_mem_clipLabel k (hk ▸ Chain.colon_mem_inputLabel 0)
  · exact (by decide : inputLabel 0 ∉ [inputLabel 1])
  · exact (by decide : inputLabel 0 ∉ [mixLabel, musicLabel])

/-- The music is looped exactly if there is music. -/
theorem music_read : (∃ l ∈ links, l.reads = [inputLabel 1] ∧ l.writes = musicLabel) ↔
    o.music.isNull = false := by
  have hmusic : s.slots.hasMusic = true ↔ o.music.isNull = false := by
    rw [h.hasMusic_slots, Bool.not_eq_true']
  rw [← hmusic]
  constructor
  · rintro ⟨l, hl, -, hwrites⟩
    by_contra hno
    have hmem : musicLabel ∈ links.map Link.writes := hwrites ▸ List.mem_map_of_mem hl
    rw [hd.writes, if_neg hno, List.mem_append, List.mem_singleton] at hmem
    rcases hmem with hmem | hmem
    · obtain ⟨k, _, hk⟩ := List.mem_map.mp hmem
      exact Chain.clipLabel_ne_musicLabel k hk
    · exact absurd hmem (by decide)
  · intro hyes
    have hmem : (Chain.musicLoop (graphNumber music)).link ∈ links.drop _ :=
      hd.music hyes ▸ List.mem_cons_self
    exact ⟨_, List.mem_of_mem_drop hmem, rfl, rfl⟩

end

/-- **Agreement.** The arguments, the inputs and the graph of a built session fit together. -/
theorem fits : ∃ links, s.Fits image o.music timeline links := by
  obtain ⟨master, music, links, -, -, -, hread, hd, -⟩ :=
    FilterGraph.exists_describes (Timeline.flatten_ne_nil h.clips) h.graph
  refine ⟨links, ?_⟩
  constructor
  case inputs_given => exact s.optionValues_inputs
  case graph_given =>
    rw [s.optionValues_args (by decide)]
    unfold Session.options
    simp [List.filter_map, Function.comp_def]
  case target_given =>
    rw [s.optionValues_args (by decide)]
    unfold Session.options
    simp [List.filter_map, Function.comp_def]
  case graph_read => exact hread
  case clip_input =>
    intro k hk
    obtain ⟨l, slot, _, hget, hreads, hslot, -, -⟩ := hd.clip k hk
    have hinput := h.getElem?_inputs_of_slotOf hslot
    exact ⟨l, slot, hget, hreads, (List.getElem?_eq_some_iff.mp hinput).1, hinput⟩
  case image_input => rw [h.inputs_eq]; rfl
  case image_unread => exact h.image_unread hd
  case music_read => exact h.music_read hd
  case music_input =>
    intro hmusic
    rw [h.inputs_eq, hmusic]
    rfl
  case sources =>
    refine ⟨firstOccurrences [] (timeline.flatten.map (·.clip.source)), ?_,
      nodup_firstOccurrences _ _, fun x => ?_, pairwise_firstOccurrences _ _⟩
    · rw [h.inputs_eq]
      cases o.music.isNull <;> rfl
    · rw [mem_firstOccurrences, List.mem_map]
      exact and_iff_left List.not_mem_nil

end SessionBuilder.Builds

namespace SessionBuilder

/-- **Built sessions.** Whenever a session is built, its arguments, its inputs and its graph fit
together. -/
theorem build_fits {b : SessionBuilder} {image : Document} {timeline : Timeline}
    {o : SessionOptions} {m m' : Machine} {s : Session}
    (h : b.build image timeline o m = (.ok s, m')) : ∃ links, s.Fits image o.music timeline links :=
  (builds_of_build h).fits

/-- Two sources on three tracks, one of them empty and one source twice. -/
def threeTracks : Timeline :=
  ⟨[⟨[Clip.second "a.mp3" 0, Clip.second "b.mp3" 1], 1, Binary64.one_lt_zero⟩,
    ⟨[], 1, Binary64.one_lt_zero⟩,
    ⟨[Clip.second "a.mp3" 2], 1, Binary64.one_lt_zero⟩]⟩

/-- A session of these tracks with a source as its music, too. -/
theorem build_fits_threeTracks : ∃ s m' links,
    (SessionBuilder.mk (.text "ffmpeg") 1280 720).build (.text "cover.png") threeTracks
      { SessionOptions.standard with music := .text "a.mp3" } Machine.bare = (.ok s, m') ∧
    s.Fits (.text "cover.png") (.text "a.mp3") threeTracks links := by
  have hok : ((SessionBuilder.mk (.text "ffmpeg") 1280 720).build (.text "cover.png") threeTracks
      { SessionOptions.standard with music := .text "a.mp3" } Machine.bare).1.isOk = true := by
    decide +kernel
  rcases h : (SessionBuilder.mk (.text "ffmpeg") 1280 720).build (.text "cover.png") threeTracks
      { SessionOptions.standard with music := .text "a.mp3" } Machine.bare with ⟨e | s, m'⟩
  · rw [h] at hok
    exact absurd hok Bool.false_ne_true
  · obtain ⟨links, hfits⟩ := build_fits h
    exact ⟨s, m', links, rfl, hfits⟩

end SessionBuilder

end StillVideo
