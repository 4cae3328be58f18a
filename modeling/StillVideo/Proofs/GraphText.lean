import StillVideo.Proofs.GraphWiring
import StillVideo.Proofs.NumberReading
import StillVideo.Proofs.SlotOrder

/-!
# The text of a compiled graph

A graph is compiled exactly if every source has a slot and every start, in milliseconds, is finite
(`exists_compile_iff`). Its text then reads back: as many links as there are clips and mixes, the
numbers of each clip, and labels that fit together.
-/

namespace StillVideo

/-- A floating number has a whole part exactly if it is finite. -/
theorem exists_wholeOfReal_iff {x : Binary64} :
    (∃ i, wholeOfReal x = .ok i) ↔ x.isFinite = true := by
  cases x with
  | nan => simp [wholeOfReal, Binary64.truncate?, Binary64.isFinite]
  | infinite s => simp [wholeOfReal, Binary64.truncate?, Binary64.isFinite]
  | finite s u h => exact ⟨fun _ => rfl, fun _ => ⟨_, rfl⟩⟩

/-! ## Chains of clips -/

/-- The chain of a clip at a position. -/
def IsChainOf (slots : InputSlots) (index : Nat) (g : GainedClip) (c : Chain) : Prop :=
  ∃ slot delay, slots.slotOf g.clip.source = .ok slot ∧
    wholeOfReal (g.clip.start * 1000) = .ok delay ∧
    c = .clip index slot (graphNumber g.clip.trimIn) (graphNumber g.clip.trimEnd)
      (graphNumber g.gain) delay

/-- A clip has a chain exactly if its source has a slot and its start is finite in milliseconds. -/
theorem exists_isChainOf_iff {slots : InputSlots} (index : Nat) {g : GainedClip} :
    (∃ c, IsChainOf slots index g c) ↔
      .text g.clip.source ∈ slots.sources ∧ (g.clip.start * 1000).isFinite = true := by
  rw [← InputSlots.exists_slotOf_iff, ← exists_wholeOfReal_iff]
  constructor
  · rintro ⟨c, slot, delay, hs, hd, -⟩
    exact ⟨⟨slot, hs⟩, ⟨delay, hd⟩⟩
  · rintro ⟨⟨slot, hs⟩, ⟨delay, hd⟩⟩
    exact ⟨_, slot, delay, hs, hd, rfl⟩

namespace FilterGraph

theorem clipChains_cons_eq_ok_iff {slots : InputSlots} {index : Nat} {g : GainedClip}
    {rest : List GainedClip} {chains : List Chain} :
    clipChains slots index (g :: rest) = .ok chains ↔
      ∃ c cs, IsChainOf slots index g c ∧ clipChains slots (index + 1) rest = .ok cs ∧
        chains = c :: cs := by
  rw [clipChains]
  unfold Chain.ofClip IsChainOf
  cases slots.slotOf g.clip.source with
  | error f => simp [bind, Except.bind]
  | ok slot =>
    cases wholeOfReal (g.clip.start * 1000) with
    | error f => simp [bind, Except.bind]
    | ok delay =>
      cases clipChains slots (index + 1) rest with
      | error f => simp [bind, Except.bind, pure, Except.pure]
      | ok cs => simp [bind, Except.bind, pure, Except.pure, eq_comm]

/-- The chains of clips stand in the order of the clips and are counted from `index` on. -/
theorem clipChains_eq_ok_iff {slots : InputSlots} {index : Nat} {clips : List GainedClip}
    {chains : List Chain} :
    clipChains slots index clips = .ok chains ↔
      List.Forall₂ (fun g c => IsChainOf slots g.2 g.1 c) (clips.zipIdx index) chains := by
  induction clips generalizing index chains with
  | nil => simp [clipChains, eq_comm]
  | cons g rest ih =>
    rw [clipChains_cons_eq_ok_iff, List.zipIdx_cons]
    constructor
    · rintro ⟨c, cs, hc, hcs, rfl⟩
      exact .cons hc (ih.mp hcs)
    · rintro (_ | ⟨hc, hcs⟩)
      exact ⟨_, _, hc, ih.mpr hcs, rfl⟩

theorem exists_clipChains_iff {slots : InputSlots} (index : Nat) {clips : List GainedClip} :
    (∃ chains, clipChains slots index clips = .ok chains) ↔
      ∀ g ∈ clips, .text g.clip.source ∈ slots.sources ∧
        (g.clip.start * 1000).isFinite = true := by
  induction clips generalizing index with
  | nil => simp [clipChains]
  | cons g rest ih =>
    rw [List.forall_mem_cons, ← ih (index + 1), ← exists_isChainOf_iff index]
    constructor
    · rintro ⟨chains, h⟩
      obtain ⟨c, cs, hc, hcs, -⟩ := clipChains_cons_eq_ok_iff.mp h
      exact ⟨⟨c, hc⟩, ⟨cs, hcs⟩⟩
    · rintro ⟨⟨c, hc⟩, ⟨cs, hcs⟩⟩
      exact ⟨c :: cs, clipChains_cons_eq_ok_iff.mpr ⟨c, cs, hc, hcs, rfl⟩⟩

end FilterGraph

/-- The chains of clips, one for each clip, in order. -/
def AreChainsOf (slots : InputSlots) (clips : List GainedClip) (chains : List Chain) : Prop :=
  List.Forall₂ (fun g c => IsChainOf slots g.2 g.1 c) (clips.zipIdx 0) chains

namespace AreChainsOf

variable {slots : InputSlots} {clips : List GainedClip} {chains : List Chain}
  (h : AreChainsOf slots clips chains)
include h

theorem length_eq : chains.length = clips.length := by
  have := List.Forall₂.length_eq h
  rw [List.length_zipIdx] at this
  exact this.symm

theorem get {k : Nat} (hk : k < clips.length) :
    ∃ c, chains[k]? = some c ∧ IsChainOf slots k clips[k] c := by
  have hk' : k < chains.length := h.length_eq ▸ hk
  have := List.Forall₂.get h (by rw [List.length_zipIdx]; exact hk) hk'
  refine ⟨chains[k], List.getElem?_eq_getElem hk', ?_⟩
  simpa using this

theorem forall_mem {p : Chain → Prop}
    (hp : ∀ k g c, IsChainOf slots k g c → p c) : ∀ c ∈ chains, p c := by
  intro c hc
  obtain ⟨k, hk, rfl⟩ := List.getElem_of_mem hc
  obtain ⟨d, hd, hchain⟩ := h.get (h.length_eq ▸ hk)
  rw [List.getElem?_eq_getElem hk] at hd
  rw [Option.some.inj hd]
  exact hp _ _ _ hchain

theorem isPlain : ∀ c ∈ chains, c.IsPlain := by
  refine h.forall_mem ?_
  rintro k g c ⟨slot, delay, -, -, rfl⟩
  exact ⟨graphNumber_isNumberText _, graphNumber_isNumberText _, graphNumber_isNumberText _⟩

theorem areNumbered : AreNumbered chains where
  writes_eq := by
    refine List.ext_getElem ?_ ?_
    · rw [List.length_map, List.length_map, List.length_range]
    · intro k hk hk'
      rw [List.length_map] at hk
      obtain ⟨c, hc, slot, delay, -, -, hclip⟩ := h.get (h.length_eq ▸ hk)
      rw [List.getElem?_eq_getElem hk] at hc
      rw [List.getElem_map, List.getElem_map, List.getElem_range, Option.some.inj hc, hclip]
      rfl
  reads_input := by
    refine h.forall_mem ?_
    rintro k g c ⟨slot, delay, -, -, rfl⟩
    exact ⟨slot, rfl⟩

end AreChainsOf

/-! ## Compiled graphs -/

/-- The gain of the music: one unless it is given. -/
def musicGainOf (d : Document) : Except Fault Binary64 :=
  if d.isNull then .ok 1 else d.toReal

namespace FilterGraph

variable {clips : List GainedClip} {slots : InputSlots} {masterGain musicGain : Document}

/-- What is compiled are the chains of the clips with their mix, and the music if it has a slot. -/
theorem compile_eq_ok_iff (hne : clips ≠ []) {graph : FilterGraph} :
    compile clips slots masterGain musicGain = .ok graph ↔
      ∃ chains master music, AreChainsOf slots clips chains ∧ masterGain.toReal = .ok master ∧
        (slots.hasMusic = true → musicGainOf musicGain = .ok music) ∧
        graph = assemble chains (graphNumber master)
          (if slots.hasMusic then some (graphNumber music) else none) := by
  unfold AreChainsOf
  simp only [← clipChains_eq_ok_iff]
  unfold compile
  rw [if_neg (by simpa using hne)]
  cases hchains : clipChains slots 0 clips with
  | error f => simp [bind, Except.bind]
  | ok chains =>
    have hlen : chains.length = clips.length :=
      AreChainsOf.length_eq (clipChains_eq_ok_iff.mp hchains)
    cases masterGain.toReal with
    | error f => simp [bind, Except.bind]
    | ok master =>
      cases slots.hasMusic with
      | false => simp [bind, Except.bind, pure, Except.pure, assemble, hlen, eq_comm]
      | true =>
        unfold musicGainOf
        cases musicGain.isNull with
        | true => simp [bind, Except.bind, pure, Except.pure, assemble, hlen, eq_comm]
        | false =>
          cases musicGain.toReal with
          | error f => simp [bind, Except.bind]
          | ok music => simp [bind, Except.bind, pure, Except.pure, assemble, hlen, eq_comm]

/-- A graph is compiled exactly if every source has a slot and every start is finite in
milliseconds. -/
theorem exists_compile_iff (hne : clips ≠ []) {master music : Binary64}
    (hmaster : masterGain.toReal = .ok master)
    (hmusic : slots.hasMusic = true → musicGainOf musicGain = .ok music) :
    (∃ graph, compile clips slots masterGain musicGain = .ok graph) ↔
      ∀ g ∈ clips, .text g.clip.source ∈ slots.sources ∧
        (g.clip.start * 1000).isFinite = true := by
  rw [← exists_clipChains_iff 0]
  simp only [compile_eq_ok_iff hne, clipChains_eq_ok_iff]
  constructor
  · rintro ⟨graph, chains, _, _, h, -⟩
    exact ⟨chains, h⟩
  · rintro ⟨chains, h⟩
    exact ⟨_, chains, master, music, h, hmaster, hmusic, rfl⟩

end FilterGraph

/-! ## What the text says -/

open Chain (clipLabel mixLabel musicLabel finalLabel)

/-- The links of a graph against what it was compiled from: a link for each clip with its slot, its
window, its gain and its delay, the mix of exactly these clips, and the links of the music. -/
structure Describes (clips : List GainedClip) (slots : InputSlots) (master music : Binary64)
    (links : List Link) : Prop where
  clip : ∀ k (hk : k < clips.length), ∃ l slot delay, links[k]? = some l ∧
    l.reads = [Chain.inputLabel slot] ∧ slots.slotOf clips[k].clip.source = .ok slot ∧
    wholeOfReal (clips[k].clip.start * 1000) = .ok delay ∧
    l.clip? = some ⟨toString slot, graphNumber clips[k].clip.trimIn,
      graphNumber clips[k].clip.trimEnd, graphNumber clips[k].gain, toString delay⟩
  writes : links.map Link.writes = (List.range clips.length).map clipLabel ++
    (if slots.hasMusic then [mixLabel, musicLabel, finalLabel] else [mixLabel])
  mix : links[clips.length]? = some ⟨(List.range clips.length).map clipLabel,
    ["amix=inputs=" ++ toString clips.length ++ ":duration=longest",
      "volume=" ++ graphNumber master], mixLabel⟩
  music : slots.hasMusic = true → links.drop (clips.length + 1) =
    [(Chain.musicLoop (graphNumber music)).link, Chain.musicMix.link]

/-- Two clips of which graphs say the same: one slot, and one window, gain and delay as numbers. -/
structure SameInGraph (slots slots' : InputSlots) (g g' : GainedClip) : Prop where
  slot : slots.slotOf g.clip.source = slots'.slotOf g'.clip.source
  trimIn : g.clip.trimIn.rank = g'.clip.trimIn.rank
  trimEnd : g.clip.trimEnd.rank = g'.clip.trimEnd.rank
  gain : g.gain.rank = g'.gain.rank
  delay : wholeOfReal (g.clip.start * 1000) = wholeOfReal (g'.clip.start * 1000)

namespace Describes

variable {clips clips' : List GainedClip} {slots slots' : InputSlots}
  {master music master' music' : Binary64} {links : List Link}

theorem writes_clip (h : Describes clips slots master music links) {k : Nat}
    (hk : k < clips.length) : links[k]?.map Link.writes = some (clipLabel k) := by
  rw [← List.getElem?_map, h.writes, List.getElem?_append_left (by simpa using hk)]
  simp [hk]

theorem writes_mix (h : Describes clips slots master music links) :
    links[clips.length]?.map Link.writes = some mixLabel := by
  rw [h.mix]
  rfl

/-- A link belongs to a clip, to the mix or to the music. -/
theorem mem_cases (h : Describes clips slots master music links) {l : Link} (hl : l ∈ links) :
    (∃ k < clips.length, links[k]? = some l) ∨ links[clips.length]? = some l ∨
      slots.hasMusic = true ∧
        (l = (Chain.musicLoop (graphNumber music)).link ∨ l = Chain.musicMix.link) := by
  obtain ⟨k, hk, rfl⟩ := List.getElem_of_mem hl
  have hget := List.getElem?_eq_getElem hk
  have hlen : links.length = clips.length + (if slots.hasMusic then 3 else 1) := by
    rw [← List.length_map Link.writes, h.writes, List.length_append, List.length_map,
      List.length_range]
    cases slots.hasMusic <;> rfl
  by_cases hlt : k < clips.length
  · exact .inl ⟨k, hlt, hget⟩
  by_cases heq : k = clips.length
  · exact .inr (.inl (heq ▸ hget))
  · have hmusic : slots.hasMusic = true := by
      by_contra hno
      rw [if_neg hno] at hlen
      omega
    have hmem : links[k] ∈ links.drop (clips.length + 1) :=
      List.mem_drop_iff_getElem.mpr ⟨k - (clips.length + 1), by omega, by
        congr 1
        omega⟩
    rw [h.music hmusic] at hmem
    refine .inr (.inr ⟨hmusic, ?_⟩)
    simpa only [List.mem_cons, List.not_mem_nil, or_false] using hmem

/-- The mix stands at one position, so links describe clips of one number. -/
theorem length_le (h : Describes clips slots master music links)
    (h' : Describes clips' slots' master' music' links) : clips.length ≤ clips'.length := by
  by_contra hlt
  have hclip := h.writes_clip (k := clips'.length) (by omega)
  rw [h'.writes_mix] at hclip
  exact Chain.clipLabel_ne_mixLabel _ (Option.some.inj hclip).symm

/-- **Clips agree.** Clip by clip, links describe one slot, one window, one gain and one delay. -/
theorem agree (h : Describes clips slots master music links)
    (h' : Describes clips' slots' master' music' links) :
    List.Forall₂ (SameInGraph slots slots') clips clips' := by
  have hlen : clips.length = clips'.length := Nat.le_antisymm (h.length_le h') (h'.length_le h)
  rw [List.forall₂_iff_get]
  refine ⟨hlen, fun k hk hk' => ?_⟩
  obtain ⟨l, slot, delay, hl, -, hslot, hdelay, hclip⟩ := h.clip k hk
  obtain ⟨l', slot', delay', hl', -, hslot', hdelay', hclip'⟩ := h'.clip k hk'
  obtain rfl : l = l' := Option.some.inj (hl.symm.trans hl')
  have hreading := Option.some.inj (hclip.symm.trans hclip')
  rw [ClipReading.mk.injEq] at hreading
  obtain ⟨hs, hstart, hend, hgain, hd⟩ := hreading
  exact {
    slot := by
      show slots.slotOf clips[k].clip.source = slots'.slotOf clips'[k].clip.source
      rw [hslot, hslot', natRepr_inj hs]
    trimIn := rank_eq_of_graphNumber_eq hstart
    trimEnd := rank_eq_of_graphNumber_eq hend
    gain := rank_eq_of_graphNumber_eq hgain
    delay := by
      show wholeOfReal (clips[k].clip.start * 1000) = wholeOfReal (clips'[k].clip.start * 1000)
      rw [hdelay, hdelay', intRepr_inj hd] }

end Describes

namespace FilterGraph

variable {clips : List GainedClip} {slots : InputSlots} {masterGain musicGain : Document}
  {graph : FilterGraph}

/-- The chains behind the mix: with music, its loop and the last mix. -/
def musicChains (music : Option String) : List Chain :=
  match music with
  | none => []
  | some gain => [.musicLoop gain, .musicMix]

theorem chains_assemble (chains : List Chain) (master : String) (music : Option String) :
    (assemble chains master music).chains =
      chains ++ .mix chains.length master :: musicChains music := by
  cases music <;> rfl

theorem assemble_ne_nil (chains : List Chain) (master : String) (music : Option String) :
    (assemble chains master music).chains ≠ [] := by
  rw [chains_assemble]
  exact List.append_ne_nil_of_right_ne_nil _ (List.cons_ne_nil _ _)

theorem isPlain_assemble {chains : List Chain} {master : String} {music : Option String}
    (h : ∀ c ∈ chains, c.IsPlain) (hmaster : IsNumberText master)
    (hmusic : ∀ gain ∈ music, IsNumberText gain) :
    ∀ c ∈ (assemble chains master music).chains, c.IsPlain := by
  rw [chains_assemble, List.forall_mem_append, List.forall_mem_cons]
  refine ⟨h, hmaster, ?_⟩
  cases music with
  | none => exact List.forall_mem_nil _
  | some gain =>
    intro c hc
    simp only [musicChains, List.mem_cons, List.not_mem_nil, or_false] at hc
    rcases hc with rfl | rfl
    · exact hmusic gain rfl
    · exact trivial

/-- The links of the chains of clips, their mix and the music describe the clips. -/
theorem describes_assemble {chains : List Chain} (h : AreChainsOf slots clips chains)
    (master music : Binary64) :
    Describes clips slots master music ((assemble chains (graphNumber master)
      (if slots.hasMusic then some (graphNumber music) else none)).chains.map Chain.link) := by
  rw [chains_assemble, List.map_append, List.map_cons]
  have hlen : (chains.map Chain.link).length = clips.length := by
    rw [List.length_map, h.length_eq]
  constructor
  case clip =>
    intro k hk
    obtain ⟨c, hc, slot, delay, hslot, hdelay, hclip⟩ := h.get hk
    refine ⟨c.link, slot, delay, ?_, ?_, hslot, hdelay, ?_⟩
    · rw [List.getElem?_append_left (by omega), List.getElem?_map, hc]
      rfl
    · rw [hclip]
      rfl
    · rw [hclip]
      exact Link.clip?_link ⟨graphNumber_isNumberText _, graphNumber_isNumberText _,
        graphNumber_isNumberText _⟩
  case writes =>
    rw [List.map_append, List.map_map, show Link.writes ∘ Chain.link = Chain.writes from rfl,
      h.areNumbered.writes_eq, h.length_eq]
    cases slots.hasMusic <;> rfl
  case mix =>
    rw [List.getElem?_append_right (by omega), hlen, Nat.sub_self, List.getElem?_cons_zero,
      h.length_eq]
    rfl
  case music =>
    intro hmusic
    rw [List.drop_append, List.drop_of_length_le (by omega), hlen, hmusic]
    simp [musicChains]

/-- The text of compiled clips reads back to links that describe them and fit together. -/
theorem exists_describes (hne : clips ≠ [])
    (hc : compile clips slots masterGain musicGain = .ok graph) :
    ∃ master music links, masterGain.toReal = .ok master ∧
      (slots.hasMusic = true → musicGainOf musicGain = .ok music) ∧
      (graph.text.toList.splitOn ';').length =
        clips.length + (if slots.hasMusic then 3 else 1) ∧
      readLinks? graph.text = some links ∧ Describes clips slots master music links ∧
      IsWired links graph.target := by
  obtain ⟨chains, master, music, h, hmaster, hmusic, rfl⟩ := (compile_eq_ok_iff hne).mp hc
  have hgain : ∀ gain ∈ (if slots.hasMusic then some (graphNumber music) else none),
      IsNumberText gain := by
    intro gain hgain
    split at hgain
    · rw [← Option.some.inj hgain]
      exact graphNumber_isNumberText music
    · exact absurd hgain (by simp)
  have hplain := isPlain_assemble h.isPlain (graphNumber_isNumberText master) hgain
  refine ⟨master, music, _, hmaster, hmusic, ?_,
    readLinks?_text (assemble_ne_nil _ _ _) hplain, describes_assemble h master music,
    assemble_isWired h.areNumbered _ _⟩
  rw [splitOn_text (assemble_ne_nil _ _ _) hplain, List.length_map, chains_assemble,
    List.length_append, List.length_cons, h.length_eq]
  cases slots.hasMusic <;> rfl

/-- A text that reads back is not the text of no clips. -/
theorem ne_nil_of_readLinks? {links : List Link}
    (hc : compile clips slots masterGain musicGain = .ok graph)
    (hread : readLinks? graph.text = some links) : clips ≠ [] := by
  rintro rfl
  obtain rfl := Except.ok.inj hc
  have hnone : readLinks? (FilterGraph.text ⟨[], mixLabel⟩) = none := by
    show ([[]].mapM Link.read?) = none
    have : Link.read? [] = none := by
      unfold Link.read?
      rw [Link.readLabels_eq_nil rfl]
      rfl
    rw [List.mapM_cons, this]
    rfl
  rw [hnone] at hread
  exact absurd hread (by simp)

/-- **Compiled text.** Clips whose sources have slots have a graph exactly if their starts are
finite in milliseconds. Its text parts into one link for each clip, their mix and the two links of
the music; the links describe the clips and their labels fit together. Clips with the same text
agree one by one. -/
theorem compile_reads_back {master music : Binary64} (hne : clips ≠ [])
    (hslots : ∀ g ∈ clips, .text g.clip.source ∈ slots.sources)
    (hmaster : masterGain.toReal = .ok master)
    (hmusic : slots.hasMusic = true → musicGainOf musicGain = .ok music) :
    ((∃ graph, compile clips slots masterGain musicGain = .ok graph) ↔
      ∀ g ∈ clips, (g.clip.start * 1000).isFinite = true) ∧
    ∀ graph, compile clips slots masterGain musicGain = .ok graph →
      (graph.text.toList.splitOn ';').length =
        clips.length + (if slots.hasMusic then 3 else 1) ∧
      (∃ links, readLinks? graph.text = some links ∧
        Describes clips slots master music links ∧ IsWired links graph.target) ∧
      ∀ clips' slots' masterGain' musicGain' graph',
        compile clips' slots' masterGain' musicGain' = .ok graph' → graph'.text = graph.text →
          List.Forall₂ (SameInGraph slots slots') clips clips' := by
  constructor
  · rw [exists_compile_iff hne hmaster hmusic]
    exact ⟨fun h g hg => (h g hg).2, fun h g hg => ⟨hslots g hg, h g hg⟩⟩
  · intro graph hc
    obtain ⟨m, b, links, hm, hb, hparts, hread, hdesc, hwired⟩ := exists_describes hne hc
    obtain rfl : m = master := Except.ok.inj (hm.symm.trans hmaster)
    have hdesc' : Describes clips slots m music links := by
      refine ⟨hdesc.clip, hdesc.writes, hdesc.mix, fun h => ?_⟩
      obtain rfl : b = music := Except.ok.inj ((hb h).symm.trans (hmusic h))
      exact hdesc.music h
    refine ⟨hparts, ⟨links, hread, hdesc', hwired⟩, ?_⟩
    intro clips' slots' masterGain' musicGain' graph' hc' htext
    rw [← htext] at hread
    have hne' := ne_nil_of_readLinks? hc' hread
    obtain ⟨_, _, links', _, _, _, hread', hdesc'', _⟩ := exists_describes hne' hc'
    obtain rfl : links' = links := Option.some.inj (hread'.symm.trans hread)
    exact hdesc'.agree hdesc''

end FilterGraph

/-- One second of a source from a start on. -/
def Clip.second (source : String) (start : Nat) : Clip where
  source := source
  start := .ofNat start
  duration := 1
  trimIn := 0
  trimOut := 1
  start_ok := Binary64.ofNat_lt_zero start
  duration_ok := Binary64.one_le_zero
  trimIn_ok := Binary64.ofNat_lt_zero 0
  trimOut_ok := Binary64.one_lt_zero

namespace FilterGraph

/-- A start so far that it is finite, but not in milliseconds. -/
def farStart : Nat := 10 ^ 306

/-- A finite start that is not finite in milliseconds has no graph. -/
theorem compile_far_start :
    (Clip.second "a.mp3" farStart).start.isFinite = true ∧
    compile [⟨Clip.second "a.mp3" farStart, 1⟩] ⟨[.text "a.mp3"], false⟩ (.real 1) .null =
      .error .infiniteToWhole := by
  refine ⟨by decide +kernel, ?_⟩
  have hfar : (Clip.second "a.mp3" farStart).start * 1000 = .infinite false := by decide +kernel
  unfold compile clipChains Chain.ofClip
  rw [hfar]
  rfl

/-- Two seconds of a source, with a pause of one second between. -/
def twoSeconds : List GainedClip := [⟨Clip.second "a.mp3" 0, 1⟩, ⟨Clip.second "a.mp3" 2, 1⟩]

/-- The slot of that source behind the picture and the music. -/
def oneSource : InputSlots := ⟨[.text "a.mp3"], true⟩

/-- Two clips of one source under music. -/
theorem compile_reads_back_twoSeconds : ∃ graph links,
    compile twoSeconds oneSource (.real 1) .null = .ok graph ∧
    readLinks? graph.text = some links ∧ Describes twoSeconds oneSource 1 1 links ∧
    IsWired links graph.target := by
  have hne : twoSeconds ≠ [] := List.cons_ne_nil _ _
  have hslots : ∀ g ∈ twoSeconds, .text g.clip.source ∈ oneSource.sources := by decide +kernel
  have hmaster : (Document.real 1).toReal = .ok 1 := rfl
  have hmusic : oneSource.hasMusic = true → musicGainOf .null = .ok 1 := fun _ => rfl
  obtain ⟨hiff, hall⟩ := compile_reads_back hne hslots hmaster hmusic
  obtain ⟨graph, hgraph⟩ := hiff.mpr (by decide +kernel)
  obtain ⟨-, ⟨links, hread, hdesc, hwired⟩, -⟩ := hall graph hgraph
  exact ⟨graph, links, hgraph, hread, hdesc, hwired⟩

end FilterGraph

end StillVideo
