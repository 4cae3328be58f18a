import StillVideo.FilterGraph
import StillVideo.Proofs.ClipReading
import StillVideo.Proofs.DecimalArithmetic
import StillVideo.Proofs.WholeMilliseconds
import StillVideo.Proofs.WindowEnds

/-!
# The times of a clip in the graph

The times of a clip are decimals or timecodes in the project and have exact values
(`ProjectFile.GivesTimes`), which are read without loss (`value?_of_readTimecode`). Where they have
at most fifteen digits the chain of the clip denotes the beginning of its window exactly, the end of
it exactly where the floating sum is what the exact end reads as, and delays the clip by the whole
part of its start in milliseconds, or by one less (`ProjectFile.chain_times`).
-/

namespace StillVideo

open Binary64

/-! ## Exact times -/

namespace Timecode

/-- The number that a part of a timecode writes. -/
def part? (cs : List Char) : Option ℚ := (Decimal.read? (String.ofList cs)).bind Decimal.value?

/-- The parts give a number of seconds, and no result on the way to it has more digits than decimals
keep. -/
inductive Gives : List (List Char) → ℚ → Prop
  | seconds {s : List Char} {v : ℚ} (hs : part? s = some v) : Gives [s] v
  | minutes {m s : List Char} {v w : ℚ} (hm : part? m = some v) (hs : part? s = some w)
      (hproduct : Decimal.Fits (v * 60)) (hsum : Decimal.Fits (v * 60 + w)) :
      Gives [m, s] (v * 60 + w)
  | hours {h m s : List Char} {u v w : ℚ} (hh : part? h = some u) (hm : part? m = some v)
      (hs : part? s = some w) (hproduct : Decimal.Fits (u * 3600))
      (hproduct' : Decimal.Fits (v * 60)) (hsum : Decimal.Fits (u * 3600 + v * 60))
      (hsum' : Decimal.Fits (u * 3600 + v * 60 + w)) : Gives [h, m, s] (u * 3600 + v * 60 + w)

theorem readPart_eq_ok_iff {raw : String} {cs : List Char} {d : Decimal} :
    readPart raw cs = .ok d ↔ Decimal.read? (String.ofList cs) = some d := by
  unfold readPart
  cases Decimal.read? (String.ofList cs) <;> simp [refuse]

theorem value?_of_readPart {raw : String} {cs : List Char} {d : Decimal} {v : ℚ}
    (h : readPart raw cs = .ok d) (hv : part? cs = some v) : d.value? = some v := by
  unfold part? at hv
  rwa [readPart_eq_ok_iff.mp h] at hv

/-- The steps of adding up. -/
theorem seconds_eq_ok_iff {h m s d : Decimal} : seconds h m s = .ok d ↔
    ∃ x, h.mul (.ofInt 3600) = .ok x ∧ ∃ y, m.mul (.ofInt 60) = .ok y ∧
      ∃ z, x.add y = .ok z ∧ z.add s = .ok d := by
  unfold seconds
  simp only [bind_eq_ok_iff, exact_eq_ok_iff]

theorem value?_ofInt (i : Int) : (Decimal.ofInt i).value? = some (i : ℚ) := by
  have hwritten : written i.natAbs 0 = |(i : ℚ)| := by
    unfold written
    rw [zpow_zero, mul_one, Nat.cast_natAbs, Int.cast_abs]
  show some (signed (decide (i < 0)) (written i.natAbs 0)) = _
  rw [hwritten]
  by_cases hi : i < 0
  · rw [decide_eq_true hi, abs_of_neg (by exact_mod_cast hi)]
    exact congrArg some (neg_neg _)
  · rw [decide_eq_false hi, abs_of_nonneg (by exact_mod_cast Int.not_lt.mp hi)]
    rfl

/-- Hours, minutes and seconds are added up exactly. -/
theorem value?_of_seconds {h m s d : Decimal} {u v w : ℚ} (hread : seconds h m s = .ok d)
    (hh : h.value? = some u) (hm : m.value? = some v) (hs : s.value? = some w)
    (hproduct : Decimal.Fits (u * 3600)) (hproduct' : Decimal.Fits (v * 60))
    (hsum : Decimal.Fits (u * 3600 + v * 60)) (hsum' : Decimal.Fits (u * 3600 + v * 60 + w)) :
    d.value? = some (u * 3600 + v * 60 + w) := by
  obtain ⟨fromHours, hhours, fromMinutes, hminutes, sum, hadd, hread⟩ := seconds_eq_ok_iff.mp hread
  have hhours' := Decimal.value?_mul hhours hh (value?_ofInt 3600) hproduct
  have hminutes' := Decimal.value?_mul hminutes hm (value?_ofInt 60) hproduct'
  exact Decimal.value?_add hread (Decimal.value?_add hadd hhours' hminutes' hsum) hs hsum'

theorem value?_of_readText {raw : String} {d : Decimal} {v : ℚ} (h : readText raw = .ok d)
    (hv : Gives (splitFields ':' (trim isBlank raw.toList)) v) : d.value? = some v := by
  unfold readText at h
  generalize splitFields ':' (trim isBlank raw.toList) = parts at *
  cases hv with
  | seconds hs => exact value?_of_readPart h hs
  | minutes hm hs hproduct hsum =>
    obtain ⟨s, hs', h⟩ := bind_eq_ok_iff.mp h
    obtain ⟨m, hm', h⟩ := bind_eq_ok_iff.mp h
    have hvalue := value?_of_seconds h (value?_ofInt 0) (value?_of_readPart hm' hm)
      (value?_of_readPart hs' hs)
    rw [Int.cast_zero, zero_mul, zero_add] at hvalue
    exact hvalue Decimal.fits_zero hproduct hproduct hsum
  | hours hh hm hs hproduct hproduct' hsum hsum' =>
    obtain ⟨s, hs', h⟩ := bind_eq_ok_iff.mp h
    obtain ⟨m, hm', h⟩ := bind_eq_ok_iff.mp h
    obtain ⟨h', hh', h⟩ := bind_eq_ok_iff.mp h
    exact value?_of_seconds h (value?_of_readPart hh' hh) (value?_of_readPart hm' hm)
      (value?_of_readPart hs' hs) hproduct hproduct' hsum hsum'

end Timecode

/-- The time that a value of a project gives, exactly: a number as it is written, or a timecode. -/
inductive GivesTime : Document → ℚ → Prop
  | whole (i : Int) : GivesTime (.scalar (.int i)) i
  | real {x : Binary64} {v : ℚ} (h : Timecode.part? x.text.toList = some v) :
      GivesTime (.scalar (.real x)) v
  | text {s : String} {v : ℚ}
      (h : Timecode.Gives (splitFields ':' (trim isBlank s.toList)) v) :
      GivesTime (.scalar (.text s)) v

theorem GivesTime.isNull_eq {d : Document} {v : ℚ} (h : GivesTime d v) : d.isNull = false := by
  cases h <;> rfl

/-- Times are read exactly. -/
theorem value?_of_readTimecode {doc : Document} {d : Decimal} {v : ℚ}
    (h : readTimecode doc = .ok d) (hv : GivesTime doc v) : d.value? = some v := by
  cases hv with
  | whole i =>
    obtain rfl := Except.ok.inj h
    exact Timecode.value?_ofInt i
  | @real x v hpart =>
    unfold readTimecode at h
    unfold Timecode.part? at hpart
    rw [String.ofList_toList] at hpart
    dsimp only at h
    split at h
    · rename_i d' hd
      obtain rfl := Except.ok.inj h
      rwa [hd] at hpart
    · exact absurd h (by simp [refuse])
  | text htext => exact Timecode.value?_of_readText h htext

namespace ProjectFile

/-- The times that a mapping of a clip gives, exactly. A duration that is left out is what lies
between the ends of the window. -/
structure GivesTimes (fields : Fields) (start trimIn duration : ℚ) : Prop where
  start_given : GivesTime (fieldOr "start" fields (.int 0)) start
  trimIn_given : GivesTime (fieldOr "trim_in" fields (.int 0)) trimIn
  duration_given : (Document.field "duration" fields).isNull = false →
    GivesTime (Document.field "duration" fields) duration
  trimOut_given : (Document.field "duration" fields).isNull = true →
    GivesTime (Document.field "trim_out" fields) (trimIn + duration) ∧ Decimal.Fits duration

theorem exists_of_readOptionalTime {d : Document} {out : Option Decimal} {v : ℚ}
    (h : readOptionalTime d = .ok out) (hv : GivesTime d v) :
    ∃ t, out = some t ∧ readTimecode d = .ok t := by
  unfold readOptionalTime at h
  rw [hv.isNull_eq, if_neg Bool.false_ne_true] at h
  cases ht : readTimecode d with
  | error f =>
    rw [ht] at h
    exact absurd h (by simp)
  | ok t =>
    rw [ht] at h
    exact ⟨t, (Except.ok.inj h).symm, rfl⟩

variable {b : Base} {index : Nat} {fields : Fields} {c : Clip} {start trimIn duration : ℚ}

/-- The times of a clip become the floating numbers of their exact values. -/
theorem exists_decimals (hread : readClip b index (.mapping fields) = .ok c)
    (h : GivesTimes fields start trimIn duration) :
    ∃ ds di dl : Decimal, ds.value? = some start ∧ di.value? = some trimIn ∧
      dl.value? = some duration ∧ ds.toBinary? = some c.start ∧ di.toBinary? = some c.trimIn ∧
      dl.toBinary? = some c.duration := by
  obtain ⟨fields', ds, di, dl, out, heq, hclip⟩ := exists_readsClip hread
  obtain rfl : fields = fields' := by injection heq
  have hin := value?_of_readTimecode hclip.trimIn_read h.trimIn_given
  refine ⟨ds, di, dl, value?_of_readTimecode hclip.start_read h.start_given, hin, ?_,
    hclip.start_real, hclip.trimIn_real, hclip.duration_real⟩
  have hlength := hclip.duration_read
  unfold readLength at hlength
  cases hnull : (Document.field "duration" fields).isNull with
  | false =>
    rw [hnull] at hlength
    exact value?_of_readTimecode hlength (h.duration_given hnull)
  | true =>
    obtain ⟨hgiven, hfits⟩ := h.trimOut_given hnull
    obtain ⟨t, rfl, ht⟩ := exists_of_readOptionalTime hclip.trimOut_read hgiven
    rw [hnull] at hlength
    have hsub := Decimal.value?_sub (Timecode.exact_eq_ok_iff.mp hlength)
      (value?_of_readTimecode ht hgiven) hin
    rw [add_sub_cancel_left] at hsub
    exact hsub hfits

/-- What the texts and the delay of a chain say of the exact times of its clip. -/
structure ShowsTimes (c : Clip) (start trimIn duration : ℚ) (trimStart trimEnd : String)
    (delay : Nat) : Prop where
  /-- The window begins exactly where it should. -/
  start_exact : denoted? trimStart = some trimIn
  /-- It ends exactly where it should if the floating sum is what the exact end reads as. -/
  end_exact_iff : denoted? trimEnd = some (trimIn + duration) ↔
    ReadsAs (trimIn + duration) c.trimEnd
  /-- It does if it begins with the source, or if both times are floating numbers. -/
  end_exact : trimIn = 0 ∨ c.trimIn.value = trimIn ∧ c.duration.value = duration →
    denoted? trimEnd = some (trimIn + duration)
  end_near : ∃ v, denoted? trimEnd = some v ∧
    |v - (trimIn + duration)| ≤ (trimIn + duration) / 2 ^ 50
  /-- A start between two milliseconds loses its fraction. -/
  delay_fraction : (∀ m : Nat, 1000 * start ≠ m) → (delay : Int) = ⌊1000 * start⌋
  /-- A start at a millisecond is met, or missed by one if it has been rounded down. -/
  delay_whole : ∀ m : Nat, m < 10 ^ 15 → 1000 * start = m →
    (delay = m ∨ delay + 1 = m) ∧ (start ≤ c.start.value → delay = m)
  delay_near : |(delay : ℚ) - 1000 * start| ≤ 1000 * start / 2 ^ 51 + 2

/-- **Times of a clip.** A clip whose exact times can be written with at most fifteen digits has a
chain, whatever its position, its input and its gain. The chain names its delay for both channels,
and shows the exact times as well as floating numbers can. -/
theorem chain_times (hread : readClip b index (.mapping fields) = .ok c)
    (htimes : GivesTimes fields start trimIn duration) (hstart : IsShort start)
    (hstart' : 1000 * start ≤ 10 ^ 308) (hin : IsShort trimIn) (hin' : IsOrdinary trimIn)
    (hduration : IsOrdinary duration) (hend : IsShort (trimIn + duration))
    (hend' : trimIn + duration ≤ 10 ^ 308) (position slot : Nat) (gain : Binary64) :
    ∃ (trimStart trimEnd : String) (delay : Nat) (chain : Chain),
      Chain.ofClip position slot ⟨c, gain⟩ = .ok chain ∧
      chain.filters = "atrim=start=" ++ trimStart ++ ":end=" ++ trimEnd ++
        ",asetpts=PTS-STARTPTS,volume=" ++ graphNumber gain ++
        ",adelay=" ++ toString delay ++ "|" ++ toString delay ∧
      ShowsTimes c start trimIn duration trimStart trimEnd delay := by
  obtain ⟨ds, di, dl, hds, hdi, hdl, hs, hi, hl⟩ := exists_decimals hread htimes
  have hnonneg := hstart.nonneg
  obtain ⟨s, u, hu, -, -, hreal, hsign, -, -, hnear⟩ :=
    exists_of_toBinary? hs hds hnonneg
      ((le_mul_of_one_le_left hnonneg (by norm_num)).trans hstart')
  obtain ⟨delay, hwhole, hclose, hfraction, hmet⟩ :=
    exists_milliseconds hu hsign hstart hstart' hnear
  refine ⟨graphNumber c.trimIn, graphNumber c.trimEnd, delay,
    .clip position slot (graphNumber c.trimIn) (graphNumber c.trimEnd) (graphNumber gain) delay,
    ?_, rfl, ?_⟩
  · unfold Chain.ofClip
    rw [hreal, hwhole]
    rfl
  · refine ⟨denoted?_of_toBinary? hi hdi hin hin',
      denoted?_trimEnd_iff hi hl hdi hdl hin' hduration hend' hend,
      denoted?_trimEnd hi hl hdi hdl hin' hduration hend' hend,
      exists_denoted?_trimEnd hi hl hdi hdl hin' hduration hend', hfraction,
      fun m hm heq => ⟨(hmet m hm heq).1, fun hle => (hmet m hm heq).2 ?_⟩, hclose⟩
    rw [hreal] at hle
    rw [← value_finite hu hsign]
    exact mul_le_mul_of_nonneg_right hle (Nat.cast_nonneg one)

/-! ## Two clips -/

/-- A directory to resolve paths in. -/
def stage : Base := ⟨"/proj", "/home/user"⟩

/-- A window between two written ends, placed by a timecode. -/
def windowFields : Fields :=
  [(.text "source", .text "voice.mp3"), (.text "start", .text "0:01.5"),
    (.text "trim_in", .text "2.25"), (.text "trim_out", .text "0:03.75")]

/-- A start at a millisecond and a window whose times are not those of floating numbers. -/
def earlyFields : Fields :=
  [(.text "source", .text "voice.mp3"),
    (.text "start", .real (ofNumeral (.finite false 1001 (-3)))),
    (.text "trim_in", .real (ofNumeral (.finite false 1 (-1)))),
    (.text "duration", .real (ofNumeral (.finite false 2 (-1))))]

theorem part?_eq {cs : List Char} {c : Nat} {e : Int} {v : ℚ}
    (h : Decimal.read? (String.ofList cs) = some (.finite false c e)) (hv : written c e = v) :
    Timecode.part? cs = some v := by
  unfold Timecode.part?
  rw [h, ← hv]
  rfl

theorem exists_readClip_of_isOk {d : Document} (h : (readClip b index d).isOk = true) :
    ∃ c, readClip b index d = .ok c := by
  cases hc : readClip b index d with
  | error f =>
    rw [hc] at h
    exact absurd h Bool.false_ne_true
  | ok c => exact ⟨c, rfl⟩

/-- A timecode of no minutes gives its seconds. -/
theorem gives_noMinutes {cs : List Char} {c : Nat} {e : Int} {v : ℚ}
    (h : Decimal.read? (String.ofList cs) = some (.finite false c e)) (hv : written c e = v)
    (hc : c < 10 ^ Decimal.precision) (he : Decimal.minScale ≤ e) :
    Timecode.Gives [['0'], cs] v := by
  have hzero : Timecode.part? ['0'] = some 0 :=
    part?_eq (c := 0) (e := 0) (by decide) (by norm_num [written])
  have hfits : Decimal.Fits v := ⟨c, e, hc, he, by rw [← hv, abs_of_nonneg (written_nonneg c e)]⟩
  have hgives := Timecode.Gives.minutes hzero (part?_eq h hv)
  rw [zero_mul, zero_add] at hgives
  exact hgives Decimal.fits_zero hfits

theorem givesTimes_window : GivesTimes windowFields (3 / 2) (9 / 4) (3 / 2) := by
  have hstart : Timecode.Gives [['0'], "01.5".toList] (3 / 2) :=
    gives_noMinutes (c := 15) (e := -1) (by decide) (by norm_num [written]) (by decide)
      (by decide)
  have hout : Timecode.Gives [['0'], "03.75".toList] (9 / 4 + 3 / 2) :=
    gives_noMinutes (c := 375) (e := -2) (by decide) (by norm_num [written]) (by decide)
      (by decide)
  have hin : Timecode.part? "2.25".toList = some (9 / 4) :=
    part?_eq (c := 225) (e := -2) (by decide) (by norm_num [written])
  exact ⟨.text hstart, .text (.seconds hin), fun h => absurd h (by decide),
    fun _ => ⟨.text hout, 15, -1, by decide, by decide, by norm_num [written]⟩⟩

/-- The window ends where its mapping says. -/
theorem chain_times_window : ∃ c trimStart trimEnd delay,
    readClip stage 1 (.mapping windowFields) = .ok c ∧
      ShowsTimes c (3 / 2) (9 / 4) (3 / 2) trimStart trimEnd delay := by
  have hok : (readClip stage 1 (.mapping windowFields)).isOk = true := by decide +kernel
  obtain ⟨c, hc⟩ := exists_readClip_of_isOk hok
  have htop : ∀ v : ℚ, v ≤ 10 ^ 4 → v ≤ 10 ^ 308 := fun v hv =>
    hv.trans (pow_le_pow_right₀ (by norm_num) (by decide))
  have hordinary : ∀ v : ℚ, 1 ≤ v → v ≤ 10 ^ 4 → IsOrdinary v := fun v hlow hhigh =>
    .inr ⟨(zpow_le_one_of_nonpos₀ (by norm_num) (by decide)).trans hlow, htop v hhigh⟩
  obtain ⟨trimStart, trimEnd, delay, -, -, -, hshows⟩ :=
    chain_times hc givesTimes_window ⟨15, -1, by decide, by norm_num [written]⟩
      (htop _ (by norm_num)) ⟨225, -2, by decide, by norm_num [written]⟩
      (hordinary _ (by norm_num) (by norm_num)) (hordinary _ (by norm_num) (by norm_num))
      ⟨375, -2, by decide, by norm_num [written]⟩ (htop _ (by norm_num)) 0 1 1
  exact ⟨c, trimStart, trimEnd, delay, hc, hshows⟩

theorem givesTimes_early : GivesTimes earlyFields (1001 / 1000) (1 / 10) (1 / 5) :=
  ⟨.real (part?_eq (c := 1001) (e := -3) (by decide +kernel) (by norm_num [written])),
    .real (part?_eq (c := 1) (e := -1) (by decide +kernel) (by norm_num [written])),
    fun _ => .real (part?_eq (c := 2) (e := -1) (by decide +kernel) (by norm_num [written])),
    fun h => absurd h (by decide)⟩

/-- A start of 1001 milliseconds is missed by one, and a tenth and a fifth do not add up. -/
theorem chain_times_early : ∃ c chain, readClip stage 1 (.mapping earlyFields) = .ok c ∧
    GivesTimes earlyFields (1001 / 1000) (1 / 10) (1 / 5) ∧ IsShort (1001 / 1000) ∧
    IsShort (1 / 10) ∧ IsShort (1 / 5) ∧ IsShort (1 / 10 + 1 / 5) ∧
    Chain.ofClip 0 1 ⟨c, 1⟩ = .ok chain ∧
    chain = .clip 0 1 "0.1" "0.30000000000000004" "1" 1000 ∧
    ⌊1000 * (1001 / 1000 : ℚ)⌋ = 1001 ∧
    denoted? "0.30000000000000004" ≠ some (1 / 10 + 1 / 5) := by
  have hchain : ((readClip stage 1 (.mapping earlyFields)) >>= fun c =>
      Chain.ofClip 0 1 ⟨c, 1⟩).toOption =
        some (.clip 0 1 "0.1" "0.30000000000000004" "1" 1000) := by decide +kernel
  have hend : Numeral.read? "0.30000000000000004".toList =
      some (.finite false 30000000000000004 (-17)) := by decide
  have hok : (readClip stage 1 (.mapping earlyFields)).isOk = true := by decide +kernel
  obtain ⟨c, hc⟩ := exists_readClip_of_isOk hok
  rw [hc] at hchain
  have hchain' : (Chain.ofClip 0 1 ⟨c, 1⟩).toOption =
      some (.clip 0 1 "0.1" "0.30000000000000004" "1" 1000) := hchain
  refine ⟨c, _, hc, givesTimes_early, ⟨1001, -3, by decide, by norm_num [written]⟩,
    ⟨1, -1, by decide, by norm_num [written]⟩, ⟨2, -1, by decide, by norm_num [written]⟩,
    ⟨3, -1, by decide, by norm_num [written]⟩, ?_, rfl, by norm_num, ?_⟩
  · cases hof : Chain.ofClip 0 1 ⟨c, 1⟩ with
    | error f =>
      rw [hof] at hchain'
      exact absurd hchain' (by simp [Except.toOption])
    | ok chain =>
      rw [hof] at hchain'
      rw [Option.some.inj hchain']
  · unfold denoted?
    rw [hend]
    intro h
    have hvalue : written 30000000000000004 (-17) = 1 / 10 + 1 / 5 := Option.some.inj h
    norm_num [written] at hvalue

end ProjectFile

end StillVideo
