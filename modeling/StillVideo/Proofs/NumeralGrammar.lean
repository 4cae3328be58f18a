import StillVideo.Number.Decimal
import StillVideo.Proofs.NumberReading
import StillVideo.Proofs.TextParts

/-!
# The grammar of numerals

What the readers of numerals accept, said without them. `Numeral.Writes` is the bare form: a sign,
digits with an optional point and an optional exponent, or a word (`Numeral.read?_iff`). A floating
number may be spelled more loosely (`Spells`, `Binary64.read?_iff`), and a decimal has words of its
own with a payload of digits (`Decimal.Writes`, `Decimal.read?_iff`).
-/

namespace StillVideo

/-! ## Parts of a numeral -/

/-- A sign, which may be left out. -/
inductive IsSign : List Char → Bool → Prop
  | none : IsSign [] false
  | plus : IsSign ['+'] false
  | minus : IsSign ['-'] true

/-- The exponent of a numeral, which may be left out. -/
inductive IsExponent : List Char → Int → Prop
  | none : IsExponent [] 0
  | power {letter : Char} {sign digits : List Char} {negative : Bool}
      (hletter : letter = 'e' ∨ letter = 'E') (hsign : IsSign sign negative)
      (hdigits : AreDigits digits) (hne : digits ≠ []) :
      IsExponent (letter :: (sign ++ digits))
        (if negative then -(digitsValue digits : Int) else digitsValue digits)

/-- Digits with an optional point: the text, its digits, and how many of them follow the point. -/
inductive IsMantissa : List Char → List Char → Nat → Prop
  | whole {digits : List Char} (hdigits : AreDigits digits) (hne : digits ≠ []) :
      IsMantissa digits digits 0
  | point {whole fraction : List Char} (hwhole : AreDigits whole) (hfraction : AreDigits fraction)
      (hne : whole ++ fraction ≠ []) :
      IsMantissa (whole ++ '.' :: fraction) (whole ++ fraction) fraction.length

/-- A text writes a numeral. -/
inductive Numeral.Writes : List Char → Numeral → Prop
  | finite {sign mantissa digits exponent : List Char} {negative : Bool} {places : Nat} {e : Int}
      (hsign : IsSign sign negative) (hmantissa : IsMantissa mantissa digits places)
      (hexponent : IsExponent exponent e) :
      Writes (sign ++ (mantissa ++ exponent)) (.finite negative (digitsValue digits) (e - places))
  | infinite {sign word : List Char} {negative : Bool} (hsign : IsSign sign negative)
      (hword : word.map smallLetter = "inf".toList ∨ word.map smallLetter = "infinity".toList) :
      Writes (sign ++ word) (.infinite negative)
  | nan {sign word : List Char} {negative : Bool} (hsign : IsSign sign negative)
      (hword : word.map smallLetter = "nan".toList) : Writes (sign ++ word) .nan

/-! ## Signs -/

section

variable {sign body : List Char} {negative : Bool}

theorem exists_isSign (cs : List Char) : ∃ sign negative body, IsSign sign negative ∧
    cs = sign ++ body ∧ readSign cs = (negative, body) := by
  unfold readSign
  split
  · exact ⟨['-'], _, _, .minus, rfl, rfl⟩
  · exact ⟨['+'], _, _, .plus, rfl, rfl⟩
  · exact ⟨[], _, _, .none, rfl, rfl⟩

/-- A sign is read as such before whatever is no sign. -/
theorem readSign_append (hsign : IsSign sign negative)
    (hbody : ∀ c ∈ body.head?, c ≠ '-' ∧ c ≠ '+') : readSign (sign ++ body) = (negative, body) := by
  cases hsign with
  | minus => rfl
  | plus => rfl
  | none =>
    rw [List.nil_append]
    unfold readSign
    split
    · exact absurd rfl (hbody '-' rfl).1
    · exact absurd rfl (hbody '+' rfl).2
    · rfl

theorem ne_sign_of_isPlainDigit {c : Char} (h : isPlainDigit c = true) : c ≠ '-' ∧ c ≠ '+' := by
  constructor
  · rintro rfl
    exact absurd h (by decide)
  · rintro rfl
    exact absurd h (by decide)

theorem AreDigits.ne_sign {cs : List Char} (h : AreDigits cs) :
    ∀ c ∈ cs.head?, c ≠ '-' ∧ c ≠ '+' := fun c hc =>
  ne_sign_of_isPlainDigit (h c (List.mem_of_mem_head? hc))

end

theorem readDigits?_iff {cs : List Char} {n : Nat} :
    readDigits? cs = some n ↔ AreDigits cs ∧ cs ≠ [] ∧ digitsValue cs = n := by
  constructor
  · intro h
    unfold readDigits? at h
    split at h
    · exact absurd h.symm (Option.some_ne_none n)
    · rename_i hcs
      simp only [Bool.or_eq_true, Bool.not_eq_true', not_or, Bool.not_eq_true, Bool.not_eq_false,
        List.isEmpty_eq_false_iff] at hcs
      exact ⟨List.all_eq_true.mp hcs.2, hcs.1, Option.some.inj h⟩
  · rintro ⟨hdigits, hne, rfl⟩
    exact readDigits?_of_areDigits hdigits hne

theorem readInt?_eq (cs : List Char) : readInt? cs =
    (readDigits? (readSign cs).2).map fun n : Nat =>
      if (readSign cs).1 then -(n : Int) else n := by
  unfold readInt?
  dsimp only
  cases readDigits? (readSign cs).2 <;> rfl

theorem areDigits_takeWhile (cs : List Char) : AreDigits (cs.takeWhile isPlainDigit) :=
  List.all_eq_true.mp List.all_takeWhile

namespace Numeral

/-! ## Magnitudes -/

theorem readExponent?_iff {cs : List Char} {e : Int} :
    readExponent? cs = some e ↔ IsExponent cs e := by
  constructor
  · intro h
    unfold readExponent? at h
    split at h
    · obtain rfl := Option.some.inj h
      exact .none
    · rename_i letter rest
      split at h
      · rename_i hletter
        obtain ⟨sign, negative, digits, hsign, hrest, hread⟩ := exists_isSign rest
        rw [readInt?_eq, hread] at h
        obtain ⟨n, hn, rfl⟩ := Option.map_eq_some_iff.mp h
        obtain ⟨hdigits, hne, rfl⟩ := readDigits?_iff.mp hn
        rw [hrest]
        exact .power (by simpa using hletter) hsign hdigits hne
      · exact absurd h.symm (Option.some_ne_none e)
  · intro h
    cases h with
    | none => rfl
    | @power letter sign digits negative hletter hsign hdigits hne =>
      unfold readExponent?
      dsimp only
      rw [if_pos (by simpa using hletter)]
      unfold readInt?
      rw [readSign_append hsign hdigits.ne_sign]
      dsimp only
      rw [readDigits?_of_areDigits hdigits hne]
      rfl

/-- No digit and no point begins an exponent. -/
theorem head_isExponent {cs : List Char} {e : Int} (h : IsExponent cs e) :
    ∀ c ∈ cs.head?, isPlainDigit c = false ∧ c ≠ '.' := by
  intro c hc
  cases h with
  | none => exact absurd hc (by simp)
  | power hletter =>
    obtain rfl := Option.some.inj hc
    rcases hletter with rfl | rfl <;> decide

theorem readMagnitude?_iff {negative : Bool} {cs : List Char} {n : Numeral} :
    readMagnitude? negative cs = some n ↔ ∃ mantissa digits places exponent e,
      IsMantissa mantissa digits places ∧ IsExponent exponent e ∧ cs = mantissa ++ exponent ∧
        n = .finite negative (digitsValue digits) (e - places) := by
  constructor
  · intro h
    have hwhole := areDigits_takeWhile cs
    have hsplit := List.takeWhile_append_dropWhile (p := isPlainDigit) (l := cs)
    unfold readMagnitude? at h
    dsimp only at h
    generalize cs.takeWhile isPlainDigit = whole at *
    generalize cs.dropWhile isPlainDigit = rest at *
    subst hsplit
    split at h
    · rename_i more
      dsimp only at h
      split at h
      · exact absurd h.symm (Option.some_ne_none n)
      · rename_i hne
        obtain ⟨e, he, rfl⟩ := Option.map_eq_some_iff.mp h
        refine ⟨_, _, _, _, e, .point hwhole (areDigits_takeWhile more) ?_,
          readExponent?_iff.mp he, ?_, rfl⟩
        · simpa using hne
        · rw [List.append_assoc, List.cons_append, List.takeWhile_append_dropWhile]
    · dsimp only at h
      split at h
      · exact absurd h.symm (Option.some_ne_none n)
      · rename_i hne
        obtain ⟨e, he, rfl⟩ := Option.map_eq_some_iff.mp h
        refine ⟨whole, whole, 0, rest, e, .whole hwhole (by simpa using hne),
          readExponent?_iff.mp he, rfl, ?_⟩
        rw [List.append_nil]
        rfl
  · rintro ⟨mantissa, digits, places, exponent, e, hmantissa, hexponent, rfl, rfl⟩
    have hhead := head_isExponent hexponent
    have he := readExponent?_iff.mpr hexponent
    cases hmantissa with
    | whole hdigits hne =>
      rw [readMagnitude?_whole negative hdigits hne hhead he, Int.natCast_zero, Int.sub_zero]
    | point hwhole hfraction hne =>
      rw [List.append_assoc, List.cons_append]
      exact readMagnitude?_point negative hwhole hne hfraction (fun c hc => (hhead c hc).1) he

/-- A magnitude begins with a digit or a point. -/
theorem head_magnitude {mantissa digits exponent : List Char} {places : Nat} {e : Int}
    (hmantissa : IsMantissa mantissa digits places) (hexponent : IsExponent exponent e) :
    ∃ c rest, mantissa ++ exponent = c :: rest ∧ (isPlainDigit c = true ∨ c = '.') := by
  have hread : readMagnitude? false (mantissa ++ exponent) = _ :=
    readMagnitude?_iff.mpr ⟨_, _, _, _, _, hmantissa, hexponent, rfl, rfl⟩
  exact readMagnitude?_head hread

/-! ## Numerals -/

/-- A numeral is read behind its sign. -/
theorem read?_congr {cs cs' : List Char} (h : readSign cs = readSign cs') :
    read? cs = read? cs' := by
  unfold read?
  rw [h]

theorem head_word {word : List Char} {c : Char} {rest : List Char}
    (h : word.map smallLetter = c :: rest) (hc : c ∉ ['-', '+']) :
    ∀ d ∈ word.head?, d ≠ '-' ∧ d ≠ '+' := by
  intro d hd
  obtain ⟨tail, rfl⟩ := List.head?_eq_some_iff.mp hd
  have hsmall : smallLetter d = c := (List.cons.inj h).1
  constructor
  · rintro rfl
    exact hc (hsmall ▸ by decide)
  · rintro rfl
    exact hc (hsmall ▸ by decide)

theorem ofList_beq {cs : List Char} {s : String} :
    (String.ofList cs == s) = true ↔ cs = s.toList := by
  rw [beq_iff_eq]
  constructor
  · rintro rfl
    exact String.toList_ofList.symm
  · rintro rfl
    exact String.ofList_toList

/-- **Numerals.** The reader accepts what the grammar writes, and reads it as that. -/
theorem read?_iff {cs : List Char} {n : Numeral} : read? cs = some n ↔ Writes cs n := by
  constructor
  · intro h
    obtain ⟨sign, negative, body, hsign, hcs, hread⟩ := exists_isSign cs
    unfold read? at h
    rw [hread] at h
    subst hcs
    dsimp only at h
    split at h
    · rename_i hword
      rw [Bool.or_eq_true, ofList_beq, ofList_beq] at hword
      obtain rfl := Option.some.inj h
      exact .infinite hsign hword
    · split at h
      · rename_i hword
        obtain rfl := Option.some.inj h
        exact .nan hsign (ofList_beq.mp hword)
      · obtain ⟨mantissa, digits, places, exponent, e, hmantissa, hexponent, rfl, rfl⟩ :=
          readMagnitude?_iff.mp h
        exact .finite hsign hmantissa hexponent
  · intro h
    cases h with
    | @finite sign mantissa digits exponent negative places e hsign hmantissa hexponent =>
      have hread : readMagnitude? negative (mantissa ++ exponent) = _ :=
        readMagnitude?_iff.mpr ⟨_, _, _, _, _, hmantissa, hexponent, rfl, rfl⟩
      obtain ⟨c, rest, hcons, hc⟩ := head_magnitude hmantissa hexponent
      have hhead : ∀ d ∈ (mantissa ++ exponent).head?, d ≠ '-' ∧ d ≠ '+' := by
        rw [hcons]
        intro d hd
        obtain rfl := Option.some.inj hd
        rcases hc with hdigit | rfl
        · exact ne_sign_of_isPlainDigit hdigit
        · decide
      have hplain : IsSign (if negative then ['-'] else []) negative := by
        cases negative
        · exact .none
        · exact .minus
      rw [← read?_of_readMagnitude? hread]
      refine read?_congr ((readSign_append hsign hhead).trans ?_)
      rw [← readSign_append hplain hhead]
      cases negative <;> rfl
    | @infinite sign word negative hsign hword =>
      have hhead : ∀ d ∈ word.head?, d ≠ '-' ∧ d ≠ '+' :=
        hword.elim (fun h => head_word h (by decide)) fun h => head_word h (by decide)
      unfold read?
      rw [readSign_append hsign hhead]
      dsimp only
      rw [if_pos (by rw [Bool.or_eq_true, ofList_beq, ofList_beq]; exact hword)]
    | @nan sign word negative hsign hword =>
      unfold read?
      rw [readSign_append hsign (head_word hword (by decide))]
      dsimp only
      rw [hword]
      rfl

/-! ## Characters of numerals -/

/-- The characters that a finite numeral is written with. -/
def characters : List Char := "0123456789.+-eE".toList

theorem mem_characters_of_isPlainDigit {c : Char} (h : isPlainDigit c = true) : c ∈ characters :=
  List.mem_append_left ".+-eE".toList (mem_of_isPlainDigit h)

theorem mem_characters_of_isSign {sign : List Char} {negative : Bool} (h : IsSign sign negative) :
    ∀ c ∈ sign, c ∈ characters := by
  cases h with
  | none => exact List.forall_mem_nil _
  | plus => exact List.forall_mem_singleton.mpr (by decide)
  | minus => exact List.forall_mem_singleton.mpr (by decide)

theorem mem_characters {cs : List Char} {negative : Bool} {m : Nat} {e : Int}
    (h : Writes cs (.finite negative m e)) : ∀ c ∈ cs, c ∈ characters := by
  have point : '.' ∈ characters := by decide
  cases h with
  | finite hsign hmantissa hexponent =>
    intro c hc
    rcases List.mem_append.mp hc with hc | hc
    · exact mem_characters_of_isSign hsign c hc
    rcases List.mem_append.mp hc with hc | hc
    · cases hmantissa with
      | whole hdigits => exact mem_characters_of_isPlainDigit (hdigits c hc)
      | point hwhole hfraction =>
        rcases List.mem_append.mp hc with hc | hc
        · exact mem_characters_of_isPlainDigit (hwhole c hc)
        · rcases List.mem_cons.mp hc with rfl | hc
          · exact point
          · exact mem_characters_of_isPlainDigit (hfraction c hc)
    · cases hexponent with
      | none => exact absurd hc List.not_mem_nil
      | power hletter hsign hdigits =>
        rcases List.mem_cons.mp hc with rfl | hc
        · rcases hletter with rfl | rfl <;> decide
        · exact (List.mem_append.mp hc).elim (mem_characters_of_isSign hsign c)
            fun hc => mem_characters_of_isPlainDigit (hdigits c hc)

/-- None of them is a digit of another script, an underscore, a colon or white space. -/
theorem plain_of_mem_characters {c : Char} (h : c ∈ characters) :
    plainDigit c = c ∧ c ≠ '_' ∧ c ≠ ':' ∧ isBlank c = false := by
  have hall : characters.all fun c =>
      plainDigit c == c && c != '_' && c != ':' && !isBlank c := by decide
  simpa [and_assoc] using List.all_eq_true.mp hall c h

end Numeral

/-! ## Floating numbers -/

/-- `plain` is `cs` in plain digits and without its underscores, each of which stands between two
digits. -/
inductive Spells : List Char → List Char → Prop
  | nil : Spells [] []
  | char {c : Char} {cs plain : List Char} (hc : c ≠ '_') (h : Spells cs plain) :
      Spells (c :: cs) (plainDigit c :: plain)
  | underscore {c d : Char} {cs plain : List Char} (hc : isDecimalDigit c = true)
      (hd : isDecimalDigit d = true) (h : Spells (d :: cs) plain) :
      Spells (c :: '_' :: d :: cs) (plainDigit c :: plain)

theorem digitValue?_le {c : Char} {d : Nat} (h : digitValue? c = some d) : d < 10 := by
  unfold digitValue? at h
  split at h
  · split at h
    · rename_i hc
      obtain rfl := Option.some.inj h
      simp only [Bool.and_eq_true, decide_eq_true_eq, Char.le_def, UInt32.le_iff_toNat_le] at hc
      have : c.toNat ≤ 57 := hc.2
      omega
    · exact absurd h.symm (Option.some_ne_none d)
  · obtain ⟨z, hz, rfl⟩ := Option.map_eq_some_iff.mp h
    have := List.find?_some hz
    simp only [Bool.and_eq_true, decide_eq_true_eq] at this
    omega

/-- Digits of all scripts become plain ones, and nothing else does. -/
theorem isPlainDigit_plainDigit (c : Char) : isPlainDigit (plainDigit c) = isDecimalDigit c := by
  unfold plainDigit isDecimalDigit
  cases h : digitValue? c with
  | some d =>
    have hd := digitValue?_le h
    dsimp only
    clear h
    interval_cases d <;> rfl
  | none =>
    unfold digitValue? at h
    refine Bool.eq_false_iff.mpr fun hc => ?_
    have hmem := mem_of_isPlainDigit hc
    have hall : "0123456789".toList.all fun c => c.toNat < 128 := by decide
    have hascii : c.toNat < 128 := by simpa using List.all_eq_true.mp hall c hmem
    unfold isPlainDigit at hc
    rw [if_pos hascii, if_pos hc] at h
    exact Option.some_ne_none _ h

theorem plainDigit_eq_underscore {c : Char} : plainDigit c = '_' ↔ c = '_' := by
  constructor
  · intro h
    unfold plainDigit at h
    cases hvalue : digitValue? c with
    | none =>
      rw [hvalue] at h
      exact h
    | some d =>
      have hd := digitValue?_le hvalue
      rw [hvalue] at h
      dsimp only at h
      clear hvalue
      interval_cases d <;> exact absurd h (by decide)
  · rintro rfl
    decide

/-- `plain` is spelled behind a character: like any text, or behind a digit with an underscore
before the next digit. -/
def SpellsBehind (afterDigit : Bool) (cs plain : List Char) : Prop :=
  Spells cs plain ∨ afterDigit = true ∧ ∃ d rest, cs = '_' :: d :: rest ∧
    isDecimalDigit d = true ∧ Spells (d :: rest) plain

theorem spells_cons_iff {c : Char} {cs plain : List Char} (hc : c ≠ '_') :
    Spells (c :: cs) plain ↔
      ∃ p, SpellsBehind (isDecimalDigit c) cs p ∧ plainDigit c :: p = plain := by
  constructor
  · intro h
    cases h with
    | char _ h => exact ⟨_, .inl h, rfl⟩
    | underscore hdigit hd h => exact ⟨_, .inr ⟨hdigit, _, _, rfl, hd, h⟩, rfl⟩
  · rintro ⟨p, h | ⟨hdigit, d, rest, rfl, hd, h⟩, rfl⟩
    · exact .char hc h
    · exact .underscore hdigit hd h

theorem not_spells_underscore (cs plain : List Char) : ¬ Spells ('_' :: cs) plain := by
  intro h
  cases h with
  | char hc => exact hc rfl
  | underscore hc => exact absurd hc (by decide)

theorem ne_underscore_of_isDecimalDigit {c : Char} (h : isDecimalDigit c = true) : c ≠ '_' := by
  rintro rfl
  exact absurd h (by decide)

namespace dropUnderscores?

theorem go_underscore (afterDigit : Bool) (d : Char) (cs : List Char) :
    go afterDigit ('_' :: d :: cs) =
      if afterDigit && isPlainDigit d then (go true cs).map (d :: ·) else none := by
  rw [go]

theorem go_cons {c : Char} (hc : c ≠ '_') (afterDigit : Bool) (cs : List Char) :
    go afterDigit (c :: cs) = (go (isPlainDigit c) cs).map (c :: ·) := by
  rw [go]
  · exact fun _ _ h => absurd h hc
  · exact fun h => absurd h hc

theorem go_iff (afterDigit : Bool) (cs plain : List Char) :
    go afterDigit (cs.map plainDigit) = some plain ↔ SpellsBehind afterDigit cs plain := by
  match cs with
  | [] =>
    refine ⟨fun h => ?_, ?_⟩
    · obtain rfl := Option.some.inj h
      exact .inl .nil
    · rintro (h | ⟨-, _, _, h, -⟩)
      · cases h
        rfl
      · exact absurd h.symm (List.cons_ne_nil _ _)
  | c :: rest =>
    by_cases hc : c = '_'
    · subst hc
      unfold SpellsBehind
      rw [or_iff_right (not_spells_underscore _ _), List.map_cons,
        plainDigit_eq_underscore.mpr rfl]
      match rest with
      | [] => simp [go]
      | d :: rest =>
        rw [List.map_cons, go_underscore, isPlainDigit_plainDigit, Option.ite_none_right_eq_some,
          Option.map_eq_some_iff, Bool.and_eq_true]
        constructor
        · rintro ⟨⟨hafter, hd⟩, p, hp, rfl⟩
          refine ⟨hafter, d, rest, rfl, hd, ?_⟩
          refine (spells_cons_iff (ne_underscore_of_isDecimalDigit hd)).mpr ⟨p, ?_, rfl⟩
          rw [hd]
          exact (go_iff true rest p).mp hp
        · rintro ⟨hafter, d', rest', heq, hd, h⟩
          obtain ⟨rfl, rfl⟩ := List.cons.inj (List.cons.inj heq).2
          obtain ⟨p, hp, rfl⟩ := (spells_cons_iff (ne_underscore_of_isDecimalDigit hd)).mp h
          rw [hd] at hp
          exact ⟨⟨hafter, hd⟩, p, (go_iff true rest p).mpr hp, rfl⟩
    · have hplain : SpellsBehind afterDigit (c :: rest) plain ↔ Spells (c :: rest) plain := by
        refine or_iff_left ?_
        rintro ⟨-, _, _, heq, -⟩
        exact hc (List.cons.inj heq).1
      rw [List.map_cons, go_cons (mt plainDigit_eq_underscore.mp hc), isPlainDigit_plainDigit,
        hplain, spells_cons_iff hc, Option.map_eq_some_iff]
      exact exists_congr fun p => and_congr_left fun _ => go_iff (isDecimalDigit c) rest p
termination_by cs.length

end dropUnderscores?

theorem dropUnderscores?_iff {cs plain : List Char} :
    dropUnderscores? (cs.map plainDigit) = some plain ↔ Spells cs plain := by
  unfold dropUnderscores?
  rw [dropUnderscores?.go_iff]
  unfold SpellsBehind
  simp

theorem spells_of_mem_characters {cs : List Char} (h : ∀ c ∈ cs, c ∈ Numeral.characters) :
    Spells cs cs := by
  induction cs with
  | nil => exact .nil
  | cons c cs ih =>
    obtain ⟨hc, hcs⟩ := List.forall_mem_cons.mp h
    obtain ⟨hplain, hne, -, -⟩ := Numeral.plain_of_mem_characters hc
    have hspells := Spells.char hne (ih hcs)
    rwa [hplain] at hspells

/-- **Floating numbers.** A text that spells a padded numeral reads as a floating number. -/
theorem Binary64.read?_iff {s : String} {x : Binary64} :
    Binary64.read? s = some x ↔ ∃ plain n, Spells (trim isNumeralPadding s.toList) plain ∧
      Numeral.Writes plain n ∧ Binary64.ofNumeral n = x := by
  unfold Binary64.read? plainNumeral?
  rw [Option.map_eq_some_iff]
  constructor
  · rintro ⟨n, hn, rfl⟩
    obtain ⟨plain, hplain, hread⟩ := Option.bind_eq_some_iff.mp hn
    exact ⟨plain, n, dropUnderscores?_iff.mp hplain, Numeral.read?_iff.mp hread, rfl⟩
  · rintro ⟨plain, n, hplain, hwrites, rfl⟩
    refine ⟨n, ?_, rfl⟩
    rw [dropUnderscores?_iff.mpr hplain]
    exact Numeral.read?_iff.mpr hwrites

/-! ## Decimals -/

namespace Decimal

/-- A text in plain digits, without white space around it and without underscores. -/
def bare (cs : List Char) : List Char := ((trim isBlank cs).filter (· != '_')).map plainDigit

/-- A text in the characters of numerals is bare. -/
theorem bare_of_mem_characters {cs : List Char} (h : ∀ c ∈ cs, c ∈ Numeral.characters) :
    bare cs = cs := by
  have hplain := fun c hc => Numeral.plain_of_mem_characters (h c hc)
  have hfilter : cs.filter (· != '_') = cs :=
    List.filter_eq_self.mpr fun c hc => bne_iff_ne.mpr (hplain c hc).2.1
  unfold bare
  rw [trim_eq_self fun c hc => (hplain c hc).2.2.2, hfilter]
  exact (List.map_congr_left fun c hc => (hplain c hc).1).trans (List.map_id cs)

/-- A text writes a decimal: a numeral within the limits of what can be written down, infinity, or
no number with the digits of a payload. -/
inductive Writes : List Char → Decimal → Prop
  | finite {cs : List Char} {negative : Bool} {c : Nat} {e : Int}
      (h : Numeral.Writes cs (.finite negative c e)) (hlimits : writable c e = true) :
      Writes cs (.finite negative c e)
  | infinite {cs : List Char} {negative : Bool} (h : Numeral.Writes cs (.infinite negative)) :
      Writes cs (.infinite negative)
  | nan {sign word payload : List Char} {negative : Bool} (hsign : IsSign sign negative)
      (hword : word.map smallLetter = "nan".toList) (hpayload : AreDigits payload) :
      Writes (sign ++ (word ++ payload)) (.nan false negative (digitsValue payload))
  | signalling {sign word payload : List Char} {negative : Bool} (hsign : IsSign sign negative)
      (hword : word.map smallLetter = "snan".toList) (hpayload : AreDigits payload) :
      Writes (sign ++ (word ++ payload)) (.nan true negative (digitsValue payload))

theorem smallLetter_of_isPlainDigit {c : Char} (h : isPlainDigit c = true) : smallLetter c = c := by
  have hall : "0123456789".toList.all fun c => smallLetter c == c := by decide
  simpa using List.all_eq_true.mp hall c (mem_of_isPlainDigit h)

/-- No letter becomes a digit when it becomes small. -/
theorem smallLetter_eq_self {c : Char} (h : isPlainDigit (smallLetter c) = true) :
    smallLetter c = c := by
  by_cases hcapital : 65 ≤ c.toNat ∧ c.toNat ≤ 90
  · rw [← Char.ofNat_toNat c] at h
    generalize c.toNat = n at *
    obtain ⟨hlow, hhigh⟩ := hcapital
    interval_cases n <;> exact absurd h (by decide)
  · refine if_neg fun hc => hcapital ?_
    simpa [Char.le_def, UInt32.le_iff_toNat_le] using hc

theorem map_smallLetter_of_areDigits {cs : List Char} (h : AreDigits cs) :
    cs.map smallLetter = cs :=
  (List.map_congr_left fun c hc => smallLetter_of_isPlainDigit (h c hc)).trans (List.map_id cs)

theorem map_smallLetter_eq_self {cs : List Char} (h : AreDigits (cs.map smallLetter)) :
    cs.map smallLetter = cs :=
  (List.map_congr_left fun _ hc =>
    smallLetter_eq_self (h _ (List.mem_map_of_mem hc))).trans (List.map_id cs)

theorem exists_payload {cs word digits : List Char} (h : cs.map smallLetter = word ++ digits)
    (hdigits : digits.all isPlainDigit = true) :
    ∃ word', cs = word' ++ digits ∧ word'.map smallLetter = word := by
  obtain ⟨word', payload, rfl, hword, rfl⟩ := List.map_eq_append_iff.mp h
  rw [map_smallLetter_eq_self (List.all_eq_true.mp hdigits)]
  exact ⟨word', rfl, hword⟩

theorem readNaN?_iff {negative : Bool} {cs : List Char} {d : Decimal} :
    readNaN? negative cs = some d ↔ ∃ word payload, cs = word ++ payload ∧ AreDigits payload ∧
      (word.map smallLetter = "nan".toList ∧ d = .nan false negative (digitsValue payload) ∨
        word.map smallLetter = "snan".toList ∧ d = .nan true negative (digitsValue payload)) := by
  constructor
  · intro h
    unfold readNaN? at h
    split at h
    · rename_i digits hsmall
      rw [Option.ite_none_right_eq_some] at h
      obtain ⟨hdigits, hd⟩ := h
      obtain ⟨word, rfl, hword⟩ := exists_payload (show _ = "nan".toList ++ _ from hsmall) hdigits
      exact ⟨word, digits, rfl, List.all_eq_true.mp hdigits,
        .inl ⟨hword, (Option.some.inj hd).symm⟩⟩
    · rename_i digits hsmall
      rw [Option.ite_none_right_eq_some] at h
      obtain ⟨hdigits, hd⟩ := h
      obtain ⟨word, rfl, hword⟩ := exists_payload (show _ = "snan".toList ++ _ from hsmall) hdigits
      exact ⟨word, digits, rfl, List.all_eq_true.mp hdigits,
        .inr ⟨hword, (Option.some.inj hd).symm⟩⟩
    · exact absurd h.symm (Option.some_ne_none d)
  · rintro ⟨word, payload, rfl, hpayload, ⟨hword, rfl⟩ | ⟨hword, rfl⟩⟩
    · unfold readNaN?
      rw [List.map_append, hword, map_smallLetter_of_areDigits hpayload]
      exact if_pos (List.all_eq_true.mpr hpayload)
    · unfold readNaN?
      rw [List.map_append, hword, map_smallLetter_of_areDigits hpayload]
      exact if_pos (List.all_eq_true.mpr hpayload)

/-- A text whose first letter begins no such word is none. -/
theorem readNaN?_eq_none {negative : Bool} {cs : List Char}
    (h : ∀ c ∈ cs.head?, smallLetter c ≠ 'n' ∧ smallLetter c ≠ 's') :
    readNaN? negative cs = none := by
  unfold readNaN?
  split
  · rename_i hsmall
    obtain ⟨c, rest, rfl, hc, -⟩ := List.map_eq_cons_iff.mp hsmall
    exact absurd hc (h c rfl).1
  · rename_i hsmall
    obtain ⟨c, rest, rfl, hc, -⟩ := List.map_eq_cons_iff.mp hsmall
    exact absurd hc (h c rfl).2
  · rfl

/-- What a numeral that is no word for no number begins with behind its sign. -/
theorem head_readSign {cs : List Char} {n : Numeral} (h : Numeral.Writes cs n) (hn : n ≠ .nan) :
    ∀ c ∈ (readSign cs).2.head?, smallLetter c ≠ 'n' ∧ smallLetter c ≠ 's' := by
  cases h with
  | finite hsign hmantissa hexponent =>
    obtain ⟨c, rest, hcons, hc⟩ := Numeral.head_magnitude hmantissa hexponent
    have hmem : c ∈ "0123456789.".toList := by
      rcases hc with hc | rfl
      · exact List.mem_append_left ['.'] (mem_of_isPlainDigit hc)
      · decide
    have hall : "0123456789.".toList.all fun c => c != '-' && c != '+' &&
        smallLetter c != 'n' && smallLetter c != 's' := by decide
    have hchar := List.all_eq_true.mp hall c hmem
    simp only [Bool.and_eq_true, bne_iff_ne, and_assoc] at hchar
    obtain ⟨hminus, hplus, hsmall⟩ := hchar
    have hhead : ∀ d ∈ (c :: rest).head?, d ≠ '-' ∧ d ≠ '+' := fun d hd =>
      Option.some.inj hd ▸ ⟨hminus, hplus⟩
    rw [hcons, readSign_append hsign hhead]
    exact fun d hd => Option.some.inj hd ▸ hsmall
  | @infinite sign word negative hsign hword =>
    obtain ⟨rest, hrest⟩ : ∃ rest, word.map smallLetter = 'i' :: rest :=
      hword.elim (fun h => ⟨_, h⟩) fun h => ⟨_, h⟩
    obtain ⟨c, tail, rfl, hc, -⟩ := List.map_eq_cons_iff.mp hrest
    rw [readSign_append hsign (Numeral.head_word hrest (by decide))]
    intro d hd
    obtain rfl := Option.some.inj hd
    rw [hc]
    decide
  | nan => exact absurd rfl hn

/-- A word is read behind its sign. -/
theorem readSign_word {sign word payload : List Char} {negative : Bool} {c : Char}
    {rest : List Char} (hsign : IsSign sign negative) (hword : word.map smallLetter = c :: rest)
    (hc : c ∉ ['-', '+']) :
    readSign (sign ++ (word ++ payload)) = (negative, word ++ payload) := by
  have hbody : (word ++ payload).map smallLetter = c :: (rest ++ payload.map smallLetter) := by
    rw [List.map_append, hword, List.cons_append]
  exact readSign_append hsign (Numeral.head_word hbody hc)

/-- **Decimals.** A text reads as a decimal if its bare form writes it. -/
theorem read?_iff {s : String} {d : Decimal} : read? s = some d ↔ Writes (bare s.toList) d := by
  have hbare : ((trim isBlank s.toList).filter (· != '_')).map plainDigit = bare s.toList := rfl
  unfold read?
  dsimp only
  rw [hbare]
  generalize bare s.toList = cs
  obtain ⟨sign, negative, body, hsign, hcs, hread⟩ := exists_isSign cs
  rw [hread]
  dsimp only
  constructor
  · intro h
    split at h
    · rename_i d' hnan
      obtain rfl := Option.some.inj h
      obtain ⟨word, payload, rfl, hpayload, ⟨hword, rfl⟩ | ⟨hword, rfl⟩⟩ :=
        readNaN?_iff.mp hnan
      · exact hcs ▸ .nan hsign hword hpayload
      · exact hcs ▸ .signalling hsign hword hpayload
    · split at h
      · rename_i hread
        obtain rfl := Option.some.inj h
        exact .infinite (Numeral.read?_iff.mp hread)
      · rename_i hread
        rw [Option.ite_none_right_eq_some] at h
        obtain ⟨hlimits, hd⟩ := h
        obtain rfl := Option.some.inj hd
        exact .finite (Numeral.read?_iff.mp hread) hlimits
      · exact absurd h.symm (Option.some_ne_none d)
  · intro h
    have hhead : ∀ n, Numeral.Writes cs n → n ≠ .nan →
        ∀ c ∈ body.head?, smallLetter c ≠ 'n' ∧ smallLetter c ≠ 's' := by
      intro n h hn
      have hsmall := head_readSign h hn
      rwa [hread] at hsmall
    cases h with
    | finite h hlimits =>
      rw [readNaN?_eq_none (hhead _ h Numeral.noConfusion), Numeral.read?_iff.mpr h]
      exact if_pos hlimits
    | infinite h =>
      rw [readNaN?_eq_none (hhead _ h Numeral.noConfusion), Numeral.read?_iff.mpr h]
    | nan hsign hword hpayload =>
      rw [readSign_word hsign hword (by decide)] at hread
      obtain ⟨rfl, rfl⟩ := Prod.mk.inj hread
      rw [readNaN?_iff.mpr ⟨_, _, rfl, hpayload, .inl ⟨hword, rfl⟩⟩]
    | signalling hsign hword hpayload =>
      rw [readSign_word hsign hword (by decide)] at hread
      obtain ⟨rfl, rfl⟩ := Prod.mk.inj hread
      rw [readNaN?_iff.mpr ⟨_, _, rfl, hpayload, .inr ⟨hword, rfl⟩⟩]

end Decimal

end StillVideo
