import StillVideo.Proofs.FewestDigits

/-!
# Printed numbers

How a graph writes a finite number (`Prints`, `graphNumber_prints`): as a numeral of the fewest
digits that read back to the number, clear of the characters that mean something in a graph, and
without a point and a zero at its end. A numeral has one point at most
(`Numeral.Writes.count_point_le`), so what is left of one that ended so has no point at all. Two
texts agree only for one number, or for the two zeros.
-/

namespace StillVideo

attribute [local instance (2000)] instPowNat

/-! ## Points -/

theorem AreDigits.count_point {cs : List Char} (h : AreDigits cs) : cs.count '.' = 0 :=
  List.count_eq_zero.mpr fun hmem => absurd (h '.' hmem) (by decide)

theorem IsSign.count_point {cs : List Char} {negative : Bool} (h : IsSign cs negative) :
    cs.count '.' = 0 := by
  cases h <;> rfl

theorem IsMantissa.count_point_le {cs digits : List Char} {places : Nat}
    (h : IsMantissa cs digits places) : cs.count '.' ≤ 1 := by
  cases h with
  | whole hdigits => exact Nat.le_succ_of_le (Nat.le_of_eq hdigits.count_point)
  | point hwhole hfraction =>
    rw [List.count_append, List.count_cons_self, hwhole.count_point, hfraction.count_point]

theorem IsExponent.count_point {cs : List Char} {e : Int} (h : IsExponent cs e) :
    cs.count '.' = 0 := by
  cases h with
  | none => rfl
  | power hletter hsign hdigits =>
    rcases hletter with rfl | rfl <;>
      rw [List.count_cons_of_ne (by decide), List.count_append, hsign.count_point,
        hdigits.count_point]

namespace Numeral

variable {cs : List Char} {negative : Bool} {c : Nat} {e : Int}

/-- A numeral has one point at most. -/
theorem Writes.count_point_le (h : Writes cs (.finite negative c e)) : cs.count '.' ≤ 1 := by
  cases h with
  | finite hsign hmantissa hexponent =>
    rw [List.count_append, List.count_append, hsign.count_point, hexponent.count_point]
    have := hmantissa.count_point_le
    omega

/-- No numeral ends with a point and a zero once these have been dropped. -/
theorem Writes.not_suffix_dropPointZero (h : Writes cs (.finite negative c e)) :
    ¬ ['.', '0'] <:+ dropPointZero cs := by
  by_cases hsuffix : ['.', '0'] <:+ cs
  · obtain ⟨rest, rfl⟩ := hsuffix
    rw [dropPointZero_append]
    intro hrest
    have hcount := h.count_point_le
    have hpoint : 0 < rest.count '.' := List.count_pos_iff.mpr (hrest.subset List.mem_cons_self)
    rw [List.count_append, show ['.', '0'].count '.' = 1 from rfl] at hcount
    omega
  · rwa [dropPointZero_of_not_suffix hsuffix]

end Numeral

namespace Binary64

attribute [local irreducible] one bound

/-! ## What reads as a number -/

theorem units_of_ofUnits {s t : Bool} {u v : Nat} {hrep : Representable u}
    (h : ofUnits s v = .finite t u hrep) : v = u := by
  unfold ofUnits at h
  split at h
  · exact (Binary64.finite.inj h).2
  · exact absurd h Binary64.noConfusion

/-- What reads as a number other than zero rounds to its magnitude. -/
theorem roundsTo_of_ofNumeral {s t : Bool} {u c : Nat} {e : Int} {hrep : Representable u}
    (hu : 0 < u) (h : ofNumeral (.finite s c e) = .finite t u hrep) : roundsTo u c e = true := by
  have nonzero : ofNumeral (.finite s c e) ≠ ofUnits s 0 := by
    intro hzero
    exact Nat.ne_of_lt hu (units_of_ofUnits (hzero ▸ h))
  have hc : 0 < c := by
    rcases Nat.eq_zero_or_pos c with rfl | hc
    · exact absurd (by rw [ofNumeral, if_pos rfl]) nonzero
    · exact hc
  have hhigh : e + (decimalDigits c).length ≤ 310 := by
    by_contra hlarge
    unfold decimalDigits at hlarge
    unfold ofNumeral at h
    dsimp only at h
    rw [if_neg (Nat.ne_of_gt hc), if_pos (Int.not_le.mp hlarge)] at h
    exact absurd h Binary64.noConfusion
  have hlow : -330 ≤ e + (decimalDigits c).length := by
    by_contra hsmall
    refine nonzero ?_
    unfold decimalDigits at hhigh hsmall
    unfold ofNumeral
    dsimp only
    rw [if_neg (Nat.ne_of_gt hc), if_neg (Int.not_lt.mpr hhigh), if_pos (Int.not_le.mp hsmall)]
  rw [ofNumeral_eq_ofUnits hc hlow hhigh] at h
  rw [roundsTo_iff, ← units_of_ofUnits h]
  exact reaches_roundUnits _ (Nat.pow_pos (by decide))

/-! ## Numbers in graphs -/

/-- The characters that structure a graph. -/
def graphDelimiters : List Char := ",:;|=[]()\x7b\x7d<>".toList

/-- `s` is how a graph writes the finite number `x`. -/
structure Prints (x : Binary64) (s : String) : Prop where
  /-- It is a decimal numeral, and none with fewer digits reads as the number. -/
  shortest : ∃ negative c e, Numeral.Writes s.toList (.finite negative c e) ∧
    ∀ negative' c' e', ofNumeral (.finite negative' c' e') = x →
      (significant c).length ≤ (significant c').length
  /-- It reads back to the number, only a zero loses its sign. -/
  reads_back : read? s = some x.unsignedZero
  undelimited : ∀ c ∈ s.toList, c ∉ graphDelimiters ∧ isBlank c = false
  no_point_zero : ¬ ['.', '0'] <:+ s.toList
  /-- A whole number of less than seventeen digits is written without a point. -/
  whole : ∀ n : Int, x.signedUnits = n * one → n.natAbs < 10 ^ 16 →
    s = toString n ∧ '.' ∉ s.toList

/-- The numeral that a number is written as has the fewest digits of all that read as it. -/
theorem writes_graphNumber {x : Binary64} (hx : x.isFinite = true) :
    ∃ negative c e, Numeral.Writes (graphNumber x).toList (.finite negative c e) ∧
      ∀ negative' c' e', ofNumeral (.finite negative' c' e') = x →
        (significant c).length ≤ (significant c').length := by
  cases x with
  | nan => exact absurd hx Bool.false_ne_true
  | infinite negative => exact absurd hx Bool.false_ne_true
  | finite negative u hrep =>
    rcases Nat.eq_zero_or_pos u with rfl | hu
    · rw [graphNumber_zero]
      exact ⟨false, 0, 0, Numeral.read?_iff.mp (by decide), fun _ _ _ _ => Nat.zero_le _⟩
    · obtain ⟨m, n, k, hdigits, hread⟩ := exists_read?_graphNumber hu hrep negative
      refine ⟨_, _, _, Numeral.read?_iff.mp hread, fun _ _ _ h => ?_⟩
      have hm : 0 < m := by
        have := pos_of_roundsTo hu (roundsTo_shortest hu)
        rw [hdigits] at this
        exact Nat.pos_of_mul_pos_right this
      rw [significant_mul_pow hm, ← significant_mul_pow hm n, ← hdigits]
      exact length_significant_shortest_le hu (roundsTo_of_ofNumeral hu h)

theorem read?_graphNumber {x : Binary64} {negative : Bool} {c : Nat} {e : Int}
    (h : Numeral.Writes (graphNumber x).toList (.finite negative c e)) :
    read? (graphNumber x) = some x.unsignedZero := by
  have hchars := Numeral.mem_characters h
  have hback := ofNumeral_read?_graphNumber x
  rw [Numeral.read?_iff.mpr h] at hback
  refine read?_iff.mpr ⟨_, _, ?_, h, Option.some.inj hback⟩
  rw [trim_eq_self]
  · exact spells_of_mem_characters hchars
  · intro c hc
    unfold isNumeralPadding
    rw [(Numeral.plain_of_mem_characters (hchars c hc)).2.2.2, Bool.false_and]

theorem not_mem_delimiters {c : Char} (h : c ∈ Numeral.characters) :
    c ∉ graphDelimiters ∧ isBlank c = false := by
  have hall : Numeral.characters.all fun c => !graphDelimiters.contains c := by decide
  have hc := List.all_eq_true.mp hall c h
  exact ⟨by simpa using hc, (Numeral.plain_of_mem_characters h).2.2.2⟩

theorem point_not_mem_whole (n : Int) : '.' ∉ (toString n).toList := by
  cases n with
  | ofNat m =>
    rw [toList_ofNatRepr]
    exact List.count_eq_zero.mp (areDigits_decimalDigits m).count_point
  | negSucc m =>
    rw [toList_negSuccRepr, List.mem_cons, not_or]
    exact ⟨by decide, List.count_eq_zero.mp (areDigits_decimalDigits (m + 1)).count_point⟩

theorem graphNumber_not_suffix {x : Binary64} (hx : x.isFinite = true) :
    ¬ ['.', '0'] <:+ (graphNumber x).toList := by
  obtain ⟨negative, c, e, hwrites, -⟩ := exists_writes_text hx
  unfold graphNumber
  dsimp only
  split
  · decide
  · rw [String.toList_ofList]
    exact hwrites.not_suffix_dropPointZero

theorem eq_of_unsignedZero_eq {x y : Binary64} (h : x.unsignedZero = y.unsignedZero) :
    x = y ∨ x.unsignedZero = zero ∧ y.unsignedZero = zero := by
  have cases : ∀ z : Binary64, z.unsignedZero = z ∨ z.unsignedZero = zero := by
    intro z
    cases z with
    | nan => exact .inl rfl
    | infinite negative => exact .inl rfl
    | finite negative u hrep =>
      rcases Nat.eq_zero_or_pos u with rfl | hu
      · exact .inr (unsignedZero_zero negative hrep)
      · exact .inl (unsignedZero_of_pos hu)
  rcases cases x with hx | hx
  · rcases cases y with hy | hy
    · exact .inl (hx ▸ hy ▸ h)
    · exact .inr ⟨h.trans hy, hy⟩
  · exact .inr ⟨hx, h.symm.trans hx⟩

/-- **Printed numbers.** Every finite number is written so, and no other number has its text, the
two zeros apart. -/
theorem graphNumber_prints {x : Binary64} (hx : x.isFinite = true) :
    Prints x (graphNumber x) ∧ ∀ y, graphNumber y = graphNumber x →
      y = x ∨ y.unsignedZero = zero ∧ x.unsignedZero = zero := by
  obtain ⟨negative, c, e, hwrites, hfewest⟩ := writes_graphNumber hx
  have hread := read?_graphNumber hwrites
  refine ⟨⟨⟨negative, c, e, hwrites, hfewest⟩, hread, ?_, graphNumber_not_suffix hx, ?_⟩, ?_⟩
  · exact fun c hc => not_mem_delimiters (Numeral.mem_characters hwrites c hc)
  · intro n hunits hn
    have htext := graphNumber_whole hx hunits hn
    exact ⟨htext, htext ▸ point_not_mem_whole n⟩
  · intro y h
    refine eq_of_unsignedZero_eq ?_
    have hy := ofNumeral_read?_graphNumber y
    rw [h, ofNumeral_read?_graphNumber x] at hy
    exact (Option.some.inj hy).symm

/-- The smallest number of the format is written with one digit. -/
theorem graphNumber_prints_smallest :
    (ofNumeral (.finite false 5 (-324))).isFinite = true ∧
      graphNumber (ofNumeral (.finite false 5 (-324))) = "5e-324" ∧
      Prints (ofNumeral (.finite false 5 (-324))) "5e-324" ∧
      ∀ y, graphNumber y = "5e-324" → y = ofNumeral (.finite false 5 (-324)) ∨
        y.unsignedZero = zero ∧ (ofNumeral (.finite false 5 (-324))).unsignedZero = zero := by
  have hfinite : (ofNumeral (.finite false 5 (-324))).isFinite = true := by decide +kernel
  have htext : graphNumber (ofNumeral (.finite false 5 (-324))) = "5e-324" := by decide +kernel
  have hprints := graphNumber_prints hfinite
  rw [htext] at hprints
  exact ⟨hfinite, htext, hprints⟩

/-- Far below zero a whole number is written with an exponent, and with a point before it. -/
theorem exists_whole_with_point : ¬ ∀ (x : Binary64) (n : Int), x.isFinite = true →
    x.signedUnits = n * one → n < 10 ^ 16 → '.' ∉ (graphNumber x).toList := by
  intro h
  refine h (ofInt (-15 * 10 ^ 19)) (-15 * 10 ^ 19) ?_ ?_ (by decide) ?_
  · decide +kernel
  · decide +kernel
  · decide +kernel

end Binary64

end StillVideo
