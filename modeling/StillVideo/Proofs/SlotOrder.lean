import Mathlib.Data.List.Basic
import StillVideo.InputSlots

/-!
# The order of input slots

`firstOccurrences` keeps every element once, in the order in which the elements occur first
(`pairwise_firstOccurrences`). A source therefore has the slot at which it stands behind the leading
inputs (`slotOf_eq_ok_iff`), and it has one exactly if it is among the sources
(`exists_slotOf_iff`).
-/

namespace StillVideo

/-! ## First occurrences -/

section

variable {seen : List String} {x : String}

theorem firstOccurrences_cons_of_mem (h : x ∈ seen) (xs : List String) :
    firstOccurrences seen (x :: xs) = firstOccurrences seen xs :=
  if_pos (List.contains_iff_mem.mpr h)

theorem firstOccurrences_cons_of_not_mem (h : x ∉ seen) (xs : List String) :
    firstOccurrences seen (x :: xs) = x :: firstOccurrences (x :: seen) xs :=
  if_neg fun hx => h (List.contains_iff_mem.mp hx)

end

theorem mem_firstOccurrences {seen xs : List String} {x : String} :
    x ∈ firstOccurrences seen xs ↔ x ∈ xs ∧ x ∉ seen := by
  induction xs generalizing seen with
  | nil => simp [firstOccurrences]
  | cons y ys ih =>
    by_cases hy : y ∈ seen
    · rw [firstOccurrences_cons_of_mem hy, ih, List.mem_cons]
      constructor
      · exact fun h => ⟨.inr h.1, h.2⟩
      · rintro ⟨rfl | h, hs⟩
        · exact absurd hy hs
        · exact ⟨h, hs⟩
    · rw [firstOccurrences_cons_of_not_mem hy, List.mem_cons, ih, List.mem_cons, List.mem_cons,
        not_or]
      constructor
      · rintro (rfl | ⟨h, -, hs⟩)
        · exact ⟨.inl rfl, hy⟩
        · exact ⟨.inr h, hs⟩
      · rintro ⟨rfl | h, hs⟩
        · exact .inl rfl
        · by_cases hxy : x = y
          · exact .inl hxy
          · exact .inr ⟨h, hxy, hs⟩

theorem nodup_firstOccurrences (seen xs : List String) : (firstOccurrences seen xs).Nodup := by
  induction xs generalizing seen with
  | nil => exact List.nodup_nil
  | cons y ys ih =>
    by_cases hy : y ∈ seen
    · rw [firstOccurrences_cons_of_mem hy]
      exact ih seen
    · rw [firstOccurrences_cons_of_not_mem hy, List.nodup_cons]
      exact ⟨fun h => (mem_firstOccurrences.mp h).2 List.mem_cons_self, ih (y :: seen)⟩

/-- **First-seen order.** What is kept earlier occurs earlier. -/
theorem pairwise_firstOccurrences (seen xs : List String) :
    (firstOccurrences seen xs).Pairwise fun x y => xs.idxOf x < xs.idxOf y := by
  induction xs generalizing seen with
  | nil => exact List.Pairwise.nil
  | cons z zs ih =>
    -- what is kept of the rest is not `z`, so all its positions move up by one
    have shift : ∀ {l : List String}, (∀ x ∈ l, z ≠ x) →
        l.Pairwise (fun x y => zs.idxOf x < zs.idxOf y) →
        l.Pairwise fun x y => (z :: zs).idxOf x < (z :: zs).idxOf y := by
      intro l hl hp
      refine hp.imp_of_mem ?_
      intro x y hx hy hxy
      rw [List.idxOf_cons_ne zs (hl x hx), List.idxOf_cons_ne zs (hl y hy)]
      omega
    by_cases hz : z ∈ seen
    · rw [firstOccurrences_cons_of_mem hz]
      refine shift ?_ (ih seen)
      rintro x hx rfl
      exact (mem_firstOccurrences.mp hx).2 hz
    · have hne : ∀ x ∈ firstOccurrences (z :: seen) zs, z ≠ x := by
        rintro x hx rfl
        exact (mem_firstOccurrences.mp hx).2 List.mem_cons_self
      rw [firstOccurrences_cons_of_not_mem hz, List.pairwise_cons]
      refine ⟨fun x hx => ?_, shift hne (ih (z :: seen))⟩
      rw [List.idxOf_cons_self, List.idxOf_cons_ne zs (hne x hx)]
      omega

/-- One more element is kept if it is new. -/
theorem firstOccurrences_concat (seen xs : List String) (x : String) :
    firstOccurrences seen (xs ++ [x]) =
      if x ∈ xs ∨ x ∈ seen then firstOccurrences seen xs else firstOccurrences seen xs ++ [x] := by
  induction xs generalizing seen with
  | nil =>
    rw [List.nil_append]
    by_cases hx : x ∈ seen
    · rw [firstOccurrences_cons_of_mem hx, if_pos (.inr hx)]
    · rw [firstOccurrences_cons_of_not_mem hx, if_neg (by simpa using hx)]
      rfl
  | cons y ys ih =>
    rw [List.cons_append]
    by_cases hy : y ∈ seen
    · have hmem : x ∈ y :: ys ∨ x ∈ seen ↔ x ∈ ys ∨ x ∈ seen := by
        refine ⟨?_, fun h => h.imp_left (List.mem_cons_of_mem y)⟩
        rintro (hx | hx)
        · rcases List.mem_cons.mp hx with rfl | hx
          · exact .inr hy
          · exact .inl hx
        · exact .inr hx
      simp only [firstOccurrences_cons_of_mem hy, ih, hmem]
    · have hmem : x ∈ y :: ys ∨ x ∈ seen ↔ x ∈ ys ∨ x ∈ y :: seen := by
        rw [List.mem_cons, List.mem_cons, or_assoc, or_left_comm]
      simp only [firstOccurrences_cons_of_not_mem hy, ih, hmem]
      split_ifs <;> rfl

/-! ## Positions -/

section LastIndex

variable {α : Type} [DecidableEq α] {x : α} {xs : List α}

theorem lastIndexOf?_eq_none_iff : lastIndexOf? x xs = none ↔ x ∉ xs := by
  induction xs with
  | nil => simp [lastIndexOf?]
  | cons y ys ih =>
    unfold lastIndexOf?
    rw [List.mem_cons, not_or, ← ih]
    cases lastIndexOf? x ys with
    | some i => simp
    | none =>
      by_cases h : x = y
      · simp [h]
      · simp [h]

theorem getElem?_of_lastIndexOf? {i : Nat} (h : lastIndexOf? x xs = some i) : xs[i]? = some x := by
  induction xs generalizing i with
  | nil => exact absurd h (by simp [lastIndexOf?])
  | cons y ys ih =>
    unfold lastIndexOf? at h
    split at h
    · rename_i j hj
      obtain rfl := Option.some.inj h
      rw [List.getElem?_cons_succ]
      exact ih hj
    · split_ifs at h with hxy
      obtain rfl := Option.some.inj h
      rw [List.getElem?_cons_zero, hxy]

/-- Without repeats an element has one position. -/
theorem lastIndexOf?_eq_some_iff (h : xs.Nodup) {i : Nat} :
    lastIndexOf? x xs = some i ↔ xs[i]? = some x := by
  refine ⟨getElem?_of_lastIndexOf?, fun hi => ?_⟩
  cases hj : lastIndexOf? x xs with
  | none => exact absurd (List.mem_of_getElem? hi) (lastIndexOf?_eq_none_iff.mp hj)
  | some j =>
    have hij := (getElem?_of_lastIndexOf? hj).trans hi.symm
    obtain ⟨hlt, -⟩ := List.getElem?_eq_some_iff.mp (getElem?_of_lastIndexOf? hj)
    rw [(List.getElem?_inj hlt h).mp hij]

end LastIndex

namespace InputSlots

/-- A source has a slot exactly if it is among the sources. -/
theorem exists_slotOf_iff {s : InputSlots} {source : String} :
    (∃ slot, s.slotOf source = .ok slot) ↔ .text source ∈ s.sources := by
  unfold slotOf slot?
  cases h : lastIndexOf? (Scalar.text source) s.sources with
  | none =>
    refine ⟨?_, fun hmem => absurd hmem (lastIndexOf?_eq_none_iff.mp h)⟩
    rintro ⟨slot, hslot⟩
    exact absurd hslot (by simp)
  | some i =>
    refine ⟨fun _ => ?_, fun _ => ⟨i + s.base, rfl⟩⟩
    by_contra hmem
    rw [lastIndexOf?_eq_none_iff.mpr hmem] at h
    exact absurd h (by simp)

/-- At the slot of a source, counted behind the leading inputs, stands the source. -/
theorem getElem?_of_slotOf {s : InputSlots} {source : String} {slot : Nat}
    (h : s.slotOf source = .ok slot) :
    ∃ i, slot = i + s.base ∧ s.sources[i]? = some (.text source) := by
  unfold slotOf slot? at h
  cases hi : lastIndexOf? (Scalar.text source) s.sources with
  | none => rw [hi] at h; exact absurd h (by simp)
  | some i =>
    rw [hi] at h
    exact ⟨i, (Except.ok.inj h).symm, getElem?_of_lastIndexOf? hi⟩

/-- Without repeats the slot of a source is its position behind the leading inputs. -/
theorem slotOf_eq_ok_iff {s : InputSlots} (h : s.sources.Nodup) {source : String} {slot : Nat} :
    s.slotOf source = .ok slot ↔ ∃ i, slot = i + s.base ∧ s.sources[i]? = some (.text source) := by
  refine ⟨getElem?_of_slotOf, ?_⟩
  rintro ⟨i, rfl, hi⟩
  unfold slotOf slot?
  rw [(lastIndexOf?_eq_some_iff h).mpr hi]
  rfl

/-- What is not among the sources is refused by its name. -/
theorem slotOf_eq_error_iff {s : InputSlots} {source : String} {f : Fault} :
    s.slotOf source = .error f ↔ .text source ∉ s.sources ∧ f = .unknownSource source := by
  rw [← exists_slotOf_iff, not_exists]
  unfold slotOf
  cases s.slot? source with
  | none => simp [eq_comm]
  | some slot => simp

end InputSlots

end StillVideo
