/-!
# Runs of moves

Several parties make moves on a common state, each of which is possible or not. A run is a list of
moves that are possible one after the other. What holds of a state and of the moves that led to it
is carried from one move to the next by `Moves.invariant`.
-/

namespace StillVideo

namespace Moves

variable {σ μ : Type} {move? : σ → μ → Option σ} {s t u : σ} {moves more : List μ} {move : μ}

/-- Moves one after the other, if each is possible. -/
def run? (move? : σ → μ → Option σ) (s : σ) (moves : List μ) : Option σ := moves.foldlM move? s

theorem run?_nil : run? move? s [] = some s := rfl

theorem run?_cons_eq_some_iff :
    run? move? s (move :: moves) = some u ↔
      ∃ t, move? s move = some t ∧ run? move? t moves = some u :=
  Option.bind_eq_some_iff

theorem run?_cons (hmove : move? s move = some t) :
    run? move? s (move :: moves) = run? move? t moves := by
  rw [run?, List.foldlM_cons, hmove]
  rfl

theorem run?_append (hrun : run? move? s moves = some t) :
    run? move? s (moves ++ more) = run? move? t more := by
  rw [run?] at hrun
  rw [run?, List.foldlM_append, hrun]
  rfl

theorem run?_concat (hrun : run? move? s moves = some t) (hmove : move? t move = some u) :
    run? move? s (moves ++ [move]) = some u := by
  rw [run?_append hrun, run?_cons hmove, run?_nil]

/-- A run up to one of its moves. -/
theorem exists_run_of_append {before after : List μ}
    (hrun : run? move? s (before ++ move :: after) = some u) :
    ∃ t v, run? move? s before = some t ∧ move? t move = some v := by
  rw [run?, List.foldlM_append] at hrun
  obtain ⟨t, hbefore, hrest⟩ := Option.bind_eq_some_iff.mp hrun
  obtain ⟨v, hmove, -⟩ := run?_cons_eq_some_iff.mp hrest
  exact ⟨t, v, hbefore, hmove⟩

/-- What each move preserves is preserved by a run. -/
theorem invariant {P : List μ → σ → Prop}
    (hstep : ∀ {moves s move t}, P moves s → move? s move = some t → P (moves ++ [move]) t)
    (h : P moves s) (hrun : run? move? s more = some t) : P (moves ++ more) t := by
  induction more generalizing moves s with
  | nil =>
    obtain rfl := Option.some.inj hrun
    rwa [List.append_nil]
  | cons move more ih =>
    obtain ⟨v, hmove, hrest⟩ := run?_cons_eq_some_iff.mp hrun
    rw [List.append_cons]
    exact ih (hstep h hmove) hrest

end Moves

end StillVideo
