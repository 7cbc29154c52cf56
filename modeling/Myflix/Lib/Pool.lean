import Mathlib.Logic.Function.Basic
import Myflix.Lib.Runs

/- Processes that interleave. Each process of a pool is in a phase of its own and
   all of them work on one shared state; `advance` is one step of one process: it
   reads and writes the shared state and moves the process to its next phase. A
   schedule is a list of turns, so the runs of a pool are the runs of `Pool.step`:
   any number of processes in any order.

   * `Pool.move`: a pool in which one process has moved on; a step is one
     (`Pool.step_eq_move`);
   * `Pool.move_inj`: what at most one process has stays so if nobody else has what
     the process that moves comes to have;
   * `Pool.all_move`, `Pool.all_step`: what holds of every process goes on holding
     if the process that moves keeps it and does not disturb it for the others;
   * `Pool.run_alone`: with one process only, a run is the sequence of its steps. -/
namespace Interleaving
open Transition

/-- The shared state, and the phase each process is in. -/
structure Pool (ι σ π : Type) where
  shared : σ
  phase : ι → π

namespace Pool
variable {ι σ π ε : Type} [DecidableEq ι] {advance : ι → ε → σ → π → σ × π}

/-- The turn of one process. -/
def step (advance : ι → ε → σ → π → σ × π) (c : Pool ι σ π) (turn : ι × ε) : Pool ι σ π where
  shared := (advance turn.1 turn.2 c.shared (c.phase turn.1)).1
  phase := Function.update c.phase turn.1 (advance turn.1 turn.2 c.shared (c.phase turn.1)).2

/-- The pool after process `i` has moved on. -/
def move (c : Pool ι σ π) (i : ι) (s : σ) (p : π) : Pool ι σ π := ⟨s, Function.update c.phase i p⟩

theorem step_eq_move (c : Pool ι σ π) (turn : ι × ε) :
    c.step advance turn = c.move turn.1 (advance turn.1 turn.2 c.shared (c.phase turn.1)).1
      (advance turn.1 turn.2 c.shared (c.phase turn.1)).2 := rfl

section
variable {c : Pool ι σ π} {i : ι} {s : σ} {p : π}

theorem move_phase_self : (c.move i s p).phase i = p := Function.update_self _ _ _

theorem move_phase_ne {j : ι} (h : j ≠ i) : (c.move i s p).phase j = c.phase j := Function.update_of_ne h _ _

/-- A property of one phase that the process that moves keeps. -/
theorem move_phase {P : π → Prop} {j : ι} (hj : P (c.phase j)) (hi : P (c.phase i) → P p) :
    P ((c.move i s p).phase j) := by
  by_cases h : j = i
  · subst h
    rw [move_phase_self]
    exact hi hj
  · rw [move_phase_ne h]
    exact hj

/-- What at most one process has. -/
theorem move_inj {κ : Type*} {f : π → Option κ}
    (h : ∀ j j' k, f (c.phase j) = some k → f (c.phase j') = some k → j = j')
    (hnew : ∀ j k, j ≠ i → f p = some k → f (c.phase j) ≠ some k) (j j' : ι) (k : κ)
    (hj : f ((c.move i s p).phase j) = some k) (hj' : f ((c.move i s p).phase j') = some k) : j = j' := by
  by_cases hi : j = i
  · by_cases hi' : j' = i
    · rw [hi, hi']
    · rw [hi, move_phase_self] at hj
      rw [move_phase_ne hi'] at hj'
      exact absurd hj' (hnew j' k hi' hj)
  · rw [move_phase_ne hi] at hj
    by_cases hi' : j' = i
    · rw [hi', move_phase_self] at hj'
      exact absurd hj (hnew j k hi hj')
    · rw [move_phase_ne hi'] at hj'
      exact h j j' k hj hj'

/-- A property of every process: kept by the one that moves, and not disturbed for the others. -/
theorem all_move {L : ι → σ → π → Prop} (own : L i s p) (stable : ∀ j, j ≠ i → L j s (c.phase j)) :
    ∀ j, L j s ((c.move i s p).phase j) := by
  intro j
  by_cases hj : j = i
  · subst hj
    rw [move_phase_self]
    exact own
  · rw [move_phase_ne hj]
    exact stable j hj

end

theorem step_phase_self (c : Pool ι σ π) (turn : ι × ε) :
    (c.step advance turn).phase turn.1 = (advance turn.1 turn.2 c.shared (c.phase turn.1)).2 := move_phase_self

theorem step_phase_ne (c : Pool ι σ π) {turn : ι × ε} {j : ι} (h : j ≠ turn.1) :
    (c.step advance turn).phase j = c.phase j := move_phase_ne h

theorem all_step {L : ι → σ → π → Prop} {c : Pool ι σ π} {turn : ι × ε}
    (own : L turn.1 (c.step advance turn).shared (advance turn.1 turn.2 c.shared (c.phase turn.1)).2)
    (stable : ∀ j, j ≠ turn.1 → L j (c.step advance turn).shared (c.phase j)) :
    ∀ j, L j (c.step advance turn).shared ((c.step advance turn).phase j) := all_move own stable

/-- One process by itself. -/
theorem run_alone (advance : ι → ε → σ → π → σ × π) (c : Pool ι σ π) (i : ι) (es : List ε) :
    (run (step advance) c (es.map (fun e => (i, e)))).shared =
        (es.foldl (fun r e => advance i e r.1 r.2) (c.shared, c.phase i)).1 ∧
      (run (step advance) c (es.map (fun e => (i, e)))).phase i =
        (es.foldl (fun r e => advance i e r.1 r.2) (c.shared, c.phase i)).2 := by
  induction es generalizing c with
  | nil => exact ⟨rfl, rfl⟩
  | cons e es ih =>
    rw [List.map_cons, run_cons, List.foldl_cons]
    have h := ih (c.step advance (i, e))
    rw [step_phase_self] at h
    exact h

end Pool

end Interleaving
