import Myflix.Lib.Pool

/- Pools whose processes write once. A process reads the shared state in any number
   of steps and touches it in the step with which it finishes. If each process that
   finishes does to the shared state what it would have done at one go, the run has
   the effect of the processes one after the other, in the order in which they
   finish (`run_eq_commits`), and each of them has its place in that order once
   (`commits_nodup`, `mem_commits`). -/
namespace Interleaving
open Transition

namespace Pool
variable {ι σ π ε : Type} [DecidableEq ι]

section
variable (advance : ι → ε → σ → π → σ × π) (finished : π → Bool)

/-- The process is not finished before the turn, and it is afterwards. -/
def Finishes (c : Pool ι σ π) (t : ι × ε) : Prop :=
  finished (c.phase t.1) = false ∧ finished ((c.step advance t).phase t.1) = true

instance (c : Pool ι σ π) (t : ι × ε) : Decidable (Finishes advance finished c t) :=
  inferInstanceAs (Decidable (_ ∧ _))

/-- The turns with which processes finish, in their order. -/
def commits : Pool ι σ π → List (ι × ε) → List (ι × ε)
  | _, [] => []
  | c, t :: turns =>
    if Finishes advance finished c t then t :: commits (c.step advance t) turns
    else commits (c.step advance t) turns

/-- A process that finishes does what it would do at one go. -/
def AtOnce (whole : ι → ε → σ → σ) (c : Pool ι σ π) (t : ι × ε) : Prop :=
  Finishes advance finished c t → (c.step advance t).shared = whole t.1 t.2 c.shared

end

section
variable {advance : ι → ε → σ → π → σ × π} {finished : π → Bool}

theorem run_eq_commits {whole : ι → ε → σ → σ}
    (hreads : ∀ c t, ¬ Finishes advance finished c t → (c.step advance t).shared = c.shared)
    {c : Pool ι σ π} {turns : List (ι × ε)}
    (h : Along (step advance) (AtOnce advance finished whole) c turns) :
    (run (step advance) c turns).shared =
      run (fun s t => whole t.1 t.2 s) c.shared (commits advance finished c turns) := by
  induction turns generalizing c with
  | nil => rfl
  | cons t turns ih =>
    rw [along_cons] at h
    rw [run_cons, ih h.2, commits]
    by_cases hf : Finishes advance finished c t
    · rw [if_pos hf, run_cons, h.1 hf]
    · rw [if_neg hf, hreads c t hf]

section
variable (hstay : ∀ i e s p, finished p = true → finished (advance i e s p).2 = true)
include hstay

/-- What is finished stays finished. -/
theorem finished_step {c : Pool ι σ π} {i : ι} (t : ι × ε) (h : finished (c.phase i) = true) :
    finished ((c.step advance t).phase i) = true := by
  by_cases hi : i = t.1
  · subst hi
    rw [step_phase_self]
    exact hstay t.1 t.2 c.shared (c.phase t.1) h
  · rw [step_phase_ne c hi]
    exact h

/-- The processes that finish during a run. -/
theorem mem_commits {c : Pool ι σ π} {turns : List (ι × ε)} {i : ι} :
    i ∈ (commits advance finished c turns).map Prod.fst ↔
      finished (c.phase i) = false ∧ finished ((run (step advance) c turns).phase i) = true := by
  induction turns generalizing c with
  | nil =>
    simp only [commits, List.map_nil, List.not_mem_nil, false_iff, not_and]
    intro hf
    rw [show run (step advance) c [] = c from rfl, hf]
    simp
  | cons t turns ih =>
    rw [run_cons, commits]
    have hrun : finished ((c.step advance t).phase i) = true →
        finished ((run (step advance) (c.step advance t) turns).phase i) = true :=
      fun h => run_inv (I := fun c : Pool ι σ π => finished (c.phase i) = true)
        (fun c t hc => finished_step hstay t hc) h turns
    by_cases hf : Finishes advance finished c t
    · rw [if_pos hf, List.map_cons, List.mem_cons, ih]
      by_cases hi : i = t.1
      · subst hi
        exact iff_of_true (.inl rfl) ⟨hf.1, hrun hf.2⟩
      · rw [step_phase_ne c hi]
        exact ⟨fun h => h.resolve_left hi, .inr⟩
    · rw [if_neg hf, ih]
      by_cases hi : i = t.1
      · subst hi
        cases hb : finished (c.phase t.1) with
        | true =>
          rw [finished_step hstay t hb]
        | false =>
          have ha : finished ((c.step advance t).phase t.1) = false := by
            simpa using fun h => hf ⟨hb, h⟩
          rw [ha]
      · rw [step_phase_ne c hi]

/-- Nobody finishes twice. -/
theorem commits_nodup (c : Pool ι σ π) (turns : List (ι × ε)) :
    ((commits advance finished c turns).map Prod.fst).Nodup := by
  induction turns generalizing c with
  | nil => exact List.nodup_nil
  | cons t turns ih =>
    rw [commits]
    by_cases hf : Finishes advance finished c t
    · rw [if_pos hf, List.map_cons, List.nodup_cons]
      refine ⟨?_, ih _⟩
      rw [mem_commits hstay, hf.2]
      simp
    · rw [if_neg hf]
      exact ih _

end

end

end Pool

end Interleaving
