import Mathlib.Logic.Basic
import Mathlib.Data.List.Basic

/- Runs of a deterministic transition system. `step` takes a state and an event
   (who moves, with what input, and what the environment answers) to the next
   state; `run` folds it over a list of events. The rules below are the only
   inductions over runs a development needs:

   * `run_inv`: what every step keeps, every run keeps;
   * `run_inv_of`: the same for runs whose steps all meet a condition;
   * `run_iff`: a property that one step keeps exactly under a condition holds
     all along a run exactly when every step of it meets the condition
     (`run_iff_of` for runs whose steps meet another one anyway, `run_iff_while` when
     only the steps that meet the condition keep the invariant);
   * `run_obs`: an observation that only marked events change is, after a run,
     what the last marked event made it. -/
namespace Transition

section
variable {σ ε : Type} (step : σ → ε → σ)

/-- The state after the events. -/
def run (s : σ) (es : List ε) : σ := es.foldl step s

theorem run_cons (s : σ) (e : ε) (es : List ε) : run step s (e :: es) = run step (step s e) es := rfl

theorem run_append (s : σ) (es es' : List ε) : run step s (es ++ es') = run step (run step s es) es' :=
  List.foldl_append

theorem run_concat (s : σ) (es : List ε) (e : ε) : run step s (es ++ [e]) = step (run step s es) e := by
  rw [run_append]; rfl

variable {step}

theorem run_inv {I : σ → Prop} (h : ∀ s e, I s → I (step s e)) {s : σ} (h0 : I s) (es : List ε) :
    I (run step s es) := by
  induction es generalizing s with
  | nil => exact h0
  | cons e es ih => exact ih (h s e h0)

/-- `C` holds at every step of the run: of each event and the state it meets. -/
def Along (step : σ → ε → σ) (C : σ → ε → Prop) (s : σ) (es : List ε) : Prop :=
  ∀ pre e post, es = pre ++ e :: post → C (run step s pre) e

theorem along_nil {C : σ → ε → Prop} (s : σ) : Along step C s [] := by
  intro pre e post h
  simp at h

theorem along_cons {C : σ → ε → Prop} {s : σ} {e : ε} {es : List ε} :
    Along step C s (e :: es) ↔ C s e ∧ Along step C (step s e) es := by
  constructor
  · intro h
    refine ⟨h [] e es rfl, ?_⟩
    intro pre e' post he
    exact h (e :: pre) e' post (by rw [he]; rfl)
  · rintro ⟨h0, h⟩ pre e' post he
    cases pre with
    | nil =>
      simp only [List.nil_append, List.cons.injEq] at he
      obtain ⟨rfl, rfl⟩ := he
      exact h0
    | cons x pre =>
      simp only [List.cons_append, List.cons.injEq] at he
      obtain ⟨rfl, he⟩ := he
      exact h pre e' post he

/-- A condition that can be decided at one step can be decided along a run. -/
instance decidableAlong {C : σ → ε → Prop} [∀ s e, Decidable (C s e)] :
    ∀ (s : σ) (es : List ε), Decidable (Along step C s es)
  | s, [] => isTrue (along_nil s)
  | s, e :: es =>
    have : Decidable (Along step C (step s e) es) := decidableAlong (step s e) es
    decidable_of_iff (C s e ∧ Along step C (step s e) es) along_cons.symm

theorem run_inv_of {I : σ → Prop} {C : σ → ε → Prop} (h : ∀ s e, I s → C s e → I (step s e)) {s : σ}
    (h0 : I s) (es : List ε) (hc : Along step C s es) : I (run step s es) := by
  induction es generalizing s with
  | nil => exact h0
  | cons e es ih =>
    rw [along_cons] at hc
    exact ih (h s e h0 hc.1) hc.2

/-- Every state of the run, the first and the last included. -/
def Always (step : σ → ε → σ) (P : σ → Prop) (s : σ) (es : List ε) : Prop :=
  ∀ pre post, es = pre ++ post → P (run step s pre)

theorem always_cons {P : σ → Prop} {s : σ} {e : ε} {es : List ε} :
    Always step P s (e :: es) ↔ P s ∧ Always step P (step s e) es := by
  constructor
  · intro h
    refine ⟨h [] (e :: es) rfl, ?_⟩
    intro pre post he
    exact h (e :: pre) post (by rw [he]; rfl)
  · rintro ⟨h0, h⟩ pre post he
    cases pre with
    | nil => exact h0
    | cons x pre =>
      simp only [List.cons_append, List.cons.injEq] at he
      obtain ⟨rfl, he⟩ := he
      exact h pre post he

theorem always_nil {P : σ → Prop} {s : σ} : Always step P s [] ↔ P s := by
  refine ⟨fun h => h [] [] rfl, fun h pre post he => ?_⟩
  have hpre : pre = [] := (List.append_eq_nil_iff.mp he.symm).1
  rw [hpre]
  exact h

/-- A property that can be decided in one state can be decided along a run. -/
instance decidableAlways {P : σ → Prop} [DecidablePred P] :
    ∀ (s : σ) (es : List ε), Decidable (Always step P s es)
  | s, [] => decidable_of_iff (P s) always_nil.symm
  | s, e :: es =>
    have : Decidable (Always step P (step s e) es) := decidableAlways (step s e) es
    decidable_of_iff (P s ∧ Always step P (step s e) es) always_cons.symm

theorem always_head {P : σ → Prop} {s : σ} {es : List ε} (h : Always step P s es) : P s :=
  h [] es rfl

/-- From a state with the property, it holds all along the run exactly when every step
    meets the condition. The invariant `I` is what makes one step's equivalence provable. -/
theorem run_iff {I P : σ → Prop} {C : σ → ε → Prop} (hI : ∀ s e, I s → I (step s e))
    (hP : ∀ s e, I s → P s → (P (step s e) ↔ C s e)) {s : σ} (hi : I s) (hp : P s) (es : List ε) :
    Always step P s es ↔ Along step C s es := by
  induction es generalizing s with
  | nil => exact ⟨fun _ => along_nil s, fun _ => always_nil.mpr hp⟩
  | cons e es ih =>
    rw [always_cons, along_cons]
    constructor
    · rintro ⟨_, h⟩
      have hp' := always_head h
      exact ⟨(hP s e hi hp).mp hp', (ih (hI s e hi) hp').mp h⟩
    · rintro ⟨hc, h⟩
      exact ⟨hp, (ih (hI s e hi) ((hP s e hi hp).mpr hc)).mpr h⟩

/-- The same for runs whose steps all meet a condition of their own. -/
theorem run_iff_of {I P : σ → Prop} {B C : σ → ε → Prop} (hI : ∀ s e, I s → B s e → I (step s e))
    (hP : ∀ s e, I s → B s e → P s → (P (step s e) ↔ C s e)) {s : σ} (hi : I s) (hp : P s) (es : List ε)
    (hb : Along step B s es) : Always step P s es ↔ Along step C s es := by
  induction es generalizing s with
  | nil => exact ⟨fun _ => along_nil s, fun _ => always_nil.mpr hp⟩
  | cons e es ih =>
    rw [along_cons] at hb
    obtain ⟨hbe, hb⟩ := hb
    have hi' := hI s e hi hbe
    rw [always_cons, along_cons]
    constructor
    · rintro ⟨_, h⟩
      have hp' := always_head h
      exact ⟨(hP s e hi hbe hp).mp hp', (ih hi' hp' hb).mp h⟩
    · rintro ⟨hc, h⟩
      exact ⟨hp, (ih hi' ((hP s e hi hbe hp).mpr hc) hb).mpr h⟩

/-- What the invariant implies holds all along a run exactly when every step meets the condition,
    if these steps keep the invariant and every other step breaks what it implies. -/
theorem run_iff_while {I Q : σ → Prop} {C : σ → ε → Prop} (hkeep : ∀ s e, I s → C s e → I (step s e))
    (hbreak : ∀ s e, I s → Q (step s e) → C s e) (hQ : ∀ s, I s → Q s) {s : σ} (hi : I s) (es : List ε) :
    Always step Q s es ↔ Along step C s es := by
  induction es generalizing s with
  | nil => exact ⟨fun _ => along_nil s, fun _ => always_nil.mpr (hQ s hi)⟩
  | cons e es ih =>
    rw [always_cons, along_cons]
    constructor
    · rintro ⟨_, h⟩
      have hc := hbreak s e hi (always_head h)
      exact ⟨hc, (ih (hkeep s e hi hc)).mp h⟩
    · rintro ⟨hc, h⟩
      exact ⟨hQ s hi, (ih (hkeep s e hi hc)).mpr h⟩

/-- No marked event, and the observation is the first state's; or the last marked event,
    and the observation is what that event made it. -/
theorem run_obs {β : Type} (obs : σ → β) (M : σ → ε → Prop)
    (hkeep : ∀ s e, ¬ M s e → obs (step s e) = obs s) (s : σ) (es : List ε) :
    (obs (run step s es) = obs s ∧ Along step (fun s e => ¬ M s e) s es) ∨
    ∃ pre e post, es = pre ++ e :: post ∧ M (run step s pre) e ∧
      obs (run step s es) = obs (step (run step s pre) e) ∧
      Along step (fun s e => ¬ M s e) (step (run step s pre) e) post := by
  induction es generalizing s with
  | nil => exact .inl ⟨rfl, along_nil s⟩
  | cons e es ih =>
    rw [run_cons]
    rcases ih (step s e) with ⟨ho, hn⟩ | ⟨pre, e', post, rfl, hm, ho, hn⟩
    · by_cases hm : M s e
      · exact .inr ⟨[], e, es, rfl, hm, ho, hn⟩
      · exact .inl ⟨ho.trans (hkeep s e hm), along_cons.mpr ⟨hm, hn⟩⟩
    · exact .inr ⟨e :: pre, e', post, rfl, hm, ho, hn⟩

end

end Transition
