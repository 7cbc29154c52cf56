import Mathlib.Data.List.Basic
import Mathlib.Data.List.Forall2

/- Code that goes through a list and may raise at any element: `mapM` in `Except`.
   It returns exactly when every element does, and what it returns is what the
   elements returned, in their order. -/
namespace Raising

section
variable {ε α β : Type} {f : α → Except ε β}

theorem mapM_cons (a : α) (l : List α) :
    (a :: l).mapM f = match f a with
      | .error e => .error e
      | .ok b => match l.mapM f with
        | .error e => .error e
        | .ok l' => .ok (b :: l') := by
  rw [List.mapM_cons]
  cases f a with
  | error e => rfl
  | ok b => cases l.mapM f <;> rfl

theorem map_isOk_iff {γ : Type} {x : Except ε α} {g : α → γ} : (∃ c, x.map g = .ok c) ↔ ∃ a, x = .ok a := by
  cases x with
  | error e => exact ⟨nofun, nofun⟩
  | ok a => exact ⟨fun _ => ⟨a, rfl⟩, fun _ => ⟨g a, rfl⟩⟩

theorem of_map_ok {γ : Type} {x : Except ε α} {g : α → γ} {c : γ} (h : x.map g = .ok c) :
    ∃ a, x = .ok a ∧ g a = c := by
  cases x with
  | error e => cases h
  | ok a => exact ⟨a, rfl, Except.ok.inj h⟩

/-- The pass returns exactly when every element does. -/
theorem mapM_isOk_iff {l : List α} : (∃ l', l.mapM f = .ok l') ↔ ∀ a ∈ l, ∃ b, f a = .ok b := by
  induction l with
  | nil => exact ⟨fun _ a ha => absurd ha List.not_mem_nil, fun _ => ⟨[], rfl⟩⟩
  | cons a l ih =>
    rw [List.forall_mem_cons, ← ih, mapM_cons]
    cases f a with
    | error e => simp
    | ok b =>
      cases l.mapM f with
      | error e => simp
      | ok l' => simp

theorem mem_of_mapM {l : List α} {l' : List β} (h : l.mapM f = .ok l') {b : β} (hb : b ∈ l') :
    ∃ a ∈ l, f a = .ok b := by
  induction l generalizing l' with
  | nil =>
    obtain rfl := Except.ok.inj h
    cases hb
  | cons a l ih =>
    rw [mapM_cons] at h
    split at h
    · cases h
    · next b' hf =>
      split at h
      · cases h
      · next l₁ hl =>
        obtain rfl := Except.ok.inj h
        rcases List.mem_cons.mp hb with rfl | hb
        · exact ⟨a, List.mem_cons_self, hf⟩
        · obtain ⟨x, hx, he⟩ := ih hl hb
          exact ⟨x, List.mem_cons_of_mem a hx, he⟩

/-- Element by element, what was returned for it. -/
theorem forall₂_of_mapM {l : List α} {l' : List β} (h : l.mapM f = .ok l') :
    List.Forall₂ (fun a b => f a = .ok b) l l' := by
  induction l generalizing l' with
  | nil =>
    obtain rfl := Except.ok.inj h
    exact .nil
  | cons a l ih =>
    rw [mapM_cons] at h
    split at h
    · cases h
    · next b hf =>
      split at h
      · cases h
      · next l₁ hl =>
        obtain rfl := Except.ok.inj h
        exact .cons hf (ih hl)

/-- What the results are read for, read off the elements. -/
theorem map_of_mapM {γ : Type} {l : List α} {l' : List β} {g : β → γ} {k : α → γ} (h : l.mapM f = .ok l')
    (hk : ∀ a b, f a = .ok b → g b = k a) : l'.map g = l.map k := by
  have hall := forall₂_of_mapM h
  clear h
  induction hall with
  | nil => rfl
  | cons hab _ ih => rw [List.map_cons, List.map_cons, hk _ _ hab, ih]

/-- Nothing raises, and the results are known. -/
theorem mapM_of_ok {l : List α} {g : α → β} (h : ∀ a ∈ l, f a = .ok (g a)) : l.mapM f = .ok (l.map g) := by
  induction l with
  | nil => rfl
  | cons a l ih =>
    rw [List.forall_mem_cons] at h
    rw [mapM_cons, h.1, ih h.2]
    rfl

end

end Raising
