import Mathlib.Logic.Function.Basic
import Myflix.Lib.Table

/- Values drawn from a stream and kept in a column. `rand` is the stream, `n` says
   how far it has been read. A table is `Issued` when every row carries a value
   drawn before and no two rows the same one; a value is `Spent` once it was drawn
   and no row carries it. With a stream that never repeats, a row that gets the next
   value keeps a table issued, and what is spent stays spent. -/
namespace Relational

section
variable {α τ : Type} (rand : Nat → τ) (col : α → Option τ)

/-- Every row carries a value drawn before, and no two the same. -/
structure Issued (n : Nat) (t : Table α) : Prop where
  drawn : ∀ k a, t.get k = some a → ∃ i, i < n ∧ col a = some (rand i)
  distinct : t.Unique col

/-- The value was drawn, and no row carries it. -/
structure Spent (n : Nat) (t : Table α) (i : Nat) : Prop where
  lt : i < n
  gone : ∀ k a, t.get k = some a → col a ≠ some (rand i)

variable {rand col} {n : Nat} {t : Table α}

theorem Issued.mono (h : Issued rand col n t) {m : Nat} (hm : n ≤ m) : Issued rand col m t where
  drawn := by
    intro k a hk
    obtain ⟨i, hi, ha⟩ := h.drawn k a hk
    exact ⟨i, by omega, ha⟩
  distinct := h.distinct

theorem Spent.mono {i : Nat} (h : Spent rand col n t i) {m : Nat} (hm : n ≤ m) : Spent rand col m t i where
  lt := by
    have := h.lt
    omega
  gone := h.gone

/-- The next value is on no row. -/
theorem Issued.next_unused (hr : Function.Injective rand) (h : Issued rand col n t) {k : Nat} {a : α}
    (hk : t.get k = some a) : col a ≠ some (rand n) := by
  obtain ⟨i, hi, ha⟩ := h.drawn k a hk
  intro he
  rw [ha, Option.some.injEq] at he
  have := hr he
  omega

/-- A new row with the next value. -/
theorem Issued.insert (hr : Function.Injective rand) (h : Issued rand col n t) {a : α}
    (ha : col a = some (rand n)) : Issued rand col (n + 1) (t.insert a) where
  drawn := by
    intro k b hk
    rcases Table.get_insert_cases hk with ⟨rfl, -⟩ | hk
    · exact ⟨n, by omega, ha⟩
    · obtain ⟨i, hi, hb⟩ := h.drawn k b hk
      exact ⟨i, by omega, hb⟩
  distinct := by
    apply h.distinct.insert
    intro k b hk
    rw [ha]
    exact h.next_unused hr hk

/-- A row that gets the next value. -/
theorem Issued.update (hr : Function.Injective rand) (h : Issued rand col n t) {k : Nat} {f : α → α}
    (hf : ∀ a, col (f a) = some (rand n)) : Issued rand col (n + 1) (t.update k f) where
  drawn := by
    intro j b hj
    rcases Table.get_update_cases hj with ⟨a, -, rfl⟩ | ⟨-, hj⟩
    · exact ⟨n, by omega, hf a⟩
    · obtain ⟨i, hi, hb⟩ := h.drawn j b hj
      exact ⟨i, by omega, hb⟩
  distinct := by
    apply h.distinct.update
    intro a j b _ hj he
    rw [hf a] at he
    exact absurd he (h.next_unused hr hj)

theorem issued_of_no_rows (h : t.rows = []) : Issued rand col n t := by
  refine ⟨?_, Table.unique_of_no_rows h⟩
  intro k a hk
  exact absurd hk (Table.not_get_of_no_rows h)

/-- The value a row gives up for the next one is spent. -/
theorem Issued.spend (hr : Function.Injective rand) (h : Issued rand col n t) {k i : Nat} {a : α} {f : α → α}
    (hk : t.get k = some a) (ha : col a = some (rand i)) (hf : ∀ a, col (f a) = some (rand n)) :
    Spent rand col (n + 1) (t.update k f) i := by
  have hi : i < n := by
    obtain ⟨j, hj, haj⟩ := h.drawn k a hk
    rw [ha, Option.some.injEq] at haj
    rw [hr haj]
    exact hj
  refine ⟨by omega, ?_⟩
  intro j b hj he
  rcases Table.get_update_cases hj with ⟨c, -, rfl⟩ | ⟨hjk, hj⟩
  · rw [hf c, Option.some.injEq] at he
    have := hr he
    omega
  · exact hjk (h.distinct j k b a hj hk (by rw [he, ha]))

theorem Spent.insert (hr : Function.Injective rand) {i : Nat} (h : Spent rand col n t i) {a : α}
    (ha : col a = some (rand n)) : Spent rand col (n + 1) (t.insert a) i := by
  have hi := h.lt
  refine ⟨by omega, ?_⟩
  intro k b hk he
  rcases Table.get_insert_cases hk with ⟨rfl, -⟩ | hk
  · rw [ha, Option.some.injEq] at he
    have := hr he
    omega
  · exact h.gone k b hk he

theorem Spent.update (hr : Function.Injective rand) {i : Nat} (h : Spent rand col n t i) {k : Nat} {f : α → α}
    (hf : ∀ a, col (f a) = some (rand n)) : Spent rand col (n + 1) (t.update k f) i := by
  have hi := h.lt
  refine ⟨by omega, ?_⟩
  intro j b hj he
  rcases Table.get_update_cases hj with ⟨a, -, rfl⟩ | ⟨-, hj⟩
  · rw [hf a, Option.some.injEq] at he
    have := hr he
    omega
  · exact h.gone j b hj he

end

end Relational
