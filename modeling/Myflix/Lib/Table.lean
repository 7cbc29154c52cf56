import Mathlib.Data.List.Sort
import Mathlib.Data.List.Nodup

/- Relational tables with a serial primary key. A `Table` lists its rows in key
   order together with the next key the sequence will hand out; that the keys
   are increasing and below the sequence is part of the structure, so a table
   with a repeated or a reused key cannot be built. Rows are read by key
   (`get`) or by a condition (`select`), and every write is an `insert`, an
   `update` of one row or a `delete` of one row; the lemmas say what each write
   does to both kinds of read.

   Two things a query leaves open are given by structures that carry what the
   database does promise: `Take` (a LIMIT 1 without an order) and `OrderBy` (an
   ORDER BY, with ties in any order). -/
namespace Relational

/-- A table: its rows in key order, and the next key of its sequence. -/
@[ext]
structure Table (α : Type) where
  rows : List (Nat × α)
  next : Nat
  sorted : rows.Pairwise (fun a b => a.1 < b.1)
  bound : ∀ r ∈ rows, r.1 < next

namespace Table
variable {α : Type}

/-- No rows yet; a sequence starts at 1. -/
def empty : Table α := ⟨[], 1, List.Pairwise.nil, by simp⟩

/-- The row under a key. -/
def get (t : Table α) (k : Nat) : Option α := (t.rows.find? (fun r => r.1 == k)).map Prod.snd

/-- INSERT: the row goes under the next key. -/
def insert (t : Table α) (a : α) : Table α where
  rows := t.rows ++ [(t.next, a)]
  next := t.next + 1
  sorted := by
    rw [List.pairwise_append]
    refine ⟨t.sorted, List.pairwise_singleton _ _, ?_⟩
    intro r hr x hx
    simp only [List.mem_singleton] at hx
    subst hx
    exact t.bound r hr
  bound := by
    intro r hr
    rcases List.mem_append.mp hr with h | h
    · exact Nat.lt_succ_of_lt (t.bound r h)
    · simp only [List.mem_singleton] at h
      subst h
      exact Nat.lt_succ_self _

/-- UPDATE of the row under `k`. -/
def update (t : Table α) (k : Nat) (f : α → α) : Table α where
  rows := t.rows.map (fun r => if r.1 = k then (r.1, f r.2) else r)
  next := t.next
  sorted := by
    rw [List.pairwise_map]
    refine t.sorted.imp ?_
    intro a b h
    split <;> split <;> exact h
  bound := by
    intro r hr
    obtain ⟨x, hx, rfl⟩ := List.mem_map.mp hr
    have h := t.bound x hx
    split <;> exact h

/-- DELETE of the row under `k`; its key is not handed out again. -/
def delete (t : Table α) (k : Nat) : Table α where
  rows := t.rows.filter (fun r => r.1 != k)
  next := t.next
  sorted := t.sorted.filter _
  bound := fun r hr => t.bound r (List.mem_filter.mp hr).1

/-- SELECT: the rows satisfying a condition, in key order. -/
def select (t : Table α) (p : α → Bool) : List (Nat × α) := t.rows.filter (fun r => p r.2)

/-! Keys. -/

theorem keys_nodup (t : Table α) : (t.rows.map Prod.fst).Nodup := by
  rw [List.Nodup, List.pairwise_map]
  exact t.sorted.imp (fun h => Nat.ne_of_lt h)

theorem key_inj {t : Table α} {r r' : Nat × α} (hr : r ∈ t.rows) (hr' : r' ∈ t.rows)
    (h : r.1 = r'.1) : r = r' :=
  List.inj_on_of_nodup_map t.keys_nodup hr hr' h

theorem select_keys_nodup (t : Table α) (p : α → Bool) : ((t.select p).map Prod.fst).Nodup :=
  t.keys_nodup.sublist (List.filter_sublist.map _)

/-! Reading by key. -/

theorem get_eq_some {t : Table α} {k : Nat} {a : α} : t.get k = some a ↔ (k, a) ∈ t.rows := by
  constructor
  · intro h
    obtain ⟨r, hr, rfl⟩ := Option.map_eq_some_iff.mp h
    have hk : r.1 = k := by simpa using List.find?_some hr
    have hm := List.mem_of_find?_eq_some hr
    rw [← hk]; exact hm
  · intro h
    cases hf : t.rows.find? (fun r => r.1 == k) with
    | none =>
      have hk := List.find?_eq_none.mp hf (k, a) h
      simp at hk
    | some r =>
      have hk : r.1 = k := by simpa using List.find?_some hf
      have hr := key_inj (List.mem_of_find?_eq_some hf) h hk
      simp [get, hf, hr]

/-- What holds of every row, row by row and key by key. -/
theorem forall_rows {t : Table α} {P : Nat → α → Prop} :
    (∀ r ∈ t.rows, P r.1 r.2) ↔ ∀ k a, t.get k = some a → P k a := by
  refine ⟨?_, ?_⟩
  · intro h k a hk
    exact h (k, a) (get_eq_some.mp hk)
  · intro h r hr
    exact h r.1 r.2 (get_eq_some.mpr hr)

/-- A key has one row. -/
theorem row_eq {t : Table α} {k : Nat} {a : α} (h : t.get k = some a) {r : Nat × α} (hr : r ∈ t.rows)
    (hk : r.1 = k) : r.2 = a := by
  have hr := get_eq_some.mpr hr
  rw [hk, h] at hr
  exact (Option.some.inj hr).symm

/-- Rows rewritten one by one, keys kept. -/
theorem get_of_rows_map {t t' : Table α} {f : Nat × α → Nat × α} (h : t'.rows = t.rows.map f)
    (hf : ∀ r, (f r).1 = r.1) (k : Nat) : t'.get k = (t.get k).map (fun a => (f (k, a)).2) := by
  simp only [get, h, List.find?_map, Option.map_map]
  have hp : (fun r : Nat × α => r.1 == k) ∘ f = fun r => r.1 == k := by
    funext r
    simp [hf r]
  rw [hp]
  cases hr : t.rows.find? (fun r => r.1 == k) with
  | none => rfl
  | some r =>
    have hk : r.1 = k := by simpa using List.find?_some hr
    simp [← hk]

theorem get_lt_next {t : Table α} {k : Nat} {a : α} (h : t.get k = some a) : k < t.next :=
  t.bound _ (get_eq_some.mp h)

theorem get_eq_none {t : Table α} {k : Nat} : t.get k = none ↔ ∀ a, (k, a) ∉ t.rows := by
  rw [Option.eq_none_iff_forall_ne_some]
  exact forall_congr' (fun a => not_congr get_eq_some)

theorem get_next (t : Table α) : t.get t.next = none := by
  rw [get_eq_none]
  intro a h
  exact Nat.lt_irrefl _ (t.bound _ h)

theorem get_of_no_rows {t : Table α} (h : t.rows = []) (k : Nat) : t.get k = none := by
  rw [get_eq_none, h]
  intro a ha
  cases ha

theorem not_get_of_no_rows {t : Table α} (h : t.rows = []) {k : Nat} {a : α} : t.get k ≠ some a := by
  rw [get_of_no_rows h]
  exact nofun

theorem mem_select {t : Table α} {p : α → Bool} {r : Nat × α} :
    r ∈ t.select p ↔ t.get r.1 = some r.2 ∧ p r.2 = true := by
  rw [get_eq_some]; exact List.mem_filter

theorem select_eq_nil {t : Table α} {p : α → Bool} :
    t.select p = [] ↔ ∀ k a, t.get k = some a → p a = false := by
  simp only [select, List.filter_eq_nil_iff, Bool.not_eq_true]
  exact forall_rows (P := fun _ a => p a = false)

/-! INSERT. -/

/-- A column that tells the selected rows apart. -/
theorem nodup_select_map {β : Type} {t : Table α} {p : α → Bool} (col : α → β)
    (h : ∀ j k a b, t.get j = some a → t.get k = some b → p a = true → p b = true → col a = col b → j = k) :
    ((t.select p).map (fun r => col r.2)).Nodup := by
  refine List.Nodup.map_on ?_ (t.select_keys_nodup p).of_map
  intro r hr r' hr' he
  obtain ⟨hk, hp⟩ := mem_select.mp hr
  obtain ⟨hk', hp'⟩ := mem_select.mp hr'
  exact key_inj (get_eq_some.mp hk) (get_eq_some.mp hk') (h r.1 r'.1 r.2 r'.2 hk hk' hp hp' he)

@[simp] theorem insert_rows (t : Table α) (a : α) : (t.insert a).rows = t.rows ++ [(t.next, a)] := rfl
@[simp] theorem insert_next (t : Table α) (a : α) : (t.insert a).next = t.next + 1 := rfl

theorem get_insert (t : Table α) (a : α) (k : Nat) :
    (t.insert a).get k = if k = t.next then some a else t.get k := by
  split
  · next h => subst h; exact get_eq_some.mpr (by simp)
  · next h =>
    cases hg : t.get k with
    | some b => exact get_eq_some.mpr (by simp [get_eq_some.mp hg])
    | none =>
      rw [get_eq_none] at hg ⊢
      intro b hb
      rcases List.mem_append.mp hb with hb | hb
      · exact hg b hb
      · simp only [List.mem_singleton, Prod.mk.injEq] at hb; exact h hb.1

@[simp] theorem get_insert_self (t : Table α) (a : α) : (t.insert a).get t.next = some a := by
  simp [get_insert]

/-- A row after an INSERT is the new one or one from before. -/
theorem get_insert_cases {t : Table α} {k : Nat} {a b : α} (h : (t.insert a).get k = some b) :
    (b = a ∧ k = t.next) ∨ t.get k = some b := by
  rw [get_insert] at h
  split at h
  · next hk => exact .inl ⟨(Option.some.inj h).symm, hk⟩
  · exact .inr h

/-- A stored row survives an INSERT. -/
theorem get_insert_of_some {t : Table α} {k : Nat} {b : α} (a : α) (h : t.get k = some b) :
    (t.insert a).get k = some b := by
  rw [get_insert, if_neg (Nat.ne_of_lt (get_lt_next h)), h]

theorem select_insert (t : Table α) (a : α) (p : α → Bool) :
    (t.insert a).select p = t.select p ++ if p a then [(t.next, a)] else [] := by
  simp only [select, insert_rows, List.filter_append, List.filter_cons, List.filter_nil]

/-! UPDATE. -/

theorem update_rows (t : Table α) (k : Nat) (f : α → α) :
    (t.update k f).rows = t.rows.map (fun r => if r.1 = k then (r.1, f r.2) else r) := rfl

theorem get_update (t : Table α) (k : Nat) (f : α → α) (j : Nat) :
    (t.update k f).get j = if j = k then (t.get j).map f else t.get j := by
  cases hg : t.get j with
  | some a =>
    have hm := get_eq_some.mp hg
    split
    · next h =>
      exact get_eq_some.mpr (List.mem_map.mpr ⟨(j, a), hm, by simp [h]⟩)
    · next h =>
      exact get_eq_some.mpr (List.mem_map.mpr ⟨(j, a), hm, by simp [h]⟩)
  | none =>
    have hn : (t.update k f).get j = none := by
      rw [get_eq_none] at hg ⊢
      intro b hb
      obtain ⟨r, hr, he⟩ := List.mem_map.mp hb
      have hk : r.1 = j := by
        split at he
        · exact congrArg Prod.fst he
        · exact congrArg Prod.fst he
      exact hg r.2 (by rw [← hk]; exact hr)
    rw [hn]; split <;> rfl

/-- Two UPDATEs that write the same to the row under the key. -/
theorem update_congr {t : Table α} {k : Nat} {f g : α → α} {a : α} (h : t.get k = some a) (hfg : f a = g a) :
    t.update k f = t.update k g := by
  refine Table.ext ?_ rfl
  rw [update_rows, update_rows]
  apply List.map_congr_left
  intro r hr
  by_cases hk : r.1 = k
  · rw [if_pos hk, if_pos hk, row_eq h hr hk, hfg]
  · rw [if_neg hk, if_neg hk]

/-- An UPDATE that writes what is there. -/
theorem update_eq_self {t : Table α} {k : Nat} {f : α → α} {a : α} (h : t.get k = some a) (hf : f a = a) :
    t.update k f = t := by
  rw [update_congr (g := id) h hf]
  refine Table.ext ?_ rfl
  rw [update_rows]
  refine (List.map_congr_left ?_).trans (List.map_id _)
  intro r _
  split <;> rfl

@[simp] theorem get_update_self (t : Table α) (k : Nat) (f : α → α) :
    (t.update k f).get k = (t.get k).map f := by simp [get_update]

theorem get_update_ne {t : Table α} {k j : Nat} (f : α → α) (h : j ≠ k) :
    (t.update k f).get j = t.get j := by simp [get_update, h]

/-- A row after an UPDATE is the updated one or one from before. -/
theorem get_update_cases {t : Table α} {k j : Nat} {f : α → α} {b : α} (h : (t.update k f).get j = some b) :
    (∃ a, t.get j = some a ∧ b = f a) ∨ (j ≠ k ∧ t.get j = some b) := by
  rw [get_update] at h
  split at h
  · obtain ⟨a, ha, hb⟩ := Option.map_eq_some_iff.mp h
    exact .inl ⟨a, ha, hb.symm⟩
  · next hk => exact .inr ⟨hk, h⟩

/-- A condition the update does not touch selects the same rows, updated. -/
theorem select_update {t : Table α} {k : Nat} {f : α → α} {p : α → Bool}
    (h : ∀ a, t.get k = some a → p (f a) = p a) :
    (t.update k f).select p = (t.select p).map (fun r => if r.1 = k then (r.1, f r.2) else r) := by
  simp only [select, update_rows, List.filter_map]
  congr 1
  apply List.filter_congr
  intro r hr
  simp only [Function.comp]
  split
  · next hk => exact h r.2 (get_eq_some.mpr (hk ▸ hr))
  · rfl

/-- An update of a row the condition refuses before and after leaves the selection alone. -/
theorem select_update_other {t : Table α} {k : Nat} {f : α → α} {p : α → Bool}
    (h : ∀ a, t.get k = some a → p a = false ∧ p (f a) = false) :
    (t.update k f).select p = t.select p := by
  rw [select_update (fun a ha => by rw [(h a ha).1, (h a ha).2])]
  refine (List.map_congr_left ?_).trans (List.map_id _)
  intro r hr
  rw [mem_select] at hr
  split
  · next hk =>
    rw [hk] at hr
    rw [(h r.2 hr.1).1] at hr
    exact absurd hr.2 (by simp)
  · rfl

/-! DELETE. -/

theorem get_delete (t : Table α) (k j : Nat) :
    (t.delete k).get j = if j = k then none else t.get j := by
  split
  · next h =>
    subst h
    rw [get_eq_none]
    intro a ha
    have := (List.mem_filter.mp ha).2
    simp at this
  · next h =>
    cases hg : t.get j with
    | some a => exact get_eq_some.mpr (List.mem_filter.mpr ⟨get_eq_some.mp hg, by simpa using h⟩)
    | none =>
      rw [get_eq_none] at hg ⊢
      exact fun a ha => hg a (List.mem_filter.mp ha).1

theorem select_delete (t : Table α) (k : Nat) (p : α → Bool) :
    (t.delete k).select p = (t.select p).filter (fun r => r.1 != k) := by
  simp only [select, delete, List.filter_filter]
  exact List.filter_congr (fun r _ => Bool.and_comm _ _)

/-- Deleting a row the condition refuses leaves the selection alone. -/
theorem select_delete_other {t : Table α} {k : Nat} {p : α → Bool}
    (h : ∀ a, t.get k = some a → p a = false) : (t.delete k).select p = t.select p := by
  rw [select_delete, List.filter_eq_self]
  intro r hr
  rw [mem_select] at hr
  by_contra hk
  have hk : r.1 = k := by simpa using hk
  rw [hk] at hr
  rw [h r.2 hr.1] at hr
  exact absurd hr.2 (by simp)

/-! Unique columns. -/

/-- No two rows agree on the key. -/
def Unique {β : Type} (key : α → β) (t : Table α) : Prop :=
  ∀ j k a b, t.get j = some a → t.get k = some b → key a = key b → j = k

section
variable {β : Type} {key : α → β} {t t' : Table α}

theorem unique_of_no_rows (h : t.rows = []) : t.Unique key := by
  intro j k a b hj
  exact absurd hj (not_get_of_no_rows h)

/-- A table whose rows are rows of a unique one, up to what the key does not see. -/
theorem Unique.of_rows (h : t.Unique key)
    (hs : ∀ k b, t'.get k = some b → ∃ a, t.get k = some a ∧ key a = key b) : t'.Unique key := by
  intro j k a b hj hk he
  obtain ⟨a', hj', ha⟩ := hs j a hj
  obtain ⟨b', hk', hb⟩ := hs k b hk
  exact h j k a' b' hj' hk' (by rw [ha, he, hb])

theorem Unique.insert (h : t.Unique key) {a : α} (ha : ∀ k b, t.get k = some b → key b ≠ key a) :
    (t.insert a).Unique key := by
  intro j k b c hj hk he
  -- at most one of the two rows is the new one
  rcases get_insert_cases hj with ⟨rfl, hjn⟩ | hj'
  · rcases get_insert_cases hk with ⟨-, hkn⟩ | hk'
    · rw [hjn, hkn]
    · exact absurd he.symm (ha k c hk')
  · rcases get_insert_cases hk with ⟨rfl, -⟩ | hk'
    · exact absurd he (ha j b hj')
    · exact h j k b c hj' hk' he

/-- A row that gets a key no other row has. -/
theorem Unique.update (h : t.Unique key) {k : Nat} {f : α → α}
    (hf : ∀ a j b, t.get k = some a → t.get j = some b → key b = key (f a) → j = k) :
    (t.update k f).Unique key := by
  intro j i b c hj hi he
  rw [get_update] at hj hi
  split at hj
  · next hjk =>
    subst hjk
    obtain ⟨a, ha, rfl⟩ := Option.map_eq_some_iff.mp hj
    split at hi
    · next hij => exact hij.symm
    · exact (hf a i c ha hi he.symm).symm
  · split at hi
    · next hik =>
      subst hik
      obtain ⟨a, ha, rfl⟩ := Option.map_eq_some_iff.mp hi
      exact hf a j b ha hj he
    · exact h j i b c hj hi he

theorem get_of_get_delete {k j : Nat} {a : α} (h : (t.delete k).get j = some a) : t.get j = some a := by
  rw [get_delete] at h
  split at h
  · cases h
  · exact h

end

end Table

/-! What a query leaves open. -/

/-- A LIMIT 1 without an order: some matching row's key, whenever there is one. -/
structure Take where
  pick : List Nat → Option Nat
  mem : ∀ {l k}, pick l = some k → k ∈ l
  isSome : ∀ {l}, l ≠ [] → (pick l).isSome

/-- The first match. -/
def Take.first : Take where
  pick := List.head?
  mem := List.mem_of_head?
  isSome := by
    intro l h
    cases l with
    | nil => exact absurd rfl h
    | cons k l => rfl

namespace Table
variable {α : Type}

/-- One row satisfying the condition, with its key: whichever the database takes. -/
def findBy (t : Table α) (c : Take) (p : α → Bool) : Option (Nat × α) :=
  (c.pick ((t.select p).map Prod.fst)).bind (fun k => (t.get k).map (fun a => (k, a)))

theorem findBy_some {t : Table α} {c : Take} {p : α → Bool} {k : Nat} {a : α}
    (h : t.findBy c p = some (k, a)) : t.get k = some a ∧ p a = true := by
  obtain ⟨j, hj, hk⟩ := Option.bind_eq_some_iff.mp h
  obtain ⟨b, hb, he⟩ := Option.map_eq_some_iff.mp hk
  simp only [Prod.mk.injEq] at he
  obtain ⟨rfl, rfl⟩ := he
  obtain ⟨r, hr, hrj⟩ := List.mem_map.mp (c.mem hj)
  rw [mem_select, hrj, hb] at hr
  simp only [Option.some.injEq] at hr
  exact ⟨hb, hr.1 ▸ hr.2⟩

theorem findBy_none {t : Table α} {c : Take} {p : α → Bool} :
    t.findBy c p = none ↔ ∀ k a, t.get k = some a → p a = false := by
  constructor
  · intro h
    rw [← select_eq_nil]
    by_contra hne
    have hne' : (t.select p).map Prod.fst ≠ [] := by simpa using hne
    obtain ⟨k, hk⟩ := Option.isSome_iff_exists.mp (c.isSome hne')
    obtain ⟨r, hr, hrk⟩ := List.mem_map.mp (c.mem hk)
    rw [mem_select, hrk] at hr
    simp [findBy, hk, hr.1] at h
  · intro h
    have hn := select_eq_nil.mpr h
    cases hf : t.findBy c p with
    | none => rfl
    | some r =>
      obtain ⟨hg, hp⟩ := findBy_some (k := r.1) (a := r.2) hf
      rw [h r.1 r.2 hg] at hp
      exact absurd hp (by simp)

/-- Where one row can match, it is the row taken. -/
theorem findBy_unique {t : Table α} {c : Take} {p : α → Bool} {k : Nat} {a : α} (hg : t.get k = some a)
    (hp : p a = true) (hu : ∀ j b, t.get j = some b → p b = true → j = k) :
    t.findBy c p = some (k, a) := by
  cases hf : t.findBy c p with
  | none =>
    rw [findBy_none.mp hf k a hg] at hp
    exact absurd hp (by simp)
  | some r =>
    obtain ⟨j, b⟩ := r
    obtain ⟨hj, hb⟩ := findBy_some hf
    have hjk := hu j b hj hb
    subst hjk
    rw [hg] at hj
    simp only [Option.some.injEq] at hj
    rw [hj]

end Table

/-- An ORDER BY: the rows given, sorted by the key, ties in any order. -/
structure OrderBy (β : Type) (key : β → Int) where
  sort : List β → List β
  perm : ∀ l, (sort l).Perm l
  sorted : ∀ l, (sort l).Pairwise (fun a b => key a ≤ key b)

/-- Insertion sort: ties stay in the order given. -/
def OrderBy.stable {β : Type} (key : β → Int) : OrderBy β key where
  sort := List.insertionSort (fun a b => key a ≤ key b)
  perm := List.perm_insertionSort _
  sorted := by
    intro l
    have : Std.Total (fun a b : β => key a ≤ key b) := ⟨fun a b => Int.le_total (key a) (key b)⟩
    have : IsTrans β (fun a b => key a ≤ key b) := ⟨fun _ _ _ h₁ h₂ => Int.le_trans h₁ h₂⟩
    exact List.pairwise_insertionSort _ l

/-- On rows with distinct sort keys every order agrees with any sorted listing of them. -/
theorem OrderBy.sort_eq {β : Type} {key : β → Int} (o : OrderBy β key) {l l' : List β}
    (hp : l'.Perm l) (hs : l'.Pairwise (fun a b => key a ≤ key b))
    (hinj : ∀ a ∈ l, ∀ b ∈ l, key a = key b → a = b) : o.sort l = l' := by
  refine List.Perm.eq_of_pairwise ?_ (o.sorted l) hs ((o.perm l).trans hp.symm)
  intro a b ha hb h₁ h₂
  exact hinj a ((o.perm l).mem_iff.mp ha) b (hp.mem_iff.mp hb) (Int.le_antisymm h₁ h₂)

end Relational
