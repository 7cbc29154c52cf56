import Myflix.Lib.Table

/- Renumbering rows. `Table.renumber` runs down a list of keys and rewrites the
   row under each with its position; `renumber_rows` says in one equation what
   the loop leaves in the table. The rest is about lists of rows numbered by an
   integer field: `Numbered` says that the numbers are 1, 2, ..., n, each once. -/
namespace Relational

namespace Table
variable {α : Type}

/-- The loop: the row under the `i`-th key is rewritten with `i`. -/
def renumber (f : Nat → α → α) : Table α → Nat → List Nat → Table α
  | t, _, [] => t
  | t, i, k :: ks => renumber f (t.update k (f i)) (i + 1) ks

/-- A row after the loop: rewritten with its key's position if the list names it. -/
def renumbered (f : Nat → α → α) (i : Nat) (ks : List Nat) (r : Nat × α) : Nat × α :=
  (r.1, if r.1 ∈ ks then f (i + ks.idxOf r.1) r.2 else r.2)

theorem renumber_rows (f : Nat → α → α) (t : Table α) (i : Nat) (ks : List Nat) (hks : ks.Nodup) :
    (t.renumber f i ks).rows = t.rows.map (renumbered f i ks) := by
  induction ks generalizing t i with
  | nil =>
    refine ((List.map_congr_left ?_).trans (List.map_id _)).symm
    intro r _
    simp [renumbered]
  | cons k ks ih =>
    obtain ⟨hk, hks⟩ := List.nodup_cons.mp hks
    simp only [renumber]
    rw [ih _ _ hks, update_rows, List.map_map]
    apply List.map_congr_left
    intro r _
    by_cases hr : r.1 = k
    · simp [renumbered, Function.comp, hr, hk]
    · have hi : i + 1 + ks.idxOf r.1 = i + (k :: ks).idxOf r.1 := by
        rw [List.idxOf_cons_ne _ (Ne.symm hr)]; omega
      simp [renumbered, Function.comp, hr, hi]

theorem renumber_next (f : Nat → α → α) (t : Table α) (i : Nat) (ks : List Nat) :
    (t.renumber f i ks).next = t.next := by
  induction ks generalizing t i with
  | nil => rfl
  | cons k ks ih => exact ih _ _

/-- A condition the numbering does not touch selects the same rows, renumbered. -/
theorem select_renumber {f : Nat → α → α} {t : Table α} {i : Nat} {ks : List Nat} {p : α → Bool}
    (hks : ks.Nodup) (hp : ∀ n a, p (f n a) = p a) :
    (t.renumber f i ks).select p = (t.select p).map (renumbered f i ks) := by
  simp only [select, renumber_rows f t i ks hks, List.filter_map]
  congr 1
  apply List.filter_congr
  intro r _
  simp only [Function.comp, renumbered]
  split
  · exact hp _ _
  · rfl

end Table

/-! Lists numbered 1, 2, ..., n. -/

section
variable {β : Type}

/-- The numbers 1, 2, ..., n. -/
def upTo (n : Nat) : List Int := (List.range n).map (fun i : Nat => (i : Int) + 1)

theorem upTo_succ (n : Nat) : upTo (n + 1) = upTo n ++ [(n : Int) + 1] := by
  simp [upTo, List.range_succ]

theorem upTo_nodup (n : Nat) : (upTo n).Nodup := by
  refine List.Nodup.map ?_ List.nodup_range
  intro a b h
  simp only at h
  omega

theorem mem_upTo {n : Nat} {x : Int} : x ∈ upTo n ↔ 1 ≤ x ∧ x ≤ n := by
  simp only [upTo, List.mem_map, List.mem_range]
  constructor
  · rintro ⟨i, hi, rfl⟩
    omega
  · rintro ⟨h1, h2⟩
    exact ⟨(x - 1).toNat, by omega, by omega⟩

theorem upTo_sorted (n : Nat) : (upTo n).Pairwise (fun a b => a ≤ b) := by
  rw [upTo, List.pairwise_map]
  exact List.pairwise_lt_range.imp (fun h => by omega)

/-- The numbers of the rows are 1, 2, ..., n, each used once. -/
def Numbered (no : β → Int) (l : List β) : Prop := (l.map no).Perm (upTo l.length)

instance (no : β → Int) (l : List β) : Decidable (Numbered no l) := by
  unfold Numbered; infer_instance

theorem numbered_nil (no : β → Int) : Numbered no [] := List.Perm.refl _

theorem Numbered.perm {no : β → Int} {l l' : List β} (h : Numbered no l) (hp : l'.Perm l) :
    Numbered no l' := by
  unfold Numbered at h ⊢
  rw [hp.length_eq]
  exact (hp.map no).trans h

theorem Numbered.nodup {no : β → Int} {l : List β} (h : Numbered no l) : (l.map no).Nodup :=
  h.nodup_iff.mpr (upTo_nodup _)

theorem Numbered.inj {no : β → Int} {l : List β} (h : Numbered no l) {a b : β} (ha : a ∈ l) (hb : b ∈ l)
    (he : no a = no b) : a = b :=
  List.inj_on_of_nodup_map h.nodup ha hb he

theorem Numbered.bounds {no : β → Int} {l : List β} (h : Numbered no l) {a : β} (ha : a ∈ l) :
    1 ≤ no a ∧ no a ≤ l.length :=
  mem_upTo.mp (h.mem_iff.mp (List.mem_map_of_mem ha))

/-- A row appended to numbered rows that leaves them numbered is one past the end. -/
theorem Numbered.last {no : β → Int} {l : List β} {a : β} (h : Numbered no l) (ha : Numbered no (l ++ [a])) :
    no a = (l.length : Int) + 1 := by
  unfold Numbered at h ha
  rw [List.map_append, List.length_append, List.length_singleton, upTo_succ, List.map_singleton] at ha
  have hp : (upTo l.length ++ [no a]).Perm (upTo l.length ++ [(l.length : Int) + 1]) :=
    (h.symm.append_right _).trans ha
  exact List.singleton_perm_singleton.mp ((List.perm_append_left_iff _).mp hp)

/-- Appending a row numbered one past the end. -/
theorem Numbered.concat {no : β → Int} {l : List β} (h : Numbered no l) {a : β}
    (ha : no a = (l.length : Int) + 1) : Numbered no (l ++ [a]) := by
  unfold Numbered at h ⊢
  rw [List.map_append, List.length_append, List.length_singleton, upTo_succ, List.map_singleton, ha]
  exact h.append_right _

/-- Sorted by their numbers, the rows are numbered 1, 2, ..., n in this order. -/
theorem Numbered.map_eq {no : β → Int} {l : List β} (h : Numbered no l)
    (hs : l.Pairwise (fun a b => no a ≤ no b)) : l.map no = upTo l.length := by
  refine List.Perm.eq_of_pairwise ?_ (List.pairwise_map.mpr hs) (upTo_sorted _) h
  intro a b _ _ hab hba
  omega

theorem map_idxOf_self {l : List Nat} (h : l.Nodup) : l.map l.idxOf = List.range l.length := by
  apply List.ext_getElem
  · simp
  · intro i h1 h2
    simp [h.idxOf_getElem i (by simpa using h1)]

end

/-! Sorted lists. -/

section
variable {β : Type}

/-- `a` stands strictly before `b` in the list. -/
def Before (l : List β) (a b : β) : Prop := ∃ l₁ l₂ l₃, l = l₁ ++ a :: l₂ ++ b :: l₃

/-- In a sorted list the element with the smaller key stands first. -/
theorem before_of_sorted {key : β → Int} {l : List β} (hs : l.Pairwise (fun a b => key a ≤ key b)) {a b : β}
    (ha : a ∈ l) (hb : b ∈ l) (h : key a < key b) : Before l a b := by
  obtain ⟨l₁, l₂, rfl⟩ := List.append_of_mem ha
  rw [List.pairwise_append] at hs
  rcases List.mem_append.mp hb with hb | hb
  · have := hs.2.2 b hb a List.mem_cons_self
    omega
  · rcases List.mem_cons.mp hb with rfl | hb
    · omega
    · obtain ⟨m₁, m₂, rfl⟩ := List.append_of_mem hb
      exact ⟨l₁, m₁, m₂, by simp⟩

theorem Before.map {γ : Type} (f : β → γ) {l : List β} {a b : β} (h : Before l a b) : Before (l.map f) (f a) (f b) := by
  obtain ⟨l₁, l₂, l₃, rfl⟩ := h
  exact ⟨l₁.map f, l₂.map f, l₃.map f, by simp⟩

/-- Of two members of a list without repetition, the one that stands first has the smaller index. -/
theorem Before.idxOf_lt {l : List Nat} (hn : l.Nodup) {a b : Nat} (h : Before l a b) : l.idxOf a < l.idxOf b := by
  obtain ⟨l₁, l₂, l₃, rfl⟩ := h
  have ha : a ∈ l₁ ++ a :: l₂ := by simp
  have hb : b ∉ l₁ ++ a :: l₂ := by
    intro hb
    exact (List.nodup_append.mp hn).2.2 b hb b List.mem_cons_self rfl
  have hlt := List.idxOf_lt_length_of_mem ha
  rw [List.idxOf_append_of_mem ha, List.idxOf_append_of_notMem hb]
  omega

end

/-! What the loop makes of the selected rows when it is given their keys. -/

section
variable {α : Type} {f : Nat → α → α} {t : Table α} {p : α → Bool} {l : List (Nat × α)} (no : α → Int)

/-- The keys of the rows, in the order of the listing. -/
theorem listing_keys_nodup (hl : l.Perm (t.select p)) : (l.map Prod.fst).Nodup :=
  ((hl.map Prod.fst).nodup_iff).mpr (t.select_keys_nodup p)

/-- The index of a row's key is the row's position. -/
theorem map_idxOf_fst (hl : (l.map Prod.fst).Nodup) :
    l.map (fun r => (l.map Prod.fst).idxOf r.1) = List.range l.length := by
  have h := map_idxOf_self hl
  rw [List.map_map, List.length_map] at h
  exact h

/-- A row's number after the loop. -/
theorem renumbered_no (hno : ∀ n, ∀ r ∈ l, no (f n r.2) = (n : Int) + 1) {r : Nat × α} (hr : r ∈ l) :
    no (Table.renumbered f 0 (l.map Prod.fst) r).2 = ((l.map Prod.fst).idxOf r.1 : Int) + 1 := by
  have hm : r.1 ∈ l.map Prod.fst := List.mem_map_of_mem hr
  simp only [Table.renumbered, hm, if_true, Nat.zero_add]
  exact hno _ r hr

theorem map_renumbered_no (hl : (l.map Prod.fst).Nodup) (hno : ∀ n, ∀ r ∈ l, no (f n r.2) = (n : Int) + 1) :
    (l.map (Table.renumbered f 0 (l.map Prod.fst))).map (fun r => no r.2) = upTo l.length := by
  rw [upTo, ← map_idxOf_fst hl, List.map_map, List.map_map]
  apply List.map_congr_left
  intro r hr
  exact renumbered_no no hno hr

/-- Renumbering along any listing of the selected rows numbers them 1, 2, ..., n. -/
theorem numbered_renumber (hl : l.Perm (t.select p)) (hp : ∀ n a, p (f n a) = p a)
    (hno : ∀ n, ∀ r ∈ l, no (f n r.2) = (n : Int) + 1) :
    Numbered (fun r => no r.2) ((t.renumber f 0 (l.map Prod.fst)).select p) := by
  have hn := listing_keys_nodup hl
  rw [Table.select_renumber hn hp]
  unfold Numbered
  have hlen : ((t.select p).map (Table.renumbered f 0 (l.map Prod.fst))).length = l.length := by
    rw [List.length_map, hl.length_eq]
  rw [hlen, ← map_renumbered_no no hn hno]
  exact ((hl.symm.map _).map _)

/-- Sorted by its new numbers, the renumbered selection is the listing. -/
theorem sort_renumber (o : OrderBy (Nat × α) (fun r => no r.2)) (hl : l.Perm (t.select p))
    (hp : ∀ n a, p (f n a) = p a) (hno : ∀ n, ∀ r ∈ l, no (f n r.2) = (n : Int) + 1) :
    o.sort ((t.renumber f 0 (l.map Prod.fst)).select p) =
      l.map (Table.renumbered f 0 (l.map Prod.fst)) := by
  have hn := listing_keys_nodup hl
  apply o.sort_eq
  · rw [Table.select_renumber hn hp]
    exact hl.map _
  · rw [← List.pairwise_map (f := fun r : Nat × α => no r.2) (R := (· ≤ ·)), map_renumbered_no no hn hno]
    exact upTo_sorted _
  · intro a ha b hb
    exact (numbered_renumber no hl hp hno).inj ha hb

/-- The loop keeps the order of a sorted listing. -/
theorem renumbered_lt (hl : (l.map Prod.fst).Nodup) (hs : l.Pairwise (fun a b => no a.2 ≤ no b.2))
    (hno : ∀ n, ∀ r ∈ l, no (f n r.2) = (n : Int) + 1) {a b : Nat × α} (ha : a ∈ l) (hb : b ∈ l)
    (h : no a.2 < no b.2) :
    no (Table.renumbered f 0 (l.map Prod.fst) a).2 < no (Table.renumbered f 0 (l.map Prod.fst) b).2 := by
  have hi := ((before_of_sorted hs ha hb h).map Prod.fst).idxOf_lt hl
  rw [renumbered_no no hno ha, renumbered_no no hno hb]
  omega

/-- Rows numbered already are left as they are, if the loop writes no row that has its number. -/
theorem renumber_of_numbered (hl : l.Perm (t.select p)) (hs : l.Pairwise (fun a b => no a.2 ≤ no b.2))
    (hn : Numbered (fun r => no r.2) (t.select p)) (hf : ∀ (n : Nat) a, no a = (n : Int) + 1 → f n a = a) :
    t.renumber f 0 (l.map Prod.fst) = t := by
  have hk := listing_keys_nodup hl
  -- in the sorted listing every row has its position as its number
  have hpos : ∀ r ∈ l, no r.2 = ((l.map Prod.fst).idxOf r.1 : Int) + 1 := by
    have hmap : l.map (fun r => no r.2) = l.map (fun r => ((l.map Prod.fst).idxOf r.1 : Int) + 1) := by
      rw [(hn.perm hl).map_eq hs, upTo, ← map_idxOf_fst hk, List.map_map]
      rfl
    exact List.map_inj_left.mp hmap
  refine Table.ext ?_ (Table.renumber_next _ _ _ _)
  rw [Table.renumber_rows f t 0 _ hk]
  refine (List.map_congr_left ?_).trans (List.map_id _)
  intro r hr
  by_cases hm : r.1 ∈ l.map Prod.fst
  · obtain ⟨r', hr', he⟩ := List.mem_map.mp hm
    have hrow : r' = r := by
      have hrows := (List.mem_filter.mp (hl.mem_iff.mp hr')).1
      exact Table.key_inj hrows hr he
    have hfr := hf _ _ (hpos r (hrow ▸ hr'))
    simp [Table.renumbered, hm, hfr]
  · simp [Table.renumbered, hm]

end

end Relational
