import Mathlib.Data.List.Induction
import Myflix.Queue

/- `update_queue` and one review. The loop of `update_queue_items` is taken down
   to the review of one video: `rate` is what one entry does to its rating
   (`QueueItem#rating=`), and the whole loop folds `rate` over the entries for that
   video (`updateQueueItems_ratingOf`). `Accepted` is what the loop lets through,
   read off the submission and the store before the request
   (`updateQueueItems_ok_iff`). -/
namespace Myflix
open Relational Rails Transition

section
variable {s s' : Store} {u v : Nat}

theorem reviewOf_some {k : Nat} {r : Review} (h : s.reviewOf u v = some (k, r)) :
    s.reviews.get k = some r ∧ r.userId = u ∧ r.videoId = v := by
  have := Table.mem_select.mp (List.mem_of_head? h)
  simp only [Bool.and_eq_true, beq_iff_eq] at this
  exact this

theorem reviewOf_none :
    s.reviewOf u v = none ↔ ∀ k r, s.reviews.get k = some r → r.userId = u → r.videoId ≠ v := by
  simp only [Store.reviewOf, List.head?_eq_none_iff, Table.select_eq_nil, Bool.and_eq_false_iff, beq_eq_false_iff_ne]
  refine ⟨?_, ?_⟩
  · intro h k r hk hu
    rcases h k r hk with h | h
    · exact absurd hu h
    · exact h
  · intro h k r hk
    by_cases hu : r.userId = u
    · exact .inr (h k r hk hu)
    · exact .inl hu

/-! One entry and one review. -/

/-- The rating of a user's review of a video, if there is a review. -/
def Store.ratingOf (s : Store) (u v : Nat) : Option (Option Int) := (s.reviewOf u v).map (fun r => r.2.rating)

/-- What `rating=` does to it. -/
def rate (old : Option (Option Int)) (rating : Param) : Option (Option Int) :=
  match old with
  | some _ => some rating.int
  | none => if ratingValid rating then some rating.int else none

theorem reviewOf_update (k : Nat) (n : Option Int) (x y : Nat) :
    ({ s with reviews := s.reviews.update k (fun r => { r with rating := n }) } : Store).reviewOf x y =
      (s.reviewOf x y).map (fun r => if r.1 = k then (r.1, { r.2 with rating := n }) else r) := by
  simp only [Store.reviewOf]
  rw [Table.select_update (f := fun r : Review => { r with rating := n }) (fun a _ => rfl), List.head?_map]

theorem reviewOf_insert (r : Review) (x y : Nat) :
    ({ s with reviews := s.reviews.insert r } : Store).reviewOf x y =
      (s.reviewOf x y).or (if r.userId == x && r.videoId == y then some (s.reviews.next, r) else none) := by
  simp only [Store.reviewOf, Table.select_insert, List.head?_append]
  split <;> rfl

theorem ratingOf_update {k : Nat} {r : Review} {n : Option Int} (hk : s.reviews.get k = some r) (x y : Nat) :
    ({ s with reviews := s.reviews.update k (fun r => { r with rating := n }) } : Store).ratingOf x y =
      if s.reviewOf x y = some (k, r) then some n else s.ratingOf x y := by
  simp only [Store.ratingOf, reviewOf_update]
  cases hh : s.reviewOf x y with
  | none => rfl
  | some r' =>
    obtain ⟨hg, -⟩ := reviewOf_some (k := r'.1) (r := r'.2) hh
    by_cases hk' : r'.1 = k
    · have he : r' = (k, r) := by
        rw [hk', hk] at hg
        exact Prod.ext hk' (Option.some.inj hg).symm
      simp [he]
    · have hne : r' ≠ (k, r) := fun he => hk' (by rw [he])
      simp [hk', hne]

theorem ratingOf_insert (r : Review) (x y : Nat) :
    ({ s with reviews := s.reviews.insert r } : Store).ratingOf x y =
      if s.reviewOf x y = none ∧ r.userId = x ∧ r.videoId = y then some r.rating else s.ratingOf x y := by
  simp only [Store.ratingOf, reviewOf_insert]
  cases hh : s.reviewOf x y with
  | some r' => simp
  | none =>
    by_cases hr : r.userId = x ∧ r.videoId = y
    · simp [hr.1, hr.2]
    · have hr' : (r.userId == x && r.videoId == y) = false := by
        simpa only [Bool.and_eq_false_iff, beq_eq_false_iff_ne, not_and_or] using hr
      simp [hr, hr']

theorem setRating_ratingOf {q : QueueItem} {p : Param} (h : q.setRating s p = .ok s') (x y : Nat) :
    s'.ratingOf x y = if q.userId = x ∧ q.videoId = y then rate (s.ratingOf x y) p else s.ratingOf x y := by
  obtain ⟨-, -, ⟨k, r, hr, -, rfl⟩ | ⟨hr, rfl⟩⟩ := setRating_cases h
  · obtain ⟨hk, hu, hv⟩ := reviewOf_some hr
    rw [ratingOf_update hk]
    by_cases hxy : q.userId = x ∧ q.videoId = y
    · rw [if_pos hxy, ← hxy.1, ← hxy.2, if_pos hr, Store.ratingOf, hr]
      rfl
    · rw [if_neg hxy, if_neg]
      intro he
      obtain ⟨-, hx, hy⟩ := reviewOf_some he
      exact hxy ⟨by rw [← hu, hx], by rw [← hv, hy]⟩
  · unfold createReview
    by_cases hp : ratingValid p = true
    · simp only [hp, if_true]
      rw [ratingOf_insert]
      by_cases hxy : q.userId = x ∧ q.videoId = y
      · rw [← hxy.1, ← hxy.2]
        simp [hr, Store.ratingOf, rate, hp]
      · rw [if_neg hxy, if_neg (fun h => hxy h.2)]
    · simp only [hp, Bool.false_eq_true, if_false]
      by_cases hxy : q.userId = x ∧ q.videoId = y
      · rw [← hxy.1, ← hxy.2]
        simp [hr, Store.ratingOf, rate, hp]
      · rw [if_neg hxy]

/-! The loop and one review. -/

/-- The video of the user's own item an entry names. -/
def ownVideo (s : Store) (u : Nat) (d : QueueItemData) : Option Nat :=
  (find s.queueItems d.id).bind (fun r => if r.2.userId = u then some r.2.videoId else none)

theorem ownVideo_of {d : QueueItemData} {id : Nat} {q : QueueItem} (hk : Param.key d.id = some id)
    (hq : s.queueItems.get id = some q) : ownVideo s u d = if q.userId = u then some q.videoId else none := by
  simp [ownVideo, find_of_key hk, hq]

/-- The items after the loop, or after a part of it. -/
theorem updateQueueItems_get {seen : List QueueItemData} {s₁ : Store}
    (h : queueItems.updateQueueItems s u seen = .ok s₁) (k : Nat) :
    s₁.queueItems.get k = (s.queueItems.get k).map (fun q => (reranked u seen (k, q)).2) :=
  Table.get_of_rows_map (updateQueueItems_rows h) (reranked_fst u seen) k

/-- A round changes neither the user nor the video of an item. -/
theorem updateQueueItem_ownVideo {d : QueueItemData} (h : queueItems.updateQueueItem s u d = .ok s')
    (d' : QueueItemData) : ownVideo s' u d' = ownVideo s u d' := by
  have h1 : queueItems.updateQueueItems s u [d] = .ok s' := by simp only [queueItems.updateQueueItems, h]
  unfold ownVideo find
  cases Param.key d'.id with
  | none => rfl
  | some k =>
    simp only [Option.bind_some, updateQueueItems_get h1]
    cases s.queueItems.get k with
    | none => rfl
    | some q => simp [reranked_userId, reranked_videoId]

theorem updateQueueItem_ratingOf {d : QueueItemData} (h : queueItems.updateQueueItem s u d = .ok s') (y : Nat) :
    s'.ratingOf u y = if ownVideo s u d = some y then rate (s.ratingOf u y) d.rating else s.ratingOf u y := by
  obtain ⟨id, q, hk, hq, ⟨hown, rfl⟩ | ⟨hown, -, -, s₁, hs, rfl⟩⟩ := updateQueueItem_cases h
  · simp [ownVideo_of hk hq, hown]
  · have := setRating_ratingOf hs u y
    simp only [hown, true_and] at this
    simp only [ownVideo_of hk hq, hown, if_true, Option.some.injEq]
    exact this

theorem updateQueueItem_ratingOf_other {d : QueueItemData} (h : queueItems.updateQueueItem s u d = .ok s')
    {x : Nat} (hx : x ≠ u) (y : Nat) : s'.ratingOf x y = s.ratingOf x y := by
  obtain ⟨id, q, -, -, ⟨-, rfl⟩ | ⟨hown, -, -, s₁, hs, rfl⟩⟩ := updateQueueItem_cases h
  · rfl
  · have := setRating_ratingOf hs x y
    rw [if_neg (fun h => hx (by rw [← h.1, hown]))] at this
    exact this

/-- The ratings submitted for a video, in order. -/
def ratingsFor (s : Store) (u : Nat) (entries : List QueueItemData) (v : Nat) : List Param :=
  (entries.filter (fun d => ownVideo s u d == some v)).map QueueItemData.rating

theorem ratingsFor_cons (d : QueueItemData) (rest : List QueueItemData) :
    ratingsFor s u (d :: rest) v =
      if ownVideo s u d = some v then d.rating :: ratingsFor s u rest v else ratingsFor s u rest v := by
  unfold ratingsFor
  by_cases h : ownVideo s u d = some v
  · simp [h]
  · simp [h]

theorem ratingsFor_congr {s₁ : Store} (h : ∀ d, ownVideo s₁ u d = ownVideo s u d)
    (entries : List QueueItemData) : ratingsFor s₁ u entries v = ratingsFor s u entries v := by
  simp only [ratingsFor, h]

/-- **The loop folds `rate`.** -/
theorem updateQueueItems_ratingOf {entries : List QueueItemData}
    (h : queueItems.updateQueueItems s u entries = .ok s') (y : Nat) :
    s'.ratingOf u y = (ratingsFor s u entries y).foldl rate (s.ratingOf u y) := by
  -- a round does not move items, so `ratingsFor` can be read off the first store
  induction entries generalizing s with
  | nil =>
    simp only [queueItems.updateQueueItems, Except.ok.injEq] at h
    subst h
    rfl
  | cons d rest ih =>
    simp only [queueItems.updateQueueItems] at h
    split at h
    · cases h
    · next s₁ h₁ =>
      rw [ih h, ratingsFor_congr (updateQueueItem_ownVideo h₁), updateQueueItem_ratingOf h₁, ratingsFor_cons]
      split <;> rfl

theorem updateQueueItems_ratingOf_other {entries : List QueueItemData}
    (h : queueItems.updateQueueItems s u entries = .ok s') {x : Nat} (hx : x ≠ u) (y : Nat) :
    s'.ratingOf x y = s.ratingOf x y :=
  updateQueueItems_inv (I := fun z => z.ratingOf x y = s.ratingOf x y)
    (fun _ _ _ _ hz hd => (updateQueueItem_ratingOf_other hd hx y).trans hz) rfl h

theorem rate_isSome (old : Option (Option Int)) (p : Param) :
    (rate old p).isSome = (old.isSome || ratingValid p) := by
  cases old with
  | some n => rfl
  | none => simp only [rate]; split <;> simp_all

/-- A review is there after the fold when it was there or some rating was good enough to create it. -/
theorem foldl_rate_isSome (ps : List Param) (old : Option (Option Int)) :
    (ps.foldl rate old).isSome = (old.isSome || ps.any ratingValid) := by
  induction ps generalizing old with
  | nil => simp
  | cons p ps ih => rw [List.foldl_cons, ih, rate_isSome, List.any_cons, Bool.or_assoc]

/-! What the loop accepts. -/

/-- The review of the video is not there yet: not stored, and no earlier entry creates it. -/
def NoReviewYet (s : Store) (u : Nat) (earlier : List QueueItemData) (v : Nat) : Prop :=
  s.reviewOf u v = none ∧ ∀ d ∈ earlier, ownVideo s u d = some v → ratingValid d.rating = false

/-- The entry names an item, and if it is the user's own then its ranking is an integer that
    fits the column or is the item's already, and its rating fits too unless there is no review
    to overwrite. -/
def AcceptsAt (s : Store) (u : Nat) (earlier : List QueueItemData) (d : QueueItemData) : Prop :=
  ∃ id q, Param.key d.id = some id ∧ s.queueItems.get id = some q ∧
    (q.userId = u → (s.users.get u).isSome ∧ (s.videos.get q.videoId).isSome ∧
      (fitsColumn (Param.int d.rating) = true ∨ NoReviewYet s u earlier q.videoId) ∧
      d.ranking.isInteger = true ∧
      (d.ranking.toI = newRanking earlier (id, q) ∨ fitsInteger d.ranking.toI = true))

/-- Every entry is accepted after the ones before it. -/
def Accepted (s : Store) (u : Nat) (entries : List QueueItemData) : Prop :=
  ∀ pre d post, entries = pre ++ d :: post → AcceptsAt s u pre d

theorem setRating_ok_iff {q : QueueItem} {p : Param} :
    (∃ s', q.setRating s p = .ok s') ↔ (s.users.get q.userId).isSome ∧ (s.videos.get q.videoId).isSome ∧
      (fitsColumn p.int = true ∨ s.reviewOf q.userId q.videoId = none) := by
  refine ⟨?_, ?_⟩
  · intro h
    obtain ⟨s', h⟩ := h
    obtain ⟨hu, hv, ⟨k, r, -, hf, -⟩ | ⟨hr, -⟩⟩ := setRating_cases h
    · exact ⟨hu, hv, .inl hf⟩
    · exact ⟨hu, hv, .inr hr⟩
  · intro h
    obtain ⟨hu, hv, h⟩ := h
    simp only [QueueItem.setRating, hu, hv, Bool.and_self, if_true]
    cases hr : s.reviewOf q.userId q.videoId with
    | none => exact ⟨_, rfl⟩
    | some r =>
      rcases h with h | h
      · simp only [h, if_true]
        exact ⟨_, rfl⟩
      · rw [hr] at h
        cases h

theorem updateQueueItem_ok_iff {d : QueueItemData} :
    (∃ s', queueItems.updateQueueItem s u d = .ok s') ↔
      ∃ id q, Param.key d.id = some id ∧ s.queueItems.get id = some q ∧
        (q.userId = u → (s.users.get u).isSome ∧ (s.videos.get q.videoId).isSome ∧
          (fitsColumn (Param.int d.rating) = true ∨ s.reviewOf u q.videoId = none) ∧
          d.ranking.isInteger = true ∧
          (d.ranking.toI = q.ranking ∨ fitsInteger d.ranking.toI = true)) := by
  refine ⟨?_, ?_⟩
  · intro h
    obtain ⟨s', h⟩ := h
    obtain ⟨id, q, hk, hq, ⟨hown, -⟩ | ⟨hown, hi, hf, s₁, hs, -⟩⟩ := updateQueueItem_cases h
    · exact ⟨id, q, hk, hq, fun he => absurd he hown⟩
    · obtain ⟨hu, hv, hr⟩ := setRating_ok_iff.mp ⟨s₁, hs⟩
      rw [hown] at hu hr
      exact ⟨id, q, hk, hq, fun _ => ⟨hu, hv, hr, hi, hf⟩⟩
  · intro h
    obtain ⟨id, q, hk, hq, h⟩ := h
    simp only [queueItems.updateQueueItem, find_of_key hk, hq, Option.map_some]
    split
    · next hown =>
      have hown : q.userId = u := by simpa using hown
      obtain ⟨hu, hv, hr, hi, hf⟩ := h hown
      rw [← hown] at hu hr
      obtain ⟨s₁, hs⟩ := setRating_ok_iff.mpr ⟨hu, hv, hr⟩
      have hf : (d.ranking.toI == q.ranking || fitsInteger d.ranking.toI) = true := by simpa using hf
      simp only [QueueItem.updateAttributes, hs, hi, hf, if_true]
      exact ⟨_, rfl⟩
    · exact ⟨s, rfl⟩

/-- The loop so far left nothing to overwrite exactly when there was nothing and it created nothing. -/
theorem reviewOf_none_after {seen : List QueueItemData} {s₁ : Store}
    (h : queueItems.updateQueueItems s u seen = .ok s₁) :
    s₁.reviewOf u v = none ↔ NoReviewYet s u seen v := by
  have hf : (s₁.ratingOf u v).isSome = ((s.ratingOf u v).isSome || (ratingsFor s u seen v).any ratingValid) := by
    rw [updateQueueItems_ratingOf h, foldl_rate_isSome]
  simp only [Store.ratingOf, Option.isSome_map, ratingsFor, List.any_map, List.any_filter] at hf
  rw [← Option.not_isSome_iff_eq_none, hf, NoReviewYet, ← Option.not_isSome_iff_eq_none]
  simp only [Bool.or_eq_true, not_or, Bool.not_eq_true, List.any_eq_false, Bool.and_eq_true, beq_iff_eq, not_and,
    Function.comp]

theorem updateQueueItems_concat (s : Store) (u : Nat) (seen : List QueueItemData) (d : QueueItemData) :
    queueItems.updateQueueItems s u (seen ++ [d]) =
      match queueItems.updateQueueItems s u seen with
      | .error e => .error e
      | .ok s₁ => queueItems.updateQueueItem s₁ u d := by
  induction seen generalizing s with
  | nil =>
    simp only [List.nil_append, queueItems.updateQueueItems]
    cases queueItems.updateQueueItem s u d <;> rfl
  | cons d' seen ih =>
    simp only [List.cons_append, queueItems.updateQueueItems]
    cases queueItems.updateQueueItem s u d' with
    | error e => rfl
    | ok s₁ => exact ih s₁

/-- One more entry after the loop so far. -/
theorem acceptsAt_iff {seen : List QueueItemData} {s₁ : Store}
    (h : queueItems.updateQueueItems s u seen = .ok s₁) (d : QueueItemData) :
    (∃ s', queueItems.updateQueueItem s₁ u d = .ok s') ↔ AcceptsAt s u seen d := by
  obtain ⟨hu, hv, -⟩ := updateQueueItems_frame h
  rw [updateQueueItem_ok_iff, hu, hv]
  -- an own item has the ranking the last entry so far gave it
  have hrank : ∀ id (q : QueueItem), q.userId = u → (reranked u seen (id, q)).2.ranking = newRanking seen (id, q) := by
    intro id q hq
    simp only [reranked, hq, if_true]
  refine ⟨?_, ?_⟩
  · intro hx
    obtain ⟨id, q₁, hk, hq₁, hx⟩ := hx
    rw [updateQueueItems_get h] at hq₁
    obtain ⟨q, hq, rfl⟩ := Option.map_eq_some_iff.mp hq₁
    rw [reranked_userId, reranked_videoId, reviewOf_none_after h] at hx
    refine ⟨id, q, hk, hq, ?_⟩
    intro hown
    rw [← hrank id q hown]
    exact hx hown
  · intro hx
    obtain ⟨id, q, hk, hq, hx⟩ := hx
    refine ⟨id, (reranked u seen (id, q)).2, hk, by rw [updateQueueItems_get h, hq]; rfl, ?_⟩
    rw [reranked_userId, reranked_videoId, reviewOf_none_after h]
    intro hown
    rw [hrank id q hown]
    exact hx hown

theorem accepted_concat {seen : List QueueItemData} {d : QueueItemData} :
    Accepted s u (seen ++ [d]) ↔ Accepted s u seen ∧ AcceptsAt s u seen d := by
  refine ⟨?_, ?_⟩
  · intro h
    refine ⟨?_, h seen d [] rfl⟩
    intro pre d' post he
    exact h pre d' (post ++ [d]) (by rw [he]; simp)
  · intro h
    obtain ⟨h, hd⟩ := h
    intro pre d' post he
    rcases List.eq_nil_or_concat post with rfl | ⟨post', x, rfl⟩
    · obtain ⟨rfl, hx⟩ := List.append_inj' he rfl
      simp only [List.cons.injEq, and_true] at hx
      rw [← hx]
      exact hd
    · rw [List.concat_eq_append, ← List.cons_append, ← List.append_assoc] at he
      obtain ⟨hpre, -⟩ := List.append_inj' he rfl
      exact h pre d' post' hpre

/-- **The loop goes through exactly on the accepted submissions.** -/
theorem updateQueueItems_ok_iff (s : Store) (u : Nat) (entries : List QueueItemData) :
    (∃ s', queueItems.updateQueueItems s u entries = .ok s') ↔ Accepted s u entries := by
  -- whether an entry is accepted depends on the ones before it, so the induction is from the right
  induction entries using List.reverseRecOn with
  | nil =>
    refine ⟨fun _ pre d post he => ?_, fun _ => ⟨s, rfl⟩⟩
    simp at he
  | append_singleton seen d ih =>
    rw [accepted_concat, ← ih, updateQueueItems_concat]
    cases hs : queueItems.updateQueueItems s u seen with
    | error e => simp
    | ok s₁ =>
      rw [← acceptsAt_iff hs]
      simp

end

end Myflix
