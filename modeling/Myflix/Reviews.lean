import Myflix.Ratings

/- Reviews. They come from `ReviewsController#create` and from the ratings of
   `update_queue`. `ReviewWrite` lists the writes of both, with the user they
   belong to, and `Effect.reviews_inv` turns what each of them keeps into what a
   request keeps.

   What is proved:
     1. `reviews_once`: at most one review for each user and video, both stored,
        and no review ever disappears or changes its user, video or content.
     2. `ratings_in_range_iff`: the ratings stay in 1..5 (or cleared) along a run
        exactly when no accepted update overwrites a review with a rating outside;
        `update_queue` can do that (`ratings_out_of_range`). -/
namespace Myflix
open Relational Rails Transition

/-! The writes. -/

/-- One write to the reviews of `u`: a rating overwritten, or a first review of a video. -/
inductive ReviewWrite (s : Store) (u : Nat) : Table Review → Prop
  | rerate {k r} (n : Option Int) (hk : s.reviews.get k = some r) (hu : r.userId = u) :
      ReviewWrite s u (s.reviews.update k (fun r => { r with rating := n }))
  | add {v} (n : Option Int) (content : Option String) (hu : (s.users.get u).isSome)
      (hv : (s.videos.get v).isSome) (hnew : s.reviewOf u v = none) :
      ReviewWrite s u (s.reviews.insert ⟨u, v, n, content⟩)

section
variable {s s' : Store} {u : Nat}

theorem setRating_write {q : QueueItem} {p : Param} (h : q.setRating s p = .ok s') :
    s' = s ∨ ∃ t, ReviewWrite s q.userId t ∧ s' = { s with reviews := t } := by
  obtain ⟨hu, hv, ⟨k, r, hr, -, rfl⟩ | ⟨hr, rfl⟩⟩ := setRating_cases h
  · obtain ⟨hk, hown, -⟩ := reviewOf_some hr
    exact .inr ⟨_, .rerate _ hk hown, rfl⟩
  · unfold createReview
    split
    · exact .inr ⟨_, .add _ _ hu hv hr, rfl⟩
    · exact .inl rfl

/-- What the writes to the reviews of `u` keep, and no other write breaks, the loop keeps. -/
theorem updateQueueItems_reviews_inv {I : Store → Prop}
    (same : ∀ x x', Keeps x x' → x'.reviews = x.reviews → I x → I x')
    (write : ∀ x t, ReviewWrite x u t → I x → I { x with reviews := t })
    {entries : List QueueItemData} (h : queueItems.updateQueueItems s u entries = .ok s') (h0 : I s) : I s' := by
  refine updateQueueItems_inv ?_ h0 h
  intro d _ x x' hx hd
  obtain ⟨id, q, -, -, ⟨-, rfl⟩ | ⟨hown, -, -, x₁, hs, rfl⟩⟩ := updateQueueItem_cases hd
  · exact hx
  · have hx₁ : I x₁ := by
      rcases setRating_write hs with rfl | ⟨t, hw, rfl⟩
      · exact hx
      · rw [hown] at hw
        exact write x t hw hx
    exact same x₁ _ (Keeps.refl _) rfl hx₁

/-- The rule for requests. -/
theorem Effect.reviews_inv {rand : Nat → String} {env : Env} {session : Option Nat} {req : Request}
    {I : Store → Prop} (same : ∀ x x', Keeps x x' → x'.reviews = x.reviews → I x → I x')
    (write : ∀ x u t, session = some u → ReviewWrite x u t → I x → I { x with reviews := t })
    (he : Effect rand env session s req s') (h0 : I s) : I s' := by
  have hk := he.keeps
  cases he with
  | review hu hv hnew hr =>
    refine write s _ _ hu.1 (.add _ _ (by simp [hu.2]) (by simp [hv]) ?_) h0
    rw [reviewOf_none]
    exact fun k r hk hru hrv => hnew k r hk hrv hru
  | @reorder u user entries s₁ hu hr =>
    have h1 := updateQueueItems_reviews_inv same (fun x t => write x u t hu.1) hr h0
    exact same s₁ _ (keeps_of_eq rfl rfl) rfl h1
  | reset => exact same _ _ hk (reset_reviews ..) h0
  | signUp => exact same _ _ hk (signedUp_reviews ..) h0
  | nothing | enqueue | dequeue | tidy | follow | unfollow | invite | addVideo => exact same _ _ hk rfl h0

end

/-! At most one review for each user and video. -/

/-- At most one review for each user and video, and both are stored. -/
structure ReviewInv (s : Store) : Prop where
  once : s.reviews.Unique (fun r => (r.userId, r.videoId))
  stored : ∀ k r, s.reviews.get k = some r → (s.users.get r.userId).isSome ∧ (s.videos.get r.videoId).isSome

/-- Every review of the one store is in the other, of the same user and video and with the same content. -/
def ReviewsKept (s s' : Store) : Prop :=
  ∀ k r, s.reviews.get k = some r →
    ∃ r', s'.reviews.get k = some r' ∧ r'.userId = r.userId ∧ r'.videoId = r.videoId ∧ r'.content = r.content

theorem ReviewsKept.refl (s : Store) : ReviewsKept s s := fun _ r hk => ⟨r, hk, rfl, rfl, rfl⟩

theorem ReviewsKept.trans {s₁ s₂ s₃ : Store} (h : ReviewsKept s₁ s₂) (h' : ReviewsKept s₂ s₃) :
    ReviewsKept s₁ s₃ := by
  intro k r hk
  obtain ⟨r₂, hk₂, hu₂, hv₂, hc₂⟩ := h k r hk
  obtain ⟨r₃, hk₃, hu₃, hv₃, hc₃⟩ := h' k r₂ hk₂
  exact ⟨r₃, hk₃, hu₃.trans hu₂, hv₃.trans hv₂, hc₃.trans hc₂⟩

section
variable {s s' : Store} {u : Nat}

theorem ReviewWrite.kept {t : Table Review} (h : ReviewWrite s u t) :
    ReviewsKept s { s with reviews := t } := by
  intro k r hk
  cases h with
  | @rerate j r' n hj hu =>
    by_cases hkj : k = j
    · subst hkj
      refine ⟨{ r with rating := n }, ?_, rfl, rfl, rfl⟩
      rw [Table.get_update_self, hk]
      rfl
    · exact ⟨r, by rw [Table.get_update_ne _ hkj, hk], rfl, rfl, rfl⟩
  | add n content hu hv hnew => exact ⟨r, Table.get_insert_of_some _ hk, rfl, rfl, rfl⟩

theorem ReviewInv.write (h : ReviewInv s) {t : Table Review} (hw : ReviewWrite s u t) :
    ReviewInv { s with reviews := t } := by
  cases hw with
  | @rerate j r n hj hu =>
    -- up to its rating every review is one from before
    have hback : ∀ k b, (s.reviews.update j (fun r => { r with rating := n })).get k = some b →
        ∃ a, s.reviews.get k = some a ∧ a.userId = b.userId ∧ a.videoId = b.videoId := by
      intro k b hk
      rcases Table.get_update_cases hk with ⟨a, ha, rfl⟩ | ⟨-, hk⟩
      · exact ⟨a, ha, rfl, rfl⟩
      · exact ⟨b, hk, rfl, rfl⟩
    refine ⟨?_, ?_⟩
    · apply h.once.of_rows
      intro k b hk
      obtain ⟨a, ha, hau, hav⟩ := hback k b hk
      exact ⟨a, ha, by rw [hau, hav]⟩
    · intro k b hk
      obtain ⟨a, ha, hau, hav⟩ := hback k b hk
      rw [← hau, ← hav]
      exact h.stored k a ha
  | add n content hu hv hnew =>
    refine ⟨?_, ?_⟩
    · apply h.once.insert
      intro k b hk he
      simp only [Prod.mk.injEq] at he
      exact reviewOf_none.mp hnew k b hk he.1 he.2
    · intro k b hk
      rcases Table.get_insert_cases hk with ⟨rfl, -⟩ | hk
      · exact ⟨hu, hv⟩
      · exact h.stored k b hk

theorem ReviewInv.of_same (h : ReviewInv s) (hk : Keeps s s') (he : s'.reviews = s.reviews) : ReviewInv s' := by
  refine ⟨by rw [he]; exact h.once, ?_⟩
  intro k r hr
  rw [he] at hr
  exact ⟨hk.1 _ (h.stored k r hr).1, hk.2 _ (h.stored k r hr).2⟩

theorem ReviewInv.effect {rand : Nat → String} {env : Env} {session : Option Nat} {req : Request}
    (h : ReviewInv s) (he : Effect rand env session s req s') : ReviewInv s' :=
  he.reviews_inv (fun _ _ hk heq hx => hx.of_same hk heq) (fun _ _ _ _ hw hx => hx.write hw) h

theorem Effect.reviewsKept {rand : Nat → String} {env : Env} {session : Option Nat} {req : Request}
    (he : Effect rand env session s req s') : ReviewsKept s s' := by
  refine he.reviews_inv (I := ReviewsKept s) ?_ (fun x u t _ hw hx => hx.trans hw.kept) (ReviewsKept.refl s)
  intro x x' _ heq hx k r hk
  rw [heq]
  exact hx k r hk

theorem reviewInv_of_no_reviews (h : s.reviews.rows = []) : ReviewInv s := by
  refine ⟨Table.unique_of_no_rows h, ?_⟩
  intro k r hk
  exact absurd hk (Table.not_get_of_no_rows h)

end

/-- **One review for each user and video, for good.** In every state a run from a database
    without reviews reaches there is at most one review for each user and video, its user and
    its video are stored, and every review is still there, of the same user and video and with
    the same content, after any further requests. -/
theorem reviews_once (rand : Nat → String) (w : World) (h : w.store.reviews.rows = []) (es : List Event) :
    ReviewInv (run (World.step rand) w es).store ∧
      ∀ later, ReviewsKept (run (World.step rand) w es).store (run (World.step rand) w (es ++ later)).store := by
  refine ⟨?_, ?_⟩
  · exact run_inv (I := fun w : World => ReviewInv w.store)
      (fun w e hw => hw.effect (step_effect rand w e)) (reviewInv_of_no_reviews h) es
  · intro later
    rw [run_append]
    exact run_inv (I := fun x : World => ReviewsKept (run (World.step rand) w es).store x.store)
      (fun x e hx => hx.trans (step_effect rand x e).reviewsKept) (ReviewsKept.refl _) later

/-- Alice reviews a video, queues both and rates them there, one of them twice. -/
def reviewing : List Event :=
  [Event.fair 1 (.reviewsCreate (some "1") (some ⟨some "3", some "Fine."⟩)),
   Event.fair 1 (.queueItemsCreate (some "1")), Event.fair 1 (.queueItemsCreate (some "2")),
   Event.fair 1 (.queueItemsUpdateQueue (some [⟨some "2", some "1", some "5"⟩, ⟨some "2", some "1", some "4"⟩,
     ⟨some "1", some "2", none⟩]))]

theorem reviews_once_small :
    (run (World.step tally) World.small reviewing).store.reviews.rows =
      [(1, ⟨1, 1, none, some "Fine."⟩), (2, ⟨1, 2, some 4, none⟩)] ∧
    ReviewInv (run (World.step tally) World.small reviewing).store :=
  ⟨by decide, (reviews_once tally World.small rfl reviewing).1⟩

/-! Ratings. -/

/-- An integer from 1 to 5, or nil. -/
def RatingOk (n : Option Int) : Prop := ∀ x ∈ n, 1 ≤ x ∧ x ≤ 5

instance (n : Option Int) : Decidable (RatingOk n) := inferInstanceAs (Decidable (∀ x ∈ n, 1 ≤ x ∧ x ≤ 5))

/-- Every stored rating is. -/
def RatingsOk (s : Store) : Prop := ∀ r ∈ s.reviews.rows, RatingOk r.2.rating

instance (s : Store) : Decidable (RatingsOk s) :=
  inferInstanceAs (Decidable (∀ r ∈ s.reviews.rows, RatingOk r.2.rating))

theorem ratingValid_ok {p : Param} (h : ratingValid p = true) : RatingOk p.int ∧ p.int ≠ none := by
  cases p with
  | none => cases h
  | some t =>
    simp only [ratingValid, Bool.and_eq_true] at h
    refine ⟨?_, by simp [Param.int]⟩
    intro x hx
    simp only [Param.int, Option.map_some, Option.mem_def, Option.some.injEq] at hx
    exact hx ▸ ⟨of_decide_eq_true h.2.1, of_decide_eq_true h.2.2⟩

section
variable {s s' : Store} {u : Nat}

theorem ratingsOk_get : RatingsOk s ↔ ∀ k r, s.reviews.get k = some r → RatingOk r.rating :=
  Table.forall_rows (P := fun _ (r : Review) => RatingOk r.rating)

theorem ReviewInv.reviewOf_eq (h : ReviewInv s) {k : Nat} {r : Review} (hk : s.reviews.get k = some r) :
    s.reviewOf r.userId r.videoId = some (k, r) := by
  cases hr : s.reviewOf r.userId r.videoId with
  | none => exact absurd rfl (reviewOf_none.mp hr k r hk rfl)
  | some r' =>
    obtain ⟨hg, hu, hv⟩ := reviewOf_some (k := r'.1) (r := r'.2) hr
    have hkr : r'.1 = k := h.once _ _ _ _ hg hk (Prod.ext hu hv)
    rw [hkr, hk, Option.some.injEq] at hg
    exact congrArg some (Prod.ext hkr hg.symm)

/-- With one review for each user and video, the ratings are read off `ratingOf`. -/
theorem ReviewInv.ratingsOk_iff (h : ReviewInv s) :
    RatingsOk s ↔ ∀ u v n, s.ratingOf u v = some n → RatingOk n := by
  rw [ratingsOk_get]
  refine ⟨?_, ?_⟩
  · intro hok u v n hn
    obtain ⟨r, hr, rfl⟩ := Option.map_eq_some_iff.mp hn
    exact hok r.1 r.2 (reviewOf_some hr).1
  · intro hok k r hk
    exact hok r.userId r.videoId r.rating (by rw [Store.ratingOf, h.reviewOf_eq hk]; rfl)

/-! What an update writes. -/

theorem rate_ok_iff (old : Option (Option Int)) (p : Param) :
    (∀ n, rate old p = some n → RatingOk n) ↔ RatingOk p.int ∨ old = none := by
  cases old with
  | some m => simp [rate]
  | none =>
    refine ⟨fun _ => .inr rfl, ?_⟩
    intro _ n hn
    simp only [rate] at hn
    split at hn
    · next hp =>
      simp only [Option.some.injEq] at hn
      exact hn ▸ (ratingValid_ok hp).1
    · cases hn

theorem foldl_rate_none (ps : List Param) (old : Option (Option Int)) :
    ps.foldl rate old = none ↔ old = none ∧ ∀ p ∈ ps, ratingValid p = false := by
  rw [← Option.not_isSome_iff_eq_none, foldl_rate_isSome, ← Option.not_isSome_iff_eq_none]
  simp

/-- For every video, the last rating submitted is in range, or there is no review it could overwrite. -/
def RatesInRange (s : Store) (u : Nat) (entries : List QueueItemData) : Prop :=
  ∀ v earlier p, ratingsFor s u entries v = earlier ++ [p] →
    RatingOk p.int ∨ (s.reviewOf u v = none ∧ ∀ p' ∈ earlier, ratingValid p' = false)

theorem foldl_rate_ok_iff {old : Option (Option Int)} (h0 : ∀ n, old = some n → RatingOk n) (ps : List Param) :
    (∀ n, ps.foldl rate old = some n → RatingOk n) ↔
      ∀ earlier p, ps = earlier ++ [p] → RatingOk p.int ∨ (old = none ∧ ∀ p' ∈ earlier, ratingValid p' = false) := by
  rcases List.eq_nil_or_concat ps with rfl | ⟨qs, p, rfl⟩
  · refine ⟨fun _ earlier p he => ?_, fun _ => h0⟩
    simp at he
  · rw [List.concat_eq_append, List.foldl_append, List.foldl_cons, List.foldl_nil, rate_ok_iff, foldl_rate_none]
    refine ⟨?_, fun h => h qs p rfl⟩
    intro h earlier p' he
    obtain ⟨rfl, hp⟩ := List.append_inj' he rfl
    simp only [List.cons.injEq, and_true] at hp
    exact hp ▸ h

/-- An update that goes through leaves good ratings exactly when it submits some. -/
theorem ReviewInv.reorder_ratingsOk (h : ReviewInv s) {entries : List QueueItemData}
    (hr : queueItems.updateQueueItems s u entries = .ok s') (h0 : RatingsOk s) :
    RatingsOk s' ↔ RatesInRange s u entries := by
  have h' : ReviewInv s' := updateQueueItems_reviews_inv (fun _ _ hk heq hx => hx.of_same hk heq)
    (fun _ _ hw hx => hx.write hw) hr h
  rw [h.ratingsOk_iff] at h0
  have hfold : ∀ v, (∀ n, s'.ratingOf u v = some n → RatingOk n) ↔ ∀ earlier p,
      ratingsFor s u entries v = earlier ++ [p] →
        RatingOk p.int ∨ (s.reviewOf u v = none ∧ ∀ p' ∈ earlier, ratingValid p' = false) := by
    intro v
    rw [updateQueueItems_ratingOf hr, foldl_rate_ok_iff (h0 u v)]
    simp only [Store.ratingOf, Option.map_eq_none_iff]
  rw [h'.ratingsOk_iff]
  -- the other users' ratings are as before
  refine ⟨fun hok v => (hfold v).mp (hok u v), ?_⟩
  intro hin x v
  by_cases hx : x = u
  · rw [hx]
    exact (hfold v).mpr (hin v)
  · rw [updateQueueItems_ratingOf_other hr hx]
    exact h0 x v

/-- An accepted update of the request's user submits ratings in range wherever it overwrites one. -/
def OverwritesInRange (s : Store) (session : Option Nat) (req : Request) : Prop :=
  ∀ u user entries, ActsAs s session u user → req = .queueItemsUpdateQueue (some entries) →
    Accepted s u entries → RatesInRange s u entries

theorem updateQueue_store {rand : Nat → String} {env : Env} {session : Option Nat} {user : User}
    {entries : List QueueItemData} (hu : ActsAs s session u user)
    (hr : queueItems.updateQueueItems s u entries = .ok s') :
    (handle rand env s session (.queueItemsUpdateQueue (some entries))).store =
      normaliseQueueItemRankings env s' u := by
  simp only [handle, queueItems.updateQueue, requireLogin_of hu, hr]
  rfl

theorem Effect.ratingsOk {rand : Nat → String} {env : Env} {session : Option Nat} {req : Request}
    (he : Effect rand env session s req s') (h : ReviewInv s) (h0 : RatingsOk s)
    (hc : OverwritesInRange s session req) : RatingsOk s' := by
  cases he with
  | review hu hv hnew hr =>
    intro r hm
    rcases List.mem_append.mp hm with hm | hm
    · exact h0 r hm
    · simp only [List.mem_singleton] at hm
      subst hm
      exact (ratingValid_ok hr).1
  | reorder hu hr =>
    have hin := hc _ _ _ hu rfl ((updateQueueItems_ok_iff _ _ _).mp ⟨_, hr⟩)
    exact (h.reorder_ratingsOk hr h0).mpr hin
  | reset => rw [RatingsOk, reset_reviews]; exact h0
  | signUp => rw [RatingsOk, signedUp_reviews]; exact h0
  | nothing | enqueue | dequeue | tidy | follow | unfollow | invite | addVideo => exact h0

/-- One request keeps the ratings in range exactly when it meets the condition. -/
theorem handle_ratingsOk_iff {rand : Nat → String} {env : Env} {session : Option Nat} (req : Request)
    (h : ReviewInv s) (h0 : RatingsOk s) :
    RatingsOk (handle rand env s session req).store ↔ OverwritesInRange s session req := by
  refine ⟨?_, (handle_effect req).ratingsOk h h0⟩
  intro hok u user entries hu hreq hacc
  subst hreq
  obtain ⟨s', hr⟩ := (updateQueueItems_ok_iff s u entries).mpr hacc
  rw [updateQueue_store hu hr] at hok
  exact (h.reorder_ratingsOk hr h0).mp hok

/-- A review without a rating was without one before, or the queue cleared it. -/
theorem Effect.cleared {rand : Nat → String} {env : Env} {session : Option Nat} {req : Request}
    (he : Effect rand env session s req s') {k : Nat} {r : Review} (hk : s'.reviews.get k = some r)
    (hr : r.rating = none) :
    (∃ r', s.reviews.get k = some r' ∧ r'.rating = none) ∨
      ∃ entries, req = .queueItemsUpdateQueue (some entries) := by
  cases he with
  | review hu hv hnew hp =>
    rcases Table.get_insert_cases hk with ⟨rfl, -⟩ | hk
    · exact absurd hr (ratingValid_ok hp).2
    · exact .inl ⟨r, hk, hr⟩
  | @reorder u user entries => exact .inr ⟨entries, rfl⟩
  | reset => exact .inl ⟨r, by simpa using hk, hr⟩
  | signUp => exact .inl ⟨r, by simpa using hk, hr⟩
  | nothing | enqueue | dequeue | tidy | follow | unfollow | invite | addVideo => exact .inl ⟨r, hk, hr⟩

end

/-- **When the ratings stay in range.** Along a run from a database without reviews every
    stored rating is nil or from 1 to 5 in every state exactly when no accepted `update_queue`
    overwrites a review with another value; and a rating is nil only after `update_queue`
    cleared it. -/
theorem ratings_in_range_iff (rand : Nat → String) (w : World) (h : w.store.reviews.rows = []) (es : List Event) :
    (Always (World.step rand) (fun w => RatingsOk w.store) w es ↔
      Along (World.step rand) (fun w e => OverwritesInRange w.store (w.sessions e.sid) e.request) w es) ∧
    Along (World.step rand) (fun w e => ∀ k r, (w.step rand e).store.reviews.get k = some r → r.rating = none →
      (∃ r', w.store.reviews.get k = some r' ∧ r'.rating = none) ∨
        ∃ entries, e.request = .queueItemsUpdateQueue (some entries)) w es := by
  refine ⟨?_, ?_⟩
  · refine run_iff (I := fun w : World => ReviewInv w.store) (fun w e hw => hw.effect (step_effect rand w e)) ?_
      (reviewInv_of_no_reviews h) (by simp [RatingsOk, h]) es
    intro x e hi h0
    exact handle_ratingsOk_iff e.request hi h0
  · intro pre e post _ k r hk hr
    exact (step_effect rand (run (World.step rand) w pre) e).cleared hk hr

theorem ratings_in_range_iff_small :
    Along (World.step tally) (fun w e => OverwritesInRange w.store (w.sessions e.sid) e.request)
      World.small reviewing :=
  (ratings_in_range_iff tally World.small rfl reviewing).1.mp (by decide)

/-- The review of a queued video is given 9 stars through the queue. -/
def overrating : List Event :=
  [Event.fair 1 (.reviewsCreate (some "1") (some ⟨some "3", some "Fine."⟩)),
   Event.fair 1 (.queueItemsCreate (some "1")),
   Event.fair 1 (.queueItemsUpdateQueue (some [⟨some "1", some "1", some "9"⟩]))]

theorem ratings_out_of_range :
    World.small.store.reviews.rows = [] ∧
    (run (World.step tally) World.small overrating).store.reviews.rows = [(1, ⟨1, 1, some 9, some "Fine."⟩)] ∧
    ¬ Always (World.step tally) (fun w => RatingsOk w.store) World.small overrating := by
  refine ⟨by decide, by decide, by decide⟩

end Myflix
