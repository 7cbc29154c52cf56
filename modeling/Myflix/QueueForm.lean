import Myflix.QueueList
import Myflix.Renumbering
import Myflix.Reviews

/- The queue page's form. `update_queue` takes the submitted entries one by one,
   each with a ranking and a rating, inside a transaction.

   What is proved, for every reachable state and every list of entries:
     1. `update_queue_all_or_nothing`: the submission takes effect as a whole when
        every entry can be saved, and leaves no trace otherwise.
     2. `ratings_read_back`: after it went through, an item shows the rating of the
        last entry that names it.
     3. `resubmit_changes_nothing_iff`: submitting what the page shows changes nothing,
        unless there is nothing to submit (`resubmit_nothing_raises`). -/
namespace Myflix
open Relational Rails Transition

/-! The outcome of the request. -/

section
variable {env : Env} {s s' : Store} {session : Option Nat} {u : Nat} {user : User}
  {entries : List QueueItemData}

theorem outcome_updateQueue (rand : Nat → String) (w : World) {e : Event}
    (he : e.request = .queueItemsUpdateQueue (some entries)) :
    w.outcome rand e = queueItems.updateQueue e.env w.store (w.sessions e.sid) (some entries) := by
  simp only [World.outcome, he, handle]

theorem updateQueue_of_ok (hu : ActsAs s session u user) (hr : queueItems.updateQueueItems s u entries = .ok s') :
    queueItems.updateQueue env s session (some entries) =
      reply (normaliseQueueItemRankings env s' u) session (redirectTo .myQueue none) := by
  simp only [queueItems.updateQueue, requireLogin_of hu, hr]

/-- `params[:queue_items].each` on nil. -/
theorem updateQueue_of_nil (hu : ActsAs s session u user) :
    queueItems.updateQueue env s session none = reply s session (raised .noMethodError) := by
  simp only [queueItems.updateQueue, requireLogin_of hu]

/-- When the loop raises, the transaction is rolled back and the request fails. -/
theorem updateQueue_of_not_ok (hu : ActsAs s session u user)
    (hr : ¬ ∃ s', queueItems.updateQueueItems s u entries = .ok s') :
    (queueItems.updateQueue env s session (some entries)).response.ok = false ∧
      (queueItems.updateQueue env s session (some entries)).store = s := by
  simp only [queueItems.updateQueue, requireLogin_of hu]
  split
  · next s' hs => exact absurd ⟨s', hs⟩ hr
  · exact ⟨rfl, rfl⟩
  · exact ⟨rfl, rfl⟩

end

/-! What can be submitted. -/

/-- Every entry names an item, and an entry for one of the user's own has an integer ranking. -/
def Submittable (s : Store) (u : Nat) (entries : List QueueItemData) : Prop :=
  ∀ d ∈ entries, ∃ id q, Param.key d.id = some id ∧ s.queueItems.get id = some q ∧
    (q.userId = u → d.ranking.isInteger = true)

/-- A rating that overwrites a review, stored or created by an earlier entry, fits the column. -/
def RatingsFit (s : Store) (u : Nat) (entries : List QueueItemData) : Prop :=
  ∀ pre d post v, entries = pre ++ d :: post → ownVideo s u d = some v →
    fitsColumn (Param.int d.rating) = true ∨ NoReviewYet s u pre v

section
variable {s s' : Store} {u : Nat} {entries : List QueueItemData}

/-- With rankings that fit the column, these two conditions are all the loop asks for. -/
theorem accepted_iff (h : QueueInv s) (hu : (s.users.get u).isSome)
    (hfit : ∀ d ∈ entries, d.ranking.isInteger = true → fitsInteger d.ranking.toI = true) :
    Accepted s u entries ↔ Submittable s u entries ∧ RatingsFit s u entries := by
  refine ⟨?_, ?_⟩
  · intro ha
    refine ⟨?_, ?_⟩
    · intro d hd
      obtain ⟨pre, post, he⟩ := List.append_of_mem hd
      obtain ⟨id, q, hk, hq, hx⟩ := ha pre d post he
      exact ⟨id, q, hk, hq, fun hown => (hx hown).2.2.2.1⟩
    · intro pre d post v he hv
      obtain ⟨id, q, hk, hq, hx⟩ := ha pre d post he
      rw [ownVideo_of hk hq] at hv
      split at hv
      · next hown =>
        rw [← Option.some.inj hv]
        exact (hx hown).2.2.1
      · cases hv
  · intro ha pre d post he
    obtain ⟨hsub, hrat⟩ := ha
    have hd : d ∈ entries := by simp [he]
    obtain ⟨id, q, hk, hq, hint⟩ := hsub d hd
    refine ⟨id, q, hk, hq, ?_⟩
    intro hown
    refine ⟨hu, (h.stored id q hq).2, ?_, hint hown, .inr (hfit d hd (hint hown))⟩
    exact hrat pre d post q.videoId he (by rw [ownVideo_of hk hq, if_pos hown])

/-! Reviews the loop does not touch. -/

/-- `rating=` touches the reviews of the item's user and video only. -/
theorem setRating_get_other {q : QueueItem} {p : Param} (h : q.setRating s p = .ok s') {k : Nat} {r : Review}
    (hr : r.userId = q.userId → r.videoId ≠ q.videoId) :
    s'.reviews.get k = some r ↔ s.reviews.get k = some r := by
  obtain ⟨-, -, ⟨j, r₀, hj, -, rfl⟩ | ⟨-, rfl⟩⟩ := setRating_cases h
  · obtain ⟨hj, hu, hv⟩ := reviewOf_some hj
    by_cases hk : k = j
    · subst hk
      rw [Table.get_update_self, hj, Option.map_some, Option.some.injEq, Option.some.injEq]
      refine ⟨?_, ?_⟩
      · rintro rfl
        exact absurd hv (hr hu)
      · rintro rfl
        exact absurd hv (hr hu)
    · rw [Table.get_update_ne _ hk]
  · unfold createReview
    split
    · rw [Table.get_insert]
      split
      · next hk =>
        rw [hk, Table.get_next, Option.some.injEq]
        refine ⟨?_, nofun⟩
        rintro rfl
        exact absurd rfl (hr rfl)
      · exact Iff.rfl
    · exact Iff.rfl

/-- The loop touches the reviews of the user, for the videos of the items it names. -/
theorem updateQueueItems_get_other (h : queueItems.updateQueueItems s u entries = .ok s') {k : Nat} {r : Review}
    (hr : r.userId ≠ u ∨ ∀ d ∈ entries, ownVideo s u d ≠ some r.videoId) :
    s'.reviews.get k = some r ↔ s.reviews.get k = some r := by
  -- the videos the entries name are the same in every round
  have hinv : (∀ d, ownVideo s' u d = ownVideo s u d) ∧ (s'.reviews.get k = some r ↔ s.reviews.get k = some r) := by
    refine updateQueueItems_inv (I := fun x => (∀ d, ownVideo x u d = ownVideo s u d) ∧
      (x.reviews.get k = some r ↔ s.reviews.get k = some r)) ?_ ⟨fun _ => rfl, Iff.rfl⟩ h
    intro d hd x x' hx hx'
    refine ⟨fun d' => (updateQueueItem_ownVideo hx' d').trans (hx.1 d'), ?_⟩
    obtain ⟨id, q, hk, hq, ⟨-, rfl⟩ | ⟨hown, -, -, x₁, hs, rfl⟩⟩ := updateQueueItem_cases hx'
    · exact hx.2
    · have hv : ownVideo s u d = some q.videoId := by
        rw [← hx.1 d, ownVideo_of hk hq, if_pos hown]
      refine (setRating_get_other hs ?_).trans hx.2
      intro hru hrv
      rcases hr with hr | hr
      · exact hr (hru.trans hown)
      · exact hr d hd (by rw [hv, hrv])
  exact hinv.2

end

/-! All or nothing. -/

/-- The submission is in force: the user's queue is in the order of the submitted rankings, the
    rating of each of the user's reviews is what the ratings for its video make of it, and the
    queues and reviews of others are as they were. -/
structure TakesEffect (s s' : Store) (u : Nat) (entries : List QueueItemData) : Prop where
  perm : (s'.queueList u).Perm (s.queueList u)
  sorted : (s'.queueList u).Pairwise (fun a b => submittedRanking s entries a ≤ submittedRanking s entries b)
  ratings : ∀ v, s'.ratingOf u v = (ratingsFor s u entries v).foldl rate (s.ratingOf u v)
  queues : ∀ v, v ≠ u → s'.queueOf v = s.queueOf v
  reviews : ∀ k r, r.userId ≠ u → (s'.reviews.get k = some r ↔ s.reviews.get k = some r)

theorem takesEffect_of_ok {env : Env} {s s' : Store} {u : Nat} {entries : List QueueItemData} (h : QueueInv s)
    (hr : queueItems.updateQueueItems s u entries = .ok s') :
    TakesEffect s (normaliseQueueItemRankings env s' u) u entries where
  perm := queueList_reorder_perm env h hr
  sorted := queueList_reorder_sorted env h hr
  ratings := by
    intro v
    show s'.ratingOf u v = _
    exact updateQueueItems_ratingOf hr v
  queues := by
    intro v hv
    rw [normalise_queueOf_other hv]
    exact updateQueueItems_queueOf_other hr hv
  reviews := fun _ _ hru => updateQueueItems_get_other hr (.inl hru)

/-- **`update_queue` is all or nothing.** In every reachable state, for a submission of the
    current user `u` whose integer rankings fit their column: if every entry names an item, those
    for items of `u` have integer rankings, and no rating too large for its column overwrites a
    review, then the request does not fail and the submission takes effect; otherwise the request
    fails and the whole store is as it was. What an entry for another user's item says about
    ranking and rating does not matter. -/
theorem update_queue_all_or_nothing (rand : Nat → String) (w₀ : World) (h₀ : w₀.store.queueItems.rows = [])
    (es : List Event) (e : Event) (u : Nat) (user : User)
    (hu : ActsAs (run (World.step rand) w₀ es).store ((run (World.step rand) w₀ es).sessions e.sid) u user)
    (entries : List QueueItemData) (he : e.request = .queueItemsUpdateQueue (some entries))
    (hfit : ∀ d ∈ entries, d.ranking.isInteger = true → fitsInteger d.ranking.toI = true) :
    let w := run (World.step rand) w₀ es
    let w' := w.step rand e
    (Submittable w.store u entries ∧ RatingsFit w.store u entries →
      (w.response rand e).ok = true ∧ TakesEffect w.store w'.store u entries) ∧
    (¬ (Submittable w.store u entries ∧ RatingsFit w.store u entries) →
      (w.response rand e).ok = false ∧ w'.store = w.store) := by
  intro w w'
  have hi : QueueInv w.store := queueInv_run rand h₀ es
  have hstored : (w.store.users.get u).isSome := by simp [w, hu.2]
  have hout := outcome_updateQueue rand w he
  rw [← accepted_iff hi hstored hfit, ← updateQueueItems_ok_iff]
  show (_ → (w.outcome rand e).response.ok = true ∧ TakesEffect w.store (w.outcome rand e).store u entries) ∧
    (_ → (w.outcome rand e).response.ok = false ∧ (w.outcome rand e).store = w.store)
  rw [hout]
  refine ⟨?_, updateQueue_of_not_ok hu⟩
  intro hok
  obtain ⟨s', hr⟩ := hok
  rw [updateQueue_of_ok hu hr]
  exact ⟨rfl, takesEffect_of_ok hi hr⟩

/-- Alice rates her first item and names bob's with a word for a ranking. -/
def rerating : List QueueItemData := [⟨some "1", some "2", some "5"⟩, ⟨some "3", some "last", none⟩]

/-- The same, and then the word for her own second item. -/
def misranking : List QueueItemData := rerating ++ [⟨some "2", some "last", some "4"⟩]

theorem update_queue_all_or_nothing_small :
    let w := run (World.step tally) World.small queueing
    TakesEffect w.store (w.step tally (Event.fair 1 (.queueItemsUpdateQueue (some rerating)))).store 1 rerating ∧
    (w.step tally (Event.fair 1 (.queueItemsUpdateQueue (some misranking)))).store = w.store := by
  intro w
  have hu : ActsAs w.store (w.sessions 1) 1 alice := ⟨rfl, by decide⟩
  have hgood := update_queue_all_or_nothing tally World.small rfl queueing
    (Event.fair 1 (.queueItemsUpdateQueue (some rerating))) 1 alice hu rerating rfl (by decide)
  have hbad := update_queue_all_or_nothing tally World.small rfl queueing
    (Event.fair 1 (.queueItemsUpdateQueue (some misranking))) 1 alice hu misranking rfl (by decide)
  have hsub : Submittable w.store 1 rerating := by
    intro d hd
    simp only [rerating, List.mem_cons, List.not_mem_nil, or_false] at hd
    rcases hd with rfl | rfl
    · exact ⟨1, ⟨1, 1, 2⟩, by decide, by decide, by decide⟩
    · exact ⟨3, ⟨2, 2, 1⟩, by decide, by decide, by decide⟩
  have hrat : RatingsFit w.store 1 rerating := by
    intro pre d post v he _
    have hall : ∀ d ∈ rerating, fitsColumn (Param.int d.rating) = true := by decide
    exact .inl (hall d (by simp [he]))
  refine ⟨(hgood.1 ⟨hsub, hrat⟩).2, (hbad.2 ?_).2⟩
  intro h
  obtain ⟨id, q, hk, hq, hint⟩ := h.1 ⟨some "2", some "last", some "4"⟩ (by decide)
  have hkey : Param.key (some "2") = some 2 := by decide
  have hrow : w.store.queueItems.get 2 = some ⟨1, 2, 1⟩ := by decide
  obtain rfl := Option.some.inj (hkey.symm.trans hk)
  obtain rfl := Option.some.inj (hrow.symm.trans hq)
  exact absurd (hint rfl) (by decide)

/-- Alice's review of her queued video, and a rating of ten digits for it. -/
def overflowing : List Event :=
  [Event.fair 1 (.reviewsCreate (some "1") (some ⟨some "3", some "Fine."⟩)),
   Event.fair 1 (.queueItemsCreate (some "1"))]

theorem update_queue_refused_by_rating :
    let w := run (World.step tally) World.small overflowing
    let entries : List QueueItemData := [⟨some "1", some "1", some "9999999999"⟩]
    let e := Event.fair 1 (.queueItemsUpdateQueue (some entries))
    World.small.store.queueItems.rows = [] ∧ Submittable w.store 1 entries ∧
      (∀ d ∈ entries, d.ranking.isInteger = true → fitsInteger d.ranking.toI = true) ∧
      (w.response tally e).reply = .raised .statementInvalid ∧
      ¬ TakesEffect w.store (w.step tally e).store 1 entries := by
  intro w entries e
  refine ⟨rfl, ?_, by decide, by decide, ?_⟩
  · intro d hd
    simp only [entries, List.mem_singleton] at hd
    subst hd
    exact ⟨1, ⟨1, 1, 1⟩, by decide, by decide, by decide⟩
  · -- the stored rating is still 3
    intro h
    exact absurd (h.ratings 1) (by decide)

/-! Reading the ratings back. -/

section
variable {env : Env} {s s' : Store} {u : Nat} {entries : List QueueItemData}

/-- `rating` reads what `ratingOf` says. -/
theorem rating_of_stored {q : QueueItem} (hu : (s.users.get q.userId).isSome) (hv : (s.videos.get q.videoId).isSome) :
    q.rating s = .ok (s.ratingOf q.userId q.videoId).join := by
  simp only [QueueItem.rating, hu, hv, Bool.and_self, if_true, Store.ratingOf]
  cases s.reviewOf q.userId q.videoId <;> rfl

/-- A user has one item for a video, so the entries for the video are those that name the item. -/
theorem QueueInv.ownVideo_iff (h : QueueInv s) {id : Nat} {q : QueueItem} (hq : s.queueItems.get id = some q)
    (hown : q.userId = u) (d : QueueItemData) : ownVideo s u d = some q.videoId ↔ Param.key d.id = some id := by
  refine ⟨?_, ?_⟩
  · intro hd
    obtain ⟨r, hf, hr⟩ := Option.bind_eq_some_iff.mp hd
    obtain ⟨hk, hg⟩ := find_some (k := r.1) (a := r.2) hf
    split at hr
    · next hru =>
      have hmem : r ∈ s.queueOf u := mem_queueOf.mpr ⟨hg, hru⟩
      have hmem' : (id, q) ∈ s.queueOf u := mem_queueOf.mpr ⟨hq, hown⟩
      have he : r = (id, q) := List.inj_on_of_nodup_map (h.nodup u) hmem hmem' (Option.some.inj hr)
      rw [hk, he]
    · cases hr
  · intro hk
    rw [ownVideo_of hk hq, if_pos hown]

theorem QueueInv.ratingsFor_eq (h : QueueInv s) {id : Nat} {q : QueueItem} (hq : s.queueItems.get id = some q)
    (hown : q.userId = u) :
    ratingsFor s u entries q.videoId =
      (entries.filter (fun d => Param.key d.id == some id)).map QueueItemData.rating := by
  unfold ratingsFor
  congr 1
  apply List.filter_congr
  intro d _
  rw [Bool.eq_iff_iff, beq_iff_eq, beq_iff_eq]
  exact h.ownVideo_iff hq hown d

/-- After `rating=` with nil or a valid rating, `rating` is that rating. -/
theorem rate_join {p : Param} (hp : p = none ∨ ratingValid p = true) (old : Option (Option Int)) :
    (rate old p).join = p.int := by
  cases old with
  | some n => rfl
  | none =>
    rcases hp with rfl | hp
    · rfl
    · simp [rate, hp]

/-- The last rating is the one that counts. -/
theorem foldl_rate_join {ps : List Param} {p : Param} (hp : p = none ∨ ratingValid p = true)
    (old : Option (Option Int)) : ((ps ++ [p]).foldl rate old).join = p.int := by
  rw [List.foldl_append, List.foldl_cons, List.foldl_nil]
  exact rate_join hp _

/-- Each item keeps its key, user and video. -/
theorem reorder_get (env : Env) (hr : queueItems.updateQueueItems s u entries = .ok s') {id : Nat} {q : QueueItem}
    (hq : s.queueItems.get id = some q) :
    ∃ q', (normaliseQueueItemRankings env s' u).queueItems.get id = some q' ∧ q'.userId = q.userId ∧
      q'.videoId = q.videoId := by
  refine ⟨_, by rw [normalise_get_renumbered, updateQueueItems_get hr, hq]; rfl, ?_, ?_⟩
  · rw [renumbered_userId, reranked_userId]
  · rw [renumbered_videoId, reranked_videoId]

/-- An item named in a submission that went through shows the last rating submitted for it. -/
theorem reorder_rating (h : QueueInv s) (hr : queueItems.updateQueueItems s u entries = .ok s')
    {id : Nat} {q : QueueItem} (hq : s.queueItems.get id = some q) (hown : q.userId = u) {d : QueueItemData}
    (hd : lastEntry entries id = some d) (hrat : d.rating = none ∨ ratingValid d.rating = true) :
    ∃ q', (normaliseQueueItemRankings env s' u).queueItems.get id = some q' ∧
      q'.rating (normaliseQueueItemRankings env s' u) = .ok (Param.int d.rating) := by
  obtain ⟨q', hq', hu', hv'⟩ := reorder_get env hr hq
  obtain ⟨hu, hv⟩ := (h.reorder hr).normalise.stored id q' hq'
  obtain ⟨earlier, hlast⟩ := List.getLast?_eq_some_iff.mp hd
  have hfold : s'.ratingOf u q.videoId =
      (earlier.map QueueItemData.rating ++ [d.rating]).foldl rate (s.ratingOf u q.videoId) := by
    rw [updateQueueItems_ratingOf hr, h.ratingsFor_eq hq hown, hlast, List.map_append]
    rfl
  refine ⟨q', hq', ?_⟩
  rw [rating_of_stored hu hv, hu', hv', hown]
  show Except.ok (s'.ratingOf u q.videoId).join = _
  rw [hfold, foldl_rate_join hrat]

/-- There is a review afterwards if there was one or a valid rating was submitted. -/
theorem reorder_review_iff (h : QueueInv s) (hr : queueItems.updateQueueItems s u entries = .ok s')
    {id : Nat} {q : QueueItem} (hq : s.queueItems.get id = some q) (hown : q.userId = u) :
    (s'.reviewOf u q.videoId).isSome ↔ (s.reviewOf u q.videoId).isSome ∨
      ∃ d ∈ entries, Param.key d.id = some id ∧ ratingValid d.rating = true := by
  have hsome : (s'.ratingOf u q.videoId).isSome =
      ((s.ratingOf u q.videoId).isSome || (ratingsFor s u entries q.videoId).any ratingValid) := by
    rw [updateQueueItems_ratingOf hr, foldl_rate_isSome]
  simp only [Store.ratingOf, Option.isSome_map, h.ratingsFor_eq hq hown, List.any_map, List.any_filter] at hsome
  rw [hsome, Bool.or_eq_true, List.any_eq_true]
  simp only [Bool.and_eq_true, beq_iff_eq, Function.comp]

end

/-- **Ratings submitted with the queue are read back.** In every reachable state, for a
    submission of `u` that does not fail and whose ratings are nil or from 1 to 5: each of the
    user's items named in it shows the rating of the last entry naming it; there is a review of
    its video exactly when there was one or some entry naming it had a rating; every review of
    another user, or of a video whose item is not named, is as it was; and no review changes its
    content. -/
theorem ratings_read_back (rand : Nat → String) (w₀ : World) (h₀ : w₀.store.queueItems.rows = [])
    (es : List Event) (e : Event) (u : Nat) (user : User)
    (hu : ActsAs (run (World.step rand) w₀ es).store ((run (World.step rand) w₀ es).sessions e.sid) u user)
    (entries : List QueueItemData) (he : e.request = .queueItemsUpdateQueue (some entries))
    (hok : ((run (World.step rand) w₀ es).response rand e).ok = true)
    (hrat : ∀ d ∈ entries, d.rating = none ∨ ratingValid d.rating = true) :
    let s := (run (World.step rand) w₀ es).store
    let s' := ((run (World.step rand) w₀ es).step rand e).store
    (∀ id q d, s.queueItems.get id = some q → q.userId = u → lastEntry entries id = some d →
      (∃ q', s'.queueItems.get id = some q' ∧ q'.rating s' = .ok (Param.int d.rating)) ∧
      ((s'.reviewOf u q.videoId).isSome ↔ (s.reviewOf u q.videoId).isSome ∨
        ∃ d ∈ entries, Param.key d.id = some id ∧ ratingValid d.rating = true)) ∧
    (∀ k r, r.userId ≠ u ∨ (∀ d ∈ entries, ownVideo s u d ≠ some r.videoId) →
      (s'.reviews.get k = some r ↔ s.reviews.get k = some r)) ∧
    ReviewsKept s s' := by
  intro s s'
  have hi : QueueInv s := queueInv_run rand h₀ es
  have hout := outcome_updateQueue rand (run (World.step rand) w₀ es) he
  have hkept : ReviewsKept s s' := (step_effect rand _ e).reviewsKept
  simp only [World.response, hout] at hok
  obtain ⟨s₁, hr, hst⟩ := updateQueue_ok hu hok
  have hs' : s' = normaliseQueueItemRankings e.env s₁ u := by
    rw [← hst, ← hout]
    rfl
  refine ⟨?_, ?_, hkept⟩
  · intro id q d hq hown hd
    have hmem : d ∈ entries := (List.mem_filter.mp (List.mem_of_getLast? hd)).1
    rw [hs']
    exact ⟨reorder_rating hi hr hq hown hd (hrat d hmem), reorder_review_iff hi hr hq hown⟩
  · intro k r hkr
    rw [hs']
    exact updateQueueItems_get_other hr hkr

/-- Her first item rated and cleared again, her second rated, with bob's in between. -/
def wavering : List QueueItemData :=
  [⟨some "1", some "2", some "5"⟩, ⟨some "3", some "1", some "1"⟩, ⟨some "1", some "2", none⟩,
   ⟨some "2", some "1", some "3"⟩]

theorem ratings_read_back_small :
    let w := run (World.step tally) World.small queueing
    let s' := (w.step tally (Event.fair 1 (.queueItemsUpdateQueue (some wavering)))).store
    (∃ q', s'.queueItems.get 1 = some q' ∧ q'.rating s' = .ok none) ∧
    (∃ q', s'.queueItems.get 2 = some q' ∧ q'.rating s' = .ok (some 3)) ∧
    s'.reviews.rows = [(1, ⟨1, 2, some 3, none⟩), (2, ⟨1, 1, none, none⟩)] := by
  intro w s'
  have h := ratings_read_back tally World.small rfl queueing
    (Event.fair 1 (.queueItemsUpdateQueue (some wavering))) 1 alice ⟨rfl, by decide⟩ wavering rfl (by decide)
    (by decide)
  exact ⟨(h.1 1 ⟨1, 1, 2⟩ ⟨some "1", some "2", none⟩ (by decide) rfl (by decide)).1,
    (h.1 2 ⟨1, 2, 1⟩ ⟨some "2", some "1", some "3"⟩ (by decide) rfl (by decide)).1, by decide⟩

/-! Resubmitting. -/

/-- Every stored rating fits its column, as PostgreSQL sees to. -/
def RatingsStorable (s : Store) : Prop := ∀ k r, s.reviews.get k = some r → fitsColumn r.rating = true

section
variable {s s' : Store} {u : Nat}

theorem ratingValid_fits {p : Param} (h : ratingValid p = true) : fitsColumn p.int = true := by
  obtain ⟨hok, -⟩ := ratingValid_ok h
  cases hp : p.int with
  | none => rfl
  | some n =>
    obtain ⟨h1, h5⟩ := hok n hp
    simp only [fitsColumn, fitsInteger, Bool.and_eq_true, decide_eq_true_eq]
    omega

theorem RatingsStorable.of_same (h : RatingsStorable s) (he : s'.reviews = s.reviews) : RatingsStorable s' := by
  intro k r hk
  exact h k r (he ▸ hk)

theorem RatingsStorable.insert (h : RatingsStorable s) {r : Review} (hr : fitsColumn r.rating = true) :
    RatingsStorable { s with reviews := s.reviews.insert r } := by
  intro k b hk
  rcases Table.get_insert_cases hk with ⟨rfl, -⟩ | hk
  · exact hr
  · exact h k b hk

theorem RatingsStorable.setRating (h : RatingsStorable s) {q : QueueItem} {p : Param}
    (hs : q.setRating s p = .ok s') : RatingsStorable s' := by
  obtain ⟨-, -, ⟨j, r, -, hf, rfl⟩ | ⟨-, rfl⟩⟩ := setRating_cases hs
  · intro k b hk
    rcases Table.get_update_cases hk with ⟨a, -, rfl⟩ | ⟨-, hk⟩
    · exact hf
    · exact h k b hk
  · unfold createReview
    split
    · next hp => exact h.insert (ratingValid_fits hp)
    · exact h

theorem RatingsStorable.reorder (h : RatingsStorable s) {entries : List QueueItemData}
    (hr : queueItems.updateQueueItems s u entries = .ok s') : RatingsStorable s' := by
  refine updateQueueItems_inv ?_ h hr
  intro d _ x x' hx hd
  obtain ⟨id, q, -, -, ⟨-, rfl⟩ | ⟨-, -, -, x₁, hs, rfl⟩⟩ := updateQueueItem_cases hd
  · exact hx
  · exact (hx.setRating hs).of_same rfl

theorem RatingsStorable.effect {rand : Nat → String} {env : Env} {session : Option Nat} {req : Request}
    (h : RatingsStorable s) (he : Effect rand env session s req s') : RatingsStorable s' := by
  cases he with
  | review hu hv hnew hr => exact h.insert (ratingValid_fits hr)
  | reorder hu hr => exact (h.reorder hr).of_same rfl
  | reset => exact h.of_same (reset_reviews ..)
  | signUp => exact h.of_same (signedUp_reviews ..)
  | nothing | enqueue | dequeue | tidy | follow | unfollow | invite | addVideo => exact h

/-- The entry is what the page shows for one of the user's items. -/
def Shows (s : Store) (u : Nat) (d : QueueItemData) : Prop :=
  ∃ id q, Param.key d.id = some id ∧ s.queueItems.get id = some q ∧ q.userId = u ∧
    d.ranking.isInteger = true ∧ d.ranking.toI = q.ranking ∧ q.rating s = .ok (Param.int d.rating)

/-- Writing back the rating that is there: the review keeps it, and nil creates none. -/
theorem setRating_rating (h : RatingsStorable s) {q : QueueItem} {p : Param} (hq : q.rating s = .ok p.int) :
    q.setRating s p = .ok s := by
  simp only [QueueItem.rating] at hq
  split at hq
  · next hs =>
    simp only [QueueItem.setRating, hs, if_true]
    cases hr : s.reviewOf q.userId q.videoId with
    | none =>
      have hp : p = none := by simpa [hr, Param.int] using hq
      subst hp
      rfl
    | some r =>
      obtain ⟨hg, -⟩ := reviewOf_some (k := r.1) (r := r.2) hr
      have hp : r.2.rating = p.int := by simpa [hr] using hq
      have hf : fitsColumn p.int = true := hp ▸ h r.1 r.2 hg
      have hsame : s.reviews.update r.1 (fun r => { r with rating := p.int }) = s.reviews :=
        Table.update_eq_self hg (by rw [← hp])
      simp only [hf, if_true, hsame]
  · cases hq

theorem updateQueueItem_of_shows (h : RatingsStorable s) {d : QueueItemData} (hd : Shows s u d) :
    queueItems.updateQueueItem s u d = .ok s := by
  obtain ⟨id, q, hk, hq, hown, hint, hrank, hrat⟩ := hd
  have hsame : s.queueItems.update id (fun q => { q with ranking := d.ranking.toI }) = s.queueItems :=
    Table.update_eq_self hq (by rw [hrank])
  simp only [queueItems.updateQueueItem, find_of_key hk, hq, Option.map_some, hown, beq_self_eq_true, if_true,
    QueueItem.updateAttributes, setRating_rating h hrat, hint, hrank, Bool.true_or]
  rw [← hrank, hsame]

theorem updateQueueItems_of_shows (h : RatingsStorable s) {entries : List QueueItemData}
    (hd : ∀ d ∈ entries, Shows s u d) : queueItems.updateQueueItems s u entries = .ok s := by
  induction entries with
  | nil => rfl
  | cons d rest ih =>
    simp only [queueItems.updateQueueItems, updateQueueItem_of_shows h (hd d List.mem_cons_self)]
    exact ih (fun d' hd' => hd d' (List.mem_cons_of_mem d hd'))

end

/-- `params[:queue_items]` for a list of entries. A form without fields sends no parameter, and
    Rails turns an empty array in JSON into nil: an empty list never arrives as a list. -/
def queueItemsParam (entries : List QueueItemData) : Option (List QueueItemData) :=
  if entries.isEmpty then none else some entries

/-- Entries with the ranking and the rating their items have, in any order, with omissions and
    repetitions: `update_queue` does not fail, and every table is as it was. -/
theorem resubmit_changes_nothing (rand : Nat → String) (w₀ : World) (h₀ : w₀.store.queueItems.rows = [])
    (hr₀ : RatingsStorable w₀.store) (es : List Event) (e : Event) (u : Nat) (user : User)
    (hu : ActsAs (run (World.step rand) w₀ es).store ((run (World.step rand) w₀ es).sessions e.sid) u user)
    (entries : List QueueItemData) (he : e.request = .queueItemsUpdateQueue (some entries))
    (hd : ∀ d ∈ entries, Shows (run (World.step rand) w₀ es).store u d) :
    let w := run (World.step rand) w₀ es
    (w.response rand e).ok = true ∧ (w.step rand e).store = w.store := by
  intro w
  have hi : QueueInv w.store := queueInv_run rand h₀ es
  have hf : RatingsStorable w.store :=
    run_inv (I := fun w : World => RatingsStorable w.store) (fun w e hw => hw.effect (step_effect rand w e)) hr₀ es
  have hout : w.outcome rand e = reply w.store (w.sessions e.sid) (redirectTo .myQueue none) := by
    rw [outcome_updateQueue rand w he, updateQueue_of_ok hu (updateQueueItems_of_shows hf hd),
      normalise_of_numbered (hi.numbered u)]
  simp only [World.response, World.step, hout]
  exact ⟨rfl, rfl⟩

/-- **Resubmitting what is shown changes nothing, if there is something to submit.** In every
    reachable state, for entries of `u` in any order, with omissions and repetitions, each with
    the ranking and the rating its item has: `update_queue` does not fail and every table is as
    it was exactly when the list of entries is not empty. -/
theorem resubmit_changes_nothing_iff (rand : Nat → String) (w₀ : World) (h₀ : w₀.store.queueItems.rows = [])
    (hr₀ : RatingsStorable w₀.store) (es : List Event) (e : Event) (u : Nat) (user : User)
    (hu : ActsAs (run (World.step rand) w₀ es).store ((run (World.step rand) w₀ es).sessions e.sid) u user)
    (entries : List QueueItemData) (he : e.request = .queueItemsUpdateQueue (queueItemsParam entries))
    (hd : ∀ d ∈ entries, Shows (run (World.step rand) w₀ es).store u d) :
    let w := run (World.step rand) w₀ es
    ((w.response rand e).ok = true ∧ (w.step rand e).store = w.store) ↔ entries ≠ [] := by
  intro w
  cases entries with
  | nil =>
    have hout : w.outcome rand e = reply w.store (w.sessions e.sid) (raised .noMethodError) := by
      simp only [World.outcome, he, handle]
      exact updateQueue_of_nil hu
    simp only [World.response, hout]
    refine ⟨?_, fun h => absurd rfl h⟩
    intro h
    cases h.1
  | cons d rest =>
    refine ⟨fun _ => List.cons_ne_nil d rest, fun _ => ?_⟩
    exact resubmit_changes_nothing rand w₀ h₀ hr₀ es e u user hu (d :: rest) he hd

/-- Both items as they are, the second one twice: it has a review, the first has none. -/
def resubmission : List QueueItemData :=
  [⟨some "2", some "1", some "4"⟩, ⟨some "1", some "2", none⟩, ⟨some "2", some "1", some "4"⟩]

theorem resubmit_changes_nothing_iff_small :
    let w := run (World.step tally) World.small queueing
    w.store.reviews.rows = [(1, ⟨1, 2, some 4, none⟩)] ∧
    (w.step tally (Event.fair 1 (.queueItemsUpdateQueue (some resubmission)))).store = w.store := by
  intro w
  have hshows : ∀ d ∈ resubmission, Shows w.store 1 d := by
    intro d hd
    simp only [resubmission, List.mem_cons, List.not_mem_nil, or_false] at hd
    rcases hd with rfl | rfl | rfl
    · exact ⟨2, ⟨1, 2, 1⟩, by decide, by decide, rfl, by decide, by decide, rfl⟩
    · exact ⟨1, ⟨1, 1, 2⟩, by decide, by decide, rfl, by decide, by decide, rfl⟩
    · exact ⟨2, ⟨1, 2, 1⟩, by decide, by decide, rfl, by decide, by decide, rfl⟩
  refine ⟨by decide, ?_⟩
  exact ((resubmit_changes_nothing_iff tally World.small rfl (fun _ _ h => absurd h (Table.not_get_of_no_rows rfl))
    queueing (Event.fair 1 (.queueItemsUpdateQueue (some resubmission))) 1 alice ⟨rfl, by decide⟩ resubmission rfl
    hshows).mpr (by decide)).2

/-- Alice leaves out all her items: the request ends in a NoMethodError. -/
theorem resubmit_nothing_raises :
    let w := run (World.step tally) World.small queueing
    (w.store.queueOf 1).map Prod.fst = [1, 2] ∧ queueItemsParam [] = none ∧
      w.response tally (Event.fair 1 (.queueItemsUpdateQueue (queueItemsParam []))) = raised .noMethodError := by
  exact ⟨by decide, rfl, rfl⟩

end Myflix
