import Myflix.Effects

/- The queue. What the loop of `update_queue_items` and the renumbering pass of
   `normalise_queue_item_rankings` leave in the table, and the invariant every
   request keeps: each user's rankings are 1, 2, ..., n, no video twice, and the
   user and the video of every item are stored (so that `update_attributes` never
   refuses an item). -/
namespace Myflix
open Relational Rails Transition

/-! Stored users and videos stay stored. -/

/-- Nothing that the tables of users and videos hold a key for is lost. -/
def Keeps (s s' : Store) : Prop :=
  (∀ k, (s.users.get k).isSome → (s'.users.get k).isSome) ∧
  (∀ k, (s.videos.get k).isSome → (s'.videos.get k).isSome)

theorem Keeps.refl (s : Store) : Keeps s s := ⟨fun _ h => h, fun _ h => h⟩

theorem keeps_of_eq {s s' : Store} (hu : s'.users = s.users) (hv : s'.videos = s.videos) : Keeps s s' := by
  rw [Keeps, hu, hv]
  exact Keeps.refl s

theorem isSome_insert {α : Type} {t : Table α} {k : Nat} (a : α) (h : (t.get k).isSome) :
    ((t.insert a).get k).isSome := by
  obtain ⟨b, hb⟩ := Option.isSome_iff_exists.mp h
  rw [Table.get_insert_of_some a hb]; rfl

theorem isSome_update {α : Type} {t : Table α} {k j : Nat} (f : α → α) :
    ((t.update k f).get j).isSome = (t.get j).isSome := by
  rw [Table.get_update]
  split
  · exact Option.isSome_map
  · rfl

/-! One round of the update loop. -/

section
variable {s s' : Store} {u : Nat}

/-- `rating=` overwrites the review there is or creates one; nothing else changes. -/
theorem setRating_cases {q : QueueItem} {rating : Param} (h : q.setRating s rating = .ok s') :
    (s.users.get q.userId).isSome ∧ (s.videos.get q.videoId).isSome ∧
    ((∃ k r, s.reviewOf q.userId q.videoId = some (k, r) ∧ fitsColumn rating.int = true ∧
        s' = { s with reviews := s.reviews.update k (fun r => { r with rating := rating.int }) }) ∨
      (s.reviewOf q.userId q.videoId = none ∧ s' = createReview s q.userId q.videoId rating none)) := by
  simp only [QueueItem.setRating] at h
  split at h
  · next hs =>
    simp only [Bool.and_eq_true] at hs
    refine ⟨hs.1, hs.2, ?_⟩
    split at h
    · next k r hr =>
      split at h
      · next hf =>
        simp only [Except.ok.injEq] at h
        exact .inl ⟨k, r, hr, hf, h.symm⟩
      · cases h
    · next hr =>
      simp only [Except.ok.injEq] at h
      exact .inr ⟨hr, h.symm⟩
  · cases h

/-- A store that differs in its reviews at most. -/
def SameButReviews (s s' : Store) : Prop := ∃ t, s' = { s with reviews := t }

theorem createReview_frame (s : Store) (u v : Nat) (rating content : Param) :
    SameButReviews s (createReview s u v rating content) := by
  unfold createReview
  split
  · exact ⟨_, rfl⟩
  · exact ⟨s.reviews, rfl⟩

theorem setRating_frame {q : QueueItem} {rating : Param} (h : q.setRating s rating = .ok s') :
    SameButReviews s s' := by
  obtain ⟨-, -, ⟨k, r, -, -, rfl⟩ | ⟨-, rfl⟩⟩ := setRating_cases h
  · exact ⟨_, rfl⟩
  · exact createReview_frame _ _ _ _ _

/-- One entry: another user's item is skipped, an own item gets its rating and its ranking. -/
theorem updateQueueItem_cases {d : QueueItemData} (h : queueItems.updateQueueItem s u d = .ok s') :
    ∃ id q, Param.key d.id = some id ∧ s.queueItems.get id = some q ∧
      ((q.userId ≠ u ∧ s' = s) ∨
        (q.userId = u ∧ d.ranking.isInteger = true ∧
          (d.ranking.toI = q.ranking ∨ fitsInteger d.ranking.toI = true) ∧
          ∃ s₁, q.setRating s d.rating = .ok s₁ ∧
            s' = { s₁ with
              queueItems := s₁.queueItems.update id (fun q => { q with ranking := d.ranking.toI }) })) := by
  simp only [queueItems.updateQueueItem] at h
  split at h
  · cases h
  · next id q hf =>
    obtain ⟨hk, hq⟩ := find_some hf
    refine ⟨id, q, hk, hq, ?_⟩
    split at h
    · next hown =>
      simp only [QueueItem.updateAttributes] at h
      split at h
      · cases h
      · next s₁ hs =>
        split at h
        · next hi =>
          split at h
          · next hfit =>
            simp only [Except.ok.injEq] at h
            exact .inr ⟨by simpa using hown, hi, by simpa using hfit, s₁, hs, h.symm⟩
          · cases h
        · cases h
    · next hown =>
      simp only [Except.ok.injEq] at h
      exact .inl ⟨by simpa using hown, h.symm⟩

/-- What every round of the loop keeps, the loop keeps. -/
theorem updateQueueItems_inv {I : Store → Prop} {entries : List QueueItemData}
    (hI : ∀ d ∈ entries, ∀ s s', I s → queueItems.updateQueueItem s u d = .ok s' → I s') (h0 : I s)
    (h : queueItems.updateQueueItems s u entries = .ok s') : I s' := by
  induction entries generalizing s with
  | nil =>
    simp only [queueItems.updateQueueItems, Except.ok.injEq] at h
    exact h ▸ h0
  | cons d rest ih =>
    simp only [queueItems.updateQueueItems] at h
    split at h
    · cases h
    · next s₁ h₁ =>
      have hs₁ : I s₁ := hI d List.mem_cons_self s s₁ h0 h₁
      exact ih (fun d' hd' => hI d' (List.mem_cons_of_mem d hd')) hs₁ h

/-- The loop writes queue items and reviews only. -/
theorem updateQueueItems_frame {entries : List QueueItemData}
    (h : queueItems.updateQueueItems s u entries = .ok s') :
    s'.users = s.users ∧ s'.videos = s.videos ∧ s'.relationships = s.relationships ∧
      s'.invitations = s.invitations ∧ s'.drawn = s.drawn := by
  refine updateQueueItems_inv (I := fun x => x.users = s.users ∧ x.videos = s.videos ∧
    x.relationships = s.relationships ∧ x.invitations = s.invitations ∧ x.drawn = s.drawn) ?_
    ⟨rfl, rfl, rfl, rfl, rfl⟩ h
  intro d _ x x' hx hd
  obtain ⟨id, q, -, -, ⟨-, rfl⟩ | ⟨-, -, -, s₁, hs, rfl⟩⟩ := updateQueueItem_cases hd
  · exact hx
  · obtain ⟨t, rfl⟩ := setRating_frame hs
    exact hx

/-! What the whole loop leaves in the queue. -/

/-- The last entry that names the item. -/
def lastEntry (entries : List QueueItemData) (id : Nat) : Option QueueItemData :=
  (entries.filter (fun d => Param.key d.id == some id)).getLast?

theorem lastEntry_cons (d : QueueItemData) (rest : List QueueItemData) (id : Nat) :
    lastEntry (d :: rest) id =
      match lastEntry rest id with
      | some d' => some d'
      | none => if Param.key d.id = some id then some d else none := by
  unfold lastEntry
  by_cases hd : Param.key d.id = some id
  · simp only [List.filter_cons, hd, beq_self_eq_true, if_true, List.getLast?_cons]
    cases h : (rest.filter (fun d => Param.key d.id == some id)).getLast? with
    | none => rfl
    | some d' => rfl
  · have hd' : (Param.key d.id == some id) = false := by simpa using hd
    simp only [List.filter_cons, hd', hd, if_false, Bool.false_eq_true]
    cases (rest.filter (fun d => Param.key d.id == some id)).getLast? <;> rfl

/-- The ranking the last entry gives to an item, or the one it has. -/
def newRanking (entries : List QueueItemData) (r : Nat × QueueItem) : Int :=
  match lastEntry entries r.1 with
  | some d => d.ranking.toI
  | none => r.2.ranking

/-- A row after the loop. -/
def reranked (u : Nat) (entries : List QueueItemData) (r : Nat × QueueItem) : Nat × QueueItem :=
  if r.2.userId = u then (r.1, { r.2 with ranking := newRanking entries r }) else r

theorem reranked_nil (u : Nat) (r : Nat × QueueItem) : reranked u [] r = r := by
  unfold reranked newRanking lastEntry
  split <;> rfl

/-- A round that names the row's item, then the rest of the loop. -/
theorem reranked_cons_self {d : QueueItemData} {rest : List QueueItemData} {r : Nat × QueueItem}
    (hd : Param.key d.id = some r.1) :
    reranked r.2.userId rest (r.1, { r.2 with ranking := d.ranking.toI }) =
      reranked r.2.userId (d :: rest) r := by
  simp only [reranked, if_true, newRanking, lastEntry_cons, hd]
  cases lastEntry rest r.1 <;> rfl

/-- A round that does not name it. -/
theorem reranked_cons_ne {d : QueueItemData} {rest : List QueueItemData} {r : Nat × QueueItem}
    (hd : Param.key d.id ≠ some r.1) : reranked u rest r = reranked u (d :: rest) r := by
  simp only [reranked, newRanking, lastEntry_cons, hd, if_false]
  cases lastEntry rest r.1 <;> rfl

theorem reranked_other {entries : List QueueItemData} {r : Nat × QueueItem} (h : r.2.userId ≠ u) :
    reranked u entries r = r := by simp [reranked, h]

theorem updateQueueItems_rows {entries : List QueueItemData}
    (h : queueItems.updateQueueItems s u entries = .ok s') :
    s'.queueItems.rows = s.queueItems.rows.map (reranked u entries) := by
  induction entries generalizing s with
  | nil =>
    simp only [queueItems.updateQueueItems, Except.ok.injEq] at h
    subst h
    exact ((List.map_congr_left (fun r _ => reranked_nil u r)).trans (List.map_id _)).symm
  | cons d rest ih =>
    simp only [queueItems.updateQueueItems] at h
    split at h
    · cases h
    · next s₁ h₁ =>
      rw [ih h]
      obtain ⟨id, q, hk, hq, ⟨hown, rfl⟩ | ⟨rfl, -, -, s₂, hs, rfl⟩⟩ := updateQueueItem_cases h₁
      · -- the entry names another user's item, which the loop leaves alone
        apply List.map_congr_left
        intro r hr
        by_cases hid : r.1 = id
        · have hrq : r.2 = q := Table.row_eq hq hr hid
          rw [reranked_other (hrq ▸ hown), reranked_other (hrq ▸ hown)]
        · exact reranked_cons_ne (by rw [hk]; simpa using Ne.symm hid)
      · obtain ⟨t, rfl⟩ := setRating_frame hs
        show (s.queueItems.update id _).rows.map _ = _
        rw [Table.update_rows, List.map_map]
        apply List.map_congr_left
        intro r hr
        simp only [Function.comp]
        by_cases hid : r.1 = id
        · have hrq : r.2 = q := Table.row_eq hq hr hid
          rw [if_pos hid, ← hrq]
          exact reranked_cons_self (by rw [hk, hid])
        · rw [if_neg hid]
          exact reranked_cons_ne (by rw [hk]; simpa using Ne.symm hid)

theorem reranked_userId (u : Nat) (entries : List QueueItemData) (r : Nat × QueueItem) :
    (reranked u entries r).2.userId = r.2.userId := by
  unfold reranked; split <;> rfl

theorem reranked_videoId (u : Nat) (entries : List QueueItemData) (r : Nat × QueueItem) :
    (reranked u entries r).2.videoId = r.2.videoId := by
  unfold reranked; split <;> rfl

theorem reranked_fst (u : Nat) (entries : List QueueItemData) (r : Nat × QueueItem) :
    (reranked u entries r).1 = r.1 := by
  unfold reranked; split <;> rfl

/-- Each user's rows after the loop. -/
theorem updateQueueItems_queueOf {entries : List QueueItemData}
    (h : queueItems.updateQueueItems s u entries = .ok s') (v : Nat) :
    s'.queueOf v = (s.queueOf v).map (reranked u entries) := by
  simp only [Store.queueOf, Table.select, updateQueueItems_rows h, List.filter_map]
  congr 1
  apply List.filter_congr
  intro r _
  simp only [Function.comp, reranked_userId]

theorem mem_queueOf {v : Nat} {r : Nat × QueueItem} :
    r ∈ s.queueOf v ↔ s.queueItems.get r.1 = some r.2 ∧ r.2.userId = v := by
  rw [Store.queueOf, Table.mem_select, beq_iff_eq]

theorem updateQueueItems_queueOf_other {entries : List QueueItemData}
    (h : queueItems.updateQueueItems s u entries = .ok s') {v : Nat} (hv : v ≠ u) :
    s'.queueOf v = s.queueOf v := by
  rw [updateQueueItems_queueOf h]
  refine (List.map_congr_left ?_).trans (List.map_id _)
  intro r hr
  exact reranked_other (by rw [(mem_queueOf.mp hr).2]; exact hv)

end

/-! The renumbering pass. -/

section
variable {env : Env} {s : Store} {u : Nat}

/-- The user and the video of every queue item are stored. -/
def ItemsStored (s : Store) : Prop :=
  ∀ k q, s.queueItems.get k = some q → (s.users.get q.userId).isSome ∧ (s.videos.get q.videoId).isSome

/-- The same of one user's items. -/
def QueueStored (s : Store) (u : Nat) : Prop :=
  ∀ r ∈ s.queueOf u, (s.users.get u).isSome ∧ (s.videos.get r.2.videoId).isSome

theorem ItemsStored.queue (h : ItemsStored s) (u : Nat) : QueueStored s u := by
  intro r hr
  obtain ⟨hg, hu⟩ := mem_queueOf.mp hr
  rw [← hu]
  exact h r.1 r.2 hg

theorem updateRanking_userId (s : Store) (n : Int) (q : QueueItem) : (updateRanking s n q).userId = q.userId := by
  unfold updateRanking; split <;> rfl

theorem updateRanking_videoId (s : Store) (n : Int) (q : QueueItem) :
    (updateRanking s n q).videoId = q.videoId := by
  unfold updateRanking; split <;> rfl

/-- An item and its video: what the renumbering does not touch. -/
def strip (r : Nat × QueueItem) : Nat × Nat := (r.1, r.2.videoId)

/-- The loop body of the renumbering pass. -/
abbrev renumberWith (s : Store) (i : Nat) (q : QueueItem) : QueueItem := updateRanking s ((i : Int) + 1) q

/-- The keys in the order the pass visits them. -/
def visited (env : Env) (s : Store) (u : Nat) : List Nat := (env.byRanking.sort (s.queueOf u)).map Prod.fst

theorem visited_nodup : (visited env s u).Nodup :=
  listing_keys_nodup (t := s.queueItems) (p := fun q => q.userId == u) (env.byRanking.perm _)

theorem normalise_queueOf (v : Nat) :
    (normaliseQueueItemRankings env s u).queueOf v =
      (s.queueOf v).map (Table.renumbered (renumberWith s) 0 (visited env s u)) :=
  Table.select_renumber visited_nodup (fun n a => by simp only [updateRanking_userId])

theorem normalise_rows : (normaliseQueueItemRankings env s u).queueItems.rows =
    s.queueItems.rows.map (Table.renumbered (renumberWith s) 0 (visited env s u)) :=
  Table.renumber_rows _ _ _ _ visited_nodup

theorem renumbered_userId (ks : List Nat) (r : Nat × QueueItem) :
    (Table.renumbered (renumberWith s) 0 ks r).2.userId = r.2.userId := by
  simp only [Table.renumbered]
  split
  · exact updateRanking_userId _ _ _
  · rfl

theorem renumbered_videoId (ks : List Nat) (r : Nat × QueueItem) :
    (Table.renumbered (renumberWith s) 0 ks r).2.videoId = r.2.videoId := by
  simp only [Table.renumbered]
  split
  · exact updateRanking_videoId _ _ _
  · rfl

theorem strip_renumbered (ks : List Nat) (r : Nat × QueueItem) :
    strip (Table.renumbered (renumberWith s) 0 ks r) = strip r := by
  simp only [strip, renumbered_videoId]
  rfl

theorem normalise_strip (v : Nat) :
    ((normaliseQueueItemRankings env s u).queueOf v).map strip = (s.queueOf v).map strip := by
  rw [normalise_queueOf, List.map_map]
  exact List.map_congr_left (fun r _ => strip_renumbered _ r)

theorem not_visited {v : Nat} (hv : v ≠ u) {r : Nat × QueueItem} (hr : r ∈ s.queueOf v) :
    r.1 ∉ visited env s u := by
  intro h
  obtain ⟨r', hr', he⟩ := List.mem_map.mp h
  have hr' := (env.byRanking.perm _).mem_iff.mp hr'
  rw [mem_queueOf, he] at hr'
  rw [mem_queueOf, hr'.1] at hr
  exact hv (by rw [← hr.2, ← hr'.2, Option.some.inj hr.1])

/-- No other user's row changes. -/
theorem normalise_queueOf_other {v : Nat} (hv : v ≠ u) :
    (normaliseQueueItemRankings env s u).queueOf v = s.queueOf v := by
  rw [normalise_queueOf]
  refine (List.map_congr_left ?_).trans (List.map_id _)
  intro r hr
  simp [Table.renumbered, not_visited hv hr]

theorem ranking_renumberWith (hs : QueueStored s u) (n : Nat) {r : Nat × QueueItem}
    (hr : r ∈ env.byRanking.sort (s.queueOf u)) : (renumberWith s n r.2).ranking = (n : Int) + 1 := by
  have hr := (env.byRanking.perm _).mem_iff.mp hr
  obtain ⟨h1, h2⟩ := hs r hr
  simp [renumberWith, updateRanking, (mem_queueOf.mp hr).2, h1, h2]

/-- **After the pass the rankings are 1, 2, ..., n.** -/
theorem normalise_numbered (hs : QueueStored s u) :
    Numbered (fun r => r.2.ranking) ((normaliseQueueItemRankings env s u).queueOf u) :=
  numbered_renumber QueueItem.ranking (env.byRanking.perm _)
    (fun n a => by rw [updateRanking_userId]) (fun n r hr => ranking_renumberWith hs n hr)

/-- The item under a key after the pass. -/
theorem normalise_get_renumbered (k : Nat) :
    (normaliseQueueItemRankings env s u).queueItems.get k =
      (s.queueItems.get k).map (fun q => (Table.renumbered (renumberWith s) 0 (visited env s u) (k, q)).2) :=
  Table.get_of_rows_map normalise_rows (fun _ => rfl) k

/-- Each item keeps its key, user and video. -/
theorem normalise_get {k : Nat} {q : QueueItem}
    (h : (normaliseQueueItemRankings env s u).queueItems.get k = some q) :
    ∃ q', s.queueItems.get k = some q' ∧ q.userId = q'.userId ∧ q.videoId = q'.videoId := by
  rw [normalise_get_renumbered] at h
  obtain ⟨q', hq', rfl⟩ := Option.map_eq_some_iff.mp h
  exact ⟨q', hq', renumbered_userId _ _, renumbered_videoId _ _⟩

theorem normalise_itemsStored (hs : ItemsStored s) : ItemsStored (normaliseQueueItemRankings env s u) := by
  intro k q hq
  obtain ⟨q', hq', hu, hv⟩ := normalise_get hq
  rw [hu, hv]
  exact hs k q' hq'

end

/-! Each effect on users and videos. -/

theorem reset_keeps (rand : Nat → String) (env : Env) (s : Store) (id : Nat) (user : User) (password : Param) :
    Keeps s (passwordResets.reset rand env s id user password) := by
  refine ⟨fun k hk => ?_, fun k hk => by simpa using hk⟩
  rw [reset_users]
  split
  · rw [isSome_update]; exact hk
  · exact hk

theorem signedUp_keeps (rand : Nat → String) (env : Env) (s : Store) (user : NewUser) (token : Param) :
    Keeps s (s.signedUp rand env user token) := by
  refine ⟨fun k hk => ?_, fun k hk => by simpa using hk⟩
  rw [signedUp_users]
  exact isSome_insert _ hk

theorem Effect.keeps {rand : Nat → String} {env : Env} {session : Option Nat} {s s' : Store} {req : Request}
    (h : Effect rand env session s req s') : Keeps s s' := by
  cases h with
  | signUp => exact signedUp_keeps _ _ _ _ _
  | reset => exact reset_keeps _ _ _ _ _ _
  | addVideo => exact ⟨fun _ hk => hk, fun _ hk => isSome_insert _ hk⟩
  | reorder hu hr =>
    obtain ⟨h1, h2, -⟩ := updateQueueItems_frame hr
    exact keeps_of_eq h1 h2
  | nothing | enqueue | dequeue | tidy | review | follow | unfollow | invite => exact Keeps.refl _

theorem queueOf_insert (s : Store) (q : QueueItem) (v : Nat) :
    ({ s with queueItems := s.queueItems.insert q } : Store).queueOf v =
      s.queueOf v ++ if q.userId = v then [(s.queueItems.next, q)] else [] := by
  simp only [Store.queueOf, Table.select_insert, beq_iff_eq]

/-- A new item for a video that is not in the queue. -/
theorem videos_nodup_insert {s : Store} {v : Nat} (h : ((s.queueOf v).map (fun r => r.2.videoId)).Nodup)
    {q : QueueItem} (hnew : q.userId = v → ∀ r ∈ s.queueOf v, r.2.videoId ≠ q.videoId) :
    ((({ s with queueItems := s.queueItems.insert q } : Store).queueOf v).map (fun r => r.2.videoId)).Nodup := by
  rw [queueOf_insert]
  split
  · next hv =>
    rw [List.map_append, List.map_singleton, ← List.concat_eq_append]
    apply h.concat
    intro hm
    obtain ⟨r, hr, he⟩ := List.mem_map.mp hm
    exact hnew hv r hr he
  · rw [List.append_nil]
    exact h

theorem queueOf_delete (s : Store) (id v : Nat) :
    ({ s with queueItems := s.queueItems.delete id } : Store).queueOf v =
      (s.queueOf v).filter (fun r => r.1 != id) := Table.select_delete _ _ _

theorem queueOf_delete_other {s : Store} {id u v : Nat} {q : QueueItem} (hq : s.queueItems.get id = some q)
    (hown : q.userId = u) (hv : v ≠ u) :
    ({ s with queueItems := s.queueItems.delete id } : Store).queueOf v = s.queueOf v := by
  apply Table.select_delete_other
  intro a ha
  rw [hq, Option.some.injEq] at ha
  rw [← ha, hown]
  simpa using Ne.symm hv

/-- No request touches the queue of a user it does not act as. -/
theorem Effect.queueOf_other {rand : Nat → String} {env : Env} {session : Option Nat} {s s' : Store}
    {req : Request} (he : Effect rand env session s req s') {v : Nat} (hv : session ≠ some v) :
    s'.queueOf v = s.queueOf v := by
  have own : ∀ {u : Nat} {user : User}, ActsAs s session u user → v ≠ u := by
    intro u user hu he
    exact hv (by rw [he]; exact hu.1)
  cases he with
  | enqueue hu hp hvid hnew =>
    rw [queueOf_insert, if_neg (Ne.symm (own hu)), List.append_nil]
  | dequeue hu hp hq hown =>
    rw [normalise_queueOf_other (own hu)]
    exact queueOf_delete_other hq hown (own hu)
  | tidy hu => exact normalise_queueOf_other (own hu)
  | reorder hu hr =>
    rw [normalise_queueOf_other (own hu)]
    exact updateQueueItems_queueOf_other hr (own hu)
  | reset => rw [Store.queueOf, reset_queueItems]; rfl
  | signUp => rw [Store.queueOf, signedUp_queueItems]; rfl
  | nothing | review | follow | unfollow | invite | addVideo => rfl

/-! The invariant. -/

/-- Every queue is numbered 1, 2, ..., n and holds no video twice. -/
structure QueueInv (s : Store) : Prop where
  stored : ItemsStored s
  numbered : ∀ u, Numbered (fun r => r.2.ranking) (s.queueOf u)
  nodup : ∀ u, ((s.queueOf u).map (fun r => r.2.videoId)).Nodup

/-- What the renumbering pass needs to restore the invariant for `u`. -/
structure QueueInvBut (u : Nat) (s : Store) : Prop where
  stored : ItemsStored s
  numbered : ∀ v, v ≠ u → Numbered (fun r => r.2.ranking) (s.queueOf v)
  nodup : ∀ v, ((s.queueOf v).map (fun r => r.2.videoId)).Nodup

theorem QueueInv.but {s : Store} (h : QueueInv s) (u : Nat) : QueueInvBut u s :=
  ⟨h.stored, fun v _ => h.numbered v, h.nodup⟩

theorem map_videoId_eq {l l' : List (Nat × QueueItem)} (h : l.map strip = l'.map strip) :
    l.map (fun r => r.2.videoId) = l'.map (fun r => r.2.videoId) := by
  have := congrArg (List.map Prod.snd) h
  rw [List.map_map, List.map_map] at this
  exact this

/-- The pass restores the invariant. -/
theorem QueueInvBut.normalise {env : Env} {s : Store} {u : Nat} (h : QueueInvBut u s) :
    QueueInv (normaliseQueueItemRankings env s u) where
  stored := normalise_itemsStored h.stored
  numbered := by
    intro v
    by_cases hv : v = u
    · -- the visited queue is renumbered whatever its rankings were
      subst hv
      exact normalise_numbered (h.stored.queue v)
    · rw [normalise_queueOf_other hv]
      exact h.numbered v hv
  nodup := by
    intro v
    rw [map_videoId_eq (normalise_strip v)]
    exact h.nodup v

/-- Writes to other tables do not matter as long as users and videos stay. -/
theorem QueueInv.of_same_queue {s s' : Store} (h : QueueInv s) (hk : Keeps s s')
    (hq : s'.queueItems = s.queueItems) : QueueInv s' := by
  have hof : ∀ v, s'.queueOf v = s.queueOf v := fun v => by simp only [Store.queueOf, hq]
  refine ⟨?_, fun u => by rw [hof]; exact h.numbered u, fun u => by rw [hof]; exact h.nodup u⟩
  intro k q hg
  rw [hq] at hg
  exact ⟨hk.1 _ (h.stored k q hg).1, hk.2 _ (h.stored k q hg).2⟩

theorem QueueInv.enqueue {s : Store} (h : QueueInv s) {u v : Nat} (hu : (s.users.get u).isSome)
    (hv : (s.videos.get v).isSome) (hnew : ∀ r ∈ s.queueOf u, r.2.videoId ≠ v) :
    QueueInv { s with queueItems := s.queueItems.insert ⟨u, v, ((s.queueOf u).length : Int) + 1⟩ } where
  stored := by
    intro k q hg
    rcases Table.get_insert_cases hg with ⟨rfl, -⟩ | hg
    · exact ⟨hu, hv⟩
    · exact h.stored k q hg
  numbered := by
    intro x
    rw [queueOf_insert]
    split
    · next hx =>
      simp only at hx
      subst hx
      exact (h.numbered u).concat rfl
    · rw [List.append_nil]
      exact h.numbered x
  nodup := by
    intro x
    apply videos_nodup_insert (h.nodup x)
    intro hx
    have hx : u = x := hx
    subst hx
    exact hnew

theorem QueueInv.delete {s : Store} (h : QueueInv s) {id u : Nat} {q : QueueItem}
    (hq : s.queueItems.get id = some q) (hown : q.userId = u) :
    QueueInvBut u { s with queueItems := s.queueItems.delete id } where
  stored := by
    intro k x hg
    simp only [Table.get_delete] at hg
    split at hg
    · cases hg
    · exact h.stored k x hg
  numbered := by
    intro v hv
    rw [queueOf_delete_other hq hown hv]
    exact h.numbered v
  nodup := by
    intro v
    rw [queueOf_delete]
    exact (h.nodup v).sublist (List.filter_sublist.map _)

theorem QueueInv.reorder {s s' : Store} (h : QueueInv s) {u : Nat} {entries : List QueueItemData}
    (hr : queueItems.updateQueueItems s u entries = .ok s') : QueueInvBut u s' where
  stored := by
    obtain ⟨hu, hv, -⟩ := updateQueueItems_frame hr
    intro k q hg
    have hm := Table.get_eq_some.mp hg
    rw [updateQueueItems_rows hr] at hm
    obtain ⟨r, hrm, he⟩ := List.mem_map.mp hm
    have h1 : q.userId = r.2.userId := by rw [← reranked_userId u entries r, he]
    have h2 : q.videoId = r.2.videoId := by rw [← reranked_videoId u entries r, he]
    rw [hu, hv, h1, h2]
    exact h.stored r.1 r.2 (Table.get_eq_some.mpr hrm)
  numbered := by
    intro v hv
    rw [updateQueueItems_queueOf_other hr hv]
    exact h.numbered v
  nodup := by
    intro v
    rw [updateQueueItems_queueOf hr, List.map_map]
    have he : (s.queueOf v).map ((fun r => r.2.videoId) ∘ reranked u entries) =
        (s.queueOf v).map (fun r => r.2.videoId) :=
      List.map_congr_left (fun r _ => reranked_videoId u entries r)
    rw [he]
    exact h.nodup v

/-- One request keeps the invariant. -/
theorem QueueInv.effect {rand : Nat → String} {env : Env} {session : Option Nat} {s s' : Store}
    {req : Request} (h : QueueInv s) (he : Effect rand env session s req s') : QueueInv s' := by
  have hk := he.keeps
  cases he with
  | enqueue hu hp hv hnew => exact h.enqueue (by simp [hu.2]) (by simp [hv]) hnew
  | dequeue hu hp hq hown => exact (h.delete hq hown).normalise
  | tidy hu => exact (h.but _).normalise
  | reorder hu hr => exact (h.reorder hr).normalise
  | reset => exact h.of_same_queue hk (reset_queueItems ..)
  | signUp => exact h.of_same_queue hk (signedUp_queueItems ..)
  | nothing | review | follow | unfollow | invite | addVideo => exact h.of_same_queue hk rfl

theorem queueInv_of_no_items {s : Store} (h : s.queueItems.rows = []) : QueueInv s := by
  have hq : ∀ u, s.queueOf u = [] := fun u => by simp [Store.queueOf, Table.select, h]
  refine ⟨?_, fun u => by rw [hq]; exact numbered_nil _, fun u => by rw [hq]; simp⟩
  intro k q hg
  exact absurd hg (Table.not_get_of_no_rows h)

/-- The invariant holds in every state a run reaches. -/
theorem queueInv_run (rand : Nat → String) {w : World} (h : w.store.queueItems.rows = []) (es : List Event) :
    QueueInv (run (World.step rand) w es).store :=
  run_inv (I := fun w : World => QueueInv w.store) (fun w e hw => hw.effect (step_effect rand w e))
    (queueInv_of_no_items h) es

end Myflix
