import Myflix.Queue

/- The queue as an ordered list. `Store.queueList` lists a user's items by
   ranking, each as its key and its video: the ordered list without repetition
   the queue is meant to be. Each queue request acts on it as the list operation
   of its name, and no request moves another user's list.

   What is proved:
     1. `queue_rankings`: in every reachable state the rankings of each user are
        1, 2, ..., n and no video is queued twice.
     2. `queue_refines_list`: `create` appends, `destroy` removes one item and
        `update_queue` permutes by the submitted rankings. -/
namespace Myflix
open Relational Rails Transition

/-! Rankings. -/

/-- **The rankings of a queue are 1, 2, ..., n.** Whatever requests were made, by whichever
    sessions, from a database without queue items: a user with `n` items has the rankings
    `1, ..., n`, each once, and `n` different videos. -/
theorem queue_rankings (rand : Nat → String) (w : World) (h : w.store.queueItems.rows = [])
    (es : List Event) (u : Nat) :
    let items := (run (World.step rand) w es).store.queueOf u
    (items.map (fun r => r.2.ranking)).Perm (upTo items.length) ∧
      (items.map (fun r => r.2.videoId)).Nodup :=
  ⟨(queueInv_run rand h es).numbered u, (queueInv_run rand h es).nodup u⟩

/-- Two videos queued and the second moved to the front; another user queues one of them. -/
def queueing : List Event :=
  [Event.fair 1 (.queueItemsCreate (some "1")), Event.fair 1 (.queueItemsCreate (some "2")),
   Event.fair 1 (.queueItemsUpdateQueue (some [⟨some "1", some "7", none⟩, ⟨some "2", some "-3", some "4"⟩])),
   Event.fair 2 (.queueItemsCreate (some "2"))]

theorem queue_rankings_small :
    ((run (World.step tally) World.small queueing).store.queueOf 1).map (fun r => r.2.ranking) = [2, 1] ∧
    (((run (World.step tally) World.small queueing).store.queueOf 1).map (fun r => r.2.ranking)).Perm
      (upTo ((run (World.step tally) World.small queueing).store.queueOf 1).length) :=
  ⟨by decide, (queue_rankings tally World.small rfl queueing 1).1⟩

/-! The list. -/

/-- A user's items by ranking. -/
def Store.listing (s : Store) (u : Nat) : List (Nat × QueueItem) :=
  (OrderBy.stable (fun r : Nat × QueueItem => r.2.ranking)).sort (s.queueOf u)

/-- The queue as a list of items, each with its video. -/
def Store.queueList (s : Store) (u : Nat) : List (Nat × Nat) := (s.listing u).map strip

section
variable {env : Env} {s : Store} {u : Nat}

theorem listing_perm (s : Store) (u : Nat) : (s.listing u).Perm (s.queueOf u) := OrderBy.perm _ _

theorem listing_sorted (s : Store) (u : Nat) :
    (s.listing u).Pairwise (fun a b => a.2.ranking ≤ b.2.ranking) := OrderBy.sorted _ _

theorem mem_queueList {x : Nat × Nat} :
    x ∈ s.queueList u ↔ ∃ q, s.queueItems.get x.1 = some q ∧ q.userId = u ∧ q.videoId = x.2 := by
  simp only [Store.queueList, List.mem_map, (listing_perm s u).mem_iff, mem_queueOf, strip]
  refine ⟨?_, ?_⟩
  · intro h
    obtain ⟨r, ⟨hg, hu⟩, rfl⟩ := h
    exact ⟨r.2, hg, hu, rfl⟩
  · intro h
    obtain ⟨q, hg, hu, hv⟩ := h
    exact ⟨(x.1, q), ⟨hg, hu⟩, by rw [hv]⟩

theorem mem_queueList_fst {id : Nat} :
    id ∈ (s.queueList u).map Prod.fst ↔ ∃ q, s.queueItems.get id = some q ∧ q.userId = u := by
  simp only [List.mem_map, mem_queueList]
  refine ⟨?_, ?_⟩
  · intro h
    obtain ⟨x, ⟨q, hg, hu, -⟩, rfl⟩ := h
    exact ⟨q, hg, hu⟩
  · intro h
    obtain ⟨q, hg, hu⟩ := h
    exact ⟨(id, q.videoId), ⟨q, hg, hu, rfl⟩, rfl⟩

theorem mem_queueList_snd {v : Nat} :
    v ∈ (s.queueList u).map Prod.snd ↔ ∃ r ∈ s.queueOf u, r.2.videoId = v := by
  simp only [Store.queueList, List.map_map, List.mem_map, (listing_perm s u).mem_iff]
  exact Iff.rfl

theorem queueList_of_eq {s' : Store} (h : s'.queueOf u = s.queueOf u) : s'.queueList u = s.queueList u := by
  simp only [Store.queueList, Store.listing, h]

/-- A numbered queue has one listing: every database order gives it. -/
theorem sort_eq_listing (h : Numbered (fun r => r.2.ranking) (s.queueOf u)) :
    env.byRanking.sort (s.queueOf u) = s.listing u :=
  env.byRanking.sort_eq (listing_perm s u) (listing_sorted s u) (fun _ ha _ hb => h.inj ha hb)

/-- After the renumbering pass the list is the order the database gave. -/
theorem normalise_queueList (hs : QueueStored s u) :
    (normaliseQueueItemRankings env s u).queueList u = (env.byRanking.sort (s.queueOf u)).map strip := by
  have hl : (normaliseQueueItemRankings env s u).listing u =
      (env.byRanking.sort (s.queueOf u)).map (Table.renumbered (renumberWith s) 0 (visited env s u)) :=
    sort_renumber QueueItem.ranking _ (env.byRanking.perm _)
      (fun n a => by rw [updateRanking_userId]) (fun n r hr => ranking_renumberWith hs n hr)
  rw [Store.queueList, hl, List.map_map]
  exact List.map_congr_left (fun r _ => strip_renumbered _ r)

/-! `create` appends. -/

theorem listing_enqueue (h : QueueInv s) (v : Nat) :
    let item : QueueItem := ⟨u, v, ((s.queueOf u).length : Int) + 1⟩
    ({ s with queueItems := s.queueItems.insert item } : Store).listing u =
      s.listing u ++ [(s.queueItems.next, item)] := by
  intro item
  unfold Store.listing
  rw [queueOf_insert, if_pos rfl]
  apply OrderBy.sort_eq
  · exact (listing_perm s u).append_right _
  · rw [List.pairwise_append]
    refine ⟨listing_sorted s u, List.pairwise_singleton _ _, ?_⟩
    intro a ha b hb
    simp only [List.mem_singleton] at hb
    subst hb
    -- the new item is ranked past all others
    have := (h.numbered u).bounds ((listing_perm s u).mem_iff.mp ha)
    show a.2.ranking ≤ ((s.queueOf u).length : Int) + 1
    omega
  · intro a ha b hb
    exact ((h.numbered u).concat (a := (s.queueItems.next, item)) rfl).inj ha hb

theorem queueList_enqueue (h : QueueInv s) (v : Nat) :
    ({ s with queueItems := s.queueItems.insert ⟨u, v, ((s.queueOf u).length : Int) + 1⟩ } : Store).queueList u =
      s.queueList u ++ [(s.queueItems.next, v)] := by
  rw [Store.queueList, listing_enqueue h v, List.map_append]
  rfl

/-! `destroy` removes. -/

theorem queueList_dequeue (h : QueueInv s) {id : Nat} {q : QueueItem} (hq : s.queueItems.get id = some q)
    (hown : q.userId = u) :
    (normaliseQueueItemRankings env { s with queueItems := s.queueItems.delete id } u).queueList u =
      (s.queueList u).filter (fun x => x.1 != id) := by
  -- taking an item out of a sorted list leaves it sorted
  have hsort : env.byRanking.sort ((s.queueOf u).filter (fun r => r.1 != id)) =
      (s.listing u).filter (fun r => r.1 != id) := by
    apply env.byRanking.sort_eq
    · exact (listing_perm s u).filter _
    · exact (listing_sorted s u).filter _
    · intro a ha b hb
      exact (h.numbered u).inj (List.mem_filter.mp ha).1 (List.mem_filter.mp hb).1
  rw [normalise_queueList ((h.delete hq hown).stored.queue u), queueOf_delete, hsort, Store.queueList, List.filter_map]
  rfl

theorem queueList_tidy (h : QueueInv s) : (normaliseQueueItemRankings env s u).queueList u = s.queueList u := by
  rw [normalise_queueList (h.stored.queue u), sort_eq_listing (h.numbered u)]
  rfl

/-! `update_queue` permutes by the submitted rankings. -/

/-- The ranking in the last entry that names the item, or the stored one. -/
def submittedRanking (s : Store) (entries : List QueueItemData) (x : Nat × Nat) : Int :=
  match lastEntry entries x.1 with
  | some d => d.ranking.toI
  | none => ((s.queueItems.get x.1).map QueueItem.ranking).getD 0

theorem strip_reranked (entries : List QueueItemData) (r : Nat × QueueItem) :
    strip (reranked u entries r) = strip r := by
  simp only [strip, reranked_fst, reranked_videoId]

theorem queueList_reorder_perm (env : Env) (h : QueueInv s) {s' : Store} {entries : List QueueItemData}
    (hr : queueItems.updateQueueItems s u entries = .ok s') :
    ((normaliseQueueItemRankings env s' u).queueList u).Perm (s.queueList u) := by
  have he : (s'.queueOf u).map strip = (s.queueOf u).map strip := by
    rw [updateQueueItems_queueOf hr, List.map_map]
    exact List.map_congr_left (fun r _ => strip_reranked entries r)
  calc (normaliseQueueItemRankings env s' u).queueList u
      = (env.byRanking.sort (s'.queueOf u)).map strip := normalise_queueList ((h.reorder hr).stored.queue u)
    List.Perm _ ((s'.queueOf u).map strip) := (env.byRanking.perm _).map _
    _ = (s.queueOf u).map strip := he
    List.Perm _ (s.queueList u) := ((listing_perm s u).map _).symm

theorem queueList_reorder_sorted (env : Env) (h : QueueInv s) {s' : Store} {entries : List QueueItemData}
    (hr : queueItems.updateQueueItems s u entries = .ok s') :
    ((normaliseQueueItemRankings env s' u).queueList u).Pairwise
      (fun a b => submittedRanking s entries a ≤ submittedRanking s entries b) := by
  rw [normalise_queueList ((h.reorder hr).stored.queue u), List.pairwise_map]
  -- the database sorts by what the loop wrote, which is the submitted ranking
  have hkey : ∀ r ∈ env.byRanking.sort (s'.queueOf u), submittedRanking s entries (strip r) = r.2.ranking := by
    intro r hmem
    have hmem := (env.byRanking.perm _).mem_iff.mp hmem
    rw [updateQueueItems_queueOf hr] at hmem
    obtain ⟨r₀, hr₀, rfl⟩ := List.mem_map.mp hmem
    obtain ⟨hg, hu⟩ := mem_queueOf.mp hr₀
    rw [strip_reranked]
    simp only [reranked, hu, if_true, submittedRanking, newRanking, strip, hg]
    cases lastEntry entries r₀.1 <;> rfl
  refine (env.byRanking.sorted (s'.queueOf u)).imp_of_mem ?_
  intro a b ha hb hab
  rw [hkey a ha, hkey b hb]
  exact hab

end

/-! Requests. -/

/-- Neither an exception nor an error message: the request did not fail. -/
def Response.ok (r : Response) : Bool :=
  match r.reply, r.flash with
  | .raised _, _ => false
  | _, some (.danger _) => false
  | _, _ => true

theorem updateQueue_ok {env : Env} {s : Store} {session : Option Nat} {u : Nat} {user : User}
    (hu : ActsAs s session u user) {entries : List QueueItemData}
    (h : (queueItems.updateQueue env s session (some entries)).response.ok = true) :
    ∃ s', queueItems.updateQueueItems s u entries = .ok s' ∧
      (queueItems.updateQueue env s session (some entries)).store = normaliseQueueItemRankings env s' u := by
  simp only [queueItems.updateQueue, requireLogin_of hu] at h ⊢
  split at h
  · next s' hs => exact ⟨s', hs, rfl⟩
  · cases h
  · cases h

theorem create_appends {s : Store} (h : QueueInv s) {session : Option Nat} {u : Nat} {user : User}
    (hu : ActsAs s session u user) {p : Param} {v : Nat} (hp : Param.key p = some v)
    (hv : (s.videos.get v).isSome) (hnew : v ∉ (s.queueList u).map Prod.snd) :
    (queueItems.create s session p).store.queueList u = s.queueList u ++ [(s.queueItems.next, v)] := by
  obtain ⟨video, hv⟩ := Option.isSome_iff_exists.mp hv
  have hi := Param.toI_of_key hp
  have hex : queueItems.videoDoesntExist s p = false := by
    simp [queueItems.videoDoesntExist, find_of_key hp, hv]
  have hin : queueItems.videoAlreadyInUsersQueue s u p = false := by
    simp only [queueItems.videoAlreadyInUsersQueue, List.any_eq_false, beq_iff_eq]
    intro r hr he
    exact hnew (mem_queueList_snd.mpr ⟨r, hr, by omega⟩)
  simp only [queueItems.create, requireLogin_of hu, hex, hin, Bool.or_self, Bool.false_eq_true, if_false, reply,
    queueItems.createNewQueueItem, hi, Int.toNat_natCast]
  exact queueList_enqueue h v

/-- A `create` that names no video, or one in the list, writes nothing. -/
theorem create_refuses {s : Store} {session : Option Nat} {u : Nat} {user : User}
    (hu : ActsAs s session u user) {p : Param}
    (h : ∀ v, Param.key p = some v → (s.videos.get v).isSome → v ∈ (s.queueList u).map Prod.snd) :
    (queueItems.create s session p).store = s := by
  simp only [queueItems.create, requireLogin_of hu]
  split
  · rfl
  · next hno =>
    simp only [Bool.or_eq_true, not_or, Bool.not_eq_true] at hno
    obtain ⟨hex, hin⟩ := hno
    cases hf : find s.videos p with
    | none => simp [queueItems.videoDoesntExist, hf] at hex
    | some r =>
      obtain ⟨v, video⟩ := r
      obtain ⟨hk, hv⟩ := find_some hf
      obtain ⟨r, hr, he⟩ := mem_queueList_snd.mp (h v hk (by simp [hv]))
      simp only [queueItems.videoAlreadyInUsersQueue, List.any_eq_false, beq_iff_eq] at hin
      exact absurd (by rw [Param.toI_of_key hk, he]) (hin r hr)

theorem destroy_removes {env : Env} {s : Store} (h : QueueInv s) {session : Option Nat} {u : Nat} {user : User}
    (hu : ActsAs s session u user) {p : Param} {id : Nat} (hp : Param.key p = some id)
    (hid : id ∈ (s.queueList u).map Prod.fst) :
    (queueItems.destroy env s session p).store.queueList u = (s.queueList u).filter (fun x => x.1 != id) := by
  obtain ⟨q, hq, hown⟩ := mem_queueList_fst.mp hid
  simp only [queueItems.destroy, requireLogin_of hu, find_of_key hp, hq, Option.map_some,
    queueItems.destroyIfOwn, hown, beq_self_eq_true, if_true, reply]
  exact queueList_dequeue h hq hown

theorem destroy_spares {env : Env} {s : Store} (h : QueueInv s) {session : Option Nat} {u : Nat} {user : User}
    (hu : ActsAs s session u user) {p : Param}
    (hid : ∀ id, Param.key p = some id → id ∉ (s.queueList u).map Prod.fst) :
    (queueItems.destroy env s session p).store.queueList u = s.queueList u := by
  simp only [queueItems.destroy, requireLogin_of hu]
  split
  · rfl
  · next id q hf =>
    obtain ⟨hk, hq⟩ := find_some hf
    have hown : (q.userId == u) = false := by
      have := hid id hk
      rw [mem_queueList_fst] at this
      simpa using fun he => this ⟨q, hq, he⟩
    simp only [queueItems.destroyIfOwn, hown, Bool.false_eq_true, if_false, reply]
    exact queueList_tidy h

/-- **The stored queue refines an ordered list without repetition.** In every reachable
    state, for a request of a session acting as `u`, with `L` the list of `u` before it and `L'`
    the list after it: `create` appends a new item for a video that exists and is not in `L`, and
    otherwise changes nothing; `destroy` takes the named item out of `L` if it is there, and
    otherwise changes nothing; an `update_queue` that does not fail permutes `L` such that an item
    with a smaller submitted ranking comes first. The list of every other user stays as it is. -/
theorem queue_refines_list (rand : Nat → String) (w₀ : World) (h₀ : w₀.store.queueItems.rows = [])
    (es : List Event) (e : Event) (u : Nat) (user : User)
    (hu : ActsAs (run (World.step rand) w₀ es).store ((run (World.step rand) w₀ es).sessions e.sid) u user) :
    let w := run (World.step rand) w₀ es
    let L := w.store.queueList u
    let L' := (w.step rand e).store.queueList u
    (L.map Prod.snd).Nodup ∧
    (∀ p, e.request = .queueItemsCreate p →
      (∀ v, Param.key p = some v → (w.store.videos.get v).isSome → v ∉ L.map Prod.snd →
        ∃ id, id ∉ L.map Prod.fst ∧ L' = L ++ [(id, v)]) ∧
      ((∀ v, Param.key p = some v → (w.store.videos.get v).isSome → v ∈ L.map Prod.snd) → L' = L)) ∧
    (∀ p, e.request = .queueItemsDestroy p →
      (∀ id, Param.key p = some id → id ∈ L.map Prod.fst → L' = L.filter (fun x => x.1 != id)) ∧
      ((∀ id, Param.key p = some id → id ∉ L.map Prod.fst) → L' = L)) ∧
    (∀ entries, e.request = .queueItemsUpdateQueue (some entries) → (w.response rand e).ok = true →
      L'.Perm L ∧
      ∀ a ∈ L, ∀ b ∈ L, submittedRanking w.store entries a < submittedRanking w.store entries b →
        Before L' a b) ∧
    (∀ v, v ≠ u → (w.step rand e).store.queueList v = w.store.queueList v) := by
  intro w L L'
  have hi : QueueInv w.store := queueInv_run rand h₀ es
  refine ⟨?_, ?_, ?_, ?_, ?_⟩
  · have := (((listing_perm w.store u).map (fun r => r.2.videoId)).nodup_iff).mpr (hi.nodup u)
    simp only [L, Store.queueList, List.map_map]
    exact this
  · intro p hp
    have hL' : L' = (queueItems.create w.store (w.sessions e.sid) p).store.queueList u := by
      simp only [L', World.step, World.outcome, hp, handle]
    rw [hL']
    refine ⟨?_, ?_⟩
    · intro v hk hv hnew
      refine ⟨w.store.queueItems.next, ?_, create_appends hi hu hk hv hnew⟩
      intro hm
      obtain ⟨q, hq, -⟩ := mem_queueList_fst.mp hm
      exact Nat.lt_irrefl _ (Table.get_lt_next hq)
    · intro hno
      rw [create_refuses hu hno]
  · intro p hp
    have hL' : L' = (queueItems.destroy e.env w.store (w.sessions e.sid) p).store.queueList u := by
      simp only [L', World.step, World.outcome, hp, handle]
    rw [hL']
    exact ⟨fun id hk hid => destroy_removes hi hu hk hid, fun hid => destroy_spares hi hu hid⟩
  · intro entries hp hok
    have hL' : L' = (queueItems.updateQueue e.env w.store (w.sessions e.sid) (some entries)).store.queueList u := by
      simp only [L', World.step, World.outcome, hp, handle]
    simp only [World.response, World.outcome, hp, handle] at hok
    obtain ⟨s', hs, hst⟩ := updateQueue_ok hu hok
    rw [hL', hst]
    have hperm := queueList_reorder_perm e.env hi hs
    refine ⟨hperm, ?_⟩
    intro a ha b hb hlt
    exact before_of_sorted (queueList_reorder_sorted e.env hi hs) (hperm.mem_iff.mpr ha) (hperm.mem_iff.mpr hb) hlt
  · intro v hv
    refine queueList_of_eq ((step_effect rand w e).queueOf_other ?_)
    rw [hu.1]
    simpa using Ne.symm hv

theorem queue_refines_list_small :
    let w := run (World.step tally) World.small queueing
    let w' := w.step tally (Event.fair 1 (.queueItemsDestroy (some "2")))
    w.store.queueList 1 = [(2, 2), (1, 1)] ∧ w'.store.queueList 1 = [(1, 1)] ∧
      w'.store.queueList 2 = w.store.queueList 2 := by
  have h := queue_refines_list tally World.small rfl queueing (Event.fair 1 (.queueItemsDestroy (some "2"))) 1 alice
    ⟨rfl, by decide⟩
  have hL : (run (World.step tally) World.small queueing).store.queueList 1 = [(2, 2), (1, 1)] := by decide
  refine ⟨hL, ?_, h.2.2.2.2 2 (by decide)⟩
  exact ((h.2.2.1 (some "2") rfl).1 2 (by decide) (by decide)).trans (by rw [hL]; decide)

end Myflix
