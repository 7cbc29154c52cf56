import Myflix.Queue

/- The renumbering pass on its own. `normalise_queue_item_rankings` is proved here
   for every queue, not only for those a run of the application produces: the
   rankings may have gaps, repeat or be negative, and the database may order
   equal rankings as it likes. All that is asked is what QueueItem's own
   validations ask of a stored item, its user and its video (`QueueStored`). -/
namespace Myflix
open Relational Rails Transition

section
variable {env : Env} {s : Store} {u : Nat}

/-- An item that has the number already is not touched, saved or not. -/
theorem updateRanking_of_eq {n : Int} {q : QueueItem} (h : q.ranking = n) : updateRanking s n q = q := by
  unfold updateRanking
  split
  · rw [← h]
  · rfl

/-- The pass leaves a numbered queue as it is. -/
theorem normalise_of_numbered (h : Numbered (fun r => r.2.ranking) (s.queueOf u)) :
    normaliseQueueItemRankings env s u = s := by
  have ht : s.queueItems.renumber (renumberWith s) 0 (visited env s u) = s.queueItems := by
    apply renumber_of_numbered QueueItem.ranking (env.byRanking.perm _) (env.byRanking.sorted _) h
    intro n q hq
    exact updateRanking_of_eq hq
  show { s with queueItems := s.queueItems.renumber (renumberWith s) 0 (visited env s u) } = s
  rw [ht]

/-- Of two items the one with the smaller ranking gets the smaller number. -/
theorem normalise_lt (hs : QueueStored s u) {a b : Nat × QueueItem} (ha : a ∈ s.queueOf u) (hb : b ∈ s.queueOf u)
    (hab : a.2.ranking < b.2.ranking) {qa qb : QueueItem}
    (hqa : (normaliseQueueItemRankings env s u).queueItems.get a.1 = some qa)
    (hqb : (normaliseQueueItemRankings env s u).queueItems.get b.1 = some qb) : qa.ranking < qb.ranking := by
  rw [normalise_get_renumbered, (mem_queueOf.mp ha).1] at hqa
  rw [normalise_get_renumbered, (mem_queueOf.mp hb).1] at hqb
  obtain rfl := Option.some.inj hqa
  obtain rfl := Option.some.inj hqb
  have hp := env.byRanking.perm (s.queueOf u)
  exact renumbered_lt QueueItem.ranking visited_nodup (env.byRanking.sorted _)
    (fun n r hr => ranking_renumberWith hs n hr) (hp.mem_iff.mpr ha) (hp.mem_iff.mpr hb) hab

end

/-- **The renumbering pass repairs any queue.** Whatever integers the rankings of the user's
    items are, and whatever order the database gives to equal ones: afterwards they are
    `1, ..., n`; an item ranked strictly below another still is; the items are the same, each with
    its video; no other user's item changes; and a second pass, under any order of ties, changes
    nothing. -/
theorem normalise_repairs (env env' : Env) (s : Store) (u : Nat) (hs : QueueStored s u) :
    let s' := normaliseQueueItemRankings env s u
    ((s'.queueOf u).map (fun r => r.2.ranking)).Perm (upTo (s.queueOf u).length) ∧
    (∀ a ∈ s.queueOf u, ∀ b ∈ s.queueOf u, a.2.ranking < b.2.ranking →
      ∀ qa qb, s'.queueItems.get a.1 = some qa → s'.queueItems.get b.1 = some qb → qa.ranking < qb.ranking) ∧
    (s'.queueOf u).map strip = (s.queueOf u).map strip ∧
    (∀ v, v ≠ u → s'.queueOf v = s.queueOf v) ∧
    normaliseQueueItemRankings env' s' u = s' := by
  intro s'
  have hn : Numbered (fun r => r.2.ranking) (s'.queueOf u) := normalise_numbered hs
  have hlen : (s'.queueOf u).length = (s.queueOf u).length := by
    rw [show s'.queueOf u = _ from normalise_queueOf u, List.length_map]
  refine ⟨?_, ?_, normalise_strip u, ?_, normalise_of_numbered hn⟩
  · rw [← hlen]
    exact hn
  · intro a ha b hb hab qa qb hqa hqb
    exact normalise_lt hs ha hb hab hqa hqb
  · intro v hv
    exact normalise_queueOf_other hv

/-- Two items of alice with the same ranking, one of bob between them, and one of alice far below zero. -/
def Store.disordered : Store :=
  { Store.small with
    videos := Store.small.videos.insert ⟨none, some "South Park", some "Four boys.", none, 2⟩
    queueItems := (((Table.empty.insert ⟨1, 1, 7⟩).insert ⟨2, 1, 7⟩).insert ⟨1, 2, 7⟩).insert ⟨1, 3, -40⟩ }

theorem normalise_repairs_disordered :
    let s' := normaliseQueueItemRankings .fair Store.disordered 1
    (s'.queueOf 1).map (fun r => r.2.ranking) = [2, 3, 1] ∧
      normaliseQueueItemRankings .fair s' 1 = s' ∧ s'.queueOf 2 = Store.disordered.queueOf 2 := by
  have hs : QueueStored Store.disordered 1 := by
    unfold QueueStored
    decide
  have h := normalise_repairs .fair .fair Store.disordered 1 hs
  exact ⟨by decide, h.2.2.2.2, h.2.2.2.1 2 (by decide)⟩

end Myflix
