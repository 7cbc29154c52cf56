import Mathlib.Data.Fintype.Basic
import Myflix.ConcurrentQueue

/- What overlapping queue requests leave behind. A request that adds a video trusts
   the items it read and the count it took, and one that removes an item trusts its
   sorted read while it renumbers; another request may have made them stale.

   What is proved:
     1. `concurrent_queue_consistent`: once all requests have finished, the queue holds
        no video twice and no ranking twice, if whatever a request has read is still
        so when it writes, or, for the rankings, another request is yet to sort the
        queue. A double click is enough to break it (`double_click`). -/
namespace Myflix
open Relational Rails Transition Interleaving

namespace Queueing

/-! One UPDATE of the renumbering. -/

/-- One UPDATE changes a ranking and nothing else. -/
theorem saveRanking_cases (s : Store) (n : Int) (r : Nat × QueueItem) :
    saveRanking s n r = s ∨ saveRanking s n r =
      { s with queueItems := s.queueItems.update r.1 (fun q => { q with ranking := n }) } := by
  unfold saveRanking
  split
  · exact .inl rfl
  · split
    · exact .inr rfl
    · exact .inl rfl

theorem saveRanking_frame (s : Store) (n : Int) (r : Nat × QueueItem) :
    (saveRanking s n r).users = s.users ∧ (saveRanking s n r).videos = s.videos := by
  rcases saveRanking_cases s n r with h | h
  · rw [h]
    exact ⟨rfl, rfl⟩
  · rw [h]
    exact ⟨rfl, rfl⟩

/-- A row when the ranking of the one under the key is overwritten. -/
def overwritten (k : Nat) (n : Int) (r : Nat × QueueItem) : Nat × QueueItem :=
  if r.1 = k then (r.1, { r.2 with ranking := n }) else r

theorem queueOf_update_ranking (s : Store) (k : Nat) (n : Int) (u : Nat) :
    ({ s with queueItems := s.queueItems.update k (fun q => { q with ranking := n }) } : Store).queueOf u =
      (s.queueOf u).map (overwritten k n) :=
  Table.select_update (f := fun q : QueueItem => { q with ranking := n }) (fun _ _ => rfl)

theorem saveRanking_strip (s : Store) (n : Int) (r : Nat × QueueItem) (u : Nat) :
    ((saveRanking s n r).queueOf u).map strip = (s.queueOf u).map strip := by
  rcases saveRanking_cases s n r with h | h
  · rw [h]
  · rw [h, queueOf_update_ranking, List.map_map]
    apply List.map_congr_left
    intro x _
    simp only [Function.comp, strip, overwritten]
    split <;> rfl

/-- Among loaded items with distinct keys the UPDATE concerns the one it is for. -/
theorem map_overwritten {saved rest : List (Nat × QueueItem)} {r : Nat × QueueItem} (n : Int)
    (hnd : ((saved ++ r :: rest).map Prod.fst).Nodup) :
    (saved ++ r :: rest).map (overwritten r.1 n) = saved ++ [(r.1, { r.2 with ranking := n })] ++ rest := by
  rw [List.map_append, List.map_cons, List.nodup_append] at hnd
  obtain ⟨-, hrest, hsaved⟩ := hnd
  have hother : ∀ l : List (Nat × QueueItem), (∀ x ∈ l, x.1 ≠ r.1) → l.map (overwritten r.1 n) = l := by
    intro l hl
    refine (List.map_congr_left ?_).trans (List.map_id _)
    intro x hx
    simp only [overwritten, hl x hx, if_false, id]
  rw [List.map_append, List.map_cons, hother saved, hother rest]
  · simp [overwritten]
  · intro x hx he
    exact (List.nodup_cons.mp hrest).1 (List.mem_map.mpr ⟨x, hx, he⟩)
  · intro x hx he
    exact hsaved x.1 (List.mem_map_of_mem hx) r.1 List.mem_cons_self he

/-- Loaded items that are the user's items still are after the UPDATE of one of them. -/
theorem saveRanking_perm {s : Store} {u : Nat} (hs : QueueStored s u) {saved rest : List (Nat × QueueItem)}
    {r : Nat × QueueItem} (n : Int) (hl : (saved ++ r :: rest).Perm (s.queueOf u)) :
    (saved ++ [(r.1, { r.2 with ranking := n })] ++ rest).Perm ((saveRanking s n r).queueOf u) := by
  have hr : r ∈ s.queueOf u := hl.mem_iff.mp (by simp)
  obtain ⟨hg, hu⟩ := mem_queueOf.mp hr
  obtain ⟨hus, hvs⟩ := hs r hr
  have hsave : saveRanking s n r =
      { s with queueItems := s.queueItems.update r.1 (fun q => { q with ranking := n }) } := by
    rw [saveRanking_eq hg, update_ranking_of_valid hg]
    rw [hu, hus, hvs]
    rfl
  have hnd : ((saved ++ r :: rest).map Prod.fst).Nodup :=
    listing_keys_nodup (t := s.queueItems) (p := fun q => q.userId == u) hl
  rw [hsave, queueOf_update_ranking, ← map_overwritten n hnd]
  exact hl.map _

/-! When what was read is still so. -/

/-- The request is yet to read the queue it renumbers. -/
def Phase.toSort : Phase → Bool
  | .including _ => true
  | .deleting _ => true
  | .sorting => true
  | _ => false

/-- At an INSERT the video is still not in the queue and the count is still right, and at an
    UPDATE the loaded items are still the user's items; for the rankings it is as good if some
    request is yet to sort. -/
def UpToDate {ι : Type} (u : Nat) (c : Requests ι) (turn : ι × Env) : Prop :=
  match c.phase turn.1 with
  | .inserting videoId count =>
    queueItems.videoAlreadyInUsersQueue c.shared u videoId = false ∧
      (count = (c.shared.queueOf u).length ∨ ∃ j, (c.phase j).toSort = true)
  | .renumbering saved (r :: rest) =>
    r.2.ranking = (saved.length : Int) + 1 ∨ (saved ++ r :: rest).Perm (c.shared.queueOf u) ∨
      ∃ j, (c.phase j).toSort = true
  | _ => True

instance {ι : Type} [Fintype ι] (u : Nat) (c : Requests ι) (turn : ι × Env) : Decidable (UpToDate u c turn) := by
  unfold UpToDate
  split <;> infer_instance

/-- The loaded items are not numbered in their order, so there is a ranking left to save. -/
def Phase.ToSave : Phase → Prop
  | .renumbering saved rest =>
    (saved ++ rest).map (fun r => r.2.ranking) ≠ upTo (saved ++ rest).length
  | _ => False

/-- What a request knows. -/
def Knows (s : Store) : Phase → Prop
  | .reading videoId => (find s.videos videoId).isSome
  | .counting videoId => (find s.videos videoId).isSome
  | .inserting videoId _ => (find s.videos videoId).isSome
  | .renumbering saved _ => saved.map (fun r => r.2.ranking) = upTo saved.length
  | _ => True

/-- The rankings are 1, 2, ..., n, or they are wrong for a while: some request is yet to sort, or
    has sorted and is yet to save. -/
def Settling {ι : Type} (u : Nat) (c : Requests ι) : Prop :=
  (∃ i, (c.phase i).toSort = true) ∨ Numbered (fun r => r.2.ranking) (c.shared.queueOf u) ∨
    ∃ i, (c.phase i).ToSave

/-- What the steps keep. -/
structure Inv {ι : Type} (u : Nat) (c : Requests ι) : Prop where
  user : (c.shared.users.get u).isSome
  stored : QueueStored c.shared u
  videos : ((c.shared.queueOf u).map (fun r => r.2.videoId)).Nodup
  knows : ∀ i, Knows c.shared (c.phase i)
  settling : Settling u c

section
variable {ι : Type} [DecidableEq ι] {u : Nat} {c : Requests ι} {i : ι} {s' : Store} {p' : Phase}

theorem Knows.mono {s : Store} {p : Phase} (h : Knows s p) (hv : s'.videos = s.videos) : Knows s' p := by
  cases p with
  | reading videoId | counting videoId | inserting videoId count =>
    show (find s'.videos videoId).isSome = true
    rw [hv]
    exact h
  | renumbering saved rest => exact h
  | checking | finding | including | deleting | sorting | finished => trivial

/-! Settling. -/

theorem settling_sort (h : p'.toSort = true) : Settling u (c.move i s' p') := by
  refine .inl ⟨i, ?_⟩
  rw [Pool.move_phase_self]
  exact h

theorem settling_save (h : p'.ToSave) : Settling u (c.move i s' p') := by
  refine .inr (.inr ⟨i, ?_⟩)
  rw [Pool.move_phase_self]
  exact h

theorem settling_other (h : ∃ j, (c.phase j).toSort = true) (hi : (c.phase i).toSort = false) :
    Settling u (c.move i s' p') := by
  obtain ⟨j, hj⟩ := h
  refine .inl ⟨j, Pool.move_phase (P := fun p : Phase => p.toSort = true) hj ?_⟩
  intro hi'
  rw [hi] at hi'
  cases hi'

/-- A step that leaves the queue alone and takes back nothing that was to be done. -/
theorem Settling.keep (h : Settling u c) (hq : s'.queueOf u = c.shared.queueOf u)
    (hsort : (c.phase i).toSort = true → p'.toSort = true) (hsave : (c.phase i).ToSave → p'.ToSave) :
    Settling u (c.move i s' p') := by
  rcases h with ⟨j, hj⟩ | h | ⟨j, hj⟩
  · exact .inl ⟨j, Pool.move_phase (P := fun p : Phase => p.toSort = true) hj hsort⟩
  · refine .inr (.inl ?_)
    show Numbered _ (s'.queueOf u)
    rw [hq]
    exact h
  · exact .inr (.inr ⟨j, Pool.move_phase hj hsave⟩)

/-- An item with the next ranking goes to the end of the numbering. -/
theorem Settling.append (h : Settling u c) {r : Nat × QueueItem} (hq : s'.queueOf u = c.shared.queueOf u ++ [r])
    (hr : r.2.ranking = ((c.shared.queueOf u).length : Int) + 1) (hsort : (c.phase i).toSort = false)
    (hsave : ¬ (c.phase i).ToSave) : Settling u (c.move i s' p') := by
  rcases h with h | h | ⟨j, hj⟩
  · exact settling_other h hsort
  · refine .inr (.inl ?_)
    show Numbered _ (s'.queueOf u)
    rw [hq]
    exact h.concat hr
  · exact .inr (.inr ⟨j, Pool.move_phase hj (fun hs => absurd hs hsave)⟩)

/-- Loaded items that are the user's items are numbered in their order, or there is one to save. -/
theorem settling_loaded {saved rest : List (Nat × QueueItem)} (hl : (saved ++ rest).Perm (s'.queueOf u)) :
    Settling u (c.move i s' (.renumbering saved rest)) := by
  by_cases hn : (saved ++ rest).map (fun r => r.2.ranking) = upTo (saved ++ rest).length
  · refine .inr (.inl (Numbered.perm ?_ hl.symm))
    rw [Numbered, hn]
  · exact settling_save hn

/-! Steps. -/

theorem Inv.move (h : Inv u c) (hu : s'.users = c.shared.users) (hv : s'.videos = c.shared.videos)
    (stored : QueueStored s' u) (videos : ((s'.queueOf u).map (fun r => r.2.videoId)).Nodup)
    (own : Knows s' p') (settling : Settling u (c.move i s' p')) : Inv u (c.move i s' p') where
  user := by
    show (s'.users.get u).isSome
    rw [hu]
    exact h.user
  stored := stored
  videos := videos
  knows := Pool.all_move (L := fun _ s p => Knows s p) own (fun j _ => (h.knows j).mono hv)
  settling := settling

/-- A statement that only reads. -/
theorem Inv.read (h : Inv u c) {p : Phase} (hp : c.phase i = p) (own : Knows c.shared p')
    (hsort : p.toSort = false ∨ p'.toSort = true) (hsave : ¬ p.ToSave) : Inv u (c.move i c.shared p') := by
  subst hp
  refine h.move rfl rfl h.stored h.videos own (h.settling.keep rfl ?_ (fun hs => absurd hs hsave))
  intro hi
  rcases hsort with hsort | hsort
  · rw [hsort] at hi
    cases hi
  · exact hsort

/-- The sorted read. -/
theorem Inv.sort (h : Inv u c) (env : Env) :
    Inv u (c.move i c.shared (.renumbering [] (env.byRanking.sort (c.shared.queueOf u)))) := by
  refine h.move rfl rfl h.stored h.videos rfl ?_
  apply settling_loaded
  exact env.byRanking.perm (c.shared.queueOf u)

theorem Inv.insert (h : Inv u c) {videoId : Param} {count : Nat} (hp : c.phase i = .inserting videoId count)
    (hnew : queueItems.videoAlreadyInUsersQueue c.shared u videoId = false)
    (hcount : count = (c.shared.queueOf u).length ∨ ∃ j, (c.phase j).toSort = true) :
    let item : QueueItem := ⟨u, videoId.toI.toNat, (count : Int) + 1⟩
    Inv u (c.move i { c.shared with queueItems := c.shared.queueItems.insert item } .finished) := by
  intro item
  have hi := h.knows i
  rw [hp] at hi
  obtain ⟨⟨v, video⟩, hf⟩ := Option.isSome_iff_exists.mp hi
  obtain ⟨hk, hv⟩ := find_some hf
  have hitem : item.videoId = v := by
    show (Param.toI videoId).toNat = v
    rw [Param.toI_of_key hk]
    rfl
  have hof : ({ c.shared with queueItems := c.shared.queueItems.insert item } : Store).queueOf u =
      c.shared.queueOf u ++ [(c.shared.queueItems.next, item)] := by
    rw [queueOf_insert, if_pos rfl]
  refine h.move rfl rfl ?_ ?_ trivial ?_
  · intro r hr
    rw [hof] at hr
    rcases List.mem_append.mp hr with hr | hr
    · exact h.stored r hr
    · rw [List.mem_singleton.mp hr]
      refine ⟨h.user, ?_⟩
      show (c.shared.videos.get item.videoId).isSome = true
      rw [hitem, hv]
      rfl
  · apply videos_nodup_insert h.videos
    intro _ r hr he
    simp only [queueItems.videoAlreadyInUsersQueue, List.any_eq_false, beq_iff_eq] at hnew
    apply hnew r hr
    rw [Param.toI_of_key hk, he, hitem]
  · rcases hcount with hcount | hcount
    · refine h.settling.append hof ?_ (by rw [hp]; rfl) (by rw [hp]; exact not_false)
      show (count : Int) + 1 = _
      rw [hcount]
    · exact settling_other hcount (by rw [hp]; rfl)

theorem Inv.delete (h : Inv u c) (id : Nat) :
    Inv u (c.move i { c.shared with queueItems := c.shared.queueItems.delete id } .sorting) := by
  refine h.move rfl rfl ?_ ?_ trivial (settling_sort rfl)
  · intro r hr
    rw [queueOf_delete] at hr
    exact h.stored r (List.mem_filter.mp hr).1
  · rw [queueOf_delete]
    exact h.videos.sublist (List.filter_sublist.map _)

/-- One round of the renumbering. -/
theorem Inv.save (h : Inv u c) {saved rest : List (Nat × QueueItem)} {r : Nat × QueueItem}
    (hp : c.phase i = .renumbering saved (r :: rest))
    (hc : r.2.ranking = (saved.length : Int) + 1 ∨ (saved ++ r :: rest).Perm (c.shared.queueOf u) ∨
      ∃ j, (c.phase j).toSort = true) :
    Inv u (c.move i (saveRanking c.shared ((saved.length : Int) + 1) r)
      (.renumbering (saved ++ [(r.1, { r.2 with ranking := (saved.length : Int) + 1 })]) rest)) := by
  have hknows := h.knows i
  rw [hp] at hknows
  have hstrip := saveRanking_strip c.shared ((saved.length : Int) + 1) r u
  obtain ⟨husers, hvideos⟩ := saveRanking_frame c.shared ((saved.length : Int) + 1) r
  refine h.move husers hvideos ?_ ?_ ?_ ?_
  · intro x hx
    obtain ⟨y, hy, he⟩ := List.mem_map.mp (hstrip ▸ List.mem_map_of_mem (f := strip) hx)
    have hv : y.2.videoId = x.2.videoId := congrArg Prod.snd he
    rw [husers, hvideos, ← hv]
    exact h.stored y hy
  · rw [map_videoId_eq hstrip]
    exact h.videos
  · show (saved ++ [_]).map _ = upTo (saved ++ [_]).length
    rw [List.map_append, List.length_append, List.length_singleton, upTo_succ]
    exact congrArg (fun l => l ++ _) hknows
  · rcases hc with hc | hc | hc
    · -- the ranking does not change, so nothing is written and the list in memory stays
      have hsame : saveRanking c.shared ((saved.length : Int) + 1) r = c.shared := by simp [saveRanking, hc]
      have hlist : saved ++ [(r.1, { r.2 with ranking := (saved.length : Int) + 1 })] ++ rest =
          saved ++ r :: rest := by
        rw [← hc, List.append_assoc]
        rfl
      refine h.settling.keep (by rw [hsame]) (by rw [hp]; exact id) ?_
      rw [hp]
      intro hsave
      show List.map _ (saved ++ [_] ++ rest) ≠ upTo (saved ++ [_] ++ rest).length
      rw [hlist]
      exact hsave
    · exact settling_loaded (saveRanking_perm h.stored ((saved.length : Int) + 1) hc)
    · exact settling_other hc (by rw [hp]; rfl)

/-- One statement of one request keeps the invariant. -/
theorem Inv.step (h : Inv u c) {turn : ι × Env} (hc : UpToDate u c turn) :
    Inv u (c.step (advance u) turn) := by
  obtain ⟨i, env⟩ := turn
  have hi := h.knows i
  rw [Pool.step_eq_move]
  simp only [UpToDate] at hc
  cases hp : c.phase i with
  | checking videoId =>
    simp only [advance]
    split
    · exact h.read hp trivial (.inl rfl) not_false
    · next hex =>
      refine h.read hp ?_ (.inl rfl) not_false
      simpa [Knows, queueItems.videoDoesntExist, Option.isSome_iff_ne_none] using hex
  | reading videoId =>
    rw [hp] at hi
    simp only [advance]
    split
    · exact h.read hp trivial (.inl rfl) not_false
    · exact h.read hp hi (.inl rfl) not_false
  | counting videoId =>
    rw [hp] at hi
    exact h.read hp hi (.inl rfl) not_false
  | inserting videoId count =>
    rw [hp] at hc
    exact h.insert hp hc.1 hc.2
  | finding id =>
    simp only [advance]
    split
    · exact h.read hp trivial (.inl rfl) not_false
    · exact h.read hp trivial (.inl rfl) not_false
  | including id =>
    simp only [advance]
    split
    · exact h.read hp trivial (.inr rfl) not_false
    · exact h.read hp trivial (.inr rfl) not_false
  | deleting id => exact h.delete id
  | sorting => exact h.sort env
  | renumbering saved rest =>
    cases rest with
    | nil =>
      rw [hp] at hi
      refine h.read hp trivial (.inl rfl) ?_
      intro hsave
      rw [Phase.ToSave, List.append_nil] at hsave
      exact hsave hi
    | cons r rest =>
      rw [hp] at hc
      exact h.save hp hc
  | finished => exact h.read hp trivial (.inl rfl) not_false

end

theorem inv_start {ι : Type} {u : Nat} {s : Store} (job : ι → Job) (hu : (s.users.get u).isSome)
    (hs : QueueStored s u) (hn : Numbered (fun r => r.2.ranking) (s.queueOf u))
    (hv : ((s.queueOf u).map (fun r => r.2.videoId)).Nodup) : Inv u (Requests.start s job) where
  user := hu
  stored := hs
  videos := hv
  knows := by
    intro i
    show Knows s (job i).start
    cases job i with
    | create videoId => trivial
    | destroy id => trivial
  settling := .inr (.inl hn)

/-- **Overlapping queue requests.** Any number of `create` and `destroy` requests of one user,
    their statements in any order, from a queue numbered 1, 2, ..., n without a repeated video:
    if every statement finds what its request has read still so, or some request yet to sort, then
    once all have finished the queue holds no video twice and no ranking twice. -/
theorem concurrent_queue_consistent {ι : Type} [DecidableEq ι] (u : Nat) (job : ι → Job) (s : Store)
    (hu : (s.users.get u).isSome) (hs : QueueStored s u)
    (hn : ((s.queueOf u).map (fun r => r.2.ranking)).Perm (upTo (s.queueOf u).length))
    (hv : ((s.queueOf u).map (fun r => r.2.videoId)).Nodup) (turns : List (ι × Env))
    (hc : Along (Pool.step (advance u)) (UpToDate u) (Requests.start s job) turns)
    (hdone : ∀ i, (run (Pool.step (advance u)) (Requests.start s job) turns).phase i = .finished) :
    let items := (run (Pool.step (advance u)) (Requests.start s job) turns).shared.queueOf u
    (items.map (fun r => r.2.videoId)).Nodup ∧ (items.map (fun r => r.2.ranking)).Nodup := by
  have h : Inv u (run (Pool.step (advance u)) (Requests.start s job) turns) :=
    run_inv_of (fun c turn hi ht => hi.step ht) (inv_start job hu hs hn hv) turns hc
  refine ⟨h.videos, ?_⟩
  -- with everybody finished nobody is left who could still have to sort or to save
  rcases h.settling with ⟨i, hi⟩ | hnum | ⟨i, hi⟩
  · rw [hdone i] at hi
    cases hi
  · exact hnum.nodup
  · rw [hdone i] at hi
    exact hi.elim

/-- Alice has queued two of three videos. -/
def queued : Store :=
  { Store.disordered with queueItems := (Table.empty.insert ⟨1, 1, 1⟩).insert ⟨1, 2, 2⟩ }

/-- She removes the first item and adds the third video at the same time. -/
def overlapping : Bool → Job
  | false => .destroy (some "1")
  | true => .create (some "3")

/-- The item is added between the DELETE and the sorted read. -/
def schedule : List (Bool × Env) :=
  [false, false, false, true, true, true, true, false, false, false, false].map (fun i => (i, .fair))

theorem concurrent_queue_consistent_small :
    let items := (run (Pool.step (advance 1)) (Requests.start queued overlapping) schedule).shared.queueOf 1
    items = [(2, ⟨1, 2, 1⟩), (3, ⟨1, 3, 2⟩)] ∧
      (items.map (fun r => r.2.videoId)).Nodup ∧ (items.map (fun r => r.2.ranking)).Nodup := by
  refine ⟨by decide, ?_⟩
  refine concurrent_queue_consistent 1 overlapping queued (by decide) ?_ (by decide) (by decide) schedule
    (by decide) (by decide)
  unfold QueueStored
  decide

/-- Both requests check, read and count before either inserts. -/
def clicks : List (Bool × Env) :=
  [false, false, false, true, true, true, false, true].map (fun i => (i, .fair))

/-- A double click on "add to queue" queues the video twice, both times with ranking 1. -/
theorem double_click :
    let c := run (Pool.step (advance 1)) (Requests.start Store.small (fun _ : Bool => .create (some "1"))) clicks
    (Store.small.users.get 1).isSome ∧ Store.small.queueOf 1 = [] ∧ (∀ i, c.phase i = .finished) ∧
      c.shared.queueOf 1 = [(1, ⟨1, 1, 1⟩), (2, ⟨1, 1, 1⟩)] ∧
      ¬ ((c.shared.queueOf 1).map (fun r => r.2.videoId)).Nodup ∧
      ¬ ((c.shared.queueOf 1).map (fun r => r.2.ranking)).Nodup := by
  decide

end Queueing

end Myflix
