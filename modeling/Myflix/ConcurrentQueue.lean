import Myflix.Lib.Pool
import Myflix.Renumbering

/- Queue requests that overlap. Production runs several workers, and neither
   `QueueItemsController#create` nor `#destroy` takes a lock: each database statement
   of a request is one step of `advance`, in the order of the source, and between two
   steps of one request the user's other requests may take any of their own. A
   request that runs alone does what its action does (`request_alone`). -/
namespace Myflix
open Relational Rails Transition Interleaving

namespace Queueing

/-! Requests. -/

/-- A request of the user, with its parameter. -/
inductive Job where
  | create (videoId : Param)
  | destroy (id : Param)
  deriving DecidableEq, Repr

/-- How far a request has come, with what it holds in memory. `renumbering` has the loaded items:
    those already saved with their new rankings, and those still to come. -/
inductive Phase where
  | checking (videoId : Param)
  | reading (videoId : Param)
  | counting (videoId : Param)
  | inserting (videoId : Param) (count : Nat)
  | finding (id : Param)
  | including (id : Nat)
  | deleting (id : Nat)
  | sorting
  | renumbering (saved rest : List (Nat × QueueItem))
  | finished
  deriving DecidableEq, Repr

/-- The first statement of an action. -/
def Job.start : Job → Phase
  | .create videoId => .checking videoId
  | .destroy id => .finding id

/-- `queue_item.update_attributes(ranking: n)`: an UPDATE of the item's row when the ranking changes
    and the item is valid. -/
def saveRanking (s : Store) (n : Int) (r : Nat × QueueItem) : Store :=
  if r.2.ranking == n then s
  else if (s.users.get r.2.userId).isSome && (s.videos.get r.2.videoId).isSome then
    { s with queueItems := s.queueItems.update r.1 (fun q => { q with ranking := n }) }
  else s

/-- One database statement of a request of user `u`. -/
def advance {ι : Type} (u : Nat) (_ : ι) (env : Env) (s : Store) : Phase → Store × Phase
  | .checking videoId =>
    (s, if queueItems.videoDoesntExist s videoId then .finished else .reading videoId)
  | .reading videoId =>
    (s, if queueItems.videoAlreadyInUsersQueue s u videoId then .finished else .counting videoId)
  | .counting videoId => (s, .inserting videoId (s.queueOf u).length)
  | .inserting videoId count =>
    let item : QueueItem := { userId := u, videoId := videoId.toI.toNat, ranking := (count : Int) + 1 }
    ({ s with queueItems := s.queueItems.insert item }, .finished)
  | .finding id =>
    match find s.queueItems id with
    | none => (s, .finished)
    | some (id, _) => (s, .including id)
  -- the association is not loaded yet, so `include?` asks the database
  | .including id => (s, if (s.queueOf u).any (fun r => r.1 == id) then .deleting id else .sorting)
  | .deleting id => ({ s with queueItems := s.queueItems.delete id }, .sorting)
  | .sorting => (s, .renumbering [] (env.byRanking.sort (s.queueOf u)))
  | .renumbering _ [] => (s, .finished)
  | .renumbering saved (r :: rest) =>
    let n : Int := (saved.length : Int) + 1
    (saveRanking s n r, .renumbering (saved ++ [(r.1, { r.2 with ranking := n })]) rest)
  | .finished => (s, .finished)

/-- The requests of the user that are under way. -/
abbrev Requests (ι : Type) := Pool ι Store Phase

/-- Nobody has started. -/
def Requests.start {ι : Type} (s : Store) (job : ι → Job) : Requests ι := ⟨s, fun i => (job i).start⟩

/-! One request by itself. -/

section
variable {ι : Type} {u : Nat} {i : ι} {env : Env} {s : Store}

/-- A valid item takes the new ranking. -/
theorem update_ranking_of_valid {n : Int} {r : Nat × QueueItem} (h : s.queueItems.get r.1 = some r.2)
    (hv : ((s.users.get r.2.userId).isSome && (s.videos.get r.2.videoId).isSome) = true) :
    s.queueItems.update r.1 (updateRanking s n) =
      s.queueItems.update r.1 (fun q => { q with ranking := n }) := by
  apply Table.update_congr h
  simp [updateRanking, hv]

/-- An item in memory that is as it is stored. -/
theorem saveRanking_eq {n : Int} {r : Nat × QueueItem} (h : s.queueItems.get r.1 = some r.2) :
    saveRanking s n r = { s with queueItems := s.queueItems.update r.1 (updateRanking s n) } := by
  unfold saveRanking
  split
  · next he => rw [Table.update_eq_self h (updateRanking_of_eq (eq_of_beq he))]
  · split
    · next hv => rw [update_ranking_of_valid h hv]
    · next hv =>
      have he : updateRanking s n r.2 = r.2 := by simp [updateRanking, hv]
      rw [Table.update_eq_self h he]

/-- The steps of one request, one after the other. -/
def steps (u : Nat) (i : ι) (env : Env) (n : Nat) (s : Store) (p : Phase) : Store × Phase :=
  (List.replicate n env).foldl (fun r e => advance u i e r.1 r.2) (s, p)

theorem steps_succ (n : Nat) (p : Phase) :
    steps u i env (n + 1) s p = steps u i env n (advance u i env s p).1 (advance u i env s p).2 := rfl

/-- The loop over items that are as they are stored is the renumbering of the table. -/
theorem steps_renumbering (u : Nat) (i : ι) (env : Env) (saved rest : List (Nat × QueueItem))
    (hnd : (rest.map Prod.fst).Nodup) (hrest : ∀ r ∈ rest, s.queueItems.get r.1 = some r.2) :
    ∃ n, steps u i env n s (.renumbering saved rest) =
      ({ s with queueItems := s.queueItems.renumber (renumberWith s) saved.length (rest.map Prod.fst) },
        .finished) := by
  induction rest generalizing s saved with
  | nil => exact ⟨1, rfl⟩
  | cons r rest ih =>
    obtain ⟨hr, hnd⟩ := List.nodup_cons.mp hnd
    have hs : saveRanking s ((saved.length : Int) + 1) r = { s with
        queueItems := s.queueItems.update r.1 (renumberWith s saved.length) } :=
      saveRanking_eq (hrest r List.mem_cons_self)
    obtain ⟨n, hn⟩ := ih (s := { s with queueItems := s.queueItems.update r.1 (renumberWith s saved.length) })
      (saved ++ [(r.1, { r.2 with ranking := (saved.length : Int) + 1 })]) hnd (by
        intro r' hr'
        have hne : r'.1 ≠ r.1 := fun he => hr (List.mem_map.mpr ⟨r', hr', he⟩)
        rw [Table.get_update_ne _ hne]
        exact hrest r' (List.mem_cons_of_mem r hr'))
    refine ⟨n + 1, ?_⟩
    rw [steps_succ]
    simp only [advance, hs]
    rw [hn, List.length_append, List.length_singleton]
    rfl

theorem steps_sorting (u : Nat) (i : ι) (env : Env) (s : Store) :
    ∃ n, steps u i env n s .sorting = (normaliseQueueItemRankings env s u, .finished) := by
  obtain ⟨n, hn⟩ := steps_renumbering u i env [] (env.byRanking.sort (s.queueOf u))
    visited_nodup (fun r hr => (mem_queueOf.mp ((env.byRanking.perm _).mem_iff.mp hr)).1)
  exact ⟨n + 1, hn⟩

theorem steps_create {session : Option Nat} {user : User} (hu : ActsAs s session u user) (p : Param) :
    ∃ n, steps u i env n s (.checking p) = ((queueItems.create s session p).store, .finished) := by
  simp only [queueItems.create, requireLogin_of hu]
  by_cases hex : queueItems.videoDoesntExist s p = true
  · refine ⟨1, ?_⟩
    simp [steps, advance, hex, reply]
  · by_cases hin : queueItems.videoAlreadyInUsersQueue s u p = true
    · refine ⟨2, ?_⟩
      simp [steps, advance, hex, hin, reply]
    · refine ⟨4, ?_⟩
      simp [steps, advance, hex, hin, reply, queueItems.createNewQueueItem]

theorem any_key_eq {id : Nat} {q : QueueItem} (hq : s.queueItems.get id = some q) :
    (s.queueOf u).any (fun r => r.1 == id) = (q.userId == u) := by
  rw [Bool.eq_iff_iff, List.any_eq_true, beq_iff_eq]
  refine ⟨?_, ?_⟩
  · intro h
    obtain ⟨r, hr, he⟩ := h
    obtain ⟨hg, hu⟩ := mem_queueOf.mp hr
    rw [eq_of_beq he, hq] at hg
    rw [Option.some.inj hg, hu]
  · intro h
    exact ⟨(id, q), mem_queueOf.mpr ⟨hq, h⟩, beq_self_eq_true id⟩

theorem steps_destroy {session : Option Nat} {user : User} (hu : ActsAs s session u user) (p : Param) :
    ∃ n, steps u i env n s (.finding p) = ((queueItems.destroy env s session p).store, .finished) := by
  simp only [queueItems.destroy, requireLogin_of hu]
  cases hf : find s.queueItems p with
  | none =>
    refine ⟨1, ?_⟩
    simp [steps, advance, hf, reply]
  | some r =>
    obtain ⟨id, q⟩ := r
    obtain ⟨-, hq⟩ := find_some hf
    have hany : (s.queueOf u).any (fun r => r.1 == id) = (q.userId == u) := any_key_eq hq
    cases hown : q.userId == u with
    | true =>
      obtain ⟨n, hn⟩ := steps_sorting u i env { s with queueItems := s.queueItems.delete id }
      refine ⟨n + 3, ?_⟩
      rw [steps_succ, steps_succ, steps_succ]
      simp only [advance, hf, hany, hown, if_true, queueItems.destroyIfOwn, reply]
      exact hn
    | false =>
      obtain ⟨n, hn⟩ := steps_sorting u i env s
      refine ⟨n + 2, ?_⟩
      rw [steps_succ, steps_succ]
      simp only [advance, hf, hany, hown, Bool.false_eq_true, if_false, queueItems.destroyIfOwn, reply]
      exact hn

/-- The action of a request. -/
def Job.action (env : Env) (s : Store) (session : Option Nat) : Job → Outcome
  | .create videoId => queueItems.create s session videoId
  | .destroy id => queueItems.destroy env s session id

/-- **A request by itself is its action.** In a pool too, whatever phases the others are in. -/
theorem request_alone [DecidableEq ι] (c : Requests ι) (i : ι) (env : Env) {job : Job}
    (hp : c.phase i = job.start) {session : Option Nat} {user : User} (hu : ActsAs c.shared session u user) :
    ∃ n, let c' := run (Pool.step (advance u)) c ((List.replicate n env).map (fun e => (i, e)))
      c'.shared = (job.action env c.shared session).store ∧ c'.phase i = .finished := by
  have hsteps : ∃ n, steps u i env n c.shared (c.phase i) =
      ((job.action env c.shared session).store, .finished) := by
    rw [hp]
    cases job with
    | create videoId => exact steps_create hu videoId
    | destroy id => exact steps_destroy hu id
  obtain ⟨n, hn⟩ := hsteps
  obtain ⟨hs, hph⟩ := Pool.run_alone (advance u) c i (List.replicate n env)
  exact ⟨n, hs.trans (congrArg Prod.fst hn), hph.trans (congrArg Prod.snd hn)⟩

end

end Queueing

end Myflix
